import Mathlib.Algebra.Order.Ring.Nat
import Mathlib.Data.Finset.Basic
import Mathlib.Data.Finset.Lattice.Lemmas
import Mathlib.Data.Finset.Dedup

/-!
# Blocks of memory

What a program does with its blocks, replayed over the blocks that are live.

    run live es = some live'    no dead block is used or freed, no live one is
                                allocated again, and `live'` are left
-/

namespace Blocks

inductive Event (α : Type) where
  | alloc (a : α)
  | use (a : α)
  | free (a : α)
  deriving DecidableEq

variable {α : Type} [DecidableEq α]

def step (live : Finset α) : Event α → Option (Finset α)
  | .alloc a => if a ∈ live then none else some (insert a live)
  | .use a => if a ∈ live then some live else none
  | .free a => if a ∈ live then some (live.erase a) else none

def run (live : Finset α) : List (Event α) → Option (Finset α)
  | [] => some live
  | e :: es => (step live e).bind fun live' => run live' es

variable {live live' : Finset α} {a : α} {es : List (Event α)}

theorem run_append (h : run live es = some live') (fs : List (Event α)) :
    run live (es ++ fs) = run live' fs := by
  induction es generalizing live with
  | nil =>
    obtain rfl := Option.some.inj h
    rfl
  | cons e es ih =>
    obtain ⟨mid, hmid, hrest⟩ := Option.bind_eq_some_iff.mp h
    show (step live e).bind _ = _
    rw [hmid]
    exact ih hrest

theorem run_use_dead (h : a ∉ live) (es : List (Event α)) : run live (.use a :: es) = none := by
  show (step live (.use a)).bind _ = none
  rw [show step live (.use a) = none from if_neg h]
  rfl

theorem run_uses (h : a ∈ live) (n : Nat) : run live (List.replicate n (.use a)) = some live := by
  induction n with
  | zero => rfl
  | succ n ih =>
    rw [List.replicate_succ]
    show (step live (.use a)).bind _ = some live
    rw [show step live (.use a) = some live from if_pos h]
    exact ih

theorem run_free (h : a ∈ live) : run live [.free a] = some (live.erase a) := by
  show (step live (.free a)).bind _ = _
  rw [show step live (.free a) = some (live.erase a) from if_pos h]
  rfl

/-- New blocks, all different. -/
theorem run_allocs {as : List α} (hnodup : as.Nodup) (hnew : ∀ a ∈ as, a ∉ live) :
    run live (as.map .alloc) = some (live ∪ as.toFinset) := by
  induction as generalizing live with
  | nil =>
    rw [List.toFinset_nil, Finset.union_empty]
    rfl
  | cons a as ih =>
    obtain ⟨ha, hnodup⟩ := List.nodup_cons.mp hnodup
    rw [List.map_cons]
    show (step live (.alloc a)).bind _ = _
    rw [show step live (.alloc a) = some (insert a live) from if_neg (hnew a List.mem_cons_self)]
    refine (ih hnodup fun b hb hmem => ?_).trans ?_
    · rcases Finset.mem_insert.mp hmem with rfl | hmem
      · exact ha hb
      · exact hnew b (List.mem_cons_of_mem _ hb) hmem
    · rw [List.toFinset_cons, Finset.insert_union, Finset.union_insert]

end Blocks
