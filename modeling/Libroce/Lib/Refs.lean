import Mathlib.Algebra.Order.Ring.Nat
import Mathlib.Data.List.Count
import Mathlib.Data.List.Perm.Basic
import Mathlib.Data.List.ReduceOption

/-!
# Reference counts in a table of slots

A table is a list of slots, each empty or full; an entry counts its users in
32 bits.  `Tally` relates the counts to the list of uses, one index for each
use: every entry counts its own, and no use points to an empty slot.

    take a reference to `i`   : uses → i :: uses     (Tally.incr)
    give one back             : i :: uses → uses     (Tally.decr)
    fill or empty a slot      : uses stay            (Tally.alloc, Tally.free)

An entry may be emptied exactly when its count is 0, which is when nobody uses
it (`Tally.ref_eq_zero`).
-/

namespace Refs

variable {α : Type}

/-! ## Slots -/

/-- The entry in slot `i`. -/
def get (t : List (Option α)) (i : Nat) : Option α := (t[i]?).join

theorem lt_of_get {t : List (Option α)} {i : Nat} {x : α} (h : get t i = some x) : i < t.length := by
  by_contra hge
  unfold get at h
  rw [List.getElem?_eq_none (by omega)] at h
  cases h

theorem getElem?_of_get {t : List (Option α)} {i : Nat} {x : α} (h : get t i = some x) :
    t[i]? = some (some x) := by
  unfold get at h
  exact Option.join_eq_some_iff.mp h

theorem get_set {t : List (Option α)} {i : Nat} (hi : i < t.length) (v : Option α) (j : Nat) :
    get (t.set i v) j = if i = j then v else get t j := by
  unfold get
  rw [List.getElem?_set]
  split
  · cases v <;> rfl
  · rfl

/-- A full slot filled anew, or emptied: the entries, up to their order. -/
theorem entries_alloc {t : List (Option α)} {i : Nat} (x : α) (h : t[i]? = some none) :
    ((t.set i (some x)).reduceOption).Perm (x :: t.reduceOption) := by
  induction t generalizing i with
  | nil => cases h
  | cons o t ih =>
    cases i with
    | zero =>
      obtain rfl := Option.some.inj h
      rw [List.set_cons_zero, List.reduceOption_cons_of_some, List.reduceOption_cons_of_none]
    | succ i =>
      have ht : t[i]? = some none := h
      rw [List.set_cons_succ]
      cases o with
      | none =>
        rw [List.reduceOption_cons_of_none, List.reduceOption_cons_of_none]
        exact ih ht
      | some y =>
        rw [List.reduceOption_cons_of_some, List.reduceOption_cons_of_some]
        exact ((ih ht).cons y).trans (List.Perm.swap x y _)

theorem entries_free {t : List (Option α)} {i : Nat} {x : α} (h : get t i = some x) :
    t.reduceOption.Perm (x :: (t.set i none).reduceOption) := by
  have hi := lt_of_get h
  have hempty : (t.set i none)[i]? = some none := List.getElem?_set_self hi
  have hback : (t.set i none).set i (some x) = t := by
    have hx : t[i] = some x := by
      rw [List.getElem_eq_iff]
      exact getElem?_of_get h
    rw [List.set_set, ← hx, List.set_getElem_self]
  have hp := entries_alloc x hempty
  rwa [hback] at hp

theorem entries_replace {t : List (Option α)} {i : Nat} {x : α} (y : α) (h : get t i = some x) :
    ((t.set i (some y)).reduceOption).Perm (y :: (t.set i none).reduceOption) := by
  have hempty : (t.set i none)[i]? = some none := List.getElem?_set_self (lt_of_get h)
  have hp := entries_alloc y hempty
  rwa [List.set_set] at hp

/-- An entry changed in a way that `f` does not see. -/
theorem entries_map_update {β : Type} (f : α → β) {t : List (Option α)} {i : Nat} {x y : α}
    (h : get t i = some x) (hf : f y = f x) :
    ((t.set i (some y)).reduceOption.map f).Perm (t.reduceOption.map f) := by
  have h1 := (entries_replace y h).map f
  have h2 := (entries_free h).map f
  rw [List.map_cons, hf] at h1
  rw [List.map_cons] at h2
  exact h1.trans h2.symm

theorem length_entries_le (t : List (Option α)) : t.reduceOption.length ≤ t.length :=
  List.reduceOption_length_le t

theorem mem_entries {t : List (Option α)} {x : α} :
    x ∈ t.reduceOption ↔ ∃ i, get t i = some x := by
  rw [List.reduceOption_mem_iff, List.mem_iff_getElem?]
  constructor
  · rintro ⟨i, hi⟩
    exact ⟨i, Option.join_eq_some_iff.mpr hi⟩
  · rintro ⟨i, hi⟩
    exact ⟨i, getElem?_of_get hi⟩

theorem get_replicate_none (n i : Nat) : get (List.replicate n (none : Option α)) i = none := by
  by_contra h
  obtain ⟨x, hx⟩ := Option.ne_none_iff_exists'.mp h
  have hmem := mem_entries.mpr ⟨i, hx⟩
  rw [List.reduceOption_replicate_none] at hmem
  cases hmem

/-! ## Counts -/

/-- Every entry counts its uses, and every use has its entry. -/
structure Tally (ref : α → UInt32) (t : List (Option α)) (uses : List Nat) : Prop where
  count : ∀ i x, get t i = some x → (ref x).toNat = uses.count i
  live : ∀ i ∈ uses, get t i ≠ none

section Tally

variable {ref : α → UInt32} {t : List (Option α)} {uses uses' : List Nat} {i : Nat} {x x' : α}

/-- A table without entries. -/
theorem Tally.empty (n : Nat) : Tally ref (List.replicate n none) [] := by
  constructor
  · intro i x hx
    rw [get_replicate_none] at hx
    cases hx
  · intro i hi
    cases hi

theorem Tally.perm (h : Tally ref t uses) (hp : uses.Perm uses') : Tally ref t uses' := by
  constructor
  · intro i x hx
    rw [h.count i x hx, hp.count_eq]
  · intro i hi
    exact h.live i (hp.mem_iff.mpr hi)

/-- Nobody uses an entry exactly when its count is 0. -/
theorem Tally.ref_eq_zero (h : Tally ref t uses) (hx : get t i = some x) : ref x = 0 ↔ i ∉ uses := by
  rw [← List.count_eq_zero, ← h.count i x hx, ← UInt32.toNat_inj]
  rfl

theorem Tally.set (h : Tally ref t uses) (hx : get t i = some x)
    (hcount : (ref x').toNat = uses'.count i) (hrest : ∀ j, j ≠ i → uses'.count j = uses.count j)
    (hsub : ∀ j ∈ uses', j = i ∨ j ∈ uses) : Tally ref (t.set i (some x')) uses' := by
  have hi := lt_of_get hx
  constructor
  · intro j y hy
    rw [get_set hi] at hy
    by_cases hij : i = j
    · subst hij
      rw [if_pos rfl] at hy
      obtain rfl := Option.some.inj hy
      exact hcount
    · rw [if_neg hij] at hy
      rw [h.count j y hy, hrest j (Ne.symm hij)]
  · intro j hj
    rw [get_set hi]
    by_cases hij : i = j
    · rw [if_pos hij]
      exact Option.some_ne_none x'
    · rw [if_neg hij]
      exact h.live j ((hsub j hj).resolve_left (Ne.symm hij))

/-- Take a reference, to an entry whose count does not wrap around. -/
theorem Tally.incr_of_count (h : Tally ref t uses) (hx : get t i = some x) (hx' : ref x' = ref x + 1)
    (hfew : uses.count i + 1 < 2 ^ 32) : Tally ref (t.set i (some x')) (i :: uses) := by
  refine h.set hx ?_ ?_ ?_
  · rw [hx', UInt32.toNat_add, h.count i x hx, List.count_cons_self]
    show (uses.count i + 1) % 2 ^ 32 = _
    omega
  · intro j hj
    rw [List.count_cons_of_ne (Ne.symm hj)]
  · intro j hj
    exact List.mem_cons.mp hj

/-- Take a reference, while there are few. -/
theorem Tally.incr (h : Tally ref t uses) (hx : get t i = some x) (hx' : ref x' = ref x + 1)
    (hfew : uses.length + 1 < 2 ^ 32) : Tally ref (t.set i (some x')) (i :: uses) := by
  have hle : uses.count i ≤ uses.length := List.count_le_length
  exact h.incr_of_count hx hx' (by omega)

/-- Give a reference back. -/
theorem Tally.decr (h : Tally ref t (i :: uses)) (hx : get t i = some x) (hx' : ref x' = ref x - 1) :
    Tally ref (t.set i (some x')) uses := by
  have hc := h.count i x hx
  rw [List.count_cons_self] at hc
  refine h.set hx ?_ ?_ ?_
  · have hlt := (ref x).toNat_lt
    rw [hx', UInt32.toNat_sub, hc]
    show (2 ^ 32 - 1 + (uses.count i + 1)) % 2 ^ 32 = _
    omega
  · intro j hj
    rw [List.count_cons_of_ne (Ne.symm hj)]
  · intro j hj
    exact Or.inr (List.mem_cons_of_mem i hj)

/-- Change an entry, not its count. -/
theorem Tally.update (h : Tally ref t uses) (hx : get t i = some x) (hx' : ref x' = ref x) :
    Tally ref (t.set i (some x')) uses := by
  refine h.set hx ?_ (fun _ _ => rfl) fun j hj => Or.inr hj
  rw [hx', h.count i x hx]

/-- Fill an empty slot. -/
theorem Tally.alloc (h : Tally ref t uses) (hempty : t[i]? = some none) (hx : ref x = 0) :
    Tally ref (t.set i (some x)) uses := by
  have hi : i < t.length := (List.getElem?_eq_some_iff.mp hempty).1
  have hget : get t i = none := by
    unfold get
    rw [hempty]
    rfl
  have hnot : i ∉ uses := fun hmem => h.live i hmem hget
  constructor
  · intro j y hy
    rw [get_set hi] at hy
    by_cases hij : i = j
    · subst hij
      rw [if_pos rfl] at hy
      obtain rfl := Option.some.inj hy
      rw [hx, List.count_eq_zero.mpr hnot]
      rfl
    · rw [if_neg hij] at hy
      exact h.count j y hy
  · intro j hj
    rw [get_set hi]
    by_cases hij : i = j
    · rw [if_pos hij]
      exact Option.some_ne_none x
    · rw [if_neg hij]
      exact h.live j hj

/-- Empty a slot that nobody uses. -/
theorem Tally.free (h : Tally ref t uses) (hx : get t i = some x) (hzero : ref x = 0) :
    Tally ref (t.set i none) uses := by
  have hi := lt_of_get hx
  have hnot : i ∉ uses := (h.ref_eq_zero hx).mp hzero
  constructor
  · intro j y hy
    rw [get_set hi] at hy
    by_cases hij : i = j
    · rw [if_pos hij] at hy
      cases hy
    · rw [if_neg hij] at hy
      exact h.count j y hy
  · intro j hj
    rw [get_set hi]
    have hij : i ≠ j := fun hij => hnot (hij ▸ hj)
    rw [if_neg hij]
    exact h.live j hj

end Tally

end Refs
