import Mathlib.Algebra.Order.Ring.Nat
import Mathlib.Data.List.Basic
import Mathlib.Logic.Function.Basic

/-!
# Scattered stores

A memory is a function from addresses to values.  `store mem addrs vals` writes
one value after the other to the addresses of a list; the shorter list decides
where it ends.

    store_append   two stores one after the other, by their addresses
    store_append_vals  the same, by their values
    store_get      what an address of the list holds, when no address occurs twice
    store_other    what every other address holds
-/

namespace Scatter

variable {α β : Type} [DecidableEq α]

def store (mem : α → β) : List α → List β → α → β
  | a :: addrs, v :: vals => store (Function.update mem a v) addrs vals
  | _, _ => mem

@[simp] theorem store_nil (mem : α → β) (vals : List β) : store mem [] vals = mem := rfl

@[simp] theorem store_nil_right (mem : α → β) (addrs : List α) : store mem addrs [] = mem := by
  cases addrs with
  | nil => rfl
  | cons a addrs => rfl

theorem store_cons (mem : α → β) (a : α) (addrs : List α) (v : β) (vals : List β) :
    store mem (a :: addrs) (v :: vals) = store (Function.update mem a v) addrs vals := rfl

/-- The first list takes as many values as it has addresses. -/
theorem store_append (mem : α → β) (addrs addrs' : List α) (vals : List β) :
    store mem (addrs ++ addrs') vals =
      store (store mem addrs vals) addrs' (vals.drop addrs.length) := by
  induction addrs generalizing mem vals with
  | nil => rfl
  | cons a addrs ih =>
    cases vals with
    | nil => simp
    | cons v vals =>
      rw [List.cons_append, store_cons, ih, store_cons]
      rfl

/-- The first values go to as many addresses. -/
theorem store_append_vals (mem : α → β) (addrs : List α) (vals vals' : List β) :
    store mem addrs (vals ++ vals') = store (store mem addrs vals) (addrs.drop vals.length) vals' := by
  induction addrs generalizing mem vals with
  | nil => simp
  | cons a addrs ih =>
    cases vals with
    | nil => rfl
    | cons v vals =>
      rw [List.cons_append, store_cons, ih, store_cons]
      rfl

theorem store_other {mem : α → β} {addrs : List α} {vals : List β} {a : α} (h : a ∉ addrs) :
    store mem addrs vals a = mem a := by
  induction addrs generalizing mem vals with
  | nil => rfl
  | cons b addrs ih =>
    cases vals with
    | nil => rfl
    | cons v vals =>
      have hne : a ≠ b := fun heq => h (heq ▸ List.mem_cons_self)
      rw [store_cons, ih (fun hmem => h (List.mem_cons_of_mem _ hmem)), Function.update_of_ne hne]

theorem store_get {mem : α → β} {addrs : List α} {vals : List β} (hnd : addrs.Nodup) {i : Nat}
    (hi : i < addrs.length) (hv : i < vals.length) : store mem addrs vals addrs[i] = vals[i] := by
  induction addrs generalizing mem vals i with
  | nil => cases hi
  | cons a addrs ih =>
    cases vals with
    | nil => cases hv
    | cons v vals =>
      obtain ⟨hnot, hnd⟩ := List.nodup_cons.mp hnd
      cases i with
      | zero =>
        show store (Function.update mem a v) addrs vals a = v
        rw [store_other hnot, Function.update_self]
      | succ i => exact ih hnd (Nat.lt_of_succ_lt_succ hi) (Nat.lt_of_succ_lt_succ hv)

/-- Only as many addresses matter as there are values. -/
theorem store_take (mem : α → β) (addrs : List α) (vals : List β) :
    store mem (addrs.take vals.length) vals = store mem addrs vals := by
  induction addrs generalizing mem vals with
  | nil => simp
  | cons a addrs ih =>
    cases vals with
    | nil => simp
    | cons v vals => exact ih (Function.update mem a v) vals

/-- Read back, the values come in their order. -/
theorem map_store {mem : α → β} {addrs : List α} {vals : List β} (hnd : addrs.Nodup)
    (h : vals.length ≤ addrs.length) : (addrs.take vals.length).map (store mem addrs vals) = vals := by
  apply List.ext_getElem
  · rw [List.length_map, List.length_take, Nat.min_eq_left h]
  · intro i hi hv
    rw [List.getElem_map, List.getElem_take]
    exact store_get hnd (by omega) hv

end Scatter
