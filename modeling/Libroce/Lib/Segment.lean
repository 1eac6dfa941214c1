import Mathlib.Algebra.Order.Ring.Nat
import Mathlib.Data.List.Basic

/-!
# Segments

A message of `total` bytes in segments of `unit` bytes: every segment but the
last is full, and the last one has what is left.  A message without bytes is one
segment without bytes.

    sizes_of_le   it fits a segment
    sizes_eq      full segments and a rest are the segments
    sum_sizes     nothing is left out
-/

namespace Segment

variable {α β : Type} {unit total n rest : Nat}

/-- The sizes of the segments. -/
def sizes (unit total : Nat) : List Nat :=
  List.replicate ((total - 1) / unit) unit ++ [total - (total - 1) / unit * unit]

@[simp] theorem length_sizes : (sizes unit total).length = (total - 1) / unit + 1 := by simp [sizes]

theorem sizes_of_le (h : total ≤ unit) : sizes unit total = [total] := by
  have hzero : (total - 1) / unit = 0 := by
    apply Nat.div_eq_zero_iff.mpr
    omega
  simp [sizes, hzero]

/-- Full segments and a rest that is not empty. -/
theorem sizes_eq (h : n * unit + rest = total) (hpos : 0 < rest) (hle : rest ≤ unit) :
    sizes unit total = List.replicate n unit ++ [rest] := by
  have hunit : 0 < unit := by omega
  have hcount : (total - 1) / unit = n := by
    apply Nat.div_eq_of_lt_le
    · omega
    · rw [Nat.succ_mul]
      omega
  have hrest : total - n * unit = rest := by omega
  unfold sizes
  rw [hcount, hrest]

/-- As many segments as fit, rounded up. -/
theorem length_sizes_ceil (hpos : 0 < total) (hunit : 0 < unit) :
    (sizes unit total).length = (total + unit - 1) / unit := by
  have hsplit : total + unit - 1 = total - 1 + unit := by omega
  rw [length_sizes, hsplit, Nat.add_div_right _ hunit]

/-- The full segments leave something, unless there is nothing. -/
theorem full_le (unit total : Nat) : (total - 1) / unit * unit ≤ total := by
  have h := Nat.div_mul_le_self (total - 1) unit
  omega

theorem sum_sizes (unit total : Nat) : (sizes unit total).sum = total := by
  have h := full_le unit total
  unfold sizes
  rw [List.sum_append_nat, List.sum_replicate_nat, List.sum_singleton]
  omega

/-- No segment is longer than the message. -/
theorem le_of_mem (h : n ∈ sizes unit total) : n ≤ total := by
  unfold sizes at h
  rcases List.mem_append.mp h with h | h
  · obtain ⟨hcount, rfl⟩ := List.mem_replicate.mp h
    have hone : 1 * n ≤ (total - 1) / n * n := Nat.mul_le_mul_right n (Nat.pos_of_ne_zero hcount)
    have hfull := full_le n total
    omega
  · rw [List.mem_singleton.mp h]
    exact Nat.sub_le _ _

/-! ## What only the last segment has -/

/-- `n` entries, of which the last one is different. -/
def butLast (n : Nat) (a last : α) : List α := List.replicate (n - 1) a ++ [last]

/-- `n` entries by their place; one that is alone is both first and last. -/
def byPlace (n : Nat) (only first middle last : α) : List α :=
  if n = 1 then [only] else first :: (List.replicate (n - 2) middle ++ [last])

/-- The segments before the last one agree on a field. -/
theorem map_butLast {f : β → α} {xs : List β} {x : β} {a last : α} (hxs : ∀ y ∈ xs, f y = a)
    (hx : f x = last) : (xs ++ [x]).map f = butLast (xs ++ [x]).length a last := by
  unfold butLast
  rw [List.length_append, List.length_singleton, Nat.add_sub_cancel, List.map_append,
    List.map_eq_replicate_iff.mpr hxs, List.map_singleton, hx]

theorem map_byPlace {f : β → α} {x z : β} {ys : List β} {only first middle last : α} (hx : f x = first)
    (hys : ∀ y ∈ ys, f y = middle) (hz : f z = last) :
    (x :: ys ++ [z]).map f = byPlace (x :: ys ++ [z]).length only first middle last := by
  have hlen : (x :: ys ++ [z]).length = ys.length + 2 := by simp
  unfold byPlace
  rw [hlen, if_neg (by omega), Nat.add_sub_cancel, List.cons_append, List.map_cons, List.map_append,
    List.map_eq_replicate_iff.mpr hys, List.map_singleton, hx, hz]

end Segment
