import Mathlib.Algebra.Order.Ring.Nat
import Mathlib.Data.List.Basic
import Mathlib.Tactic.Common

/-!
# Serial numbers modulo `M`

A counter that wraps at `M` is compared by how far one value lies ahead of the
other, not by size.  `seq M a n` is the run of `n` consecutive serial numbers
from `a`; `dist M a b` is the distance from `b` forward to `a`.

    dist M ((a + i) % M) a = i                     (dist_add, for i < M)
    seq M a (m + n) = seq M a m ++ seq M (a + m) n (seq_append)
-/

namespace Serial

/-- The run of `n` consecutive serial numbers that begins at `a`. -/
def seq (M a n : Nat) : List Nat := (List.range n).map fun i => (a + i) % M

/-- How far `a` lies ahead of `b`. -/
def dist (M a b : Nat) : Nat := (a + (M - b % M)) % M

variable (M : Nat)

@[simp] theorem length_seq (a n : Nat) : (seq M a n).length = n := by simp [seq]

theorem seq_append (a m n : Nat) : seq M a (m + n) = seq M a m ++ seq M (a + m) n := by
  unfold seq
  rw [List.range_add, List.map_append, List.map_map]
  congr 1
  apply List.map_congr_left
  intro i _
  simp [Nat.add_assoc]

theorem seq_succ (a n : Nat) : seq M a (n + 1) = a % M :: seq M (a + 1) n := by
  rw [Nat.add_comm n 1, seq_append]
  rfl

theorem seq_mod (a n : Nat) : seq M (a % M) n = seq M a n := by
  unfold seq
  apply List.map_congr_left
  intro i _
  rw [Nat.mod_add_mod]

theorem seq_getElem (a n i : Nat) (h : i < (seq M a n).length) : (seq M a n)[i] = (a + i) % M := by
  simp [seq]

theorem seq_drop (a n k : Nat) (h : k ≤ n) : (seq M a n).drop k = seq M (a + k) (n - k) := by
  obtain ⟨d, rfl⟩ := Nat.exists_eq_add_of_le h
  rw [seq_append, List.drop_left' (length_seq M a k), Nat.add_sub_cancel_left]

/-- The last serial number of a run. -/
theorem seq_getLast? (a n : Nat) (h : 0 < n) : (seq M a n).getLast? = some ((a + (n - 1)) % M) := by
  obtain ⟨k, rfl⟩ : ∃ k, n = k + 1 := ⟨n - 1, by omega⟩
  rw [seq_append]
  exact List.getLast?_concat

variable {M}

theorem dist_lt (hM : 0 < M) (a b : Nat) : dist M a b < M := Nat.mod_lt _ hM

theorem dist_mod_left (a b : Nat) : dist M (a % M) b = dist M a b := by
  unfold dist
  rw [Nat.mod_add_mod]

theorem dist_mod_right (a b : Nat) : dist M a (b % M) = dist M a b := by
  unfold dist
  rw [Nat.mod_mod]

/-- `i` steps after `a` is at distance `i`. -/
theorem dist_add (hM : 0 < M) (a i : Nat) (h : i < M) : dist M ((a + i) % M) a = i := by
  have hb := Nat.mod_lt a hM
  rw [dist_mod_left]
  unfold dist
  have e : a + i + (M - a % M) = i + M * (a / M + 1) := by
    have := Nat.div_add_mod a M
    rw [Nat.mul_add, Nat.mul_one]
    omega
  rw [e, Nat.add_mul_mod_self_left, Nat.mod_eq_of_lt h]

theorem dist_self (hM : 0 < M) (a : Nat) : dist M a a = 0 := by
  have := dist_add hM a 0 hM
  rwa [Nat.add_zero, dist_mod_left] at this

/-- Two offsets from one base compare as the offsets do. -/
theorem dist_add_add (hM : 0 < M) (a i j : Nat) (hij : j ≤ i) (h : i - j < M) :
    dist M (a + i) (a + j) = i - j := by
  have := dist_add hM (a + j) (i - j) h
  rwa [show a + j + (i - j) = a + i by omega, dist_mod_left] at this

/-- Seen from ahead, a value behind lies almost `M` away. -/
theorem dist_behind (hM : 0 < M) (a i j : Nat) (hij : i < j) (h : j - i < M) :
    dist M (a + i) (a + j) = M - (j - i) := by
  have := dist_add hM (a + j) (M - (j - i)) (by omega)
  rwa [show a + j + (M - (j - i)) = a + i + M by omega, dist_mod_left, ← dist_mod_left,
    Nat.add_mod_right, dist_mod_left] at this

theorem dist_eq_zero (hM : 0 < M) (a b : Nat) : dist M a b = 0 ↔ a % M = b % M := by
  constructor
  · intro h
    unfold dist at h
    have hb := Nat.mod_lt b hM
    have h2 : (a % M + (M - b % M)) % M = 0 := by rwa [Nat.mod_add_mod]
    have ha := Nat.mod_lt a hM
    rcases Nat.lt_or_ge (a % M + (M - b % M)) M with h3 | h3
    · rw [Nat.mod_eq_of_lt h3] at h2
      omega
    · rw [Nat.mod_eq_sub_mod h3, Nat.mod_eq_of_lt (by omega)] at h2
      omega
  · intro h
    rw [← dist_mod_left, h, dist_mod_left, dist_self hM]

/-- Going the distance leads there. -/
theorem add_dist (hM : 0 < M) (a b : Nat) : (b + dist M a b) % M = a % M := by
  have hb := Nat.mod_lt b hM
  have hdiv := Nat.div_add_mod b M
  unfold dist
  rw [Nat.add_mod_mod, show b + (a + (M - b % M)) = a + M * (b / M + 1) by
    rw [Nat.mul_add, Nat.mul_one]
    omega, Nat.add_mul_mod_self_left]

theorem mem_seq (hM : 0 < M) {p a n : Nat} : p ∈ seq M a n ↔ p < M ∧ dist M p a < n := by
  unfold seq
  rw [List.mem_map]
  constructor
  · rintro ⟨i, hi, rfl⟩
    have hi := List.mem_range.mp hi
    refine ⟨Nat.mod_lt _ hM, ?_⟩
    have hd := dist_add hM a (i % M) (Nat.mod_lt i hM)
    rw [Nat.add_mod_mod] at hd
    rw [hd]
    exact Nat.lt_of_le_of_lt (Nat.mod_le i M) hi
  · rintro ⟨hp, hd⟩
    refine ⟨dist M p a, List.mem_range.mpr hd, ?_⟩
    rw [add_dist hM, Nat.mod_eq_of_lt hp]

end Serial
