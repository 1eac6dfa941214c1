import Mathlib.Algebra.Order.Ring.Nat
import Mathlib.Data.Nat.ModEq
import Mathlib.Tactic.Common

/-!
# Addition with end-around carry

Folding the carry of a sum back into its low digit is arithmetic modulo `b - 1`,
in which zero is written `0` or `b - 1`: the first only for an empty sum.

    endAround b s % (b - 1) = s % (b - 1)
    endAround b (s + (b - 1 - endAround b s)) = b - 1
-/

namespace OnesComplement

/-- The low digit and what is above it. -/
def carry (b s : Nat) : Nat := s % b + s / b

theorem carry_lt {b s : Nat} (hb : 1 < b) (h : b ≤ s) : carry b s < s := by
  have hsplit := Nat.div_add_mod s b
  have hquot : 0 < s / b := Nat.div_pos h (by omega)
  have hmul : s / b * 2 ≤ s / b * b := Nat.mul_le_mul_left _ hb
  rw [Nat.mul_comm] at hsplit
  unfold carry
  omega

theorem carry_pos {b s : Nat} (hs : 0 < s) : 0 < carry b s := by
  unfold carry
  rcases Nat.eq_zero_or_pos (s % b) with hmod | hmod
  · rcases Nat.eq_zero_or_pos (s / b) with hquot | hquot
    · have hsplit := Nat.div_add_mod s b
      rw [hquot, hmod, Nat.mul_zero] at hsplit
      omega
    · exact Nat.add_pos_right _ hquot
  · exact Nat.add_pos_left hmod _

theorem carry_modEq {b : Nat} (s : Nat) (hb : 1 < b) : carry b s ≡ s [MOD b - 1] := by
  have hmul : b * (s / b) = (b - 1) * (s / b) + s / b := by
    rw [Nat.sub_mul, Nat.one_mul, Nat.sub_add_cancel (Nat.le_mul_of_pos_left _ (by omega))]
  have hsplit : s = carry b s + (b - 1) * (s / b) := by
    have hdiv := Nat.div_add_mod s b
    unfold carry
    omega
  show carry b s % (b - 1) = s % (b - 1)
  calc carry b s % (b - 1) = (carry b s + (b - 1) * (s / b)) % (b - 1) :=
    (Nat.add_mul_mod_self_left _ _ _).symm
    _ = s % (b - 1) := by rw [← hsplit]

/-- Carrying until one digit is left. -/
def endAround (b s : Nat) : Nat :=
  if _h : 1 < b ∧ b ≤ s then endAround b (carry b s) else s
termination_by s
decreasing_by exact carry_lt _h.1 _h.2

theorem endAround_of_lt {b s : Nat} (h : s < b) : endAround b s = s := by
  rw [endAround, dif_neg (by omega)]

theorem endAround_of_le {b s : Nat} (hb : 1 < b) (h : b ≤ s) : endAround b s = endAround b (carry b s) := by
  rw [endAround, dif_pos ⟨hb, h⟩]

theorem endAround_spec {b : Nat} (hb : 1 < b) (s : Nat) :
    endAround b s < b ∧ endAround b s ≡ s [MOD b - 1] ∧ (0 < s → 0 < endAround b s) := by
  induction s using Nat.strongRecOn with
  | ind s ih =>
    by_cases h : b ≤ s
    · obtain ⟨hlt, hmod, hpos⟩ := ih _ (carry_lt hb h)
      rw [endAround_of_le hb h]
      exact ⟨hlt, hmod.trans (carry_modEq s hb), fun hs => hpos (carry_pos hs)⟩
    · rw [endAround_of_lt (by omega)]
      exact ⟨by omega, rfl, fun hs => hs⟩

theorem endAround_zero {b : Nat} (hb : 1 < b) : endAround b 0 = 0 := endAround_of_lt (by omega)

/-- The digit is `b - 1` exactly for the positive multiples of `b - 1`. -/
theorem endAround_eq_max {b s : Nat} (hb : 1 < b) : endAround b s = b - 1 ↔ 0 < s ∧ b - 1 ∣ s := by
  obtain ⟨hlt, hmod, hpos⟩ := endAround_spec hb s
  constructor
  · intro hmax
    rw [hmax] at hmod
    refine ⟨?_, ?_⟩
    · rcases Nat.eq_zero_or_pos s with rfl | hs
      · rw [endAround_zero hb] at hmax
        omega
      · exact hs
    · exact (Nat.modEq_zero_iff_dvd.mp (hmod.symm.trans (Nat.modEq_zero_iff_dvd.mpr dvd_rfl)))
  · rintro ⟨hs, hdvd⟩
    have hdvd' : b - 1 ∣ endAround b s :=
      Nat.modEq_zero_iff_dvd.mp (hmod.trans (Nat.modEq_zero_iff_dvd.mpr hdvd))
    have hle := Nat.le_of_dvd (hpos hs) hdvd'
    omega

/-- Adding the complement of the digit leaves `b - 1`. -/
theorem endAround_complement {b : Nat} (hb : 1 < b) (s : Nat) :
    endAround b (s + (b - 1 - endAround b s)) = b - 1 := by
  obtain ⟨hlt, hmod, hpos⟩ := endAround_spec hb s
  rw [endAround_eq_max hb]
  constructor
  · rcases Nat.eq_zero_or_pos s with rfl | hs
    · rw [endAround_zero hb]
      omega
    · omega
  · have hsum : s + (b - 1 - endAround b s) ≡ endAround b s + (b - 1 - endAround b s) [MOD b - 1] :=
      hmod.symm.add_right _
    rw [Nat.add_sub_cancel' (by omega)] at hsum
    exact Nat.modEq_zero_iff_dvd.mp (hsum.trans (Nat.modEq_zero_iff_dvd.mpr dvd_rfl))

/-- Digits `lo + c * hi` with their halves exchanged are `c` times themselves,
modulo `c * c - 1`. -/
theorem swap_modEq {c : Nat} (hc : 0 < c) (lo hi : Nat) :
    hi + c * lo ≡ c * (lo + c * hi) [MOD c * c - 1] := by
  have hsq : 0 < c * c := Nat.mul_pos hc hc
  have hmul : c * (lo + c * hi) = hi + c * lo + (c * c - 1) * hi := by
    have hhi : c * c * hi = (c * c - 1) * hi + hi := by
      rw [Nat.sub_mul, Nat.one_mul, Nat.sub_add_cancel (Nat.le_mul_of_pos_left _ hsq)]
    rw [Nat.mul_add, ← Nat.mul_assoc, hhi]
    omega
  rw [hmul]
  exact (Nat.add_mul_mod_self_left _ _ _).symm

end OnesComplement
