import Libroce.PageCount
import Mathlib.Order.Interval.Finset.Nat

/-!
# The pages of a scatter/gather list

What `roce_sge_pages` is to count are the pages that hold a byte of the ranges.
What it counts besides, modulo `2 ^ 32`:

    emptyInside   one for an empty range inside a page
    rangeWraps    for each multiple of 4 GiB that a range reaches when it is
                  rounded up to pages, the pages below it are missing

Main statement: `roceSgePages_exact`.
-/

namespace Libroce

/-! ## The pages of a range -/

/-- The page numbers of the bytes of a range. -/
def pagesOf (pageSize addr len : Nat) : Finset Nat := (Finset.range len).image fun i => (addr + i) / pageSize

/-- They are the numbers from the page of the first byte to that of the last. -/
theorem pagesOf_eq {pageSize len : Nat} (hsize : 0 < pageSize) (hlen : 0 < len) (addr : Nat) :
    pagesOf pageSize addr len = Finset.Icc (addr / pageSize) ((addr + len - 1) / pageSize) := by
  ext k
  unfold pagesOf
  rw [Finset.mem_image, Finset.mem_Icc]
  constructor
  · rintro ⟨i, hi, rfl⟩
    have hi := Finset.mem_range.mp hi
    exact ⟨Nat.div_le_div_right (Nat.le_add_right _ _), Nat.div_le_div_right (by omega)⟩
  · rintro ⟨hlo, hhi⟩
    have hend : k * pageSize ≤ addr + len - 1 := (Nat.le_div_iff_mul_le hsize).mp hhi
    -- the first byte of the page, or the first one of the range
    by_cases hbefore : addr ≤ k * pageSize
    · refine ⟨k * pageSize - addr, Finset.mem_range.mpr (by omega), ?_⟩
      rw [Nat.add_sub_cancel' hbefore, Nat.mul_div_cancel _ hsize]
    · refine ⟨0, Finset.mem_range.mpr hlen, ?_⟩
      have hle : k ≤ addr / pageSize := (Nat.le_div_iff_mul_le hsize).mpr (by omega)
      exact Nat.le_antisymm hlo hle

/-- An empty range has none of them. -/
theorem rangePages_eq {pageSize : Nat} (hsize : 0 < pageSize) (addr len : Nat) :
    rangePages pageSize addr len =
      (pagesOf pageSize addr len).card + if len = 0 ∧ addr % pageSize ≠ 0 then 1 else 0 := by
  have hdiv := Nat.div_add_mod addr pageSize
  have hmod := Nat.mod_lt addr hsize
  unfold rangePages
  by_cases hlen : len = 0
  · subst hlen
    have hnone : (pagesOf pageSize addr 0).card = 0 := rfl
    rw [hnone, Nat.add_zero, Nat.zero_add]
    by_cases hin : addr % pageSize = 0
    · have hsum : addr + pageSize - 1 = pageSize - 1 + pageSize * (addr / pageSize) := by omega
      rw [if_neg fun h => h.2 hin, hsum, Nat.add_mul_div_left _ _ hsize, Nat.div_eq_of_lt (by omega)]
      omega
    · have hsum : addr + pageSize - 1 = addr % pageSize - 1 + pageSize * (addr / pageSize + 1) := by
        rw [Nat.mul_add, Nat.mul_one]
        omega
      rw [if_pos ⟨rfl, hin⟩, hsum, Nat.add_mul_div_left _ _ hsize, Nat.div_eq_of_lt (by omega)]
      omega
  · have hle : addr / pageSize ≤ (addr + len - 1) / pageSize := Nat.div_le_div_right (by omega)
    have hsum : addr + len + pageSize - 1 = addr + len - 1 + pageSize := by omega
    rw [if_neg fun h => hlen h.1, pagesOf_eq hsize (Nat.pos_of_ne_zero hlen), Nat.card_Icc, hsum,
      Nat.add_div_right _ hsize]
    omega

/-! ## The pages of a list -/

/-- The pages that the ranges of the SGEs intersect, each range for itself. -/
def sgesPages (pageSize : UInt32) (sges : List RoceSge) : Nat :=
  (sges.map fun sge => (pagesOf pageSize.toNat sge.addr.toNat sge.length.toNat).card).sum

/-- One for an empty SGE inside a page. -/
def emptyInside (pageSize : UInt32) (sge : RoceSge) : Nat :=
  if sge.length.toNat = 0 ∧ sge.addr.toNat % pageSize.toNat ≠ 0 then 1 else 0

/-- The multiples of 4 GiB that the ranges reach, when they are rounded up to pages. -/
def sgesWraps (pageSize : UInt32) (sges : List RoceSge) : Nat :=
  (sges.map fun sge => rangeWraps pageSize.toNat sge.addr.toNat sge.length.toNat).sum

/-- The number of pages fits 32 bits, and as many of them are missing below the
multiples of 4 GiB as are added for empty SGEs. -/
def PagesExact (pageSize : UInt32) (sges : List RoceSge) : Prop :=
  sgesPages pageSize sges < 2 ^ 32 ∧
    (sges.map (emptyInside pageSize)).sum % 2 ^ 32 =
      sgesWraps pageSize sges * (2 ^ 32 / pageSize.toNat) % 2 ^ 32

instance (pageSize : UInt32) (sges : List RoceSge) : Decidable (PagesExact pageSize sges) :=
  inferInstanceAs (Decidable (_ ∧ _))

theorem sgePageCount_sum {pageSize : UInt32} (hsize : 0 < pageSize.toNat) (sges : List RoceSge) :
    (sges.map (sgePageCount pageSize)).sum =
      sgesPages pageSize sges + (sges.map (emptyInside pageSize)).sum +
        sgesWraps pageSize sges * (2 ^ 32 - 2 ^ 32 / pageSize.toNat) := by
  induction sges with
  | nil => simp [sgesPages, sgesWraps]
  | cons sge sges ih =>
    unfold sgesPages sgesWraps at ih ⊢
    rw [List.map_cons, List.sum_cons, ih, List.map_cons, List.sum_cons, List.map_cons, List.sum_cons,
      List.map_cons, List.sum_cons, Nat.add_mul]
    unfold sgePageCount emptyInside
    rw [rangePages_eq hsize]
    omega

theorem rocePowerOf2_pow {val : UInt32} {k : Nat} (h : val.toNat = 2 ^ k) :
    rocePowerOf2 val.toUInt64 = true := by
  have hpow : val.toNat ≠ 0 ∧ val.toNat &&& (val.toNat - 1) = 0 :=
    Nat.ne_zero_and_sub_one_eq_zero_iff_isPowerOfTwo.mpr ⟨k, h⟩
  have hle : (1 : UInt64) ≤ val.toUInt64 := by
    rw [UInt64.le_iff_toNat_le, UInt32.toNat_toUInt64]
    exact Nat.pos_of_ne_zero hpow.1
  unfold rocePowerOf2
  rw [Bool.and_eq_true, bne_iff_ne, beq_iff_eq]
  constructor
  · intro hzero
    exact hpow.1 (by rw [← UInt32.toNat_toUInt64, hzero]; rfl)
  · apply UInt64.toNat_inj.mp
    rw [UInt64.toNat_and, UInt64.toNat_sub_of_le _ _ hle, UInt32.toNat_toUInt64]
    exact hpow.2

/-- **`roce_sge_pages`.**  It counts the pages of the ranges exactly when the
pages it adds and those it misses are as many. -/
theorem roceSgePages_exact (pageSize : UInt32) (hpow : ∃ k, pageSize.toNat = 2 ^ k) (sges : List RoceSge) :
    (∃ pages, roceSgePages sges pageSize = .ok pages ∧ pages.toNat = sgesPages pageSize sges) ↔
      PagesExact pageSize sges := by
  obtain ⟨k, hk⟩ := hpow
  have hsize : 0 < pageSize.toNat := by
    rw [hk]
    exact Nat.two_pow_pos k
  obtain ⟨pages, hpages, hcount⟩ := roceSgePages_toNat (rocePowerOf2_pow hk) sges
  have hlt := pages.toNat_lt
  rw [sgePageCount_sum hsize] at hcount
  -- what a wrap adds and what it should have added make 4 GiB
  have hwrap : sgesWraps pageSize sges * (2 ^ 32 - 2 ^ 32 / pageSize.toNat) +
      sgesWraps pageSize sges * (2 ^ 32 / pageSize.toNat) = sgesWraps pageSize sges * 2 ^ 32 := by
    rw [← Nat.mul_add, Nat.sub_add_cancel (Nat.div_le_self _ _)]
  unfold PagesExact
  constructor
  · rintro ⟨_, hret, heq⟩
    obtain rfl := Except.ok.inj (hpages.symm.trans hret)
    omega
  · rintro ⟨hfit, hsame⟩
    exact ⟨pages, hpages, by omega⟩

/-- Two bytes on both sides of a page boundary, below 4 GiB and above. -/
theorem roceSgePages_exact_low :
    ∃ pages, roceSgePages [⟨0x1000fff, 2, 0⟩, ⟨0x100000fff, 2, 0⟩] 4096 = .ok pages ∧
      pages.toNat = sgesPages 4096 [⟨0x1000fff, 2, 0⟩, ⟨0x100000fff, 2, 0⟩] :=
  (roceSgePages_exact 4096 ⟨12, rfl⟩ [⟨0x1000fff, 2, 0⟩, ⟨0x100000fff, 2, 0⟩]).mpr (by decide +kernel)

/-- The last byte below 4 GiB: all the pages below it are missing. -/
theorem roceSgePages_exact_last :
    roceSgePages [⟨0xffffffff, 1, 0⟩] 4096 = .ok 4293918721 ∧ sgesPages 4096 [⟨0xffffffff, 1, 0⟩] = 1 ∧
      ¬∃ pages, roceSgePages [⟨0xffffffff, 1, 0⟩] 4096 = .ok pages ∧
        pages.toNat = sgesPages 4096 [⟨0xffffffff, 1, 0⟩] := by
  have hret : roceSgePages [⟨0xffffffff, 1, 0⟩] 4096 = .ok 4293918721 := rfl
  have hone : sgesPages 4096 [⟨0xffffffff, 1, 0⟩] = 1 := by decide +kernel
  refine ⟨hret, hone, ?_⟩
  rintro ⟨pages, hpages, heq⟩
  obtain rfl := Except.ok.inj (hret.symm.trans hpages)
  rw [hone] at heq
  cases heq

end Libroce
