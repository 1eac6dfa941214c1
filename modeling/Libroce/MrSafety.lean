import Libroce.Qp

/-!
# What a mapped SGE may touch

`roceMrMapSge` is the barrier between a key, an address and a length that came
from the user or from the network, and host memory.

Main statement: `roceMrMapSge_range` — every SGE of an accepted list names a
live, valid MR of the QP's PD by its exact key, with the rights asked for, and
the ranges lie inside their MRs exactly when no range wraps past `2 ^ 64` while
its MR does not.
-/

namespace Libroce

/-- The byte range of an SGE lies inside its MR, as natural numbers. -/
def InRange (sge : RoceSge) (mr : RoceMr) : Prop :=
  mr.iova.toNat ≤ sge.addr.toNat ∧
    sge.addr.toNat + sge.length.toNat ≤ mr.iova.toNat + mr.length.toNat

/-- What a mapping promises for one SGE. -/
def Authorised (ctx : RoceCtx) (qp : RoceQp) (isLocal : Bool) (access : UInt32) (sge : RoceSge) :
    Prop :=
  ∃ mr, MrGrants ctx qp isLocal access sge mr ∧ (mr.type ≠ .dma → InRange sge mr)

/-- The sum of a 64-bit address and a 32-bit length does not wrap, or the end
of the MR it names wraps as well. -/
def NoLoneWrap (ctx : RoceCtx) (sge : RoceSge) : Prop :=
  ∀ mr, roceGetMrNoref ctx (roceKeyToIndex sge.lkey) = some mr → mr.type ≠ .dma →
    sge.addr.toNat + sge.length.toNat < 2 ^ 64 ∨ 2 ^ 64 ≤ mr.iova.toNat + mr.length.toNat

theorem toNat_add_length (addr : UInt64) (length : UInt32) :
    (addr + length.toUInt64).toNat = (addr.toNat + length.toNat) % 2 ^ 64 := by
  rw [UInt64.toNat_add, UInt32.toNat_toUInt64]

/-- The range check is right for an SGE unless its end alone wraps. -/
theorem rangeChecked_inRange {sge : RoceSge} {mr : RoceMr} (h : RangeChecked sge mr) :
    InRange sge mr ↔
      sge.addr.toNat + sge.length.toNat < 2 ^ 64 ∨ 2 ^ 64 ≤ mr.iova.toNat + mr.length.toNat := by
  obtain ⟨hlo, hhi⟩ := h
  rw [UInt64.le_iff_toNat_le] at hlo hhi
  rw [toNat_add_length, toNat_add_length] at hhi
  have ha := sge.addr.toNat_lt
  have hl := sge.length.toNat_lt
  have hi := mr.iova.toNat_lt
  have hm := mr.length.toNat_lt
  unfold InRange
  omega

/-- Every SGE of an accepted list passed its turn of the loop. -/
theorem mrMapLoop_mem {ctx : RoceCtx} {qp : RoceQp} {isLocal : Bool} {access : UInt32}
    {sges : List RoceSge} {mrType : Option MrType} {dmamap : Bool} {r : MapRes}
    (h : mrMapLoop ctx qp isLocal access sges mrType dmamap = .ok r) (hr : r.refused = false) :
    ∀ sge ∈ sges, ∃ mr, MrGrants ctx qp isLocal access sge mr ∧
      (mr.type ≠ .dma → RangeChecked sge mr) := by
  induction sges generalizing mrType dmamap r with
  | nil =>
    intro sge hs
    cases hs
  | cons sge sges ih =>
    obtain ⟨type, iovs, r', hone, hloop, hr', -⟩ := mrMapLoop_cons_ok h hr
    obtain ⟨mr, hg, -, -, hcase⟩ := mrMapOne_ok hone
    intro s hs
    rcases List.mem_cons.mp hs with rfl | hs
    · refine ⟨mr, hg, fun hne => ?_⟩
      rcases hcase with ⟨hdma, -⟩ | ⟨-, hrange, -⟩
      · exact absurd hdma hne
      · exact hrange
    · exact ih hloop hr' s hs

/-- An accepted list is authorised exactly when no SGE's end wraps alone. -/
theorem roceMrMapSge_range {ctx : RoceCtx} {qp : RoceQp} {isLocal : Bool} {access : UInt32}
    {sges : List RoceSge} {r : MapRes} (h : roceMrMapSge ctx qp sges isLocal access = .ok r)
    (hret : 0 ≤ r.ret) :
    (∀ sge ∈ sges, Authorised ctx qp isLocal access sge) ↔ ∀ sge ∈ sges, NoLoneWrap ctx sge := by
  have hmem := mrMapLoop_mem h ((ret_nonneg r).mp hret)
  constructor
  · intro hauth sge hs mr' hlive hne
    obtain ⟨mr, hg, hin⟩ := hauth sge hs
    obtain ⟨mr2, hg2, hrange⟩ := hmem sge hs
    obtain rfl := Option.some.inj (hg.live.symm.trans hlive)
    obtain rfl := Option.some.inj (hg.live.symm.trans hg2.live)
    exact (rangeChecked_inRange (hrange hne)).mp (hin hne)
  · intro hwrap sge hs
    obtain ⟨mr, hg, hrange⟩ := hmem sge hs
    exact ⟨mr, hg, fun hne =>
      (rangeChecked_inRange (hrange hne)).mpr (hwrap sge hs mr hg.live hne)⟩

/-- A page whose number is `2 ^ 32` less `2 ^ 52` of the last one: the distance
of the two truncates to 0 pages. -/
def lowPage : MrArgs :=
  ⟨0, .mem, 0xffffffff000, 4096, roceAccessRemoteWrite, [⟨0x1000, 4096⟩], 0⟩

/-- The last page of the address space: its end wraps to 0. -/
def wrappingSge : RoceSge := ⟨0xfffffffffffff000, 4096, 0⟩

/-- An MR that `roce_create_mr` accepts is mapped for an address outside it. -/
theorem roceMrMapSge_wraps :
    (∃ ctx, roceCreateMr smallCtx lowPage true 0 0 = .ok (0, ctx) ∧ ctx = withMr smallCtx lowPage) ∧
      roceMrMapSge (withMr smallCtx lowPage) smallQp [wrappingSge] false roceAccessRemoteWrite =
        .ok ⟨false, [some ⟨0x1000, 4096⟩], false⟩ ∧
      ¬Authorised (withMr smallCtx lowPage) smallQp false roceAccessRemoteWrite wrappingSge := by
  refine ⟨⟨_, rfl, rfl⟩, by decide, ?_⟩
  rintro ⟨mr, hg, hin⟩
  have hmr : roceGetMrNoref (withMr smallCtx lowPage) 0 = some mr := hg.live
  obtain rfl := Option.some.inj hmr
  exact absurd (hin (by decide)).2 (by decide)

/-- Addresses that do not wrap: the rule applies. -/
theorem roceMrMapSge_range_lowPage :
    (∀ sge ∈ [(⟨0xffffffff010, 16, 0⟩ : RoceSge)],
      Authorised (withMr smallCtx lowPage) smallQp false roceAccessRemoteWrite sge) ↔
      ∀ sge ∈ [(⟨0xffffffff010, 16, 0⟩ : RoceSge)], NoLoneWrap (withMr smallCtx lowPage) sge :=
  roceMrMapSge_range (show roceMrMapSge (withMr smallCtx lowPage) smallQp [⟨0xffffffff010, 16, 0⟩]
    false roceAccessRemoteWrite = .ok ⟨false, [some ⟨0x1010, 16⟩], false⟩ by decide) (by decide)

end Libroce
