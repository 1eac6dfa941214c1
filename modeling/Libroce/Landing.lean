import Libroce.ResponderStep

/-!
# Where a payload lands

`roce_mr_map_sge` stores the iovecs of an MR that an SGE touches, and its caller
expects as many as `roce_sge_pages` counts pages of the context.

    roceIovCopy    the iovecs of the MR that the range touches   (roceIovCopy_length)
    sgePages       the pages of the context that it touches      (sgePages_toNat)
    Opens          the keys open MRs to the SGEs
    SgesLand       what is left for the responder to place a payload through them

Main statement: `Opens.placeable_iff`.
-/

namespace Libroce

/-! ## The iovecs of a mapping -/

/-- Iovecs one behind the other, the first at `pos`: how many have a byte from
`lo` to `hi`.  A range that goes on behind the last of them counts one more. -/
def touched : Nat → List Iovec → Nat → Nat → Nat
  | pos, [], lo, hi => if lo < pos ∧ pos < hi then 1 else 0
  | pos, iov :: rest, lo, hi =>
    (if pos < hi ∧ lo < pos + iov.len then 1 else 0) + touched (pos + iov.len) rest lo hi

theorem touched_behind {pos lo hi : Nat} (h : hi ≤ pos) (iovs : List Iovec) : touched pos iovs lo hi = 0 := by
  induction iovs generalizing pos with
  | nil => exact if_neg (by omega)
  | cons iov rest ih => rw [touched, if_neg (by omega), ih (by omega)]

theorem iovCopyRest_length {src : List Iovec} {pos lo bytes : Nat} (hlo : lo < pos) (hpos : 0 < bytes) :
    (iovCopyRest src bytes).length = touched pos src lo (pos + bytes) := by
  induction src generalizing pos bytes with
  | nil =>
    rw [touched, if_pos (by omega)]
    rfl
  | cons iov rest ih =>
    rw [iovCopyRest, touched, if_pos (show pos < pos + bytes ∧ lo < pos + iov.len by omega)]
    by_cases hdone : bytes - min iov.len bytes = 0
    · rw [if_pos hdone, touched_behind (by omega)]
      rfl
    · have hend : pos + bytes = pos + iov.len + (bytes - min iov.len bytes) := by omega
      have hrec : (iovCopyRest rest (bytes - min iov.len bytes)).length = touched (pos + iov.len) rest lo
          (pos + iov.len + (bytes - min iov.len bytes)) := ih (by omega) (by omega)
      rw [if_neg hdone, List.length_cons, hrec, ← hend, Nat.add_comm]

theorem iovCopyFrom_length {src : List Iovec} {pos offset bytes : Nat} (hpos : 0 < bytes) :
    (iovCopyFrom src offset bytes).length = touched pos src (pos + offset) (pos + offset + bytes) := by
  induction src generalizing pos offset with
  | nil =>
    rw [touched, if_neg (by omega)]
    rfl
  | cons iov rest ih =>
    rw [iovCopyFrom, touched]
    by_cases hin : iov.len > offset
    · rw [if_pos hin, if_pos (show pos < pos + offset + bytes ∧ pos + offset < pos + iov.len by omega)]
      by_cases hdone : bytes - min (iov.len - offset) bytes = 0
      · rw [if_pos hdone, touched_behind (by omega)]
        rfl
      · have hend : pos + offset + bytes = pos + iov.len + (bytes - min (iov.len - offset) bytes) := by omega
        have hrest : (iovCopyRest rest (bytes - min (iov.len - offset) bytes)).length =
            touched (pos + iov.len) rest (pos + offset)
              (pos + iov.len + (bytes - min (iov.len - offset) bytes)) :=
          iovCopyRest_length (by omega) (by omega)
        rw [if_neg hdone, List.length_cons, hrest, ← hend, Nat.add_comm]
    · have hstart : pos + offset = pos + iov.len + (offset - iov.len) := by omega
      have hrec : (iovCopyFrom rest (offset - iov.len) bytes).length = touched (pos + iov.len) rest
          (pos + iov.len + (offset - iov.len)) (pos + iov.len + (offset - iov.len) + bytes) := ih
      rw [if_neg hin, if_neg (by omega), hrec, ← hstart, Nat.zero_add]

theorem roceIovCopy_length {src : List Iovec} {offset bytes : Nat} {iovs : List (Option Iovec)}
    (h : roceIovCopy src offset bytes = .ok iovs) :
    iovs.length = if bytes = 0 then 0 else touched 0 src offset (offset + bytes) := by
  unfold roceIovCopy at h
  split at h
  · cases h
  · split at h
    · next hzero =>
      obtain rfl := Except.ok.inj h
      rw [if_pos hzero]
      rfl
    · next hpos =>
      obtain rfl := Except.ok.inj h
      have hfrom : (iovCopyFrom src offset bytes).length = touched 0 src (0 + offset) (0 + offset + bytes) :=
        iovCopyFrom_length (by omega)
      rw [if_neg hpos, hfrom, Nat.zero_add]

/-- The iovecs for an SGE that the MR grants: those from the page of its address
on that the range touches. -/
def RoceMr.iovecs (mr : RoceMr) (sge : RoceSge) : Nat :=
  let offPages := (sge.addr / mr.pageSize.toUInt64 - mr.iova / mr.pageSize.toUInt64).toNat % 2 ^ 32
  let offBytes := sge.addr.toNat % mr.pageSize.toNat % 2 ^ 32
  if mr.type = .dma then 1
  else if sge.length = 0 then 0
  else touched 0 (mr.iovs.drop offPages) offBytes (offBytes + sge.length.toNat)

/-- The iovecs for an SGE. -/
def sgeIovecs (ctx : RoceCtx) (sge : RoceSge) : Nat :=
  (roceGetMrNoref ctx (roceKeyToIndex sge.lkey)).elim 0 (·.iovecs sge)

theorem mrIovCopy_length {mr : RoceMr} {sge : RoceSge} {iovs : List (Option Iovec)} (htype : mr.type ≠ .dma)
    (h : mrIovCopy mr sge = .ok iovs) : iovs.length = mr.iovecs sge := by
  unfold mrIovCopy at h
  unfold RoceMr.iovecs
  simp only at h ⊢
  rw [if_neg htype]
  split at h
  · next hfar =>
    split at h
    · next hzero =>
      obtain rfl := Except.ok.inj h
      rw [if_pos hzero]
      rfl
    · cases h
  · have hlen := roceIovCopy_length h
    rw [hlen]
    by_cases hzero : sge.length = 0
    · rw [if_pos hzero, hzero]
      rfl
    · have hne : sge.length.toNat ≠ 0 := fun h0 => hzero (UInt32.toNat_inj.mp h0)
      rw [if_neg hzero, if_neg hne, UInt64.toNat_toUInt32, UInt64.toNat_toUInt32, UInt64.toNat_mod,
        UInt32.toNat_toUInt64]

/-- **The iovecs that are returned.** -/
theorem mrMapLoop_length {ctx : RoceCtx} {qp : RoceQp} {isLocal : Bool} {access : UInt32}
    {sges : List RoceSge} {mrType : Option MrType} {dmamap : Bool} {r : MapRes}
    (h : mrMapLoop ctx qp isLocal access sges mrType dmamap = .ok r) (hr : r.refused = false) :
    r.iovs.length = (sges.map (sgeIovecs ctx)).sum := by
  induction sges generalizing mrType dmamap r with
  | nil =>
    obtain rfl := Except.ok.inj h
    rfl
  | cons sge sges ih =>
    obtain ⟨type, iovs, r', hone, hloop, hr', rfl⟩ := mrMapLoop_cons_ok h hr
    obtain ⟨mr, hg, rfl, -, hcase⟩ := mrMapOne_ok hone
    have hfirst : iovs.length = sgeIovecs ctx sge := by
      unfold sgeIovecs
      rw [hg.live]
      show _ = mr.iovecs sge
      rcases hcase with ⟨hdma, -, rfl⟩ | ⟨hdma, -, hcopy⟩
      · unfold RoceMr.iovecs
        simp only
        rw [if_pos hdma]
        rfl
      · exact mrIovCopy_length hdma hcopy
    rw [List.map_cons, List.sum_cons, ← hfirst, ← ih hloop hr', List.length_append]

/-! ## The pages -/

/-- The context pages that are counted for an SGE. -/
def sgePageCount (pageSize : UInt32) (sge : RoceSge) : Nat :=
  rangePages pageSize.toNat sge.addr.toNat sge.length.toNat +
    rangeWraps pageSize.toNat sge.addr.toNat sge.length.toNat * (2 ^ 32 - 2 ^ 32 / pageSize.toNat)

/-- The SGEs touch as many iovecs of their MRs as pages of the context. -/
def SamePages (ctx : RoceCtx) (sges : List RoceSge) : Prop :=
  (sges.map (sgeIovecs ctx)).sum % 2 ^ 32 = (sges.map (sgePageCount ctx.pageSize)).sum % 2 ^ 32

theorem roceSgePages_toNat {pageSize : UInt32} (h : rocePowerOf2 pageSize.toUInt64 = true)
    (sges : List RoceSge) :
    ∃ pages, roceSgePages sges pageSize = .ok pages ∧
      pages.toNat = (sges.map (sgePageCount pageSize)).sum % 2 ^ 32 := by
  unfold roceSgePages
  rw [if_pos h]
  refine ⟨_, rfl, ?_⟩
  induction sges with
  | nil => rfl
  | cons sge sges ih =>
    rw [List.map_cons, List.sum_cons, UInt32.toNat_add, ih, sgePages_toNat h, List.map_cons,
      List.sum_cons, ← Nat.add_mod]
    rfl

/-- As many pages are counted as iovecs are touched. -/
theorem samePages_iff {ctx : RoceCtx} (hp : rocePowerOf2 ctx.pageSize.toUInt64 = true)
    {sges : List RoceSge} {n : UInt32} (hn : n.toNat = (sges.map (sgeIovecs ctx)).sum % 2 ^ 32) :
    roceSgePages sges ctx.pageSize = .ok n ↔ SamePages ctx sges := by
  obtain ⟨pages, hpages, hcount⟩ := roceSgePages_toNat hp sges
  unfold SamePages
  rw [hpages, ← hcount, ← hn]
  constructor
  · intro h
    rw [Except.ok.inj h]
  · intro h
    rw [UInt32.toNat_inj.mp h]

theorem roceMrMapSge_ret {ctx : RoceCtx} {qp : RoceQp} {sges : List RoceSge} {isLocal : Bool}
    {access : UInt32} {r : MapRes} (hmap : roceMrMapSge ctx qp sges isLocal access = .ok r)
    (hr : r.refused = false) :
    (UInt32.ofInt r.ret).toNat = (sges.map (sgeIovecs ctx)).sum % 2 ^ 32 := by
  rw [← mrMapLoop_length hmap hr]
  unfold MapRes.ret UInt32.ofInt
  rw [hr, UInt32.toNat_ofNat']
  show ((r.iovs.length : Int) % 2 ^ 32).toNat % 2 ^ 32 = _
  omega

/-! ## What a copy leaves unwritten -/

theorem iovecsLen_pages {iovs : List Iovec} {p : Nat} (h : ∀ iov ∈ iovs, iov.len = p) :
    iovecsLen iovs = iovs.length * p := by
  unfold iovecsLen
  rw [List.map_congr_left h, List.map_const', List.sum_replicate_nat]

/-- Behind its first entry a copy writes each one when the source goes on long enough. -/
theorem iovCopyRest_written {src : List Iovec} {bytes : Nat} (hpos : 0 < bytes) :
    (∃ ds : List Iovec, iovCopyRest src bytes = ds.map some) ↔ bytes ≤ iovecsLen src := by
  induction src generalizing bytes with
  | nil =>
    refine iff_of_false ?_ (Nat.not_le.mpr hpos)
    rintro ⟨ds, hds⟩
    cases ds <;> cases hds
  | cons iov rest ih =>
    rw [iovCopyRest, iovecsLen_cons]
    by_cases hdone : bytes - min iov.len bytes = 0
    · rw [if_pos hdone]
      exact iff_of_true ⟨[_], rfl⟩ (by omega)
    · have hrec : (∃ ds : List Iovec, iovCopyRest rest (bytes - min iov.len bytes) = ds.map some) ↔
          bytes - min iov.len bytes ≤ iovecsLen rest := ih (by omega)
      rw [if_neg hdone]
      constructor
      · rintro ⟨ds, hds⟩
        cases ds with
        | nil => cases hds
        | cons d ds =>
          have hle := hrec.mp ⟨ds, (List.cons.inj hds).2⟩
          omega
      · intro hle
        obtain ⟨ds, hds⟩ := hrec.mpr (by omega)
        exact ⟨⟨iov.base, min iov.len bytes⟩ :: ds, by rw [hds, List.map_cons]⟩

/-- A copy of a range writes all it counts when the source holds the range, or
none of it. -/
theorem iovCopyFrom_written (src : List Iovec) (offset bytes : Nat) :
    (∃ ds : List Iovec, iovCopyFrom src offset bytes = ds.map some) ↔
      offset + bytes ≤ iovecsLen src ∨ iovecsLen src ≤ offset := by
  induction src generalizing offset with
  | nil => exact iff_of_true ⟨[], rfl⟩ (Or.inr (Nat.zero_le _))
  | cons iov rest ih =>
    rw [iovCopyFrom, iovecsLen_cons]
    by_cases hin : iov.len > offset
    · rw [if_pos hin]
      by_cases hdone : bytes - min (iov.len - offset) bytes = 0
      · rw [if_pos hdone]
        exact iff_of_true ⟨[_], rfl⟩ (by omega)
      · have hrec : (∃ ds : List Iovec, iovCopyRest rest (bytes - min (iov.len - offset) bytes) =
            ds.map some) ↔ bytes - min (iov.len - offset) bytes ≤ iovecsLen rest :=
          iovCopyRest_written (by omega)
        rw [if_neg hdone]
        constructor
        · rintro ⟨ds, hds⟩
          cases ds with
          | nil => cases hds
          | cons d ds =>
            have hle := hrec.mp ⟨ds, (List.cons.inj hds).2⟩
            omega
        · intro hle
          obtain ⟨ds, hds⟩ := hrec.mpr (by omega)
          exact ⟨⟨iov.base + offset, min (iov.len - offset) bytes⟩ :: ds, by rw [hds, List.map_cons]⟩
    · rw [if_neg hin, ih]
      omega

/-- Where the page of `addr` is among those of the MR. -/
def RoceMr.offPages (mr : RoceMr) (addr : UInt64) : Nat :=
  (addr / mr.pageSize.toUInt64 - mr.iova / mr.pageSize.toUInt64).toUInt32.toNat

/-- Where `addr` is in its page. -/
def RoceMr.offBytes (mr : RoceMr) (addr : UInt64) : Nat := (addr % mr.pageSize.toUInt64).toUInt32.toNat

theorem RoceMr.iovecs_eq (mr : RoceMr) (sge : RoceSge) :
    mr.iovecs sge =
      if mr.type = .dma then 1
      else if sge.length = 0 then 0
      else touched 0 (mr.iovs.drop (mr.offPages sge.addr)) (mr.offBytes sge.addr)
        (mr.offBytes sge.addr + sge.length.toNat) := by
  unfold RoceMr.iovecs RoceMr.offPages RoceMr.offBytes
  simp only [UInt64.toNat_toUInt32, UInt64.toNat_mod, UInt32.toNat_toUInt64]

/-- The iovecs of the MR hold the range: from its page on it ends among them, or
does not begin.  An empty one only may not be on the page right behind them. -/
def RoceMr.Holds (mr : RoceMr) (sge : RoceSge) : Prop :=
  if sge.length = 0 then mr.offPages sge.addr ≠ mr.iovs.length
  else mr.offPages sge.addr < mr.iovs.length ∧
    (mr.offBytes sge.addr + sge.length.toNat ≤ iovecsLen (mr.iovs.drop (mr.offPages sge.addr)) ∨
      iovecsLen (mr.iovs.drop (mr.offPages sge.addr)) ≤ mr.offBytes sge.addr)

theorem mrIovCopy_written (mr : RoceMr) (sge : RoceSge) :
    (∃ ds : List Iovec, mrIovCopy mr sge = .ok (ds.map some)) ↔ mr.Holds sge := by
  have hpage : (sge.addr / mr.pageSize.toUInt64 - mr.iova / mr.pageSize.toUInt64).toUInt32.toNat =
    mr.offPages sge.addr := rfl
  have hbyte : (sge.addr % mr.pageSize.toUInt64).toUInt32.toNat = mr.offBytes sge.addr := rfl
  have hlen : sge.length = 0 ↔ sge.length.toNat = 0 := by
    rw [← UInt32.toNat_inj]
    rfl
  unfold mrIovCopy RoceMr.Holds roceIovCopy
  simp only [hpage, hbyte, List.drop_eq_nil_iff, ← hlen]
  generalize mr.offPages sge.addr = page
  by_cases hzero : sge.length = 0
  · simp only [if_pos hzero]
    by_cases hgt : page > mr.iovs.length
    · rw [if_pos hgt]
      exact iff_of_true ⟨[], rfl⟩ (by omega)
    · rw [if_neg hgt]
      by_cases hle : mr.iovs.length ≤ page
      · rw [if_pos hle]
        refine iff_of_false ?_ (by omega)
        rintro ⟨ds, hds⟩
        cases hds
      · rw [if_neg hle]
        exact iff_of_true ⟨[], rfl⟩ (by omega)
  · simp only [if_neg hzero]
    by_cases hgt : page > mr.iovs.length
    · rw [if_pos hgt]
      refine iff_of_false ?_ (fun h => by omega)
      rintro ⟨ds, hds⟩
      cases hds
    · rw [if_neg hgt]
      by_cases hle : mr.iovs.length ≤ page
      · rw [if_pos hle]
        refine iff_of_false ?_ (fun h => by omega)
        rintro ⟨ds, hds⟩
        cases hds
      · rw [if_neg hle, ← iovCopyFrom_written]
        simp only [Except.ok.injEq]
        exact ⟨fun h => ⟨by omega, h⟩, fun h => h.2⟩

/-- The bytes that the iovecs of the MR have for the range. -/
theorem mrIovCopy_total {mr : RoceMr} {sge : RoceSge} {iovs : List (Option Iovec)}
    (h : mrIovCopy mr sge = .ok iovs) :
    iovTotal iovs = min sge.length.toNat
      (iovecsLen (mr.iovs.drop (mr.offPages sge.addr)) - mr.offBytes sge.addr) := by
  unfold mrIovCopy at h
  simp only at h
  split at h
  · split at h
    · next hzero =>
      obtain rfl := Except.ok.inj h
      rw [hzero]
      exact (Nat.zero_min _).symm
    · cases h
  · exact roceIovCopy_total h

theorem touched_pages {p lo hi : Nat} (hp : 0 < p) (iovs : List Iovec) (hlen : ∀ iov ∈ iovs, iov.len = p)
    (pos : Nat) (hlo : lo < pos + p) (hhi : hi ≤ pos + iovs.length * p) :
    touched pos iovs lo hi = (hi - pos + p - 1) / p := by
  induction iovs generalizing pos with
  | nil =>
    rw [List.length_nil, Nat.zero_mul] at hhi
    rw [touched, if_neg (by omega), show hi - pos = 0 by omega, Nat.div_eq_of_lt (by omega)]
  | cons iov rest ih =>
    rw [List.length_cons, Nat.add_mul, Nat.one_mul] at hhi
    rw [touched, hlen iov List.mem_cons_self,
      ih (fun iov' hmem => hlen iov' (List.mem_cons_of_mem _ hmem)) (pos + p) (by omega) (by omega)]
    by_cases hin : pos < hi
    · have hsplit : hi - pos + p - 1 = hi - pos - 1 + p := by omega
      rw [if_pos ⟨hin, hlo⟩, hsplit, Nat.add_div_right _ hp, Nat.add_comm]
      by_cases hmore : pos + p ≤ hi
      · rw [show hi - (pos + p) + p - 1 = hi - pos - 1 by omega]
      · rw [Nat.div_eq_of_lt (show hi - (pos + p) + p - 1 < p by omega),
          Nat.div_eq_of_lt (show hi - pos - 1 < p by omega)]
    · rw [if_neg (by omega), show hi - (pos + p) = 0 by omega, show hi - pos = 0 by omega, Nat.zero_add]

/-- The MR has whole context pages, and the range lies in them.  It is not empty
inside a page, and does not reach a multiple of 4 GiB. -/
structure Ordinary (ctx : RoceCtx) (sge : RoceSge) (mr : RoceMr) : Prop where
  live : roceGetMrNoref ctx (roceKeyToIndex sge.lkey) = some mr
  type : mr.type ≠ .dma
  pageSize : mr.pageSize = ctx.pageSize
  pages : ∀ iov ∈ mr.iovs, iov.len = ctx.pageSize.toNat
  first : mr.iova.toNat ≤ sge.addr.toNat
  last : sge.addr.toNat + sge.length.toNat ≤
    (mr.iova.toNat / ctx.pageSize.toNat + mr.iovs.length) * ctx.pageSize.toNat
  few : mr.iovs.length < 2 ^ 32
  empty : sge.length = 0 → sge.addr.toNat % ctx.pageSize.toNat = 0
  below : rangeWraps ctx.pageSize.toNat sge.addr.toNat sge.length.toNat = 0

section ordinary

variable {ctx : RoceCtx} {sge : RoceSge} {mr : RoceMr}

/-- Where the range is in the MR: the page, and the end of the range behind it. -/
theorem Ordinary.page (h : Ordinary ctx sge mr) (hpos : 0 < ctx.pageSize.toNat) (hne : sge.length ≠ 0) :
    mr.offPages sge.addr < mr.iovs.length ∧
      mr.offBytes sge.addr = sge.addr.toNat % ctx.pageSize.toNat ∧
      sge.addr.toNat % ctx.pageSize.toNat + sge.length.toNat ≤
        (mr.iovs.length - mr.offPages sge.addr) * ctx.pageSize.toNat := by
  have hlen : sge.length.toNat ≠ 0 := fun h0 => hne (UInt32.toNat_inj.mp h0)
  have hsplit := Nat.div_add_mod sge.addr.toNat ctx.pageSize.toNat
  have hmod := Nat.mod_lt sge.addr.toNat hpos
  have hlast := h.last
  have hle : mr.iova.toNat / ctx.pageSize.toNat ≤ sge.addr.toNat / ctx.pageSize.toNat :=
    Nat.div_le_div_right h.first
  have hin : sge.addr.toNat / ctx.pageSize.toNat < mr.iova.toNat / ctx.pageSize.toNat + mr.iovs.length := by
    rw [Nat.div_lt_iff_lt_mul hpos]
    omega
  have hoff : mr.offPages sge.addr =
      sge.addr.toNat / ctx.pageSize.toNat - mr.iova.toNat / ctx.pageSize.toNat := by
    have hfew := h.few
    unfold RoceMr.offPages
    rw [UInt64.toNat_toUInt32, h.pageSize, UInt64.toNat_sub_of_le, UInt64.toNat_div, UInt64.toNat_div,
      UInt32.toNat_toUInt64, Nat.mod_eq_of_lt (by omega)]
    rw [UInt64.le_iff_toNat_le, UInt64.toNat_div, UInt64.toNat_div, UInt32.toNat_toUInt64]
    exact hle
  refine ⟨by omega, ?_, ?_⟩
  · unfold RoceMr.offBytes
    rw [UInt64.toNat_toUInt32, h.pageSize, UInt64.toNat_mod, UInt32.toNat_toUInt64]
    exact Nat.mod_eq_of_lt (Nat.lt_trans hmod ctx.pageSize.toNat_lt)
  · have hexp : (mr.iova.toNat / ctx.pageSize.toNat + mr.iovs.length) * ctx.pageSize.toNat =
        (mr.iovs.length - mr.offPages sge.addr) * ctx.pageSize.toNat +
          ctx.pageSize.toNat * (sge.addr.toNat / ctx.pageSize.toNat) := by
      rw [hoff, Nat.mul_comm ctx.pageSize.toNat, ← Nat.add_mul]
      congr 1
      omega
    omega

theorem Ordinary.same (h : Ordinary ctx sge mr) (hp : rocePowerOf2 ctx.pageSize.toUInt64 = true) :
    sgeIovecs ctx sge = sgePageCount ctx.pageSize sge := by
  obtain ⟨k, hk, hsize⟩ := rocePowerOf2_ok hp
  have hpos : 0 < ctx.pageSize.toNat := by
    rw [hsize]
    exact Nat.two_pow_pos k
  have hmod := Nat.mod_lt sge.addr.toNat hpos
  have hpages : rangePages ctx.pageSize.toNat sge.addr.toNat sge.length.toNat =
      (sge.addr.toNat % ctx.pageSize.toNat + sge.length.toNat + ctx.pageSize.toNat - 1) /
        ctx.pageSize.toNat := by
    have hsplit := Nat.div_add_mod sge.addr.toNat ctx.pageSize.toNat
    unfold rangePages
    have hsum : sge.addr.toNat + sge.length.toNat + ctx.pageSize.toNat - 1 =
        sge.addr.toNat % ctx.pageSize.toNat + sge.length.toNat + ctx.pageSize.toNat - 1 +
          ctx.pageSize.toNat * (sge.addr.toNat / ctx.pageSize.toNat) := by omega
    rw [hsum, Nat.add_mul_div_left _ _ hpos, Nat.add_sub_cancel]
  unfold sgeIovecs sgePageCount
  rw [h.live, h.below, Nat.zero_mul, Nat.add_zero, hpages]
  simp only [Option.elim_some]
  rw [RoceMr.iovecs_eq, if_neg h.type]
  by_cases hzero : sge.length = 0
  · have hlen : sge.length.toNat = 0 := by rw [hzero]; rfl
    rw [if_pos hzero, h.empty hzero, hlen, Nat.div_eq_of_lt (by omega)]
  · obtain ⟨hin, hbytes, hend⟩ := h.page hpos hzero
    rw [if_neg hzero, hbytes, touched_pages hpos]
    · rw [Nat.sub_zero]
    · exact fun iov hmem => h.pages iov (List.mem_of_mem_drop hmem)
    · omega
    · rw [List.length_drop, Nat.zero_add]
      exact hend

/-- The iovecs of such a region hold a range that is not empty. -/
theorem Ordinary.holds (h : Ordinary ctx sge mr) (hpos : 0 < ctx.pageSize.toNat) (hne : sge.length ≠ 0) :
    mr.Holds sge := by
  obtain ⟨hin, hbytes, hend⟩ := h.page hpos hne
  unfold RoceMr.Holds
  rw [if_neg hne]
  refine ⟨hin, Or.inl ?_⟩
  rw [hbytes, iovecsLen_pages fun iov hmem => h.pages iov (List.mem_of_mem_drop hmem), List.length_drop]
  exact hend

end ordinary

/-- Among such regions the two counts agree. -/
theorem samePages_of_ordinary {ctx : RoceCtx} (hp : rocePowerOf2 ctx.pageSize.toUInt64 = true)
    {sges : List RoceSge} (h : ∀ sge ∈ sges, ∃ mr, Ordinary ctx sge mr) : SamePages ctx sges := by
  unfold SamePages
  rw [List.map_congr_left fun sge hmem => (h sge hmem).choose_spec.same hp]

/-! ## SGEs that the MRs grant -/

/-- The key opens an MR of a type to the SGE, with the range in the MR. -/
def OpensAs (ctx : RoceCtx) (qp : RoceQp) (isLocal : Bool) (access : UInt32) (type : MrType)
    (sge : RoceSge) : Prop :=
  ∃ mr, MrGrants ctx qp isLocal access sge mr ∧ mr.type = type ∧
    if type = .dma then qp.qpType = .gsi else RangeChecked sge mr

/-- The keys open MRs of one type to the SGEs. -/
def Opens (ctx : RoceCtx) (qp : RoceQp) (isLocal : Bool) (access : UInt32) (sges : List RoceSge) : Prop :=
  ∃ type, ∀ sge ∈ sges, OpensAs ctx qp isLocal access type sge

/-- The iovecs hold the range of the SGE. -/
def SgeHeld (ctx : RoceCtx) (sge : RoceSge) : Prop :=
  ∀ mr, roceGetMrNoref ctx (roceKeyToIndex sge.lkey) = some mr → mr.type ≠ .dma → mr.Holds sge

section opens

variable {ctx ctx' : RoceCtx} {qp qp' : RoceQp} {isLocal : Bool} {access : UInt32} {sges : List RoceSge}

/-- A turn for an SGE that is granted is not refused, and writes what it counts
when the iovecs hold the range. -/
theorem mrMapOne_opened {type : MrType} {sge : RoceSge} {mr : RoceMr}
    (hg : MrGrants ctx qp isLocal access sge mr) (htype : mr.type = type)
    (hrange : if type = .dma then qp.qpType = .gsi else RangeChecked sge mr) {mrType : Option MrType}
    (hsame : mrType = none ∨ mrType = some type) :
    mrMapOne ctx qp isLocal access mrType sge ≠ .ok none ∧
      ((∃ ds : List Iovec, mrMapOne ctx qp isLocal access mrType sge = .ok (some (type, ds.map some))) ↔
        SgeHeld ctx sge) := by
  subst htype
  have hheld : SgeHeld ctx sge ↔ (mr.type ≠ .dma → mr.Holds sge) := by
    constructor
    · exact fun h => h mr hg.live
    · intro h mr' hlive
      obtain rfl := Option.some.inj (hg.live.symm.trans hlive)
      exact h
  by_cases hdma : mr.type = .dma
  · rw [if_pos hdma] at hrange
    have hone : mrMapOne ctx qp isLocal access mrType sge =
        .ok (some (mr.type, [some ⟨ctx.dmaMap sge.addr sge.length, sge.length.toNat⟩])) := by
      have hty : ¬(mrType ≠ none ∧ mrType ≠ some mr.type) := by
        rintro ⟨hnone, hne⟩
        exact hsame.elim hnone hne
      unfold mrMapOne
      rw [hg.live]
      dsimp only
      rw [if_neg (not_not.mpr hg.key), if_neg (not_not.mpr hg.pd), if_neg (not_not.mpr hg.valid),
        if_neg (not_not.mpr hg.rights), if_neg hty, if_pos hdma, if_neg (not_not.mpr hrange)]
    rw [hone, hheld]
    refine ⟨(fun h => by cases h), iff_of_true ⟨[_], rfl⟩ fun hne => absurd hdma hne⟩
  · rw [if_neg hdma] at hrange
    rw [hg.mrMapOne_eq hdma hsame hrange, hheld, ← mrIovCopy_written]
    cases hcopy : mrIovCopy mr sge with
    | error e =>
      refine ⟨(fun h => by cases h), iff_of_false ?_ fun h => ?_⟩
      · rintro ⟨ds, hds⟩
        cases hds
      · obtain ⟨ds, hds⟩ := h hdma
        cases hds
    | ok iovs =>
      refine ⟨(fun h => by cases h), ?_⟩
      constructor
      · rintro ⟨ds, hds⟩ -
        obtain ⟨-, rfl⟩ := Prod.mk.inj (Option.some.inj (Except.ok.inj hds))
        exact ⟨ds, rfl⟩
      · intro h
        obtain ⟨ds, hds⟩ := h hdma
        obtain rfl := Except.ok.inj hds
        exact ⟨ds, rfl⟩

theorem mrMapLoop_opened {type : MrType} {mrType : Option MrType} {dmamap : Bool}
    (hopen : ∀ sge ∈ sges, OpensAs ctx qp isLocal access type sge)
    (hsame : mrType = none ∨ mrType = some type) :
    (∀ r, mrMapLoop ctx qp isLocal access sges mrType dmamap = .ok r → r.refused = false) ∧
      ((∃ ds : List Iovec, ∃ dma, mrMapLoop ctx qp isLocal access sges mrType dmamap =
          .ok ⟨false, ds.map some, dma⟩) ↔ ∀ sge ∈ sges, SgeHeld ctx sge) := by
  induction sges generalizing mrType dmamap with
  | nil =>
    refine ⟨?_, iff_of_true ⟨[], dmamap, rfl⟩ fun sge hmem => absurd hmem List.not_mem_nil⟩
    rintro r ⟨⟩
    rfl
  | cons sge sges ih =>
    obtain ⟨hfirst, hrest⟩ := List.forall_mem_cons.mp hopen
    obtain ⟨mr, hg, htype, hrange⟩ := hfirst
    obtain ⟨hgiven, hwritten⟩ := mrMapOne_opened hg htype hrange hsame
    obtain ⟨hloop, hheld⟩ := @ih (some type) (type == .dma) hrest (Or.inr rfl)
    rw [List.forall_mem_cons, ← hwritten, ← hheld]
    cases hone : mrMapOne ctx qp isLocal access mrType sge with
    | error e =>
      rw [mrMapLoop, hone]
      refine ⟨(fun r hr => by cases hr), iff_of_false ?_ ?_⟩
      · rintro ⟨ds, dma, h⟩
        cases h
      · rintro ⟨⟨ds, h⟩, -⟩
        cases h
    | ok o =>
      cases o with
      | none => exact absurd hone hgiven
      | some p =>
        obtain ⟨type', iovs⟩ := p
        obtain ⟨mr', hg', rfl, -, -⟩ := mrMapOne_ok hone
        obtain rfl := Option.some.inj (hg.live.symm.trans hg'.live)
        rw [mrMapLoop, hone]
        subst htype
        simp only
        cases hrec : mrMapLoop ctx qp isLocal access sges (some mr.type) (mr.type == .dma) with
        | error e =>
          refine ⟨(fun r hr => by cases hr), iff_of_false ?_ ?_⟩
          · rintro ⟨ds, dma, h⟩
            cases h
          · rintro ⟨-, ds, dma, h⟩
            cases h
        | ok r =>
          have hr := hloop r hrec
          refine ⟨?_, ?_⟩
          · intro r' hr'
            rw [← Except.ok.inj hr']
            exact hr
          · constructor
            · rintro ⟨ds, dma, h⟩
              have hiovs : iovs ++ r.iovs = ds.map some := congrArg MapRes.iovs (Except.ok.inj h)
              obtain ⟨ds1, ds2, rfl, h1, h2⟩ := List.append_eq_map_iff.mp hiovs
              refine ⟨⟨ds1, by rw [h1]⟩, ds2, r.dmamap, ?_⟩
              rw [h2, ← hr]
            · rintro ⟨⟨ds1, h1⟩, ds2, dma, h2⟩
              obtain ⟨-, rfl⟩ := Prod.mk.inj (Option.some.inj (Except.ok.inj h1))
              obtain rfl := Except.ok.inj h2
              exact ⟨ds1 ++ ds2, dma, by rw [List.map_append]⟩

/-- A mapping of SGEs that are granted is not refused. -/
theorem Opens.granted (h : Opens ctx qp isLocal access sges) {r : MapRes}
    (hmap : roceMrMapSge ctx qp sges isLocal access = .ok r) : r.refused = false := by
  obtain ⟨type, hopen⟩ := h
  exact (mrMapLoop_opened hopen (Or.inl rfl)).1 r hmap

/-- Granted once, granted again. -/
theorem Opens.kept (h : Opens ctx qp isLocal access sges) (hkept : MrsKept ctx ctx') (hpd : qp'.pd = qp.pd)
    (hqp : qp'.qpType = qp.qpType) : Opens ctx' qp' isLocal access sges := by
  obtain ⟨type, hopen⟩ := h
  refine ⟨type, fun sge hsge => ?_⟩
  obtain ⟨mr, hg, htype, hrange⟩ := hopen sge hsge
  obtain ⟨ref, hlive⟩ := hkept _ mr hg.live hg.valid
  refine ⟨{ mr with ref := ref }, ⟨hlive, hg.key, hg.pd.trans hpd.symm, hg.valid, hg.rights⟩, htype, ?_⟩
  rw [hqp]
  exact hrange

/-- The MRs have the iovecs: each SGE is held, they touch as many as pages of the
context, and no more than the array of the responder takes. -/
structure SgesLand (ctx : RoceCtx) (sges : List RoceSge) : Prop where
  held : ∀ sge ∈ sges, SgeHeld ctx sge
  pages : SamePages ctx sges
  few : (sges.map (sgeIovecs ctx)).sum ≤ 2 * roceMaxSge

/-- Ranges in regions of whole pages land when they are few. -/
theorem sgesLand_of_ordinary (hp : rocePowerOf2 ctx.pageSize.toUInt64 = true)
    (h : ∀ sge ∈ sges, sge.length ≠ 0 ∧ ∃ mr, Ordinary ctx sge mr)
    (hfew : (sges.map (sgePageCount ctx.pageSize)).sum ≤ 2 * roceMaxSge) : SgesLand ctx sges := by
  have hpos : 0 < ctx.pageSize.toNat := by
    obtain ⟨k, -, hsize⟩ := rocePowerOf2_ok hp
    rw [hsize]
    exact Nat.two_pow_pos k
  refine ⟨?_, samePages_of_ordinary hp fun sge hmem => (h sge hmem).2, ?_⟩
  · intro sge hmem mr hlive hdma
    obtain ⟨hne, mr', hord⟩ := h sge hmem
    obtain rfl := Option.some.inj (hord.live.symm.trans hlive)
    exact hord.holds hpos hne
  · have hcount : sges.map (sgeIovecs ctx) = sges.map (sgePageCount ctx.pageSize) :=
      List.map_congr_left fun sge hmem => (h sge hmem).2.choose_spec.same hp
    rw [hcount]
    exact hfew

/-- What an MR holds does not hang on its count. -/
theorem Opens.lands_kept (h : Opens ctx qp isLocal access sges) (hkept : MrsKept ctx ctx')
    (hpage : ctx'.pageSize = ctx.pageSize) : SgesLand ctx' sges ↔ SgesLand ctx sges := by
  obtain ⟨type, hopen⟩ := h
  have hslot : ∀ sge ∈ sges, (SgeHeld ctx' sge ↔ SgeHeld ctx sge) ∧
    sgeIovecs ctx' sge = sgeIovecs ctx sge := by
    intro sge hsge
    obtain ⟨mr, hg, -, -⟩ := hopen sge hsge
    obtain ⟨ref, hlive⟩ := hkept _ mr hg.live hg.valid
    unfold SgeHeld sgeIovecs
    rw [hlive, hg.live]
    simp only [Option.some.injEq, forall_eq', Option.elim_some]
    exact ⟨Iff.rfl, rfl⟩
  have hcount : sges.map (sgeIovecs ctx') = sges.map (sgeIovecs ctx) :=
    List.map_congr_left fun sge hsge => (hslot sge hsge).2
  have hpages : SamePages ctx' sges ↔ SamePages ctx sges := by
    unfold SamePages
    rw [hcount, hpage]
  constructor
  · rintro ⟨hheld, hsame, hfew⟩
    rw [hcount] at hfew
    exact ⟨fun sge hsge => (hslot sge hsge).1.mp (hheld sge hsge), hpages.mp hsame, hfew⟩
  · rintro ⟨hheld, hsame, hfew⟩
    rw [← hcount] at hfew
    exact ⟨fun sge hsge => (hslot sge hsge).1.mpr (hheld sge hsge), hpages.mpr hsame, hfew⟩

end opens

/-! ## The responder -/

/-- The responder can place a payload through the SGEs. -/
def Placeable (ctx : RoceCtx) (qp : RoceQp) (isLocal : Bool) (access : UInt32) (sges : List RoceSge) : Prop :=
  ∃ dsts dmamap, Places ctx qp sges isLocal access dsts dmamap

section places

variable {ctx : RoceCtx} {qp : RoceQp} {isLocal : Bool} {access : UInt32} {sges : List RoceSge}

/-- **Where a payload lands.**  Through SGEs that are granted the responder can
place one exactly when the iovecs of the MRs hold them, are as many as pages of
the context, and fit into its array. -/
theorem Opens.placeable_iff (h : Opens ctx qp isLocal access sges)
    (hp : rocePowerOf2 ctx.pageSize.toUInt64 = true) :
    Placeable ctx qp isLocal access sges ↔ SgesLand ctx sges := by
  obtain ⟨type, hopen⟩ := h
  have hwritten : (∃ ds : List Iovec, ∃ dma, roceMrMapSge ctx qp sges isLocal access =
      .ok ⟨false, ds.map some, dma⟩) ↔ ∀ sge ∈ sges, SgeHeld ctx sge :=
    (mrMapLoop_opened hopen (Or.inl rfl)).2
  -- the iovecs that are stored are those that are touched
  have hlength : ∀ {dsts : List Iovec} {dmamap},
      roceMrMapSge ctx qp sges isLocal access = .ok ⟨false, dsts.map some, dmamap⟩ →
        dsts.length = (sges.map (sgeIovecs ctx)).sum := by
    intro dsts dmamap hmap
    rw [← mrMapLoop_length hmap rfl, List.length_map]
  have hpages : ∀ {dsts : List Iovec} {dmamap},
      roceMrMapSge ctx qp sges isLocal access = .ok ⟨false, dsts.map some, dmamap⟩ →
        (roceSgePages sges ctx.pageSize = .ok (UInt32.ofNat dsts.length) ↔ SamePages ctx sges) := by
    intro dsts dmamap hmap
    apply samePages_iff hp
    rw [UInt32.toNat_ofNat', hlength hmap]
  constructor
  · rintro ⟨dsts, dmamap, hplaces⟩
    have hmap := hplaces.map
    refine ⟨hwritten.mp ⟨dsts, dmamap, hmap⟩, (hpages hmap).mp hplaces.pages, ?_⟩
    rw [← hlength hmap]
    exact hplaces.fits
  · rintro ⟨hheld, hsame, hfew⟩
    obtain ⟨dsts, dmamap, hmap⟩ := hwritten.mpr hheld
    refine ⟨dsts, dmamap, hmap, (hpages hmap).mpr hsame, ?_⟩
    rw [hlength hmap]
    exact hfew

/-- What is placed without a fault lands. -/
theorem Opens.lands {s : St} (h : Opens s.ctx s.qp isLocal access sges)
    (hp : rocePowerOf2 s.ctx.pageSize.toUInt64 = true) {iovs : List (List UInt8)} {r : Option St}
    (hplaced : placePayload s sges isLocal access iovs = .ok r) : SgesLand s.ctx sges := by
  cases r with
  | none =>
    obtain ⟨res, hmap, hrefused⟩ := placePayload_none hplaced
    rw [h.granted hmap] at hrefused
    cases hrefused
  | some t =>
    obtain ⟨dsts, dmamap, hplaces, -⟩ := placePayload_ok hplaced
    exact (h.placeable_iff hp).mp ⟨dsts, dmamap, hplaces⟩

end places

end Libroce
