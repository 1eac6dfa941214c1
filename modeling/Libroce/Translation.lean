import Libroce.Agreement
import Libroce.PageCount
import Libroce.Placement

/-!
# From addresses to iovecs

`roce_iov_copy` cuts a piece out of a list of iovecs, and `roce_mr_map_sge` cuts
the range of an SGE out of the pages of its MR.

    PageTable      an MR with as many pages as its range touches
    PagesCover     the iovecs from each page on hold the rest of the range
    Translates     an SGE in the range of an MR has its bytes among the iovecs
    MrCoverage     what a mapping relies on

Main statements:
* `roceIovCopy_exact` — when a copy is the piece that was asked for.
* `roceMrMapSge_translates` — the pages of an MR are its addresses.
* `roceCreateMr_coverage` — what `roce_create_mr` leaves to its caller.
-/

namespace Libroce

/-! ## A piece of iovecs -/

theorem length_iovAddrs (iovs : List Iovec) : (iovAddrs iovs).length = (iovs.map (·.len)).sum := by
  induction iovs with
  | nil => rfl
  | cons iov iovs ih =>
    rw [iovAddrs_cons, List.length_append, List.length_range', ih, List.map_cons, List.sum_cons]

/-- A source that ends before the piece. -/
theorem iovCopyFrom_past {src : List Iovec} {off bytes : Nat} (h : (iovAddrs src).length ≤ off) :
    iovCopyFrom src off bytes = [] := by
  induction src generalizing off with
  | nil => rfl
  | cons iov rest ih =>
    rw [iovAddrs_cons, List.length_append, List.length_range'] at h
    rw [iovCopyFrom, if_neg (by omega)]
    apply ih
    omega

/-- Every entry that is counted is written, unless the source ends inside the
piece. -/
theorem iovCopyFrom_whole {src : List Iovec} {off bytes : Nat} :
    (∃ ds : List Iovec, iovCopyFrom src off bytes = ds.map some) ↔
      (iovAddrs src).length ≤ off ∨ off + bytes ≤ (iovAddrs src).length := by
  rw [iovCopyFrom_written, length_iovAddrs, or_comm]
  rfl

/-- The destination array after the call: an entry that is counted but not
written keeps what it had. -/
def iovStore : List Iovec → List (Option Iovec) → List Iovec
  | dst, [] => dst
  | [], _ :: _ => []
  | d :: dst, o :: iovs => o.getD d :: iovStore dst iovs

theorem iovStore_written {ds dst : List Iovec} (h : ds.length ≤ dst.length) :
    iovStore dst (ds.map some) = ds ++ dst.drop ds.length := by
  induction ds generalizing dst with
  | nil => simp [iovStore]
  | cons d ds ih =>
    cases dst with
    | nil => exact absurd h (Nat.not_succ_le_zero _)
    | cons d' dst =>
      have hrest := ih (Nat.le_of_succ_le_succ h)
      rw [List.map_cons, iovStore, hrest]
      rfl

/-- **Copies.**  The entries that are counted are written and are the piece
exactly when there is no piece, or the source holds all of it or nothing of
it. -/
theorem roceIovCopy_exact {src : List Iovec} (hsrc : src ≠ []) (offset bytes : Nat) :
    (∃ ds : List Iovec, roceIovCopy src offset bytes = .ok (ds.map some) ∧
      iovAddrs ds = ((iovAddrs src).drop offset).take bytes ∧
      ∀ dst, ds.length ≤ dst.length → iovStore dst (ds.map some) = ds ++ dst.drop ds.length) ↔
    bytes = 0 ∨ (iovAddrs src).length ≤ offset ∨ offset + bytes ≤ (iovAddrs src).length := by
  have hcopy : bytes ≠ 0 → roceIovCopy src offset bytes = .ok (iovCopyFrom src offset bytes) := by
    intro hne
    unfold roceIovCopy
    rw [if_neg hsrc, if_neg hne]
  constructor
  · rintro ⟨ds, hds, -⟩
    by_cases hne : bytes = 0
    · exact Or.inl hne
    · exact Or.inr (iovCopyFrom_whole.mp ⟨ds, Except.ok.inj ((hcopy hne).symm.trans hds)⟩)
  · intro hcases
    have hds : ∃ ds : List Iovec, roceIovCopy src offset bytes = .ok (ds.map some) := by
      by_cases hne : bytes = 0
      · refine ⟨[], ?_⟩
        unfold roceIovCopy
        rw [if_neg hsrc, if_pos hne]
        rfl
      · obtain ⟨ds, hds⟩ := iovCopyFrom_whole.mpr (hcases.resolve_left hne)
        exact ⟨ds, by rw [hcopy hne, hds]⟩
    obtain ⟨ds, hds⟩ := hds
    exact ⟨ds, hds, roceIovCopy_addrs hds, fun dst hroom => iovStore_written hroom⟩

/-- Two bytes of an iovec of one: two entries are counted, and one is written. -/
theorem roceIovCopy_exact_short :
    ¬ ∀ (src : List Iovec) (offset bytes : Nat), src ≠ [] → ∃ ds : List Iovec,
      roceIovCopy src offset bytes = .ok (ds.map some) ∧
      iovAddrs ds = ((iovAddrs src).drop offset).take bytes := by
  intro h
  obtain ⟨ds, hds, -⟩ := h [⟨0, 1⟩] 0 2 (List.cons_ne_nil _ _)
  have hpair : [some ⟨0, 1⟩, none] = ds.map some := Except.ok.inj hds
  have hnone : none ∈ ds.map some := by
    rw [← hpair]
    exact List.mem_cons_of_mem _ List.mem_cons_self
  obtain ⟨d, -, hd⟩ := List.mem_map.mp hnone
  cases hd

theorem roceIovCopy_exact_fits : ∃ ds : List Iovec,
    roceIovCopy [⟨0x1000, 4⟩, ⟨0x2000, 0⟩, ⟨0x3000, 8⟩] 1 6 = .ok (ds.map some) ∧
      iovAddrs ds = ((iovAddrs [⟨0x1000, 4⟩, ⟨0x2000, 0⟩, ⟨0x3000, 8⟩]).drop 1).take 6 := by
  have hne : [⟨0x1000, 4⟩, ⟨0x2000, 0⟩, ⟨0x3000, 8⟩] ≠ ([] : List Iovec) := List.cons_ne_nil _ _
  obtain ⟨ds, hds, haddrs, -⟩ := (roceIovCopy_exact hne 1 6).mpr (by decide)
  exact ⟨ds, hds, haddrs⟩

/-! ## Pages -/

/-- The host addresses of a piece of pages, and how many pages it touches. -/
theorem RoceMr.Paged.mrIovCopy_ok {mr : RoceMr} (h : mr.Paged) {sge : RoceSge} (hin : InRange sge mr)
    (hpos : 0 < sge.length.toNat) :
    ∃ ds : List Iovec, Libroce.mrIovCopy mr sge = .ok (ds.map some) ∧ iovAddrs ds = mr.hosts sge ∧
      ds.length = (sge.addr.toNat + sge.length.toNat - 1) / mr.pageSize.toNat -
        sge.addr.toNat / mr.pageSize.toNat + 1 := by
  have hsize := h.size_pos hin hpos
  have hhosts := h.hosts_eq hin hpos
  have hle : mr.iova.toNat / mr.pageSize.toNat ≤ sge.addr.toNat / mr.pageSize.toNat :=
    Nat.div_le_div_right hin.1
  have hend := hin.2
  have hcov := h.covers
  have hsplit := Nat.div_add_mod sge.addr.toNat mr.pageSize.toNat
  have hmod := Nat.mod_lt sge.addr.toNat hsize
  have heq := mrIovCopy_eq hin hpos hsize
  obtain ⟨d, hd⟩ := Nat.exists_eq_add_of_le hle
  have hindex : sge.addr.toNat / mr.pageSize.toNat - mr.iova.toNat / mr.pageSize.toNat = d := by omega
  rw [hindex] at heq hhosts
  -- the pages from the first one on hold the piece
  have hroom : sge.addr.toNat % mr.pageSize.toNat + sge.length.toNat ≤
      (mr.iovs.length - d) * mr.pageSize.toNat := by
    rw [hd, Nat.mul_comm, Nat.add_mul] at hsplit
    rw [Nat.add_mul] at hcov
    rw [Nat.sub_mul]
    omega
  have hpages : ∀ iov ∈ mr.iovs.drop d, iov.len = mr.pageSize.toNat :=
    fun iov hiov => h.pages iov (List.mem_of_mem_drop hiov)
  have hlen : (iovAddrs (mr.iovs.drop d)).length = (mr.iovs.length - d) * mr.pageSize.toNat := by
    rw [(pages_addrs hpages).1, List.length_drop]
  have hfew : d < mr.iovs.length := by
    by_contra hge
    rw [show mr.iovs.length - d = 0 by omega, Nat.zero_mul] at hroom
    omega
  rw [if_neg (by omega)] at heq
  obtain ⟨ds, hds⟩ := @iovCopyFrom_some (mr.iovs.drop d) (sge.addr.toNat % mr.pageSize.toNat)
    sge.length.toNat (by omega)
  have hcopy : roceIovCopy (mr.iovs.drop d) (sge.addr.toNat % mr.pageSize.toNat) sge.length.toNat =
      .ok (ds.map some) := by
    have hne : mr.iovs.drop d ≠ [] := by
      rw [Ne, List.drop_eq_nil_iff]
      omega
    unfold roceIovCopy
    rw [if_neg hne, if_neg (by omega), hds]
  refine ⟨ds, heq.trans hcopy, ?_, ?_⟩
  · rw [hhosts]
    exact roceIovCopy_addrs hcopy
  · have hcount := roceIovCopy_length hcopy
    rw [List.length_map, if_neg (by omega), touched_pages hsize _ hpages 0 (by omega)
      (by rw [List.length_drop]; omega)] at hcount
    have hlast : sge.addr.toNat + sge.length.toNat - 1 =
        sge.addr.toNat % mr.pageSize.toNat + sge.length.toNat - 1 +
          mr.pageSize.toNat * (sge.addr.toNat / mr.pageSize.toNat) := by omega
    rw [hcount, hlast, Nat.add_mul_div_left _ _ hsize, Nat.add_sub_cancel, Nat.sub_zero,
      show sge.addr.toNat % mr.pageSize.toNat + sge.length.toNat + mr.pageSize.toNat - 1 =
        sge.addr.toNat % mr.pageSize.toNat + sge.length.toNat - 1 + mr.pageSize.toNat by omega,
      Nat.add_div_right _ hsize]

/-- A MEM MR with as many pages as its range touches. -/
structure RoceMr.PageTable (mr : RoceMr) : Prop where
  type : mr.type = .mem
  size : 0 < mr.pageSize.toNat
  pages : ∀ iov ∈ mr.iovs, iov.len = mr.pageSize.toNat
  count : mr.iovs.length =
    (mr.iova.toNat % mr.pageSize.toNat + mr.length.toNat + mr.pageSize.toNat - 1) / mr.pageSize.toNat

theorem RoceMr.PageTable.paged {mr : RoceMr} (h : mr.PageTable) : mr.Paged := by
  refine ⟨h.type, h.pages, ?_⟩
  have hsplit := Nat.div_add_mod mr.iova.toNat mr.pageSize.toNat
  have hmod := Nat.mod_lt (mr.iova.toNat % mr.pageSize.toNat + mr.length.toNat + mr.pageSize.toNat - 1) h.size
  have hceil := Nat.div_add_mod (mr.iova.toNat % mr.pageSize.toNat + mr.length.toNat + mr.pageSize.toNat - 1)
    mr.pageSize.toNat
  have hsize := h.size
  rw [← h.count] at hceil
  rw [Nat.add_mul, Nat.mul_comm (mr.iova.toNat / _), Nat.mul_comm mr.iovs.length]
  omega

/-- The pages of the MR from the first byte of the SGE to its last. -/
def RoceMr.pagesTouched (mr : RoceMr) (sge : RoceSge) : Nat :=
  (sge.addr.toNat + sge.length.toNat - 1) / mr.pageSize.toNat - sge.addr.toNat / mr.pageSize.toNat + 1

/-- The same, through the MR of its key. -/
def sgePagesTouched (ctx : RoceCtx) (sge : RoceSge) : Nat :=
  (roceGetMrNoref ctx (roceKeyToIndex sge.lkey)).elim 0 (·.pagesTouched sge)

/-- The key of the SGE names no MR, or one with a page table in which it has bytes. -/
def InTable (ctx : RoceCtx) (sge : RoceSge) : Prop :=
  ∀ mr, roceGetMrNoref ctx (roceKeyToIndex sge.lkey) = some mr →
    mr.PageTable ∧ InRange sge mr ∧ 0 < sge.length.toNat

section translation

variable {ctx : RoceCtx} {qp : RoceQp} {isLocal : Bool} {access : UInt32} {mrType : Option MrType}
  {sge : RoceSge} {sges : List RoceSge}

/-- One turn: it is refused, or the iovecs are the bytes of the SGE. -/
theorem InTable.mrMapOne (h : InTable ctx sge) :
    mrMapOne ctx qp isLocal access mrType sge = .ok none ∨
      ∃ type, ∃ ds : List Iovec, mrMapOne ctx qp isLocal access mrType sge = .ok (some (type, ds.map some)) ∧
        iovAddrs ds = sgeHost ctx sge ∧ ds.length = sgePagesTouched ctx sge := by
  cases hone : Libroce.mrMapOne ctx qp isLocal access mrType sge with
  | error e =>
    obtain ⟨mr, hg, -, -, he⟩ := mrMapOne_error hone
    obtain ⟨htable, hin, hpos⟩ := h mr hg.live
    obtain ⟨ds, hds, -⟩ := htable.paged.mrIovCopy_ok hin hpos
    cases he.symm.trans hds
  | ok o =>
    cases o with
    | none => exact Or.inl rfl
    | some res =>
      obtain ⟨type, iovs⟩ := res
      obtain ⟨mr, hg, rfl, -, hcase⟩ := mrMapOne_ok hone
      obtain ⟨htable, hin, hpos⟩ := h mr hg.live
      obtain ⟨ds, hds, hhosts, hcount⟩ := htable.paged.mrIovCopy_ok hin hpos
      rcases hcase with ⟨hdma, -⟩ | ⟨-, -, hcopy⟩
      · rw [htable.type] at hdma
        cases hdma
      · obtain rfl := Except.ok.inj (hcopy.symm.trans hds)
        refine Or.inr ⟨mr.type, ds, rfl, ?_, ?_⟩
        · unfold sgeHost
          rw [hg.live]
          exact hhosts
        · unfold sgePagesTouched
          rw [hg.live]
          exact hcount

theorem mrMapLoop_translates (h : ∀ sge ∈ sges, InTable ctx sge) (dmamap : Bool) :
    ∃ r, mrMapLoop ctx qp isLocal access sges mrType dmamap = .ok r ∧ (r.refused = false →
      ∃ ds : List Iovec, r.iovs = ds.map some ∧ iovAddrs ds = sges.flatMap (sgeHost ctx) ∧
        ds.length = (sges.map (sgePagesTouched ctx)).sum) := by
  induction sges generalizing mrType dmamap with
  | nil => exact ⟨_, rfl, fun _ => ⟨[], rfl, rfl, rfl⟩⟩
  | cons sge sges ih =>
    rw [mrMapLoop]
    have hfirst := h sge List.mem_cons_self
    rcases @InTable.mrMapOne ctx qp isLocal access mrType sge hfirst with
      hnone | ⟨type, ds, hone, haddrs, hcount⟩
    · simp only [hnone]
      refine ⟨_, rfl, fun href => ?_⟩
      cases href
    · obtain ⟨r, hr, hrest⟩ := @ih (some type) (fun s hs => h s (List.mem_cons_of_mem _ hs)) (type == .dma)
      simp only [hone, hr]
      refine ⟨_, rfl, fun href => ?_⟩
      obtain ⟨ds', hds', haddrs', hcount'⟩ := hrest href
      refine ⟨ds ++ ds', ?_, ?_, ?_⟩
      · show ds.map some ++ r.iovs = _
        rw [hds', List.map_append]
      · rw [iovAddrs_append, haddrs, haddrs', List.flatMap_cons]
      · rw [List.length_append, hcount, hcount', List.map_cons, List.sum_cons]

/-- **Translation.**  A mapping of SGEs in MRs with page tables returns, unless
it is refused: one iovec for each page touched, which together are the bytes of
the SGEs. -/
theorem roceMrMapSge_translates (h : ∀ sge ∈ sges, InTable ctx sge) :
    ∃ r, roceMrMapSge ctx qp sges isLocal access = .ok r ∧ (r.refused = false →
      r.ret = (sges.map (sgePagesTouched ctx)).sum ∧
      ∃ ds : List Iovec, r.iovs = ds.map some ∧ iovAddrs ds = sges.flatMap (sgeHost ctx)) := by
  obtain ⟨r, hr, hrest⟩ := @mrMapLoop_translates ctx qp isLocal access none sges h false
  refine ⟨r, hr, fun href => ?_⟩
  obtain ⟨ds, hds, haddrs, hcount⟩ := hrest href
  refine ⟨?_, ds, hds, haddrs⟩
  unfold MapRes.ret
  rw [href, hds, List.length_map, hcount]
  rfl

end translation

/-- Three pages, of which the range leaves out the first half of the first. -/
def tableMr : RoceMr where
  ref := 0
  pd := 0
  state := .valid
  type := .mem
  iova := 0x1800
  length := 8192
  lkey := 0x7
  rkey := 0x9
  access := 3
  pageSize := 4096
  iovs := [⟨0x70000, 4096⟩, ⟨0x40000, 4096⟩, ⟨0x90000, 4096⟩]

/-- Sixteen bytes across the end of the first page, and four of the third. -/
theorem roceMrMapSge_translates_table :
    ∃ r, roceMrMapSge { smallCtx with mrs := [some tableMr] } smallQp [⟨0x1ff8, 16, 7⟩, ⟨0x3000, 4, 7⟩]
        true 1 = .ok r ∧ r.refused = false ∧ r.ret = 3 ∧
      ∃ ds : List Iovec, r.iovs = ds.map some ∧ iovAddrs ds =
        [0x70ff8, 0x70ff9, 0x70ffa, 0x70ffb, 0x70ffc, 0x70ffd, 0x70ffe, 0x70fff, 0x40000, 0x40001, 0x40002,
          0x40003, 0x40004, 0x40005, 0x40006, 0x40007, 0x90000, 0x90001, 0x90002, 0x90003] := by
  have htable : ∀ sge ∈ [(⟨0x1ff8, 16, 7⟩ : RoceSge), ⟨0x3000, 4, 7⟩],
      InTable { smallCtx with mrs := [some tableMr] } sge := by
    intro sge hsge mr hmr
    have hpages : tableMr.PageTable := ⟨rfl, by decide, by decide, by decide⟩
    rcases List.mem_cons.mp hsge with rfl | hsge
    · obtain rfl := Option.some.inj hmr
      exact ⟨hpages, by unfold InRange; decide, by decide⟩
    · obtain rfl := List.mem_singleton.mp hsge
      obtain rfl := Option.some.inj hmr
      exact ⟨hpages, by unfold InRange; decide, by decide⟩
  obtain ⟨r, hr, hres⟩ := @roceMrMapSge_translates _ smallQp true 1 _ htable
  have href : ((roceMrMapSge { smallCtx with mrs := [some tableMr] } smallQp
      [⟨0x1ff8, 16, 7⟩, ⟨0x3000, 4, 7⟩] true 1).toOption.map (·.refused)) = some false := by decide
  rw [hr] at href
  have href := Option.some.inj href
  obtain ⟨hret, ds, hds, haddrs⟩ := hres href
  refine ⟨r, hr, href, hret, ds, hds, ?_⟩
  rw [haddrs]
  decide

/-! ## What a creation checks -/

/-- `roce_mr_size`, with the sizes of `roce_mr` and of an `iovec`. -/
def roceMrSize (numIov : UInt32) : UInt32 := 64 + 16 * numIov

/-- The iovecs from each page on are as long as the rest of the range. -/
def PagesCover (size iova length : Nat) (iovs : List Iovec) : Prop :=
  ∀ k, k * size < iova % size + length →
    iova % size + length ≤ k * size + ((iovs.drop k).map (·.len)).sum

/-- The entries are written, and are as long as the SGE. -/
def Whole (sge : RoceSge) (iovs : List (Option Iovec)) : Prop :=
  ∃ ds : List Iovec, iovs = ds.map some ∧ (ds.map (·.len)).sum = sge.length.toNat

/-- A copy within the MR is whole exactly when the iovecs are long enough. -/
theorem mrIovCopy_whole {mr : RoceMr} {sge : RoceSge} (hin : InRange sge mr) (hpos : 0 < sge.length.toNat)
    (hsize : 0 < mr.pageSize.toNat) :
    (mr.offPages sge.addr < mr.iovs.length ∧ ∀ iovs, mrIovCopy mr sge = .ok iovs → Whole sge iovs) ↔
      sge.addr.toNat % mr.pageSize.toNat + sge.length.toNat ≤
        (iovAddrs (mr.iovs.drop (sge.addr.toNat / mr.pageSize.toNat -
          mr.iova.toNat / mr.pageSize.toNat))).length := by
  have hoff : mr.offPages sge.addr =
      sge.addr.toNat / mr.pageSize.toNat - mr.iova.toNat / mr.pageSize.toNat :=
    mrIovCopy_offPages hin hpos hsize
  have heq := mrIovCopy_eq hin hpos hsize
  rw [hoff]
  generalize sge.addr.toNat / mr.pageSize.toNat - mr.iova.toNat / mr.pageSize.toNat = first at heq
  generalize sge.addr.toNat % mr.pageSize.toNat = off at heq
  have hcopy : first < mr.iovs.length →
      mrIovCopy mr sge = .ok (iovCopyFrom (mr.iovs.drop first) off sge.length.toNat) := by
    intro hlt
    rw [heq, if_neg (by omega)]
    unfold roceIovCopy
    rw [if_neg (by rw [List.drop_eq_nil_iff]; omega), if_neg (by omega)]
  constructor
  · rintro ⟨hlt, hwhole⟩
    obtain ⟨ds, hds, hsum⟩ := hwhole _ (hcopy hlt)
    rcases iovCopyFrom_whole.mp ⟨ds, hds⟩ with hpast | hfits
    · rw [iovCopyFrom_past hpast] at hds
      obtain rfl := List.map_eq_nil_iff.mp hds.symm
      rw [List.map_nil, List.sum_nil] at hsum
      omega
    · exact hfits
  · intro hfits
    have hlt : first < mr.iovs.length := by
      by_contra hge
      rw [List.drop_eq_nil_of_le (Nat.le_of_not_lt hge), iovAddrs_nil, List.length_nil] at hfits
      omega
    refine ⟨hlt, fun iovs hiovs => ?_⟩
    obtain rfl := Except.ok.inj ((hcopy hlt).symm.trans hiovs)
    obtain ⟨ds, hds⟩ := iovCopyFrom_some hfits
    refine ⟨ds, hds, ?_⟩
    have hok : roceIovCopy (mr.iovs.drop first) off sge.length.toNat = .ok (ds.map some) := by
      unfold roceIovCopy
      rw [if_neg (by rw [List.drop_eq_nil_iff]; omega), if_neg (by omega), hds]
    rw [← length_iovAddrs, roceIovCopy_addrs hok, List.length_take, List.length_drop]
    omega

/-- The rest of the range from a page on is the longest piece that begins there. -/
theorem pagesCover_iff {size iova length : Nat} {iovs : List Iovec} (hsize : 0 < size) (hlen : 0 < length) :
    PagesCover size iova length iovs ↔
      ∀ addr len, 0 < len → len ≤ length → iova ≤ addr → addr + len ≤ iova + length →
        addr % size + len ≤ ((iovs.drop (addr / size - iova / size)).map (·.len)).sum := by
  have hmod := Nat.mod_lt iova hsize
  have hsplit := Nat.div_add_mod iova size
  constructor
  · intro hcover addr len hpos hle hlo hhi
    have hdiv : iova / size ≤ addr / size := Nat.div_le_div_right hlo
    obtain ⟨k, hk⟩ := Nat.exists_eq_add_of_le hdiv
    have hsplit' := Nat.div_add_mod addr size
    rw [hk, Nat.mul_add, Nat.mul_comm size k] at hsplit'
    have hrest := hcover k (by omega)
    rw [hk, Nat.add_sub_cancel_left]
    omega
  · intro hall k hk
    cases k with
    | zero =>
      have hfirst := hall iova length hlen (Nat.le_refl _) (Nat.le_refl _) (Nat.le_refl _)
      rw [Nat.sub_self] at hfirst
      rw [Nat.zero_mul, Nat.zero_add]
      exact hfirst
    | succ k =>
      have hstart : size ≤ (k + 1) * size := Nat.le_mul_of_pos_left size (Nat.succ_pos k)
      have hmul := Nat.mul_add size (iova / size) (k + 1)
      rw [Nat.mul_comm size (k + 1)] at hmul
      have hrest := hall (size * (iova / size + (k + 1))) (iova % size + length - (k + 1) * size)
        (by omega) (by omega) (by omega) (by omega)
      rw [Nat.mul_mod_right, Nat.mul_div_cancel_left _ hsize, Nat.add_sub_cancel_left] at hrest
      omega

theorem forall_map_ok {ε α β : Type} {x : Except ε α} {f : α → β} {P : β → Prop} :
    (∀ b, x.map f = .ok b → P b) ↔ ∀ a, x = .ok a → P (f a) := by
  cases x with
  | error e => exact ⟨fun _ a h => (by cases h), fun _ b h => (by cases h)⟩
  | ok a =>
    constructor
    · intro h a' ha
      obtain rfl := Except.ok.inj ha
      exact h _ rfl
    · intro h b hb
      obtain rfl := Except.ok.inj hb
      exact h _ rfl

section coverage

variable {ctx : RoceCtx} {qp : RoceQp} {isLocal : Bool} {access : UInt32} {sge : RoceSge} {mr : RoceMr}
  {key : Nat}

/-- One SGE of a MEM MR that grants it: the copy is all there is. -/
theorem MrGrants.roceMrMapSge_one (h : MrGrants ctx qp isLocal access sge mr) (hmem : mr.type = .mem)
    (hrange : RangeChecked sge mr) :
    roceMrMapSge ctx qp [sge] isLocal access = (mrIovCopy mr sge).map fun iovs => ⟨false, iovs, false⟩ := by
  have hdma : mr.type ≠ .dma := by
    rw [hmem]
    decide
  unfold roceMrMapSge
  rw [mrMapLoop, h.mrMapOne_eq hdma (Or.inl rfl) hrange, hmem]
  cases mrIovCopy mr sge with
  | error e => rfl
  | ok iovs =>
    show Except.ok (MapRes.mk false (iovs ++ []) false) = Except.ok (MapRes.mk false iovs false)
    rw [List.append_nil]

/-- An SGE that is not refused is granted. -/
theorem roceMrMapSge_granted (hlive : roceGetMrNoref ctx (roceKeyToIndex sge.lkey) = some mr)
    (hmem : mr.type = .mem)
    (hnot : ∀ r, roceMrMapSge ctx qp [sge] isLocal access = .ok r → r.refused = false) :
    MrGrants ctx qp isLocal access sge mr ∧ RangeChecked sge mr := by
  have hdma : mr.type ≠ .dma := by
    rw [hmem]
    decide
  unfold roceMrMapSge at hnot
  rw [mrMapLoop] at hnot
  cases hone : mrMapOne ctx qp isLocal access none sge with
  | error e =>
    obtain ⟨mr', hg, -, hrange, -⟩ := mrMapOne_error hone
    obtain rfl := Option.some.inj (hlive.symm.trans hg.live)
    exact ⟨hg, hrange⟩
  | ok o =>
    simp only [hone] at hnot
    cases o with
    | none => cases hnot _ rfl
    | some res =>
      obtain ⟨type, iovs⟩ := res
      obtain ⟨mr', hg, -, -, hcase⟩ := mrMapOne_ok hone
      obtain rfl := Option.some.inj (hlive.symm.trans hg.live)
      rcases hcase with ⟨h, -⟩ | ⟨-, hrange, -⟩
      · exact absurd h hdma
      · exact ⟨hg, hrange⟩

/-- An SGE in the range of an MR can be translated, unless it is refused. -/
def Translates (ctx : RoceCtx) (mr : RoceMr) (qp : RoceQp) (isLocal : Bool) (access : UInt32)
    (sge : RoceSge) : Prop :=
  (∀ r, roceMrMapSge ctx qp [sge] isLocal access = .ok r → r.refused = false) →
    (mr.offPages sge.addr < mr.iovs.length ∨ sge.length = 0) ∧
      ∀ r, roceMrMapSge ctx qp [sge] isLocal access = .ok r → Whole sge r.iovs

/-- Every SGE in the range can be translated exactly when the pages cover it. -/
theorem translates_iff (hlive : roceGetMrNoref ctx key = some mr)
    (hmem : mr.type = .mem) (hvalid : mr.state = .valid) (hkey : roceKeyToIndex mr.lkey = key)
    (hsize : 0 < mr.pageSize.toNat) (hlen : 0 < mr.length.toNat)
    (hspace : mr.iova.toNat + mr.length.toNat < 2 ^ 64) :
    (∀ qp isLocal access sge, roceKeyToIndex sge.lkey = key → InRange sge mr →
      Translates ctx mr qp isLocal access sge) ↔
    PagesCover mr.pageSize.toNat mr.iova.toNat mr.length.toNat mr.iovs := by
  rw [pagesCover_iff hsize hlen]
  constructor
  · intro hall addr len hpos hle hlo hhi
    have hmlen := mr.length.toNat_lt
    obtain ⟨sge, rfl, rfl, hlkey⟩ : ∃ sge : RoceSge,
        sge.addr.toNat = addr ∧ sge.length.toNat = len ∧ sge.lkey = mr.lkey := by
      refine ⟨⟨UInt64.ofNat addr, UInt32.ofNat len, mr.lkey⟩, ?_, ?_, rfl⟩
      · rw [UInt64.toNat_ofNat', Nat.mod_eq_of_lt (by omega)]
      · rw [UInt32.toNat_ofNat', Nat.mod_eq_of_lt (by omega)]
    have hidx : roceKeyToIndex sge.lkey = key := by rw [hlkey, hkey]
    -- a QP of the PD of the MR, which asks for no rights
    have hg : MrGrants ctx { smallQp with pd := mr.pd } true 0 sge mr :=
      ⟨by rw [hidx]; exact hlive, hlkey.symm, rfl, hvalid, UInt32.zero_and⟩
    have hrange : RangeChecked sge mr := by
      refine ⟨UInt64.le_iff_toNat_le.mpr hlo, ?_⟩
      rw [UInt64.le_iff_toNat_le, toNat_add_length, toNat_add_length]
      omega
    have hone := hall { smallQp with pd := mr.pd } true 0 sge hidx ⟨hlo, hhi⟩
    unfold Translates at hone
    rw [hg.roceMrMapSge_one hmem hrange, forall_map_ok, forall_map_ok] at hone
    obtain ⟨hindex, hwhole⟩ := hone fun _ _ => rfl
    have hne : sge.length ≠ 0 := by
      intro hzero
      rw [hzero] at hpos
      exact Nat.lt_irrefl _ hpos
    have hfits := (mrIovCopy_whole ⟨hlo, hhi⟩ hpos hsize).mp ⟨hindex.resolve_right hne, hwhole⟩
    rw [length_iovAddrs] at hfits
    exact hfits
  · intro hall qp isLocal access sge hidx hin hnot
    obtain ⟨hg, hrange⟩ := roceMrMapSge_granted (by rw [hidx]; exact hlive) hmem hnot
    rw [hg.roceMrMapSge_one hmem hrange, forall_map_ok]
    by_cases hzero : sge.length = 0
    · refine ⟨Or.inr hzero, fun iovs hcopy => ⟨[], mrIovCopy_zero ?_ hcopy, ?_⟩⟩
      · rw [hzero]
        rfl
      · rw [hzero]
        rfl
    · have hpos : 0 < sge.length.toNat :=
        Nat.pos_of_ne_zero fun h => hzero (UInt32.toNat_inj.mp (by rw [h]; rfl))
      obtain ⟨hlo, hhi⟩ := hin
      have hfits := hall sge.addr.toNat sge.length.toNat hpos (by omega) hlo hhi
      rw [← length_iovAddrs] at hfits
      obtain ⟨hindex, hwhole⟩ := (mrIovCopy_whole ⟨hlo, hhi⟩ hpos hsize).mpr hfits
      exact ⟨Or.inl hindex, hwhole⟩

/-- What a mapping relies on, for the MR under a key: its iovecs lie in the
memory allocated for them, every SGE in its range can be translated, and it is
no larger than the device allows.  A range of an MR that ends at `2 ^ 64` or
behind it wraps. -/
structure MrCoverage (ctx : RoceCtx) (key : Nat) (mr : RoceMr) : Prop where
  live : roceGetMrNoref ctx key = some mr
  room : 64 + 16 * mr.iovs.length ≤ (roceMrSize (UInt32.ofNat mr.iovs.length)).toNat
  covered : mr.iova.toNat + mr.length.toNat < 2 ^ 64 →
    ∀ qp isLocal access sge, roceKeyToIndex sge.lkey = key → InRange sge mr →
      Translates ctx mr qp isLocal access sge
  total : (mr.iovs.map (·.len)).sum ≤ ctx.devAttr.maxMrSize.toNat

theorem roceKeyToIndex_newKey {key : Nat} (h : key < 2 ^ 24) (random : UInt32) :
    roceKeyToIndex (roceNewKey (UInt32.ofNat key) random) = key := by
  have hrandom : (random % 256).toNat < 2 ^ 8 := by
    rw [UInt32.toNat_mod]
    exact Nat.mod_lt _ (by decide)
  have hshift : (UInt32.ofNat key <<< 8).toNat = 2 ^ 8 * key := by
    have hkey : (UInt32.ofNat key).toNat = key := by
      rw [UInt32.toNat_ofNat', Nat.mod_eq_of_lt (by omega)]
    rw [UInt32.toNat_shiftLeft, hkey, Nat.shiftLeft_eq]
    show key * 2 ^ 8 % 2 ^ 32 = 2 ^ 8 * key
    omega
  unfold roceKeyToIndex roceNewKey
  rw [UInt32.toNat_shiftRight, UInt32.toNat_or, hshift, ← Nat.two_pow_add_eq_or_of_lt hrandom,
    Nat.shiftRight_eq_div_pow]
  show (2 ^ 8 * key + (random % 256).toNat) / 2 ^ 8 = key
  omega

theorem roceGetPd_eq {ctx1 : RoceCtx} {pd : Nat} (h : roceGetPd ctx pd = some ctx1) :
    ∃ pds, ctx1 = { ctx with pds := pds } := by
  unfold roceGetPd at h
  cases hget : roceResourceGet ctx.pds pd with
  | none =>
    simp only [hget] at h
    cases h
  | some pd' =>
    simp only [hget] at h
    exact ⟨_, (Option.some.inj h).symm⟩

/-- A MEM MR keeps the iovecs it was given. -/
theorem createMrType_mem {a : MrArgs} {pageSize : UInt32} {state : MrState} {iovs : List Iovec}
    (hmem : a.type = .mem) (h : createMrType ctx a pageSize = .ok (.ok (state, iovs))) :
    state = .valid ∧ iovs = a.iovs ∧ a.length ≠ 0 ∧
      UInt32.ofNat (a.iovs.map (·.len)).sum ≤ ctx.devAttr.maxMrSize := by
  unfold createMrType at h
  simp only [hmem] at h
  by_cases hempty : a.iovs = []
  · rw [if_pos hempty] at h
    cases h
  by_cases hlong : UInt32.ofNat (a.iovs.map (·.len)).sum > ctx.devAttr.maxMrSize
  · rw [if_neg hempty, if_pos hlong] at h
    cases h
  by_cases hzero : a.length = 0
  · rw [if_neg hempty, if_neg hlong, if_pos hzero] at h
    cases h
  rw [if_neg hempty, if_neg hlong, if_neg hzero] at h
  obtain ⟨rfl, rfl⟩ := Prod.mk.inj (Except.ok.inj (Except.ok.inj h))
  exact ⟨rfl, rfl, hzero, UInt32.not_lt.mp hlong⟩

/-- The allocation holds the entries exactly when its size does not wrap. -/
theorem roceMrSize_room (n : Nat) :
    64 + 16 * n ≤ (roceMrSize (UInt32.ofNat n)).toNat ↔ 64 + 16 * n < 2 ^ 32 := by
  have hsize : (roceMrSize (UInt32.ofNat n)).toNat = (64 + 16 * n) % 2 ^ 32 := by
    unfold roceMrSize
    rw [UInt32.toNat_add, UInt32.toNat_mul, UInt32.toNat_ofNat']
    show (64 + 16 * (n % 2 ^ 32) % 2 ^ 32) % 2 ^ 32 = _
    omega
  rw [hsize]
  omega

theorem MrArgs.pages_pos (a : MrArgs) (hpage : rocePowerOf2 ctx.pageSize.toUInt64 = true) :
    0 < (a.pages ctx).toNat := by
  have hne : a.pages ctx ≠ 0 := by
    unfold MrArgs.pages
    by_cases hzero : a.pageSize ≠ 0
    · rw [if_pos hzero]
      exact hzero
    · rw [if_neg hzero]
      intro hctx
      rw [hctx] at hpage
      cases hpage
  exact Nat.pos_of_ne_zero fun h => hne (UInt32.toNat_inj.mp h)

/-- **Creation.**  A new MEM MR has what a mapping relies on exactly when the
lengths of its iovecs and the size of the allocation do not wrap, and its pages
cover its range. -/
theorem roceCreateMr_coverage {ctx' : RoceCtx} {a : MrArgs} {calloc : Bool} {random0 random1 : UInt32}
    {ret : Int} (hpage : rocePowerOf2 ctx.pageSize.toUInt64 = true) (hmrs : ctx.mrs.length ≤ 2 ^ 24)
    (hmem : a.type = .mem) (h : roceCreateMr ctx a calloc random0 random1 = .ok (ret, ctx'))
    (hret : 0 ≤ ret) :
    MrCoverage ctx' ret.toNat (a.mr (a.pages ctx) .valid a.iovs random0 random1 ret.toNat) ↔
      64 + 16 * a.iovs.length < 2 ^ 32 ∧ (a.iovs.map (·.len)).sum < 2 ^ 32 ∧
      (a.iova.toNat + a.length.toNat < 2 ^ 64 →
        PagesCover (a.pages ctx).toNat a.iova.toNat a.length.toNat a.iovs) := by
  cases roceCreateMr_makes h with
  | refused hneg => omega
  | released ctx1 hneg => omega
  | created ctx1 key state iovs hpages hget htype hempty hkey hctx =>
    obtain ⟨pds, rfl⟩ := roceGetPd_eq hget
    obtain ⟨rfl, rfl, hlen, hmax⟩ := createMrType_mem hmem htype
    obtain ⟨hlt, -⟩ := List.getElem?_eq_some_iff.mp hempty
    have hlt : key < ctx.mrs.length := hlt
    subst hkey hctx
    show MrCoverage _ key (a.mr (a.pages ctx) .valid a.iovs random0 random1 key) ↔ _
    have hlive : roceGetMrNoref (setMr { ctx with pds := pds } key
        (a.mr (a.pages ctx) .valid a.iovs random0 random1 key)) key =
        some (a.mr (a.pages ctx) .valid a.iovs random0 random1 key) := by
      unfold roceGetMrNoref roceResourceGet setMr
      rw [List.getElem?_set_self hlt]
      rfl
    have hpos : 0 < a.length.toNat := Nat.pos_of_ne_zero fun hz => hlen (UInt32.toNat_inj.mp hz)
    have hmax := UInt32.le_iff_toNat_le.mp hmax
    rw [UInt32.toNat_ofNat'] at hmax
    have hmaxlt := ctx.devAttr.maxMrSize.toNat_lt
    have htrans := translates_iff hlive hmem rfl (roceKeyToIndex_newKey (by omega) random0)
      (a.pages_pos hpage) hpos
    constructor
    · rintro ⟨-, hroom, hcovered, htotal⟩
      refine ⟨(roceMrSize_room _).mp hroom, Nat.lt_of_le_of_lt htotal hmaxlt, fun hspace => ?_⟩
      exact (htrans hspace).mp (hcovered hspace)
    · rintro ⟨hroom, hsum, hcover⟩
      refine ⟨hlive, (roceMrSize_room _).mpr hroom, fun hspace => (htrans hspace).mpr (hcover hspace), ?_⟩
      rw [Nat.mod_eq_of_lt hsum] at hmax
      exact hmax

/-- A length of two pages, and one of them. -/
def halfMr : MrArgs := { smallMr with length := 8192 }

/-- The key of the MR is 0 and in range is a second page that it does not have. -/
theorem roceCreateMr_coverage_half :
    ∃ ctx', roceCreateMr smallCtx halfMr true 0 0 = .ok (0, ctx') ∧
      ¬ MrCoverage ctx' 0 (halfMr.mr 4096 .valid halfMr.iovs 0 0 0) := by
  refine ⟨withMr smallCtx halfMr, rfl, fun h => ?_⟩
  have hone := h.covered (by decide) smallQp true 1 ⟨0x11000, 1, 0⟩ rfl (by unfold InRange; decide)
    (by
      intro r hr
      have hfault : roceMrMapSge (withMr smallCtx halfMr) smallQp [⟨0x11000, 1, 0⟩] true 1 =
          .error (.abort .iovCopySrc) := rfl
      rw [hfault] at hr
      cases hr)
  rcases hone.1 with hindex | hzero
  · exact absurd hindex (by decide)
  · exact absurd hzero (by decide)

/-- Two pages for a range of two pages less a byte, from the second byte on. -/
def fitMr : MrArgs :=
  { smallMr with iova := 0x10001, length := 8191, iovs := [⟨0x50000, 4096⟩, ⟨0x20000, 4096⟩] }

theorem roceCreateMr_coverage_fits :
    MrCoverage (withMr smallCtx fitMr) 0 (fitMr.mr 4096 .valid fitMr.iovs 0 0 0) := by
  have hcreate : roceCreateMr smallCtx fitMr true 0 0 = .ok (0, withMr smallCtx fitMr) := rfl
  have hiff := roceCreateMr_coverage (by decide) (by decide) rfl hcreate (by decide)
  refine hiff.mpr ⟨by decide, by decide, fun _ k hk => ?_⟩
  have hpage : (fitMr.pages smallCtx).toNat = 4096 := rfl
  have hiova : fitMr.iova.toNat = 0x10001 := rfl
  have hlength : fitMr.length.toNat = 8191 := rfl
  rw [hpage, hiova, hlength] at hk ⊢
  have hfew : k = 0 ∨ k = 1 := by omega
  rcases hfew with rfl | rfl
  · decide
  · decide

end coverage

end Libroce
