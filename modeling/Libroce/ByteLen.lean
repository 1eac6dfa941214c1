import Libroce.Landing
import Libroce.Segmentation
import Libroce.SendLedger

/-!
# The length a completion reports

The packets of a WR are built from one length and the completion computes
another: `roce_sge_len` of the entries, also when these are inline data.

    carried pkts      the payload bytes of the packets
    FullyMapped       the MRs have memory for every byte of the SGEs   (mrMapLoop_full)
    Measured          when the two agree
    departure         what is seen of a WR that leaves

Main statement: `reqRun_byteLen`.
-/

namespace Libroce

open Machine

/-! ## The SGEs of the packets, once more -/

section sgeCuts

variable {sges : List RoceSge} {sizes : List Nat} {segs segs' : List (List RoceSge)}
  {n idx off idx' off' : Nat}

theorem SgeCuts.nil_inv (h : SgeCuts sges [] segs idx off) : segs = [] ∧ idx = 0 ∧ off = 0 := by
  generalize hs : ([] : List Nat) = sz at h
  cases h with
  | nil => exact ⟨rfl, rfl, rfl⟩
  | snoc h hadv => simp at hs

theorem SgeCuts.snoc_inv (h : SgeCuts sges (sizes ++ [n]) segs idx' off') :
    ∃ segs0 idx off dst, SgeCuts sges sizes segs0 idx off ∧
      roceSgeAdvance sges n idx off = .ok (dst, idx', off') ∧ segs = segs0 ++ [dst] := by
  generalize hs : sizes ++ [n] = sz at h
  cases h with
  | nil => simp at hs
  | snoc h hadv =>
    obtain ⟨rfl, hn⟩ := List.append_inj' hs rfl
    obtain rfl := List.singleton_inj.mp hn
    exact ⟨_, _, _, _, h, hadv, rfl⟩

/-- The sizes say which SGEs are picked. -/
theorem SgeCuts.unique (h : SgeCuts sges sizes segs idx off) (h' : SgeCuts sges sizes segs' idx' off') :
    segs' = segs ∧ idx' = idx ∧ off' = off := by
  induction h generalizing segs' idx' off' with
  | nil => exact h'.nil_inv
  | snoc h hadv ih =>
    obtain ⟨segs0, idx0, off0, dst, h0, hadv', rfl⟩ := h'.snoc_inv
    obtain ⟨rfl, rfl, rfl⟩ := ih h0
    obtain ⟨rfl, hcursor⟩ := Prod.mk.inj (Except.ok.inj (hadv'.symm.trans hadv))
    obtain ⟨rfl, rfl⟩ := Prod.mk.inj hcursor
    exact ⟨rfl, rfl, rfl⟩

/-- What is picked and what is left. -/
theorem SgeCuts.rest (h : SgeCuts sges sizes segs idx off) :
    sizes.sum + sgeRest sges idx off = sgeTotal sges := by
  induction h with
  | nil => exact Nat.zero_add _
  | snoc h hadv ih =>
    obtain ⟨hcursor, hfits⟩ := roceSgeAdvance_fits hadv
    obtain ⟨dst, idx', off', hadv', -, hrest, -⟩ := roceSgeAdvance_spec hcursor hfits
    obtain ⟨-, hend⟩ := Prod.mk.inj (Except.ok.inj (hadv'.symm.trans hadv))
    obtain ⟨rfl, rfl⟩ := Prod.mk.inj hend
    rw [List.sum_append_nat, List.sum_singleton, hrest]
    omega

theorem SegmentsOf.unique {wr : SendWr} {mtu : Nat} (h : SegmentsOf wr mtu segs)
    (h' : SegmentsOf wr mtu segs') : segs' = segs := by
  rcases h with ⟨hle, rfl⟩ | ⟨hlt, idx, off, hcuts⟩
  · rcases h' with ⟨-, rfl⟩ | ⟨hlt, -⟩
    · rfl
    · omega
  · rcases h' with ⟨hle, -⟩ | ⟨-, idx', off', hcuts'⟩
    · omega
    · exact (hcuts.unique hcuts').1

end sgeCuts

/-! ## Two lengths -/

/-- The payload bytes of packets. -/
def carried (pkts : List RoceNetpkt) : Nat := (pkts.map (·.payload.flatten.length)).sum

/-- The MR of the SGE has memory for all its bytes: its iovecs do, from the page
of the address on. -/
def SgeFull (ctx : RoceCtx) (sge : RoceSge) : Prop :=
  ∀ mr, roceGetMrNoref ctx (roceKeyToIndex sge.lkey) = some mr → mr.type ≠ .dma →
    sge.length.toNat ≤ iovecsLen (mr.iovs.drop (mr.offPages sge.addr)) - mr.offBytes sge.addr

/-- The keys open MRs with memory for every byte of the SGEs; only empty ones may
follow these. -/
def FullyMapped (ctx : RoceCtx) (qp : RoceQp) (sges : List RoceSge) : Prop :=
  ∃ mapped rest, sges = mapped ++ rest ∧ Opens ctx qp true 0 mapped ∧ (∀ sge ∈ mapped, SgeFull ctx sge) ∧
    sgeTotal rest = 0

/-- The lengths of the entries say what the packets carry: inline data happens
to, and SGEs do when their MRs hold all they ask for. -/
structure Measured (ctx : RoceCtx) (qp : RoceQp) (wr : SendWr) : Prop where
  inline : roceSendWrIsInline wr = true → wr.sge ≠ [] ∧ sgeTotal wr.sge = (inlineLen wr).toNat
  filled : ∀ mtu segs, roceGetMtu ctx qp = .ok mtu →
    (roceSendWrIsInline wr = false ∨ mtu.toNat < wr.len) → SegmentsOf wr mtu.toNat segs →
    ∀ seg ∈ segs, FullyMapped ctx qp seg

section measured

variable {ctx : RoceCtx} {qp : RoceQp} {wr : SendWr} {pkt : RoceNetpkt} {pkts : List RoceNetpkt}
  {seg : List RoceSge} {segs : List (List RoceSge)}

/-- One turn stores iovecs for all bytes of the SGE exactly when the MR has them. -/
theorem mrMapOne_full {isLocal : Bool} {access : UInt32} {mrType : Option MrType} {sge : RoceSge}
    {type : MrType} {iovs : List (Option Iovec)}
    (h : mrMapOne ctx qp isLocal access mrType sge = .ok (some (type, iovs))) :
    OpensAs ctx qp isLocal access type sge ∧ iovTotal iovs ≤ sge.length.toNat ∧
      (iovTotal iovs = sge.length.toNat ↔ SgeFull ctx sge) := by
  obtain ⟨mr, hg, rfl, -, ⟨hdma, hgsi, rfl⟩ | ⟨hdma, hrange, hcopy⟩⟩ := mrMapOne_ok h
  · refine ⟨⟨mr, hg, rfl, by rw [if_pos hdma]; exact hgsi⟩, Nat.le_refl _, iff_of_true rfl ?_⟩
    intro mr' hlive hno
    obtain rfl := Option.some.inj (hg.live.symm.trans hlive)
    exact absurd hdma hno
  · refine ⟨⟨mr, hg, rfl, by rw [if_neg hdma]; exact hrange⟩, ?_, ?_⟩
    · rw [mrIovCopy_total hcopy]
      exact Nat.min_le_left _ _
    · rw [mrIovCopy_total hcopy]
      constructor
      · intro hall mr' hlive _
        obtain rfl := Option.some.inj (hg.live.symm.trans hlive)
        omega
      · intro hfull
        have hle := hfull mr hg.live hdma
        omega

/-- The loop: up to its refusal, if it has one, behind which nothing is stored. -/
theorem mrMapLoop_full {isLocal : Bool} {access : UInt32} {sges : List RoceSge} {mrType : Option MrType}
    {dmamap : Bool} {r : MapRes} (h : mrMapLoop ctx qp isLocal access sges mrType dmamap = .ok r) :
    iovTotal r.iovs = sgeTotal sges ↔ ∃ type mapped rest, (mrType = none ∨ mrType = some type) ∧
      sges = mapped ++ rest ∧ (∀ sge ∈ mapped, OpensAs ctx qp isLocal access type sge) ∧
      (∀ sge ∈ mapped, SgeFull ctx sge) ∧ sgeTotal rest = 0 := by
  -- where nothing is stored, nothing is asked for
  have hstop : ∀ {mrType : Option MrType} {sges : List RoceSge}, sgeTotal sges = 0 →
      ∃ type mapped rest, (mrType = none ∨ mrType = some type) ∧ sges = mapped ++ rest ∧
        (∀ sge ∈ mapped, OpensAs ctx qp isLocal access type sge) ∧ (∀ sge ∈ mapped, SgeFull ctx sge) ∧
        sgeTotal rest = 0 := by
    intro mrType sges hzero
    refine ⟨mrType.getD .mem, [], sges, ?_, rfl, ?_, ?_, hzero⟩
    · cases mrType
      · exact Or.inl rfl
      · exact Or.inr rfl
    · exact fun sge hsge => absurd hsge List.not_mem_nil
    · exact fun sge hsge => absurd hsge List.not_mem_nil
  induction sges generalizing mrType dmamap r with
  | nil =>
    obtain rfl := Except.ok.inj h
    exact iff_of_true rfl (hstop rfl)
  | cons sge sges ih =>
    have hle := mrMapLoop_total h
    rw [mrMapLoop] at h
    split at h
    · cases h
    · next hone =>
      obtain rfl := Except.ok.inj h
      constructor
      · exact fun hzero => hstop hzero.symm
      · rintro ⟨type, mapped, rest, hsame, hsges, hopen, -, hzero⟩
        cases mapped with
        | nil =>
          rw [hsges]
          exact hzero.symm
        | cons d mapped =>
          obtain ⟨rfl, -⟩ := List.cons.inj hsges
          obtain ⟨mr, hg, htype, hrange⟩ := hopen sge List.mem_cons_self
          exact absurd hone (mrMapOne_opened hg htype hrange hsame).1
    · next type iovs hone =>
      split at h
      · cases h
      · next r' hloop =>
        obtain rfl := Except.ok.inj h
        obtain ⟨hopen1, hle1, hfull1⟩ := mrMapOne_full hone
        have hrest := mrMapLoop_total hloop
        obtain ⟨mr, hg, rfl, htype, -⟩ := mrMapOne_ok hone
        show iovTotal (iovs ++ r'.iovs) = _ ↔ _
        rw [iovTotal_append, sgeTotal_cons]
        constructor
        · intro hsum
          obtain ⟨type, mapped, rest, hsame, rfl, hopen, hfull, hzero⟩ := (ih hloop).mp (by omega)
          obtain rfl : mr.type = type := hsame.elim (fun hno => by cases hno) Option.some.inj
          refine ⟨mr.type, sge :: mapped, rest, htype, rfl, ?_, ?_, hzero⟩
          · exact List.forall_mem_cons.mpr ⟨hopen1, hopen⟩
          · exact List.forall_mem_cons.mpr ⟨hfull1.mp (by omega), hfull⟩
        · rintro ⟨type, mapped, rest, hsame, hsges, hopen, hfull, hzero⟩
          cases mapped with
          | nil =>
            rw [List.nil_append] at hsges
            rw [← hsges, sgeTotal_cons] at hzero
            omega
          | cons d mapped =>
            obtain ⟨rfl, rfl⟩ := List.cons.inj hsges
            obtain ⟨⟨mr', hg', rfl, -⟩, hopen⟩ := List.forall_mem_cons.mp hopen
            obtain rfl := Option.some.inj (hg.live.symm.trans hg'.live)
            obtain ⟨hfirst, hfull⟩ := List.forall_mem_cons.mp hfull
            have hlater := (ih hloop).mpr ⟨mr.type, mapped, rest, Or.inr rfl, rfl, hopen, hfull, hzero⟩
            rw [hfull1.mpr hfirst, hlater]

theorem MapsTo.length (h : MapsTo ctx qp pkt seg) : pkt.payload.flatten.length ≤ sgeTotal seg ∧
    (pkt.payload.flatten.length = sgeTotal seg ↔ FullyMapped ctx qp seg) := by
  obtain ⟨pages, -, h⟩ := h
  refine ⟨pktMapSge_total h, ?_⟩
  unfold pktMapSge at h
  obtain ⟨r, hr, h⟩ := bind_eq_ok.mp h
  have hlen : pkt.payload.flatten.length = iovTotal r.iovs := by
    simp only at h
    split at h
    · cases h
    · split at h
      · rw [← Option.some.inj (Except.ok.inj h)]
        exact length_iovBytes ctx.mem r.iovs
      · cases h
  rw [hlen, mrMapLoop_full hr]
  constructor
  · rintro ⟨type, mapped, rest, -, hseg, hopen, hfull, hzero⟩
    exact ⟨mapped, rest, hseg, ⟨type, hopen⟩, hfull, hzero⟩
  · rintro ⟨mapped, rest, hseg, ⟨type, hopen⟩, hfull, hzero⟩
    exact ⟨type, mapped, rest, Or.inl rfl, hseg, hopen, hfull, hzero⟩

/-- The payloads do not hang on the references. -/
theorem Carried.congr {ctx' : RoceCtx} {mtu : Nat} (h : Carried ctx' qp wr mtu pkts)
    (hmap : ∀ sges, roceMrMapSge ctx' qp sges true 0 = roceMrMapSge ctx qp sges true 0)
    (hrefs : RefsOnly ctx ctx') : Carried ctx qp wr mtu pkts := by
  have hone : ∀ pkt sges, MapsTo ctx' qp pkt sges → MapsTo ctx qp pkt sges := by
    rintro pkt sges ⟨pages, hpages, h⟩
    unfold pktMapSge at h
    rw [hmap] at h
    unfold RefsOnly at hrefs
    rw [hrefs] at hpages h
    exact ⟨pages, hpages, h⟩
  rcases h with hin | ⟨hmode, segs, hsegs, hmaps⟩
  · exact Or.inl hin
  · exact Or.inr ⟨hmode, segs, hsegs, hmaps.imp hone⟩

/-- Packets carry what their SGEs ask for, or less. -/
theorem mapsTo_carried (h : List.Forall₂ (MapsTo ctx qp) pkts segs) :
    carried pkts ≤ (segs.map sgeTotal).sum ∧
      (carried pkts = (segs.map sgeTotal).sum ↔ ∀ seg ∈ segs, FullyMapped ctx qp seg) := by
  induction h with
  | nil => exact ⟨Nat.le_refl _, iff_of_true rfl fun seg hseg => absurd hseg List.not_mem_nil⟩
  | @cons pkt seg pkts segs hpkt _ ih =>
    obtain ⟨hle, hiff⟩ := ih
    obtain ⟨hone, hfilled⟩ := hpkt.length
    have hsum : carried (pkt :: pkts) = pkt.payload.flatten.length + carried pkts := List.sum_cons
    rw [hsum, List.map_cons, List.sum_cons, List.forall_mem_cons, ← hfilled, ← hiff]
    omega

/-- The length of all entries. -/
theorem roceSgeLen_eq_total {sges : List RoceSge} {n : Nat} (hn : n < 2 ^ 32) :
    (∃ len, roceSgeLen sges 0 0 = .ok len ∧ len.toNat = n) ↔ sges ≠ [] ∧ sgeTotal sges = n := by
  constructor
  · rintro ⟨len, hlen, rfl⟩
    obtain ⟨⟨sge, rest, hdrop, -⟩, htotal⟩ := roceSgeLen_ok hlen
    refine ⟨?_, htotal.symm⟩
    rintro rfl
    cases hdrop
  · rintro ⟨hne, rfl⟩
    obtain ⟨sge, rest, rfl⟩ := List.exists_cons_of_ne_nil hne
    have hcursor : CursorIn (sge :: rest) 0 0 := ⟨sge, rest, rfl, Nat.zero_le _⟩
    refine ⟨_, roceSgeLen_eq_ok hcursor hn, ?_⟩
    show (UInt32.ofNat (sgeTotal (sge :: rest))).toNat = _
    rw [UInt32.toNat_ofNat', Nat.mod_eq_of_lt hn]

/-- **The two lengths agree exactly then.** -/
theorem Carried.measured {mtu : UInt16} {payload : UInt32} (h : Carried ctx qp wr mtu.toNat pkts)
    (hmtu : roceGetMtu ctx qp = .ok mtu) (hlen : requestLen wr = .ok payload) :
    (∃ len, roceSgeLen wr.sge 0 0 = .ok len ∧ len.toNat = carried pkts) ↔ Measured ctx qp wr := by
  have hfit : wr.len < 2 ^ 32 := by
    rw [← requestLen_ok hlen]
    exact payload.toNat_lt
  have hinlineLen : roceSendWrIsInline wr = true → wr.len = (inlineLen wr).toNat := by
    intro hin
    unfold SendWr.len
    rw [if_pos hin]
  rcases h with ⟨hin, hle, hsizes⟩ | ⟨hmode, segs, hsegs, hmaps⟩
  · have hcarried : carried pkts = wr.len := by
      unfold carried
      rw [hsizes, List.sum_singleton]
    rw [hcarried, roceSgeLen_eq_total hfit, hinlineLen hin]
    constructor
    · intro hsame
      refine ⟨fun _ => hsame, ?_⟩
      rintro mtu' segs hmtu' (hno | hlt) - seg -
      · rw [hin] at hno
        cases hno
      · obtain rfl := Except.ok.inj (hmtu.symm.trans hmtu')
        omega
    · intro hmeasured
      exact hmeasured.inline hin
  · obtain ⟨hcarried, hfilled⟩ := mapsTo_carried hmaps
    rw [hsegs.totals hmode hfit, Segment.sum_sizes] at hcarried hfilled
    rw [roceSgeLen_eq_total (by omega)]
    have hall : carried pkts = wr.len ↔ ∀ mtu segs, roceGetMtu ctx qp = .ok mtu →
        (roceSendWrIsInline wr = false ∨ mtu.toNat < wr.len) → SegmentsOf wr mtu.toNat segs →
        ∀ seg ∈ segs, FullyMapped ctx qp seg := by
      rw [hfilled]
      constructor
      · intro hsegsFilled mtu' segs' hmtu' _ hsegs'
        obtain rfl := Except.ok.inj (hmtu.symm.trans hmtu')
        rw [hsegs.unique hsegs']
        exact hsegsFilled
      · intro hevery
        exact hevery mtu segs hmtu hmode hsegs
    by_cases hin : roceSendWrIsInline wr = true
    · -- longer than a packet: the inline data was cut as if it were SGEs
      have hbound : wr.len ≤ sgeTotal wr.sge := by
        rcases hsegs with ⟨hle, -⟩ | ⟨-, idx, off, hcuts⟩
        · rcases hmode with hno | hlt
          · rw [hin] at hno
            cases hno
          · omega
        · have hrest := hcuts.rest
          rw [Segment.sum_sizes] at hrest
          omega
      constructor
      · rintro ⟨hne, htotal⟩
        have hsame : carried pkts = wr.len := by omega
        exact ⟨fun _ => ⟨hne, by rw [htotal, hsame, hinlineLen hin]⟩, hall.mp hsame⟩
      · intro hmeasured
        obtain ⟨hne, htotal⟩ := hmeasured.inline hin
        refine ⟨hne, ?_⟩
        rw [hall.mpr hmeasured.filled, hinlineLen hin]
        exact htotal
    · have htotal : wr.len = sgeTotal wr.sge := by
        unfold SendWr.len
        rw [if_neg hin]
      have hne : wr.sge ≠ [] := by
        unfold requestLen at hlen
        rw [if_neg hin] at hlen
        obtain ⟨⟨sge, rest, hdrop, -⟩, -⟩ := roceSgeLen_ok hlen
        intro hnil
        rw [hnil] at hdrop
        cases hdrop
      constructor
      · rintro ⟨-, hsame⟩
        refine ⟨fun hyes => absurd hyes hin, hall.mp ?_⟩
        omega
      · intro hmeasured
        have hsame := hall.mpr hmeasured.filled
        exact ⟨hne, by omega⟩

end measured

/-! ## Jobs -/

/-- The completion of the job is computed, and its length is that of the
packets. -/
def Job.LenOk (qp : RoceQp) (job : Job) : Prop :=
  ∃ len, completionEvents qp job.wr = .ok [.cqComp (sendWc qp job.wr roceWcSuccess len) qp.scq] ∧
    len.toNat = carried job.pkts

theorem Job.lenOk_iff {qp : RoceQp} {job : Job} (hsig : wrSignaled qp job.wr = true) :
    job.LenOk qp ↔ ∃ len, roceSgeLen job.wr.sge 0 0 = .ok len ∧ len.toNat = carried job.pkts := by
  unfold Job.LenOk completionEvents
  rw [if_pos hsig]
  constructor
  · rintro ⟨len, hevents, hcarried⟩
    obtain ⟨len', hlen, hevents⟩ := bind_eq_ok.mp hevents
    have hwc := (Event.cqComp.inj (List.cons.inj (Except.ok.inj hevents)).1).1
    have hsame : len' = len := congrArg RoceWc.byteLen hwc
    exact ⟨len', hlen, by rw [hsame]; exact hcarried⟩
  · rintro ⟨len, hlen, hcarried⟩
    refine ⟨len, ?_, hcarried⟩
    rw [hlen]
    rfl

theorem pktOps_isSome {wr : SendWr} (hop : roceSendWrIsLocal wr = false ∧ ¬Unimplemented wr.opcode) :
    ∃ ops, pktOps wr.opcode = some ops := by
  obtain ⟨hlocal, hun⟩ := hop
  unfold roceSendWrIsLocal at hlocal
  unfold Unimplemented at hun
  cases h : wr.opcode <;> simp only [h] at hlocal hun
  case send | sendWithImm | sendWithInv | rdmaWrite | rdmaWriteWithImm => exact ⟨_, rfl⟩
  case localInv | regMr | bindMw => cases hlocal
  all_goals exact absurd (by decide) hun

/-- With its references a WR is mapped as before. -/
theorem postGetMrs_map {s s1 : St} {wr wr1 : SendWr} (h : postGetMrs s wr = .ok (s1, wr1))
    (herr : wr1.error = 0) (qp : RoceQp) (sges : List RoceSge) :
    roceMrMapSge s1.ctx qp sges true 0 = roceMrMapSge s.ctx qp sges true 0 := by
  unfold postGetMrs at h
  split at h
  · obtain ⟨rfl, rfl⟩ := Prod.mk.inj (Except.ok.inj h)
    rfl
  · obtain ⟨⟨ret, ctx⟩, hget, h⟩ := bind_eq_ok.mp h
    obtain ⟨rfl, rfl⟩ := Prod.mk.inj (Except.ok.inj h)
    rcases roceGetMrs_ret hget with rfl | rfl
    · exact roceGetMrs_map hget qp true 0 sges
    · have hfail : UInt8.ofInt eACCES ≠ 0 := by decide
      exact absurd herr hfail

/-- **A post.**  The lengths of its job agree exactly when it is measured. -/
theorem post_lenOk {s t : St} {wr : SendWr} {calloc : Nat → Bool}
    (hp : reqPrepare s (.post wr calloc) = .ok (some t)) :
    ∃ job, postedJob s (.post wr calloc) = [job] ∧ t.qp.sq = s.qp.sq ++ [job.wr] ∧ RefsOnly s.ctx t.ctx ∧
      (job.pkts ≠ [] → wrSignaled s.qp job.wr = true → (job.LenOk s.qp ↔ Measured s.ctx s.qp job.wr)) := by
  obtain ⟨ctx, wr1, qp, wr2, hget, hbuild, rfl⟩ := reqPrepare_post_ok hp
  obtain ⟨hrefs, -⟩ := postGetMrs_ok hget
  refine ⟨_, postedJob_post hp rfl, rfl, hrefs, ?_⟩
  intro hne hsig
  have hnone : qp = s.qp → False := by
    rintro rfl
    exact hne List.drop_length
  unfold requestBuild at hbuild
  by_cases herr : wr1.error = 0
  · rw [if_pos herr] at hbuild
    have hbuilt : wr2 = wr1 ∧ roceSendWrIsLocal wr1 = false ∧ ¬Unimplemented wr1.opcode := by
      cases roceRcBuildPkts_ok hbuild with
      | failed e he => exact (hnone rfl).elim
      | skipped h => exact (hnone rfl).elim
      | queued pkts h hop hs => exact ⟨rfl, hop⟩
    obtain ⟨rfl, hop⟩ := hbuilt
    obtain ⟨ops, hops⟩ := pktOps_isSome hop
    obtain ⟨-, ⟨payload, hlen⟩, mtu, pkts, hmtu, rfl, -, hcarried⟩ := roceRcBuildPkts_headed hops herr hbuild
    have hpkts : (s.qp.push pkts).req.pendingPkts.drop s.qp.req.pendingPkts.length = pkts := List.drop_left
    rw [Job.lenOk_iff hsig]
    show (∃ len : UInt32, _ ∧ len.toNat = carried ((s.qp.push pkts).req.pendingPkts.drop _)) ↔ _
    rw [hpkts]
    rw [hrefs.roceGetMtu s.qp] at hmtu
    exact (hcarried.congr (postGetMrs_map hget herr s.qp) hrefs).measured hmtu hlen
  · rw [if_neg herr] at hbuild
    obtain ⟨rfl, -⟩ := Prod.mk.inj (Except.ok.inj hbuild)
    exact (hnone rfl).elim

/-! ## Runs -/

/-- A post that is measured, if it asks for a completion and packets are built. -/
def PostsMeasured (s : St) (op : ReqOp) : Prop :=
  ∀ job ∈ postedJob s op, job.pkts ≠ [] → wrSignaled s.qp job.wr = true → Measured s.ctx s.qp job.wr

section runs

variable {s t u : St} {op : ReqOp} {ops : List ReqOp}

theorem postedJob_lenOk (hrc : s.qp.qpType = .rc) (hs : reqStep s op = .ok t) :
    (∀ job ∈ postedJob s op, job.pkts ≠ [] → wrSignaled s.qp job.wr = true → job.LenOk s.qp) ↔
      PostsMeasured s op := by
  cases op with
  | acknowledge syndrome val psn msn =>
    have hnone : postedJob s (.acknowledge syndrome val psn msn) = [] := rfl
    unfold PostsMeasured
    rw [hnone]
    exact iff_of_true (fun _ hjob => absurd hjob List.not_mem_nil) fun _ hjob => absurd hjob List.not_mem_nil
  | post wr calloc =>
    obtain ⟨v, -, hp, -, -⟩ := reqStep_post_ok hrc hs
    obtain ⟨job, hjob, -, -, hiff⟩ := post_lenOk hp
    unfold PostsMeasured
    rw [hjob, List.forall_mem_singleton, List.forall_mem_singleton]
    constructor
    · intro h hne hsig
      exact (hiff hne hsig).mp (h hne hsig)
    · intro h hne hsig
      exact (hiff hne hsig).mpr (h hne hsig)

/-- What a completion shows of the QP stays. -/
theorem RequesterOnly.lenOk {qp qp' : RoceQp} (hf : RequesterOnly qp qp') (job : Job) :
    (wrSignaled qp' job.wr = true ↔ wrSignaled qp job.wr = true) ∧ (job.LenOk qp' ↔ job.LenOk qp) := by
  unfold Job.LenOk completionEvents sendWc wrSignaled
  rw [hf]
  exact ⟨Iff.rfl, Iff.rfl⟩

/-- The jobs of a run are measured when its posts are. -/
theorem runJobs_lenOk (hrc : s.qp.qpType = .rc) (hr : run reqStep s ops = .ok t) :
    (∀ job ∈ runJobs s ops, job.pkts ≠ [] → wrSignaled s.qp job.wr = true → job.LenOk s.qp) ↔
      Along reqStep PostsMeasured s ops := by
  induction ops generalizing s with
  | nil => exact iff_of_true (fun _ hjob => absurd hjob List.not_mem_nil) trivial
  | cons op ops ih =>
    obtain ⟨u, hu, hr⟩ := run_cons_eq_ok reqStep hr
    have hf := reqStep_requesterOnly hrc hu
    have hrest := ih (hf.qpType.trans hrc) hr
    rw [runJobs_cons_ok ops hu, List.forall_mem_append, postedJob_lenOk hrc hu]
    have hmove : (∀ job ∈ runJobs u ops, job.pkts ≠ [] → wrSignaled s.qp job.wr = true → job.LenOk s.qp) ↔
        ∀ job ∈ runJobs u ops, job.pkts ≠ [] → wrSignaled u.qp job.wr = true → job.LenOk u.qp := by
      apply forall₂_congr
      intro job _
      obtain ⟨hsig, hlen⟩ := hf.lenOk job
      rw [hsig, hlen]
    rw [hmove, hrest]
    constructor
    · rintro ⟨hop, halong⟩
      refine ⟨hop, ?_⟩
      intro u' hu'
      obtain rfl := Except.ok.inj (hu.symm.trans hu')
      exact halong
    · rintro ⟨hop, halong⟩
      exact ⟨hop, halong u hu⟩

/-- One step: WRs that were on the queue, or that it posts, leave. -/
theorem reqStep_departs (hrc : s.qp.qpType = .rc) (hs : reqStep s op = .ok t) :
    ∃ gone, s.qp.sq ++ (postedJob s op).map (·.wr) = gone ++ t.qp.sq ∧
      ∃ es, t.ctx.trace = s.ctx.trace ++ es ∧ es.filter isQueueEvent = gone.flatMap (departure s.qp) := by
  cases op with
  | acknowledge syndrome val psn msn =>
    have hack : roceHandleAcknowledge s syndrome val psn msn = .ok t := hs
    obtain ⟨gone, hgone⟩ := roceHandleAcknowledge_departs hack
    refine ⟨gone, ?_, hgone.events⟩
    rw [← hgone.queue]
    exact List.append_nil _
  | post wr calloc =>
    obtain ⟨v, w, hp, hx, rfl⟩ := reqStep_post_ok hrc hs
    obtain ⟨job, hjob, hsq, hrefs, -⟩ := post_lenOk hp
    have hgone := (roceXmitPkts_ok hx).departs.trans (roceCompleteHead_departs w)
    rw [List.nil_append] at hgone
    obtain ⟨es, hes, hevents⟩ := hgone.events
    rw [(reqPrepare_requesterOnly hp).departure] at hevents
    refine ⟨_, ?_, es, ?_, hevents⟩
    · rw [hjob]
      exact hsq.symm.trans hgone.queue
    · rw [← hrefs.trace]
      exact hes

/-- A run: the jobs leave from the front. -/
theorem run_departs (hrc : s.qp.qpType = .rc) (hr : run reqStep s ops = .ok t) :
    ∃ gone, s.qp.sq ++ (runJobs s ops).map (·.wr) = gone ++ t.qp.sq ∧
      ∃ es, t.ctx.trace = s.ctx.trace ++ es ∧ es.filter isQueueEvent = gone.flatMap (departure s.qp) := by
  induction ops generalizing s with
  | nil =>
    obtain rfl := Except.ok.inj hr
    exact ⟨[], List.append_nil _, [], (List.append_nil _).symm, rfl⟩
  | cons op ops ih =>
    obtain ⟨u, hu, hr⟩ := run_cons_eq_ok reqStep hr
    have hf := reqStep_requesterOnly hrc hu
    obtain ⟨gone, hqueue, es, hes, hgone⟩ := reqStep_departs hrc hu
    obtain ⟨late, hqueue', fs, hfs, hlate⟩ := ih (hf.qpType.trans hrc) hr
    rw [hf.departure] at hlate
    refine ⟨gone ++ late, ?_, es ++ fs, ?_, ?_⟩
    · rw [runJobs_cons_ok ops hu, List.map_append, ← List.append_assoc, hqueue, List.append_assoc, hqueue',
        List.append_assoc]
    · rw [hfs, hes, List.append_assoc]
    · rw [List.filter_append, hgone, hlate, List.flatMap_append]

end runs

/-- **The length of a completion.**  In every run of posts and acknowledgements
of an RC QP the WRs leave in the order they were posted, each one with its
completion if it asked for one, and the lengths are those of the packets exactly
when every post is `PostsMeasured`. -/
theorem reqRun_byteLen {s t : St} (h0 : Idle s) (ops : List ReqOp) (hr : run reqStep s ops = .ok t) :
    (∃ left late, runJobs s ops = left ++ late ∧ t.qp.sq = late.map (·.wr) ∧
      ∃ es, t.ctx.trace = s.ctx.trace ++ es ∧
        es.filter isQueueEvent = left.flatMap fun job => departure s.qp job.wr) ∧
    ((∀ job ∈ runJobs s ops, job.pkts ≠ [] → wrSignaled s.qp job.wr = true → job.LenOk s.qp) ↔
      Along reqStep PostsMeasured s ops) := by
  refine ⟨?_, runJobs_lenOk h0.rc hr⟩
  obtain ⟨gone, hqueue, es, hes, hgone⟩ := run_departs h0.rc hr
  rw [h0.sq, List.nil_append] at hqueue
  obtain ⟨left, late, hjobs, rfl, hlate⟩ := List.map_eq_append_iff.mp hqueue
  refine ⟨left, late, hjobs, hlate.symm, es, hes, ?_⟩
  rw [hgone, List.flatMap_map]

/-- Sixteen zeros sent inline: the completion says that no byte was sent. -/
theorem reqRun_byteLen_inline :
    ¬ ∀ (s t : St) (ops : List ReqOp), Idle s → run reqStep s ops = .ok t → t.qp.sq = [] →
      ∀ job ∈ runJobs s ops, job.pkts ≠ [] → wrSignaled s.qp job.wr = true →
        job.wr.error = 0 → job.LenOk s.qp := by
  intro h
  obtain ⟨t, ht, hsq, job, hjob, hne, hsig, herr, hcarried, hlen⟩ : ∃ t,
      run reqStep (smallStart 0) sendAndAck = .ok t ∧ t.qp.sq = [] ∧
      ∃ job ∈ runJobs (smallStart 0) sendAndAck, job.pkts ≠ [] ∧
        wrSignaled (smallStart 0).qp job.wr = true ∧ job.wr.error = 0 ∧ carried job.pkts = 16 ∧
        roceSgeLen job.wr.sge 0 0 = .ok 0 :=
    ⟨_, rfl, rfl, _, List.mem_cons_self, List.cons_ne_nil _ _, rfl, rfl, rfl, rfl⟩
  have hok := h _ t sendAndAck (smallStart_idle 0) ht hsq job hjob hne hsig herr
  obtain ⟨len, hlen', hsame⟩ := (Job.lenOk_iff hsig).mp hok
  obtain rfl := Except.ok.inj (hlen.symm.trans hlen')
  rw [hcarried] at hsame
  cases hsame

/-- A SEND of sixteen bytes, whose length field says so. -/
def sendSixteen : List ReqOp :=
  [.post { smallSend 1 .send with sge := [⟨0, 16, 0⟩] } fun _ => true, .acknowledge .ack 0 0 0]

theorem reqRun_byteLen_sixteen :
    ∃ t, run reqStep (smallStart 0) sendSixteen = .ok t ∧
      ∀ job ∈ runJobs (smallStart 0) sendSixteen, job.pkts ≠ [] →
        wrSignaled (smallStart 0).qp job.wr = true → job.LenOk (smallStart 0).qp := by
  obtain ⟨t, ht⟩ : ∃ t, run reqStep (smallStart 0) sendSixteen = .ok t := ⟨_, rfl⟩
  refine ⟨t, ht, (reqRun_byteLen (smallStart_idle 0) sendSixteen ht).2.mpr ⟨?_,
    fun _ _ => ⟨?_, fun _ _ => trivial⟩⟩⟩
  · intro job hjob _ _
    obtain rfl := List.mem_singleton.mp hjob
    refine ⟨fun _ => ⟨List.cons_ne_nil _ _, rfl⟩, ?_⟩
    rintro mtu segs hmtu (hno | hlt) - seg -
    · cases hno
    · obtain rfl := Except.ok.inj hmtu
      exact absurd hlt (by decide)
  · intro job hjob
    cases hjob

end Libroce
