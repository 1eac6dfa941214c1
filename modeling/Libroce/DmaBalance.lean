import Libroce.DeviceFrame
import Libroce.ResponderDatagram

/-!
# DMA mappings

`roce_mr_map_sge` maps an SGE on a DMA MR with `para.dma_map`, and its caller
unmaps what it returned.  `dmaMaps` are the calls of `dma_map` that one call of
`roce_mr_map_sge` makes, `callMaps` those of one call on a UD or GSI QP; the
calls of `dma_unmap` are in the trace.

When `roce_mr_map_sge` refuses an SGE it forgets what it mapped before, and
`roce_recv_payload` returns without unmapping.

    qpStep_dma — a call unmaps what it maps, unless it is a datagram whose SGEs
    are refused after the first one was mapped (`RefusedMidway`)
    qpRun_dma  — so does every call of a run, exactly when no datagram is such
-/

namespace Libroce

open Machine (bind_eq_ok Along)

/-! ## The calls of `dma_map` -/

/-- Those of the loop of `roce_mr_map_sge`. -/
def dmaMapsLoop (ctx : RoceCtx) (qp : RoceQp) (isLocal : Bool) (access : UInt32) :
    List RoceSge → Option MrType → List Iovec
  | [], _ => []
  | sge :: sges, mrType =>
    match mrMapOne ctx qp isLocal access mrType sge with
    | .ok (some (type, _)) =>
      (if type = .dma then [⟨ctx.dmaMap sge.addr sge.length, sge.length.toNat⟩] else []) ++
        dmaMapsLoop ctx qp isLocal access sges (some type)
    | _ => []

/-- Those of `roce_mr_map_sge`: the address returned and the length. -/
def dmaMaps (ctx : RoceCtx) (qp : RoceQp) (sges : List RoceSge) (isLocal : Bool) (access : UInt32) :
    List Iovec :=
  dmaMapsLoop ctx qp isLocal access sges none

/-- Those of `roce_ud_send_pkt`. -/
def udSendMaps (s : St) (wr : SendWr) (calloc : Bool) : List Iovec :=
  match roceGetAh s.ctx wr.ud.ah with
  | none => []
  | some (_, ctx) =>
    if calloc ∧ ¬ roceSendWrIsInline wr then dmaMaps ctx s.qp wr.sge true 0 else []

/-- Those of `roce_request_ud`. -/
def udRequestMaps (s : St) (wr : SendWr) (calloc : Bool) : List Iovec :=
  if wr.error = 0 then
    match roceGetMtu s.ctx s.qp, requestLen wr with
    | .ok mtu, .ok payload =>
      if payload > mtu.toUInt32 then []
      else if wr.opcode = .send ∨ wr.opcode = .sendWithImm then udSendMaps s wr calloc
      else []
    | _, _ => []
  else []

/-- Those of `roce_post_send`. -/
def postSendMaps (s : St) (wr : SendWr) (calloc : Nat → Bool) : List Iovec :=
  match postGetMrs s wr with
  | .error _ => []
  | .ok (s, wr) => udRequestMaps s wr (calloc 0)

/-- The SGEs of a receive WR that `bufLen` bytes go to, when there is room. -/
def wrPicks (wr : RecvWr) (bufLen : UInt32) : Option (List RoceSge) :=
  match roceSgeLen wr.sge wr.sgeIdx wr.sgeOff with
  | .error _ => none
  | .ok len =>
    if len < bufLen then none
    else
      match roceSgeAdvance wr.sge bufLen.toNat wr.sgeIdx wr.sgeOff with
      | .error _ => none
      | .ok (sges, _, _) => some sges

/-- The SGEs that `roce_recv_payload` maps for a datagram, when it gets so far. -/
def payloadPicks (s : St) (bufLen : UInt32) : Option (List RoceSge) :=
  if s.qp.resp.word.bits ≠ 0 then none
  else
    match s.qp.rq with
    | [] => none
    | p :: _ =>
      match s.ctx.recvWrs p with
      | none => none
      | some wr => wrPicks wr bufLen

/-- The SGEs that `roce_recv_bth` maps for a datagram. -/
def recvPicks (s : St) (d : Decap) : Option (List RoceSge) :=
  match bthPayload s.qp d with
  | none => none
  | some g => payloadPicks s (roceIovLen g.iovs)

/-- Those of mapping them. -/
def picksMaps (s : St) : Option (List RoceSge) → List Iovec
  | none => []
  | some sges => dmaMaps s.ctx s.qp sges true roceAccessLocalWrite

/-- Those of a call on a UD or GSI QP. -/
def callMaps (s : St) : QpCall → List Iovec
  | .postSend wr calloc => postSendMaps s wr.fresh calloc
  | .recv d _ => picksMaps s (recvPicks s d)
  | .modify _ _ => []
  | .postRecv _ _ _ => []

/-! ## The calls of `dma_unmap` -/

/-- Address and length, in order. -/
def unmapped (trace : List Event) : List Iovec :=
  trace.filterMap fun
    | .dmaUnmap iov => some iov
    | _ => none

theorem unmapped_append (es fs : List Event) : unmapped (es ++ fs) = unmapped es ++ unmapped fs :=
  List.filterMap_append

theorem unmapped_map (iovs : List Iovec) : unmapped (iovs.map .dmaUnmap) = iovs := by
  unfold unmapped
  rw [List.filterMap_map]
  exact List.filterMap_some

theorem unmapped_copyEvents (dsts : List Iovec) (bytes : List UInt8) :
    unmapped (copyEvents dsts bytes) = [] := by
  induction dsts generalizing bytes with
  | nil => rfl
  | cons d dsts ih =>
    have hcons : unmapped (copyEvents (d :: dsts) bytes) = unmapped (copyEvents dsts (bytes.drop d.len)) :=
      rfl
    rw [hcons, ih]

/-- The call unmaps exactly what it maps, in this order. -/
def DmaBalanced (s : St) (call : QpCall) : Prop :=
  ∀ t, qpStep s call = .ok t → unmapped t.ctx.trace = unmapped s.ctx.trace ++ callMaps s call

/-! ## One mapping -/

section map

variable {ctx : RoceCtx} {qp : RoceQp} {isLocal : Bool} {access : UInt32}

theorem dmaMapsLoop_none {sge : RoceSge} (sges : List RoceSge) {mrType : Option MrType}
    (h : mrMapOne ctx qp isLocal access mrType sge = .ok none) :
    dmaMapsLoop ctx qp isLocal access (sge :: sges) mrType = [] := by
  rw [dmaMapsLoop, h]

/-- An SGE that is mapped: what is stored for a DMA MR is what `dma_map` gave. -/
theorem dmaMapsLoop_some {sge : RoceSge} (sges : List RoceSge) {mrType : Option MrType} {type : MrType}
    {iovs : List (Option Iovec)}
    (h : mrMapOne ctx qp isLocal access mrType sge = .ok (some (type, iovs))) :
    dmaMapsLoop ctx qp isLocal access (sge :: sges) mrType =
      (if type = .dma then iovs.filterMap id else []) ++
        dmaMapsLoop ctx qp isLocal access sges (some type) := by
  rw [dmaMapsLoop, h]
  obtain ⟨mr, -, htype, -, hkind⟩ := mrMapOne_ok h
  by_cases hdma : type = .dma
  · rcases hkind with ⟨-, -, rfl⟩ | ⟨hno, -⟩
    · rw [if_pos hdma]
      show (if type = .dma then _ else _) ++ _ = _
      rw [if_pos hdma]
      rfl
    · exact absurd (htype ▸ hdma) hno
  · rw [if_neg hdma]
    show (if type = .dma then _ else _) ++ _ = _
    rw [if_neg hdma]

/-- Behind the first SGE all are of its type. -/
theorem mrMapLoop_dma {sges : List RoceSge} {type : MrType} {r : MapRes}
    (h : mrMapLoop ctx qp isLocal access sges (some type) (type == .dma) = .ok r) :
    r.dmamap = (type == .dma) ∧ dmaMapsLoop ctx qp isLocal access sges (some type) =
      if type = .dma then r.iovs.filterMap id else [] := by
  induction sges generalizing r with
  | nil =>
    obtain rfl := Except.ok.inj h
    exact ⟨rfl, (ite_self _).symm⟩
  | cons sge sges ih =>
    rw [mrMapLoop] at h
    split at h
    · cases h
    · next hone =>
      obtain rfl := Except.ok.inj h
      rw [dmaMapsLoop_none sges hone]
      exact ⟨rfl, (ite_self _).symm⟩
    · next type' iovs hone =>
      have hsame : type' = type := by
        obtain ⟨mr, -, -, hno | hsome, -⟩ := mrMapOne_ok hone
        · cases hno
        · exact (Option.some.inj hsome).symm
      subst hsame
      split at h
      · cases h
      · next r' hloop =>
        obtain rfl := Except.ok.inj h
        obtain ⟨hdmamap, hmaps⟩ := ih hloop
        refine ⟨hdmamap, ?_⟩
        rw [dmaMapsLoop_some sges hone, hmaps]
        by_cases hdma : type' = .dma
        · rw [if_pos hdma, if_pos hdma, if_pos hdma, List.filterMap_append]
        · rw [if_neg hdma, if_neg hdma, if_neg hdma, List.append_nil]

/-- What a caller unmaps that goes on after a mapping. -/
theorem roceMrMapSge_unmaps {sges : List RoceSge} {r : MapRes}
    (h : roceMrMapSge ctx qp sges isLocal access = .ok r) :
    roceMrUnmapSge r.dmamap (r.iovs.filterMap id) = (dmaMaps ctx qp sges isLocal access).map .dmaUnmap := by
  unfold roceMrMapSge at h
  unfold dmaMaps
  cases sges with
  | nil =>
    obtain rfl := Except.ok.inj h
    rfl
  | cons sge sges =>
    rw [mrMapLoop] at h
    split at h
    · cases h
    · next hone =>
      obtain rfl := Except.ok.inj h
      rw [dmaMapsLoop_none sges hone]
      rfl
    · next type iovs hone =>
      split at h
      · cases h
      · next r' hloop =>
        obtain rfl := Except.ok.inj h
        obtain ⟨hdmamap, hmaps⟩ := mrMapLoop_dma hloop
        rw [dmaMapsLoop_some sges hone, hmaps]
        unfold roceMrUnmapSge
        by_cases hdma : type = .dma
        · have hon : r'.dmamap = true := by
            rw [hdmamap]
            exact beq_iff_eq.mpr hdma
          rw [if_pos hdma, if_pos hdma, if_pos hon, List.filterMap_append]
        · have hoff : ¬ r'.dmamap = true := by
            rw [hdmamap]
            exact fun hb => hdma (beq_iff_eq.mp hb)
          rw [if_neg hdma, if_neg hdma, if_neg hoff]
          rfl

/-! ## A mapping that is refused midway -/

/-- The SGE lies on a DMA MR that the QP may use. -/
def OnDmaMr (ctx : RoceCtx) (qp : RoceQp) (access : UInt32) (sge : RoceSge) : Prop :=
  ∃ mr, MrGrants ctx qp true access sge mr ∧ mr.type = .dma

/-- The first SGE of a GSI QP lies on one, and another one does not. -/
def RefusedMidway (ctx : RoceCtx) (qp : RoceQp) (access : UInt32) (sges : List RoceSge) : Prop :=
  qp.qpType = .gsi ∧ (∃ sge, sges.head? = some sge ∧ OnDmaMr ctx qp access sge) ∧
    ∃ sge ∈ sges, ¬ OnDmaMr ctx qp access sge

theorem OnDmaMr.mapOne {sge : RoceSge} (h : OnDmaMr ctx qp access sge) (hgsi : qp.qpType = .gsi)
    {mrType : Option MrType} (htype : mrType = none ∨ mrType = some .dma) :
    mrMapOne ctx qp true access mrType sge =
      .ok (some (.dma, [some ⟨ctx.dmaMap sge.addr sge.length, sge.length.toNat⟩])) := by
  obtain ⟨mr, hg, hdma⟩ := h
  have hmixed : ¬ (mrType ≠ none ∧ mrType ≠ some mr.type) := by
    rw [hdma]
    rintro ⟨h1, h2⟩
    exact htype.elim h1 h2
  unfold mrMapOne
  rw [hg.live]
  dsimp only
  rw [if_neg (not_not.mpr hg.key), if_neg (not_not.mpr hg.pd), if_neg (not_not.mpr hg.valid),
    if_neg (not_not.mpr hg.rights), if_neg hmixed, if_pos hdma, if_neg (not_not.mpr hgsi), hdma]

/-- The other way round. -/
theorem mrMapOne_onDmaMr {sge : RoceSge} {mrType : Option MrType} {iovs : List (Option Iovec)}
    (h : mrMapOne ctx qp true access mrType sge = .ok (some (.dma, iovs))) :
    OnDmaMr ctx qp access sge ∧ qp.qpType = .gsi := by
  obtain ⟨mr, hg, htype, -, hkind⟩ := mrMapOne_ok h
  rcases hkind with ⟨hdma, hgsi, -⟩ | ⟨hno, -⟩
  · exact ⟨⟨mr, hg, hdma⟩, hgsi⟩
  · exact absurd htype.symm hno

/-- Behind an SGE on a DMA MR. -/
theorem mrMapLoop_refused {sges : List RoceSge} {r : MapRes} (hgsi : qp.qpType = .gsi)
    (h : mrMapLoop ctx qp true access sges (some .dma) true = .ok r) :
    r.refused = true ↔ ∃ sge ∈ sges, ¬ OnDmaMr ctx qp access sge := by
  induction sges generalizing r with
  | nil =>
    obtain rfl := Except.ok.inj h
    refine iff_of_false Bool.false_ne_true ?_
    rintro ⟨sge, hmem, -⟩
    cases hmem
  | cons sge sges ih =>
    rw [mrMapLoop] at h
    by_cases hon : OnDmaMr ctx qp access sge
    · rw [hon.mapOne hgsi (Or.inr rfl)] at h
      dsimp only at h
      split at h
      · cases h
      · next r' hloop =>
        obtain rfl := Except.ok.inj h
        show r'.refused = true ↔ _
        rw [ih hloop]
        simp only [List.mem_cons, exists_eq_or_imp, hon, not_true_eq_false, false_or]
    · refine iff_of_true ?_ ⟨sge, List.mem_cons_self, hon⟩
      split at h
      · cases h
      · obtain rfl := Except.ok.inj h
        rfl
      · next type iovs hone =>
        obtain ⟨mr, -, -, hno | hsome, -⟩ := mrMapOne_ok hone
        · cases hno
        · obtain rfl := Option.some.inj hsome
          exact absurd (mrMapOne_onDmaMr hone).1 hon

/-- A refused mapping has called `dma_map` exactly when it was refused midway. -/
theorem roceMrMapSge_midway {sges : List RoceSge} {r : MapRes}
    (h : roceMrMapSge ctx qp sges true access = .ok r) :
    (r.refused = true ∧ dmaMaps ctx qp sges true access ≠ []) ↔ RefusedMidway ctx qp access sges := by
  unfold roceMrMapSge at h
  unfold dmaMaps
  cases sges with
  | nil =>
    refine iff_of_false (fun hno => hno.2 rfl) ?_
    rintro ⟨-, ⟨sge, hhead, -⟩, -⟩
    cases hhead
  | cons sge sges =>
    rw [mrMapLoop] at h
    by_cases hon : OnDmaMr ctx qp access sge ∧ qp.qpType = .gsi
    · obtain ⟨hon, hgsi⟩ := hon
      have hone := hon.mapOne hgsi (Or.inl (rfl : none = none))
      rw [dmaMapsLoop_some sges hone]
      rw [hone] at h
      dsimp only at h
      split at h
      · cases h
      · next r' hloop =>
        obtain rfl := Except.ok.inj h
        have hiff := mrMapLoop_refused hgsi hloop
        constructor
        · rintro ⟨hr, -⟩
          obtain ⟨x, hx, hno⟩ := hiff.mp hr
          exact ⟨hgsi, ⟨sge, rfl, hon⟩, x, List.mem_cons_of_mem sge hx, hno⟩
        · rintro ⟨-, -, x, hx, hno⟩
          refine ⟨hiff.mpr ⟨x, ?_, hno⟩, List.cons_ne_nil _ _⟩
          rcases List.mem_cons.mp hx with rfl | hx
          · exact absurd hon hno
          · exact hx
    · refine iff_of_false ?_ ?_
      · rintro ⟨hr, hmaps⟩
        apply hmaps
        split at h
        · cases h
        · next hone => exact dmaMapsLoop_none sges hone
        · next type iovs hone =>
          split at h
          · cases h
          · next r' hloop =>
            have hno : type ≠ .dma := by
              rintro rfl
              exact hon (mrMapOne_onDmaMr hone)
            rw [dmaMapsLoop_some sges hone, (mrMapLoop_dma hloop).2, if_neg hno, if_neg hno]
            rfl
      · rintro ⟨hgsi, ⟨x, hhead, hx⟩, -⟩
        obtain rfl := Option.some.inj hhead
        exact hon ⟨hx, hgsi⟩

end map

/-! ## Sending -/

/-- The mapping of `roce_ud_send_pkt`, in a context whose AH is referenced. -/
theorem udPkt_unmapped {ctx : RoceCtx} {qp : RoceQp} {wr : SendWr} {calloc imm : Bool} {payload : UInt32}
    {ahAttr : RoceAhAttr} {sent : Option (RoceNetpkt × List Event)}
    (h : udPkt ctx qp wr calloc imm payload ahAttr = .ok sent) :
    unmapped ((sent.map (·.2)).getD []) =
      if calloc ∧ ¬ roceSendWrIsInline wr then dmaMaps ctx qp wr.sge true 0 else [] := by
  unfold udPkt at h
  obtain ⟨pages, -, h⟩ := bind_eq_ok.mp h
  obtain ⟨alloc, halloc, h⟩ := bind_eq_ok.mp h
  cases alloc with
  | none =>
    obtain rfl := Except.ok.inj h
    have hno : ¬ (calloc = true ∧ ¬ roceSendWrIsInline wr) := by
      rintro ⟨hcalloc, -⟩
      rw [← roceNetpktAlloc_isSome halloc] at hcalloc
      cases hcalloc
    rw [if_neg hno]
    rfl
  | some pkt0 =>
    have hcalloc : calloc = true := (roceNetpktAlloc_isSome halloc).symm
    obtain ⟨bytes, hbytes, h⟩ := bind_eq_ok.mp h
    cases bytes with
    | none =>
      unfold onlyPayload at hbytes
      split at hbytes
      · cases hbytes
      · unfold pktMapSge at hbytes
        obtain ⟨r, -, hbytes⟩ := bind_eq_ok.mp hbytes
        simp only at hbytes
        split at hbytes
        · next hneg => exact absurd hneg (UInt32.not_lt.mpr (UInt32.zero_le))
        · split at hbytes
          · cases hbytes
          · cases hbytes
    | some bytes =>
      obtain ⟨events, hevents, h⟩ := bind_eq_ok.mp h
      obtain ⟨pkt, -, h⟩ := bind_eq_ok.mp h
      obtain rfl := Except.ok.inj h
      show unmapped events = _
      unfold onlyUnmap at hevents
      by_cases hin : roceSendWrIsInline wr = true
      · rw [if_pos hin] at hevents
        obtain rfl := Except.ok.inj hevents
        rw [if_neg (fun hno => hno.2 hin)]
        rfl
      · rw [if_neg hin] at hevents
        obtain ⟨r, hr, hevents⟩ := bind_eq_ok.mp hevents
        obtain rfl := Except.ok.inj hevents
        rw [if_pos ⟨hcalloc, hin⟩, roceMrMapSge_unmaps hr, unmapped_map]

theorem rocePutAh_trace (ctx : RoceCtx) (ah : Nat) : (rocePutAh ctx ah).trace = ctx.trace := by
  obtain ⟨ahs, h⟩ := rocePutAh_withAhs ctx ah
  rw [h]
  rfl

theorem roceUdSendPkt_unmapped {s t : St} {wr wr' : SendWr} {calloc imm : Bool} {payload : UInt32}
    (h : roceUdSendPkt s wr calloc imm payload = .ok (t, wr')) :
    unmapped t.ctx.trace = unmapped s.ctx.trace ++ udSendMaps s wr calloc := by
  unfold roceUdSendPkt at h
  unfold udSendMaps
  cases hah : roceGetAh s.ctx wr.ud.ah with
  | none =>
    rw [hah] at h
    obtain ⟨rfl, -⟩ := Prod.mk.inj (Except.ok.inj h)
    rw [List.append_nil]
  | some r =>
    obtain ⟨ah, ctx⟩ := r
    rw [hah] at h
    obtain ⟨-, rfl⟩ := roceGetAh_ok hah
    obtain ⟨sent, hpkt, h⟩ := bind_eq_ok.mp h
    have hmaps := udPkt_unmapped hpkt
    dsimp only at hmaps ⊢
    rw [← hmaps]
    cases sent with
    | none =>
      obtain ⟨rfl, -⟩ := Prod.mk.inj (Except.ok.inj h)
      show unmapped (rocePutAh _ wr.ud.ah).trace = _
      rw [rocePutAh_trace]
      exact (List.append_nil _).symm
    | some sent =>
      obtain ⟨pkt, unmaps⟩ := sent
      obtain ⟨rfl, -⟩ := Prod.mk.inj (Except.ok.inj h)
      show unmapped (rocePutAh _ wr.ud.ah).trace = _
      rw [rocePutAh_trace]
      show unmapped (s.ctx.trace ++ .netXmit pkt :: unmaps) = _
      rw [unmapped_append]
      rfl

theorem udRequest_unmapped {s t : St} {wr wr' : SendWr} {calloc : Bool} {len : UInt32}
    (h : udRequest s wr calloc = .ok (t, wr', len)) :
    unmapped t.ctx.trace = unmapped s.ctx.trace ++ udRequestMaps s wr calloc := by
  unfold udRequest at h
  unfold udRequestMaps
  by_cases herror : wr.error = 0
  swap
  · rw [if_neg herror] at h
    obtain ⟨rfl, -⟩ := Prod.mk.inj (Except.ok.inj h)
    rw [if_neg herror, List.append_nil]
  rw [if_pos herror] at h
  rw [if_pos herror]
  unfold udSwitch at h
  obtain ⟨mtu, hmtu, h⟩ := bind_eq_ok.mp h
  obtain ⟨payload, hlen, h⟩ := bind_eq_ok.mp h
  rw [hmtu, hlen]
  dsimp only
  by_cases hlong : payload > mtu.toUInt32
  · rw [if_pos hlong] at h
    obtain ⟨rfl, -⟩ := Prod.mk.inj (Except.ok.inj h)
    rw [if_pos hlong, List.append_nil]
  rw [if_neg hlong] at h
  rw [if_neg hlong]
  split at h
  · next hop =>
    obtain ⟨⟨s2, wr2⟩, hud, h⟩ := bind_eq_ok.mp h
    obtain ⟨rfl, -⟩ := Prod.mk.inj (Except.ok.inj h)
    rw [if_pos (Or.inr hop), roceUdSendPkt_unmapped hud]
  · next hop =>
    obtain ⟨⟨s2, wr2⟩, hud, h⟩ := bind_eq_ok.mp h
    obtain ⟨rfl, -⟩ := Prod.mk.inj (Except.ok.inj h)
    rw [if_pos (Or.inl hop), roceUdSendPkt_unmapped hud]
  · next hno hno' =>
    obtain ⟨rfl, -⟩ := Prod.mk.inj (Except.ok.inj h)
    rw [if_neg (fun hop => hop.elim hno' hno), List.append_nil]

/-- A UD or GSI send unmaps what it maps. -/
theorem rocePostSend_unmapped {s t : St} {wr : SendWr} {calloc : Nat → Bool}
    (htype : s.qp.qpType = .ud ∨ s.qp.qpType = .gsi) (h : rocePostSend s wr calloc = .ok t) :
    unmapped t.ctx.trace = unmapped s.ctx.trace ++ postSendMaps s wr calloc := by
  unfold rocePostSend at h
  unfold postSendMaps
  obtain ⟨⟨s1, wr1⟩, hget, h⟩ := bind_eq_ok.mp h
  rw [hget]
  dsimp only at h ⊢
  have htrace : s1.ctx.trace = s.ctx.trace := (postGetMrs_ok hget).1.trace
  have hud : roceRequestUd s1 wr1 (calloc 0) = .ok t := by
    rw [postGetMrs_qp hget] at h
    rcases htype with htype | htype
    · rw [htype] at h
      exact h
    · rw [htype] at h
      exact h
  unfold roceRequestUd at hud
  obtain ⟨⟨s2, wr2, len⟩, hreq, hud⟩ := bind_eq_ok.mp hud
  obtain ⟨ctx, hfree, hud⟩ := bind_eq_ok.mp hud
  obtain rfl := Except.ok.inj hud
  have hunmapped := udRequest_unmapped hreq
  rw [htrace] at hunmapped
  rw [← hunmapped]
  show unmapped ctx.trace = _
  rw [(roceFreeSendWr_refsOnly hfree).trace]
  split
  · rw [St.emit_trace, unmapped_append]
    exact List.append_nil _
  · rfl

/-! ## Receiving -/

theorem Finish.unmapped {s t : St} {p : UInt64} {wr : RecvWr} {byteLen : UInt32} {immdt : Option UInt32}
    {opcode : UInt8} (h : Finish s p wr byteLen immdt opcode t) :
    unmapped t.ctx.trace = Libroce.unmapped s.ctx.trace := by
  cases h with
  | goesOn hno => rfl
  | done hcomp hfree =>
    next e ctx =>
    show Libroce.unmapped ctx.trace = _
    rw [(roceFreeRecvWr_ok hfree).1, St.emit_trace, unmapped_append, unmapped_append]
    obtain ⟨wc, rfl⟩ := roceRecvCqComp_some hcomp
    exact (List.append_nil _).trans (List.append_nil _)

/-- No mapping of the call is refused midway. -/
def NotMidway (s : St) (picks : Option (List RoceSge)) : Prop :=
  ∀ sges, picks = some sges → ¬ RefusedMidway s.ctx s.qp roceAccessLocalWrite sges

theorem notMidway_none (s : St) : NotMidway s none := by
  intro sges h
  cases h

/-- Nothing was to be mapped, and nothing is unmapped. -/
theorem balanced_none {s t : St} (h : unmapped t.ctx.trace = unmapped s.ctx.trace) :
    unmapped t.ctx.trace = unmapped s.ctx.trace ++ picksMaps s none ↔ NotMidway s none := by
  refine iff_of_true ?_ (notMidway_none s)
  rw [h]
  exact (List.append_nil _).symm

theorem SameMrs.dmaMaps {ctx ctx' : RoceCtx} {qp qp' : RoceQp} (h : SameMrs ctx qp ctx' qp')
    (sges : List RoceSge) (isLocal : Bool) (access : UInt32) :
    dmaMaps ctx' qp' sges isLocal access = Libroce.dmaMaps ctx qp sges isLocal access := by
  have hloop : ∀ mrType, dmaMapsLoop ctx' qp' isLocal access sges mrType =
      dmaMapsLoop ctx qp isLocal access sges mrType := by
    induction sges with
    | nil => exact fun _ => rfl
    | cons sge sges ih =>
      intro mrType
      simp only [dmaMapsLoop, h.mrMapOne, ih, h.dmaMap]
  exact hloop none

/-- The payload of a datagram that found the receive WR `wr`. -/
theorem PayloadStep.unmapped {s s0 t : St} {iovs : List (List UInt8)} {immdt : Option UInt32}
    {opcode : UInt8} {p : UInt64} {wr : RecvWr} {ret : Int}
    (h : PayloadStep s iovs immdt opcode p wr ret t) (hsame : SameMrs s0.ctx s0.qp s.ctx s.qp)
    (htrace : Libroce.unmapped s.ctx.trace = Libroce.unmapped s0.ctx.trace) :
    Libroce.unmapped t.ctx.trace = Libroce.unmapped s0.ctx.trace ++
        picksMaps s0 (wrPicks wr (roceIovLen iovs)) ↔
      NotMidway s0 (wrPicks wr (roceIovLen iovs)) := by
  have hpicks : ∀ {len : UInt32} {sges : List RoceSge} {idx off : Nat},
      roceSgeLen wr.sge wr.sgeIdx wr.sgeOff = .ok len → roceIovLen iovs ≤ len →
      roceSgeAdvance wr.sge (roceIovLen iovs).toNat wr.sgeIdx wr.sgeOff = .ok (sges, idx, off) →
      wrPicks wr (roceIovLen iovs) = some sges := by
    intro len sges idx off hlen hle hcut
    unfold wrPicks
    rw [hlen]
    dsimp only
    rw [if_neg (UInt32.not_lt.mpr hle), hcut]
  cases h with
  | short hlen hlt =>
    have hnone : wrPicks wr (roceIovLen iovs) = none := by
      unfold wrPicks
      rw [hlen]
      exact if_pos hlt
    rw [hnone]
    exact balanced_none htrace
  | refused hlen hle hcut hmap hr =>
    next len sges idx off r =>
    rw [hpicks hlen hle hcut]
    rw [hsame.roceMrMapSge] at hmap
    have hmid := roceMrMapSge_midway hmap
    constructor
    · rintro heq sges' hs hbad
      obtain rfl := Option.some.inj hs
      apply (hmid.mpr hbad).2
      have heq' : Libroce.unmapped s.ctx.trace = _ := heq
      rw [htrace] at heq'
      exact List.append_right_eq_self.mp heq'.symm
    · intro hno
      have hnil : Libroce.dmaMaps s0.ctx s0.qp sges true roceAccessLocalWrite = [] := by
        by_contra hne
        exact hno sges rfl (hmid.mp ⟨hr, hne⟩)
      show Libroce.unmapped s.ctx.trace = _
      rw [htrace]
      show _ = _ ++ Libroce.dmaMaps s0.ctx s0.qp sges true roceAccessLocalWrite
      rw [hnil, List.append_nil]
  | placed hlen hle hcut hmap hfin =>
    next len sges idx off dsts dmamap =>
    rw [hpicks hlen hle hcut]
    have hm := hmap.map
    refine iff_of_true ?_ ?_
    · rw [hfin.unmapped]
      show Libroce.unmapped (s.ctx.trace ++ copyEvents dsts iovs.flatten ++ roceMrUnmapSge dmamap dsts) = _
      have hunmaps := roceMrMapSge_unmaps hm
      rw [filterMap_id_map_some] at hunmaps
      rw [unmapped_append, unmapped_append, unmapped_copyEvents, htrace, List.append_nil]
      show _ ++ Libroce.unmapped (roceMrUnmapSge dmamap dsts) =
        _ ++ Libroce.dmaMaps s0.ctx s0.qp sges true roceAccessLocalWrite
      rw [hunmaps, unmapped_map, hsame.dmaMaps]
    · rintro sges' hs hbad
      obtain rfl := Option.some.inj hs
      rw [hsame.roceMrMapSge] at hm
      cases ((roceMrMapSge_midway hm).mpr hbad).1

/-- A datagram. -/
theorem roceRecvPayload_unmapped {s t : St} {iovs : List (List UInt8)} {immdt : Option UInt32}
    {opcode : UInt8} {ret : Int} (h : roceRecvPayload s iovs immdt false opcode = .ok (ret, t)) :
    unmapped t.ctx.trace = unmapped s.ctx.trace ++ picksMaps s (payloadPicks s (roceIovLen iovs)) ↔
      NotMidway s (payloadPicks s (roceIovLen iovs)) := by
  cases roceRecvPayload_ok h with
  | outOfOrder hbits =>
    have hnone : payloadPicks s (roceIovLen iovs) = none := by
      unfold payloadPicks
      rw [if_pos]
      intro hzero
      rw [hzero] at hbits
      exact hbits rfl
    rw [hnone]
    exact balanced_none rfl
  | noWr hin hword hrq =>
    have hnone : payloadPicks s (roceIovLen iovs) = none := by
      unfold payloadPicks
      rw [if_neg (not_not.mpr hword), hrq]
    rw [hnone]
    exact balanced_none rfl
  | first hin hword hrq hwr hstep =>
    next p rq wr =>
    have hpicks : payloadPicks s (roceIovLen iovs) = wrPicks wr (roceIovLen iovs) := by
      unfold payloadPicks
      rw [if_neg (not_not.mpr hword), hrq]
      dsimp only
      rw [hwr]
    rw [hpicks]
    refine PayloadStep.unmapped hstep ⟨rfl, rfl, rfl, rfl⟩ ?_
    show unmapped (s.ctx.trace ++ [.popRecv p]) = _
    rw [unmapped_append]
    exact List.append_nil _
  | next hin => cases hin

theorem roceRecvBth_unmapped {s t : St} (htype : s.qp.qpType = .ud ∨ s.qp.qpType = .gsi) {d : Decap}
    {calloc : Bool} {ret : Int} (h : roceRecvBth s d calloc = .ok (ret, t)) :
    unmapped t.ctx.trace = unmapped s.ctx.trace ++ picksMaps s (recvPicks s d) ↔
      NotMidway s (recvPicks s d) := by
  have hattrs : ∀ {a b : St}, Attrs a b → b.ctx.trace = a.ctx.trace := by
    intro a b hab
    rw [hab]
  unfold recvPicks
  cases hg : bthPayload s.qp d with
  | none =>
    obtain ⟨ret', s', hrefused, -, hsame⟩ := roceRecvBth_refused htype calloc hg
    obtain ⟨-, rfl⟩ := Prod.mk.inj (Except.ok.inj (hrefused.symm.trans h))
    refine balanced_none ?_
    rw [hattrs hsame]
  | some g =>
    obtain ⟨herr, hok⟩ := roceRecvBth_payload htype calloc hg
    cases hpay : roceRecvPayload s g.iovs g.immdt false g.opcode with
    | error e =>
      rw [herr e hpay] at h
      cases h
    | ok r =>
      obtain ⟨ret0, t0⟩ := r
      obtain ⟨s', hbth, hsame⟩ := hok ret0 t0 hpay
      obtain ⟨-, rfl⟩ := Prod.mk.inj (Except.ok.inj (hbth.symm.trans h))
      rw [hattrs hsame]
      exact roceRecvPayload_unmapped hpay

/-! ## Runs -/

/-- No datagram is refused after its first SGE was mapped. -/
def NoneMidway (s : St) : QpCall → Prop
  | .recv d _ => NotMidway s (recvPicks s d)
  | _ => True

theorem rocePostRecv_trace {s t : St} {p : UInt64} {wr : RecvWr} {ret : Int}
    (h : rocePostRecv s p wr = .ok (ret, t)) : unmapped t.ctx.trace = unmapped s.ctx.trace := by
  unfold rocePostRecv at h
  split at h
  · cases h
  · next ret0 ctx hget =>
    have htrace := (roceGetMrs_refsOnly hget).trace
    split at h
    · split at h
      · cases h
      · next ctx' hfree =>
        obtain ⟨-, rfl⟩ := Prod.mk.inj (Except.ok.inj h)
        show unmapped ctx'.trace = _
        rw [(roceFreeRecvWr_ok hfree).1, unmapped_append, htrace]
        exact List.append_nil _
    · obtain ⟨-, rfl⟩ := Prod.mk.inj (Except.ok.inj h)
      show unmapped ctx.trace = _
      rw [htrace]

/-- One call that returns. -/
theorem qpStep_dma {s t : St} {call : QpCall} (htype : s.qp.qpType = .ud ∨ s.qp.qpType = .gsi)
    (h : qpStep s call = .ok t) :
    unmapped t.ctx.trace = unmapped s.ctx.trace ++ callMaps s call ↔ NoneMidway s call := by
  cases call with
  | modify attr attrMask =>
    obtain ⟨⟨ret, qp⟩, -, h⟩ := bind_eq_ok.mp h
    obtain rfl := Except.ok.inj h
    exact iff_of_true (List.append_nil _).symm trivial
  | postRecv p wrId sge =>
    obtain ⟨⟨ret, t'⟩, hpost, h⟩ := bind_eq_ok.mp h
    obtain rfl := Except.ok.inj h
    refine iff_of_true ?_ trivial
    rw [rocePostRecv_trace hpost]
    exact (List.append_nil _).symm
  | postSend wr calloc => exact iff_of_true (rocePostSend_unmapped htype h) trivial
  | recv d calloc =>
    obtain ⟨⟨ret, t'⟩, hrecv, h⟩ := bind_eq_ok.mp h
    obtain rfl := Except.ok.inj h
    exact roceRecvBth_unmapped htype hrecv

/-! ### A GSI QP with a DMA MR -/

/-- The address space as a DMA MR; its keys are 0. -/
def smallDmaMr : MrArgs where
  pd := 0
  type := .dma
  iova := 0
  length := 0
  access := 3
  iovs := []
  pageSize := 4096

/-- A GSI QP with one receive WR of two SGEs: `len` bytes of the DMA MR, and the
first page of the other one. -/
def smallGsi (len : UInt32) : St :=
  let s : St := ⟨withMr (withMr smallCtx smallDmaMr) smallMr, { smallQp with qpType := .gsi }⟩
  match rocePostRecv s 0x1000 (.fresh 1 [⟨0x10000, len, 0⟩, ⟨0x10000, 4096, 0x100⟩]) with
  | .ok (_, s) => s
  | .error _ => s

/-- The datagram of 44 bytes, taken apart. -/
def smallDecap : Option Decap := (roceNetDecap smallCtx smallDatagram).toOption.join

/-! ### The statement -/

/-- **DMA mappings are balanced** in every call of a run exactly when no
datagram of it that returns is refused midway. -/
theorem qpRun_dma {s : St} (htype : s.qp.qpType = .ud ∨ s.qp.qpType = .gsi) (calls : List QpCall) :
    Along qpStep DmaBalanced s calls ↔
      Along qpStep (fun s call => (∃ t, qpStep s call = .ok t) → NoneMidway s call) s calls := by
  have hkeeps : ∀ (s : St) (call : QpCall) (t : St), s.qp.qpType = .ud ∨ s.qp.qpType = .gsi →
      qpStep s call = .ok t → t.qp.qpType = .ud ∨ t.qp.qpType = .gsi := by
    intro s call t htype h
    have hlinks := (qpStep_keeps h).links
    simp only [RoceQp.links, Prod.mk.injEq] at hlinks
    rw [hlinks.2.1]
    exact htype
  constructor
  · apply Machine.along_of_inv (fun s call t hs _ h => hkeeps s call t hs h) ?_ htype
    rintro s call hs hbal ⟨t, ht⟩
    exact (qpStep_dma hs ht).mp (hbal t ht)
  · apply Machine.along_of_inv (fun s call t hs _ h => hkeeps s call t hs h) ?_ htype
    intro s call hs hok t ht
    exact (qpStep_dma hs ht).mpr (hok ⟨t, ht⟩)

/-- A datagram of 44 bytes that the SGE on the DMA MR has room for. -/
theorem qpRun_dma_fits :
    ∃ d, smallDecap = some d ∧ Along qpStep DmaBalanced (smallGsi 64) [.recv d true] := by
  have hpicks : smallDecap.map (recvPicks (smallGsi 64)) = some (some [⟨0x10000, 44, 0⟩]) := by
    decide +kernel
  obtain ⟨d, hd, hsges⟩ := Option.map_eq_some_iff.mp hpicks
  refine ⟨d, hd, (qpRun_dma (Or.inr rfl) _).mpr ⟨fun _ => ?_, fun _ _ => trivial⟩⟩
  rintro sges hs ⟨-, -, sge, hmem, hno⟩
  obtain rfl := Option.some.inj (hsges.symm.trans hs)
  obtain rfl := List.mem_singleton.mp hmem
  exact hno ⟨_, ⟨rfl, rfl, rfl, rfl, rfl⟩, rfl⟩

/-- With room for 40 bytes there the rest goes to an MR of another type: the
datagram is refused, and its first 40 bytes stay mapped. -/
theorem qpRun_dma_midway :
    ¬ ∀ (s : St) (calls : List QpCall), s.qp.qpType = .ud ∨ s.qp.qpType = .gsi →
      Along qpStep DmaBalanced s calls := by
  intro h
  have hrun : smallDecap.map (fun d => (qpStep (smallGsi 40) (.recv d true)).toOption.map fun t =>
      unmapped t.ctx.trace) = some (some []) := by decide +kernel
  have hmaps : smallDecap.map (fun d => (callMaps (smallGsi 40) (.recv d true)).map (·.len)) =
      some [40] := by decide +kernel
  obtain ⟨d, hd, hrun⟩ := Option.map_eq_some_iff.mp hrun
  rw [hd] at hmaps
  have hmaps : (callMaps (smallGsi 40) (.recv d true)).map (·.len) = [40] := Option.some.inj hmaps
  have hbal : DmaBalanced (smallGsi 40) (.recv d true) := (h _ [.recv d true] (Or.inr rfl)).1
  cases hstep : qpStep (smallGsi 40) (.recv d true) with
  | error e =>
    rw [hstep] at hrun
    cases hrun
  | ok t =>
    rw [hstep] at hrun
    have hnil : unmapped t.ctx.trace = [] := Option.some.inj hrun
    have heq := hbal t hstep
    rw [hnil] at heq
    have hcalls := (List.append_eq_nil_iff.mp heq.symm).2
    rw [hcalls] at hmaps
    cases hmaps

end Libroce
