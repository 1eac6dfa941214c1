import Libroce.RequesterWindow
import Libroce.RoundTrip
import Libroce.ResponderStep

/-!
# What a call transmits

Calls hand packets to `net_xmit` and leave most of the QP alone.  `Acts s t pkts`
says so of one call or of several: from `s` to `t` the packets `pkts` were sent,
and what addresses them stayed.

    a post             the packets that left the pending queue   (rocePostSend_acts)
    an ACK             the same                                  (handleAck_acts)
    a request          nothing, or one acknowledgement           (recvInSequence_acts)

A WRITE packet out of its place answers itself with a NAK; `OutOfPlace` is the
condition, and `Refuses` the condition under which any request is refused.
-/

namespace Libroce

open Machine (bind_eq_ok)

/-! ## The packets of a trace -/

/-- The packet given to `net_xmit`. -/
def Event.sent : Event → Option RoceNetpkt
  | .netXmit pkt => some pkt
  | _ => none

def sentPkts (es : List Event) : List RoceNetpkt := es.filterMap Event.sent

@[simp] theorem sentPkts_append (es fs : List Event) : sentPkts (es ++ fs) = sentPkts es ++ sentPkts fs :=
  List.filterMap_append

@[simp] theorem sentPkts_xmits (pkts : List RoceNetpkt) : sentPkts (pkts.map .netXmit) = pkts := by
  induction pkts with
  | nil => rfl
  | cons pkt pkts ih =>
    show pkt :: sentPkts (pkts.map .netXmit) = _
    rw [ih]

theorem sentPkts_nil {es : List Event} (h : ∀ e ∈ es, e.sent = none) : sentPkts es = [] :=
  List.filterMap_eq_nil_iff.mpr h

theorem sentPkts_leaveSq (wrs : List SendWr) : sentPkts (wrs.map .leaveSq) = [] := by
  apply sentPkts_nil
  intro e he
  obtain ⟨wr, -, rfl⟩ := List.mem_map.mp he
  rfl

theorem sentPkts_copyEvents (dsts : List Iovec) (bytes : List UInt8) :
    sentPkts (copyEvents dsts bytes) = [] := by
  induction dsts generalizing bytes with
  | nil => rfl
  | cons d dsts ih => exact ih _

theorem sentPkts_unmap (dmamap : Bool) (iovs : List Iovec) :
    sentPkts (roceMrUnmapSge dmamap iovs) = [] := by
  apply sentPkts_nil
  intro e he
  unfold roceMrUnmapSge at he
  split at he
  · obtain ⟨iov, -, rfl⟩ := List.mem_map.mp he
    rfl
  · cases he

/-- What was sent between two states. -/
def sentSince (s t : St) : List RoceNetpkt := sentPkts (t.ctx.trace.drop s.ctx.trace.length)

/-! ## Calls -/

/-- The way from `s` to `t` sent `pkts`; the QP kept its type, its numbers and
its attributes but for the two PSNs. -/
structure Acts (s t : St) (pkts : List RoceNetpkt) : Prop where
  trace : ∃ es, t.ctx.trace = s.ctx.trace ++ es ∧ sentPkts es = pkts
  ports : t.ctx.ports = s.ctx.ports
  qp : t.qp = { s.qp with
    sq := t.qp.sq, rq := t.qp.rq, req := t.qp.req, resp := t.qp.resp
    attr.sqPsn := t.qp.attr.sqPsn, attr.rqPsn := t.qp.attr.rqPsn }

theorem Acts.sentSince {s t : St} {pkts : List RoceNetpkt} (h : Acts s t pkts) :
    sentSince s t = pkts := by
  obtain ⟨es, hes, hpkts⟩ := h.trace
  unfold Libroce.sentSince
  rw [hes, List.drop_left, hpkts]

theorem Acts.refl (s : St) : Acts s s [] := ⟨⟨[], by rw [List.append_nil], rfl⟩, rfl, rfl⟩

theorem Acts.trans {s t u : St} {ps qs : List RoceNetpkt} (h1 : Acts s t ps) (h2 : Acts t u qs) :
    Acts s u (ps ++ qs) := by
  obtain ⟨es, hes, hps⟩ := h1.trace
  obtain ⟨fs, hfs, hqs⟩ := h2.trace
  refine ⟨⟨es ++ fs, ?_, ?_⟩, h2.ports.trans h1.ports, ?_⟩
  · rw [hfs, hes, List.append_assoc]
  · rw [sentPkts_append, hps, hqs]
  · rw [h2.qp, h1.qp]

theorem Acts.silent {s t u : St} {pkts : List RoceNetpkt} (h1 : Acts s t []) (h2 : Acts t u pkts) :
    Acts s u pkts := h1.trans h2

theorem Acts.emit (s : St) (es : List Event) : Acts s (s.emit es) (sentPkts es) :=
  ⟨⟨es, rfl, rfl⟩, rfl, rfl⟩

/-- Events that send nothing. -/
theorem Acts.emit_silent {s : St} {es : List Event} (h : sentPkts es = []) : Acts s (s.emit es) [] := by
  have ha := Acts.emit s es
  rw [h] at ha
  exact ha

theorem RefsOnly.acts {s : St} {ctx : RoceCtx} (h : RefsOnly s.ctx ctx) :
    Acts s { s with ctx := ctx } [] := by
  unfold RefsOnly at h
  refine ⟨⟨[], ?_, rfl⟩, ?_, rfl⟩
  · rw [List.append_nil, h]
  · rw [h]

/-- A change of the parts of the QP that no packet is addressed by. -/
theorem Acts.requester {s : St} {qp : RoceQp} (h : RequesterOnly s.qp qp) :
    Acts s { s with qp := qp } [] := by
  refine ⟨⟨[], (List.append_nil _).symm, rfl⟩, rfl, ?_⟩
  show qp = _
  rw [h]

/-! ## The requester -/

theorem roceCompleteHead_acts (s : St) : Acts s (roceCompleteHead s) [] := by
  have hsq : Acts s { s with qp.sq := s.qp.sq.dropWhile completesAtHead } [] := .requester rfl
  exact hsq.silent (.emit_silent (sentPkts_leaveSq _))

theorem completionEvents_sent {qp : RoceQp} {wr : SendWr} {es : List Event}
    (h : completionEvents qp wr = .ok es) : sentPkts es = [] := by
  rcases completionEvents_ok h with ⟨-, len, -, rfl⟩ | ⟨-, rfl⟩
  · rfl
  · rfl

theorem roceRcCompleteSendWr_acts {s s' : St} {pkt : RoceNetpkt}
    (h : roceRcCompleteSendWr s pkt = .ok s') : Acts s s' [] := by
  rcases roceRcCompleteSendWr_ok h with ⟨-, rfl⟩ | ⟨wr, sq, reports, ctx, -, -, hreports, hfree, rfl⟩
  · exact (roceCompleteHead_acts s).silent (.requester rfl)
  · have hreport : sentPkts (.leaveSq wr :: reports) = [] := by
      show sentPkts reports = []
      exact completionEvents_sent hreports
    have h1 := (roceCompleteHead_acts s).silent (.emit_silent hreport)
    have h2 := h1.silent (roceFreeSendWr_refsOnly hfree).acts
    refine (h2.silent ?_).silent (roceCompleteHead_acts _)
    exact .requester rfl

theorem roceHandleAck_acts {s s' : St} {psn : UInt32} (h : roceHandleAck s psn = .ok s') :
    Acts s s' [] := by
  revert h
  apply roceHandleAck_inv (P := fun t => Acts s t [])
  · rintro t pkt pkts t' ht - hc
    have htake : Acts t (t.takeOutgoing pkt pkts) [] := by
      have hout : Acts t { t with qp.req.outgoingPkts := pkts } [] := .requester rfl
      exact hout.silent (.emit_silent rfl)
    exact (ht.silent htake).silent (roceRcCompleteSendWr_acts hc)
  · exact .refl s

/-- The first packets of the pending queue join the outgoing ones and are sent. -/
structure Moves (s t : St) (moved : List RoceNetpkt) : Prop where
  pending : s.qp.req.pendingPkts = moved ++ t.qp.req.pendingPkts
  qp : t.qp = { s.qp with
    req.outgoingPkts := s.qp.req.outgoingPkts ++ moved, req.pendingPkts := t.qp.req.pendingPkts }
  ctx : t.ctx = { s.ctx with trace := s.ctx.trace ++ moved.map .netXmit }

theorem roceXmitPkts_moves {s t : St} (h : roceXmitPkts s = .ok t) : ∃ moved, Moves s t moved := by
  have hpend : Moves s (xmitPending s) (xmitLoop s.qp.attr.sqPsn s.qp.req.pendingPkts).1 :=
    ⟨(xmitLoop_append _ _).symm, rfl, rfl⟩
  have hnone : Moves s s [] := by
    refine ⟨rfl, ?_, ?_⟩
    · rw [List.append_nil]
    · rw [List.map_nil, List.append_nil]
  unfold roceXmitPkts at h
  split at h
  · obtain rfl := Except.ok.inj h
    exact ⟨_, hpend⟩
  · simp only at h
    split at h
    · split at h
      · split at h
        · obtain rfl := Except.ok.inj h
          exact ⟨_, hnone⟩
        · obtain rfl := Except.ok.inj h
          exact ⟨_, hpend⟩
      · cases h
    · cases h

theorem Moves.acts {s t : St} {moved : List RoceNetpkt} (h : Moves s t moved) : Acts s t moved := by
  refine ⟨⟨moved.map .netXmit, by rw [h.ctx], sentPkts_xmits moved⟩, by rw [h.ctx], ?_⟩
  rw [h.qp]

/-- What a post does: it builds, transmits and takes off the WRs that are done. -/
theorem postSend_ok {s s' : St} {wr : SendWr} {calloc : Nat → Bool} (hrc : s.qp.qpType = .rc)
    (h : rocePostSend s wr.fresh calloc = .ok s') :
    ∃ t u qp wr2 moved, Posted t.ctx s.qp wr qp wr2 ∧ RefsOnly s.ctx t.ctx ∧
      t.qp = { qp with sq := s.qp.sq ++ [wr2] } ∧ Moves t u moved ∧ s' = roceCompleteHead u := by
  have hstep : reqStep s (.post wr calloc) = .ok s' := h
  obtain ⟨t, u, hp, hx, rfl⟩ := reqStep_post_ok hrc hstep
  obtain ⟨qp, wr2, hposted, hqp, hrefs⟩ := rocePostSend_prepare hp
  obtain ⟨moved, hmoves⟩ := roceXmitPkts_moves hx
  exact ⟨t, u, qp, wr2, moved, hposted, hrefs, hqp, hmoves, rfl⟩

/-- A post sends what leaves the pending queue. -/
theorem Posted.acts {s t u : St} {wr wr2 : SendWr} {qp : RoceQp} {moved : List RoceNetpkt}
    (h : Posted t.ctx s.qp wr qp wr2) (hrefs : RefsOnly s.ctx t.ctx)
    (hqp : t.qp = { qp with sq := s.qp.sq ++ [wr2] }) (hmoves : Moves t u moved) :
    Acts s (roceCompleteHead u) moved := by
  have hctx : Acts s { s with ctx := t.ctx } [] := hrefs.acts
  have hreq : RequesterOnly s.qp t.qp := by
    refine h.requesterOnly.trans ?_
    rw [hqp]
    rfl
  have ht : Acts s t [] := hctx.silent (.requester hreq)
  have hu := (ht.silent hmoves.acts).trans (roceCompleteHead_acts u)
  rw [List.append_nil] at hu
  exact hu

/-- An ACK sends what leaves the pending queue. -/
theorem handleAck_acts {s t : St} {val : UInt8} {psn msn : UInt32}
    (h : roceHandleAcknowledge s .ack val psn msn = .ok t) :
    ∃ n moved, n ≤ s.qp.req.outgoingPkts.length ∧ Acts s t moved ∧
      s.qp.req.pendingPkts = moved ++ t.qp.req.pendingPkts ∧
      t.qp.req.outgoingPkts = s.qp.req.outgoingPkts.drop n ++ moved ∧
      t.qp.attr = { s.qp.attr with sqPsn := psnAfter s.qp.attr.sqPsn n } := by
  obtain ⟨u, hu, hx⟩ := bind_eq_ok.mp h
  obtain ⟨n, hn, hreq, hattr⟩ := roceHandleAck_drops hu
  obtain ⟨moved, hmoves⟩ := roceXmitPkts_moves hx
  refine ⟨n, moved, hn, (roceHandleAck_acts hu).silent hmoves.acts, ?_, ?_, ?_⟩
  · rw [← hmoves.pending, hreq]
  · rw [hmoves.qp, hreq]
  · rw [hmoves.qp, hattr]

/-! ## The responder -/

/-- Only the receive queue and the responder's fields changed. -/
def ResponderOnly (qp qp' : RoceQp) : Prop := qp' = { qp with rq := qp'.rq, resp := qp'.resp }

/-- The work on a request sends nothing. -/
structure Works (s t : St) : Prop where
  acts : Acts s t []
  qp : ResponderOnly s.qp t.qp

theorem Works.refl (s : St) : Works s s := ⟨.refl s, rfl⟩

theorem Works.trans {s t u : St} (h1 : Works s t) (h2 : Works t u) : Works s u := by
  refine ⟨h1.acts.silent h2.acts, ?_⟩
  have hqp1 := h1.qp
  have hqp2 := h2.qp
  unfold ResponderOnly at hqp1 hqp2 ⊢
  rw [hqp2, hqp1]

theorem Works.responder {s : St} {qp : RoceQp} (h : ResponderOnly s.qp qp) : Works s { s with qp := qp } := by
  refine ⟨⟨⟨[], (List.append_nil _).symm, rfl⟩, rfl, ?_⟩, h⟩
  show qp = _
  rw [h]

theorem Works.emit {s : St} {es : List Event} (h : sentPkts es = []) : Works s (s.emit es) :=
  ⟨.emit_silent h, rfl⟩

theorem Works.place (s : St) (dsts : List Iovec) (bytes : List UInt8) (dmamap : Bool) :
    Works s (s.place dsts bytes dmamap) := by
  refine ⟨⟨⟨copyEvents dsts bytes ++ roceMrUnmapSge dmamap dsts, ?_, ?_⟩, rfl, rfl⟩, rfl⟩
  · exact List.append_assoc _ _ _
  · rw [sentPkts_append, sentPkts_copyEvents, sentPkts_unmap]
    rfl

theorem Works.setRecvWr (s : St) (p : UInt64) (wr : RecvWr) : Works s (s.setRecvWr p wr) :=
  ⟨⟨⟨[], (List.append_nil _).symm, rfl⟩, rfl, rfl⟩, rfl⟩

theorem Works.freeRecvWr {s : St} {p : UInt64} {wr : RecvWr} {ctx : RoceCtx}
    (h : roceFreeRecvWr s.ctx p wr = .ok ctx) : Works s { s with ctx := ctx } := by
  unfold roceFreeRecvWr at h
  split at h
  · cases h
  · next ctx1 hput =>
    obtain rfl := Except.ok.inj h
    have hrefs : Works s { s with ctx := ctx1 } := ⟨(rocePutMrs_refsOnly hput).acts, rfl⟩
    refine hrefs.trans ?_
    exact ⟨⟨⟨[.freeRecv p], rfl, rfl⟩, rfl, rfl⟩, rfl⟩

theorem roceRecvCqComp_sent {qp : RoceQp} {opcode : UInt8} {wrId : UInt64} {byteLen : UInt32}
    {immdt : Option UInt32} {e : Event} (h : roceRecvCqComp qp opcode wrId byteLen immdt = some e) :
    sentPkts [e] = [] := by
  obtain ⟨wc, rfl⟩ := roceRecvCqComp_some h
  rfl

theorem Finish.works {s s' : St} {p : UInt64} {wr : RecvWr} {byteLen : UInt32}
    {immdt : Option UInt32} {opcode : UInt8} (h : Finish s p wr byteLen immdt opcode s') :
    Works s s' := by
  cases h with
  | goesOn _ => exact .refl s
  | @done e ctx hcomp hfree =>
    have hreport : Works s (s.emit [e]) := .emit (roceRecvCqComp_sent hcomp)
    exact (hreport.trans (.freeRecvWr hfree)).trans (.responder rfl)

theorem PayloadStep.works {s s' : St} {iovs : List (List UInt8)} {immdt : Option UInt32}
    {opcode : UInt8} {p : UInt64} {wr : RecvWr} {ret : Int}
    (h : PayloadStep s iovs immdt opcode p wr ret s') : Works s s' := by
  cases h with
  | short _ _ => exact .refl s
  | refused _ _ _ _ _ => exact .setRecvWr s p _
  | placed _ _ _ _ hfin => exact ((Works.place s _ _ _).trans (.setRecvWr _ p _)).trans hfin.works

theorem SendStep.works {s s' : St} {iovs : List (List UInt8)} {immdt : Option UInt32}
    {inprocess : Bool} {opcode : UInt8} {ret : Int}
    (h : SendStep s iovs immdt inprocess opcode ret s') : Works s s' := by
  cases h with
  | outOfOrder _ => exact .refl s
  | noWr _ _ _ => exact .responder rfl
  | @first p rq wr _ _ _ _ _ _ hs =>
    have htake : Works s ((({ s with qp.rq := rq } : St).emit [.popRecv p]).setWord (.wr p)) :=
      ⟨⟨⟨[.popRecv p], rfl, rfl⟩, rfl, rfl⟩, rfl⟩
    exact htake.trans hs.works
  | next _ _ _ hs => exact hs.works

theorem PlaceStep.works {s s' : St} {iovs : List (List UInt8)} {immdt : Option UInt32}
    {opcode : UInt8} {ret : Int} (h : PlaceStep s iovs immdt opcode ret s') : Works s s' := by
  have hwritten : ∀ dsts dmamap, Works s (s.written dsts iovs dmamap) := fun dsts dmamap =>
    (Works.place s dsts iovs.flatten dmamap).trans (.responder rfl)
  cases h with
  | refused _ _ => exact .refl s
  | plain _ _ => exact hwritten _ _
  | noWr _ _ _ => exact hwritten _ _
  | @done dsts dmamap p rq wr e ctx _ _ _ _ he hfree =>
    have hreport : sentPkts [.popRecv p, e] = [] := roceRecvCqComp_sent he
    have hemit := (hwritten dsts dmamap).trans (.emit hreport)
    exact (hemit.trans (.freeRecvWr hfree)).trans (.responder rfl)

/-! ## Refusals -/

/-- A WRITE packet that is not the next of its message. -/
def OutOfPlace (s : St) (pkt : Inbound) : Prop :=
  ∃ inprocess reth immdt iovs, pkt.request = some (.write inprocess reth immdt iovs) ∧
    inprocess ≠ (s.qp.resp.writtenlen != 0)

/-- The receive WR that the payload of a SEND goes to. -/
def St.recvPtr (s : St) : Option UInt64 :=
  if s.qp.resp.word.bits = 0 then s.qp.rq.head? else some s.qp.resp.word.bits

/-- `bufLen` more bytes do not fit the receive WR, or its next SGEs cannot be mapped. -/
def WrRefuses (s : St) (wr : RecvWr) (bufLen : UInt32) : Prop :=
  (∃ len, roceSgeLen wr.sge wr.sgeIdx wr.sgeOff = .ok len ∧ len < bufLen) ∨
    ∃ sges idx off r, roceSgeAdvance wr.sge bufLen.toNat wr.sgeIdx wr.sgeOff = .ok (sges, idx, off) ∧
      roceMrMapSge s.ctx s.qp sges true roceAccessLocalWrite = .ok r ∧ r.refused = true

/-- The next `bufLen` bytes of a WRITE cannot be mapped. -/
def WriteRefuses (s : St) (bufLen : UInt32) : Prop :=
  ∃ r, roceMrMapSge s.ctx s.qp [writeSge s.qp.resp bufLen] false roceAccessRemoteWrite = .ok r ∧
    r.refused = true

theorem WrRefuses.congr {s t : St} {wr : RecvWr} {bufLen : UInt32} (h : WrRefuses s wr bufLen)
    (hsame : SameMrs t.ctx t.qp s.ctx s.qp) : WrRefuses t wr bufLen := by
  rcases h with hlen | ⟨sges, idx, off, r, hcut, hmap, hr⟩
  · exact Or.inl hlen
  · exact Or.inr ⟨sges, idx, off, r, hcut, by rw [← hmap, hsame.roceMrMapSge], hr⟩

/-- A request that `roce_recv_rc` drops without an answer. -/
def Refuses (s : St) (pkt : Inbound) : Prop :=
  match pkt.request with
  | none => True
  | some (.send inprocess _ iovs) =>
    inprocess ≠ (s.qp.resp.word.bits != 0) ∨ s.recvPtr = none ∨
      ∃ p wr, s.recvPtr = some p ∧ s.ctx.recvWrs p = some wr ∧ WrRefuses s wr (roceIovLen iovs)
  | some (.write _ none _ iovs) =>
    WriteRefuses s (roceIovLen iovs) ∨ WithImm (ibBthGetOpcode pkt.bth) ∧ s.qp.rq = []
  | some (.write _ (some reth) _ iovs) =>
    WriteRefuses (writeStart s reth) (roceIovLen iovs) ∨
      WithImm (ibBthGetOpcode pkt.bth) ∧ s.qp.rq = []

instance (s : St) (pkt : Inbound) : Decidable (OutOfPlace s pkt) :=
  match h : pkt.request with
  | none => .isFalse (by rintro ⟨_, _, _, _, h', -⟩; rw [h] at h'; cases h')
  | some (.send _ _ _) => .isFalse (by rintro ⟨_, _, _, _, h', -⟩; rw [h] at h'; cases h')
  | some (.write inprocess _ _ _) =>
    decidable_of_iff (inprocess ≠ (s.qp.resp.writtenlen != 0))
      ⟨fun hne => ⟨_, _, _, _, h, hne⟩, by rintro ⟨_, _, _, _, h', hne⟩; rw [h] at h'; cases h'; exact hne⟩

instance (s : St) (wr : RecvWr) (bufLen : UInt32) : Decidable (WrRefuses s wr bufLen) :=
  decidable_of_iff ((∃ len, roceSgeLen wr.sge wr.sgeIdx wr.sgeOff = .ok len ∧ len < bufLen) ∨
      ∃ cut, roceSgeAdvance wr.sge bufLen.toNat wr.sgeIdx wr.sgeOff = .ok cut ∧
        ∃ r, roceMrMapSge s.ctx s.qp cut.1 true roceAccessLocalWrite = .ok r ∧ r.refused = true)
    (or_congr_right ⟨fun ⟨_, hcut, r, hr⟩ => ⟨_, _, _, r, hcut, hr⟩,
      fun ⟨_, _, _, r, hcut, hr⟩ => ⟨_, hcut, r, hr⟩⟩)

instance (s : St) (bufLen : UInt32) : Decidable (WriteRefuses s bufLen) :=
  inferInstanceAs (Decidable (∃ _, _ = _ ∧ _))

instance (s : St) (bufLen : UInt32) :
    Decidable (∃ p wr, s.recvPtr = some p ∧ s.ctx.recvWrs p = some wr ∧ WrRefuses s wr bufLen) :=
  match s.recvPtr with
  | none => .isFalse (by rintro ⟨_, _, h, -⟩; cases h)
  | some p =>
    match hwr : s.ctx.recvWrs p with
    | none => .isFalse (by rintro ⟨_, _, h, h', -⟩; cases h; rw [hwr] at h'; cases h')
    | some wr => decidable_of_iff (WrRefuses s wr bufLen) ⟨fun h => ⟨p, wr, rfl, hwr, h⟩,
        by rintro ⟨_, _, h, h', hr⟩; cases h; rw [hwr] at h'; cases h'; exact hr⟩

instance (s : St) (pkt : Inbound) : Decidable (Refuses s pkt) := by
  unfold Refuses
  exact
    match pkt.request with
    | none => .isTrue trivial
    | some (.send _ _ _) => inferInstanceAs (Decidable (_ ∨ _))
    | some (.write _ none _ _) => inferInstanceAs (Decidable (_ ∨ _))
    | some (.write _ (some _) _ _) => inferInstanceAs (Decidable (_ ∨ _))

theorem PayloadStep.refuses {s s' : St} {iovs : List (List UInt8)} {immdt : Option UInt32}
    {opcode : UInt8} {p : UInt64} {wr : RecvWr} {ret : Int}
    (h : PayloadStep s iovs immdt opcode p wr ret s') (hret : ret ≠ 0) :
    WrRefuses s wr (roceIovLen iovs) := by
  cases h with
  | short hlen hlt => exact Or.inl ⟨_, hlen, hlt⟩
  | refused _ _ hcut hmap hr => exact Or.inr ⟨_, _, _, _, hcut, hmap, hr⟩
  | placed _ _ _ _ _ => exact absurd rfl hret

theorem PlaceStep.refuses {s s' : St} {iovs : List (List UInt8)} {immdt : Option UInt32}
    {opcode : UInt8} {ret : Int} (h : PlaceStep s iovs immdt opcode ret s') (hret : ret ≠ 0) :
    WriteRefuses s (roceIovLen iovs) ∨ WithImm opcode ∧ s.qp.rq = [] := by
  cases h with
  | refused hmap hr => exact Or.inl ⟨_, hmap, hr⟩
  | plain _ _ => exact absurd rfl hret
  | noWr himm hrq _ => exact Or.inr ⟨himm, hrq⟩
  | done _ _ _ _ _ _ => exact absurd rfl hret

/-- A WRITE packet in its place works in silence. -/
theorem WriteStep.inPlace {s s' : St} {iovs : List (List UInt8)} {reth : Option IbReth}
    {immdt : Option UInt32} {inprocess : Bool} {opcode : UInt8} {ret : Int}
    (h : WriteStep s iovs reth immdt inprocess opcode ret s')
    (hplace : inprocess = (s.qp.resp.writtenlen != 0)) : Works s s' := by
  cases h with
  | outOfOrder hout => exact absurd hplace hout
  | @first r _ _ _ _ _ hs =>
    have hstart : Works s (writeStart s r) := .responder rfl
    exact hstart.trans hs.works
  | next _ _ hs => exact hs.works

/-- **One request.**  In its place it works in silence. -/
theorem RequestStep.works {s s' : St} {pkt : Inbound} {ret : Int} (h : RequestStep s pkt ret s')
    (hplace : ¬OutOfPlace s pkt) : Works s s' := by
  cases h with
  | malformed _ => exact .refl s
  | send _ hs => exact hs.works
  | write hreq hs =>
    apply hs.inPlace
    by_contra hout
    exact hplace ⟨_, _, _, _, hreq, hout⟩

/-- ... and is done unless it is refused. -/
theorem RequestStep.refuses {s s' : St} {pkt : Inbound} {ret : Int} (h : RequestStep s pkt ret s')
    (hret : ret ≠ 0) (hplace : ¬OutOfPlace s pkt) : Refuses s pkt := by
  unfold Refuses
  cases h with
  | malformed hreq => rw [hreq]; trivial
  | send hreq hs =>
    rw [hreq]
    cases hs with
    | outOfOrder hout => exact Or.inl hout
    | noWr hin hword hrq =>
      refine Or.inr (Or.inl ?_)
      unfold St.recvPtr
      rw [if_pos hword, hrq]
      rfl
    | @first p rq wr _ _ hin hword hrq hwr hs =>
      have hptr : s.recvPtr = some p := by
        unfold St.recvPtr
        rw [if_pos hword, hrq]
        rfl
      refine Or.inr (Or.inr ⟨p, wr, hptr, hwr, ?_⟩)
      exact (hs.refuses hret).congr ⟨rfl, rfl, rfl, rfl⟩
    | next hin hword hwr hs =>
      have hptr : s.recvPtr = some s.qp.resp.word.bits := if_neg hword
      exact Or.inr (Or.inr ⟨_, _, hptr, hwr, hs.refuses hret⟩)
  | @write inprocess reth immdt iovs _ _ hreq hs =>
    rw [hreq]
    cases hs with
    | outOfOrder hout => exact absurd ⟨_, _, _, _, hreq, hout⟩ hplace
    | first hin hlen hreth hs =>
      subst hreth
      exact hs.refuses hret
    | next hin hlen hs =>
      obtain ⟨hin', -⟩ := decodeRequest_write hreq
      have hnone : reth = none := by
        rw [hin] at hin'
        cases reth with
        | none => rfl
        | some r => cases hin'
      subst hnone
      exact hs.refuses hret

/-- Neither condition reads the flag that an arriving packet clears. -/
theorem refuses_clear {s : St} {b : Bool} {pkt : Inbound}
    (h : Refuses { s with qp.resp.inPsnNak := b } pkt) : Refuses s pkt := by
  unfold Refuses at h ⊢
  cases hreq : pkt.request with
  | none => trivial
  | some r =>
    rw [hreq] at h
    cases r with
    | send inprocess immdt iovs =>
      rcases h with hout | hptr | ⟨p, wr, hptr, hwr, hrefuses⟩
      · exact Or.inl hout
      · exact Or.inr (Or.inl hptr)
      · exact Or.inr (Or.inr ⟨p, wr, hptr, hwr, hrefuses.congr ⟨rfl, rfl, rfl, rfl⟩⟩)
    | write inprocess reth immdt iovs =>
      cases reth with
      | none =>
        rcases h with ⟨r, hmap, hr⟩ | himm
        · refine Or.inl ⟨r, ?_, hr⟩
          rw [← hmap]
          exact (SameMrs.roceMrMapSge ⟨rfl, rfl, rfl, rfl⟩ _ _ _).symm
        · exact Or.inr himm
      | some reth =>
        rcases h with ⟨r, hmap, hr⟩ | himm
        · refine Or.inl ⟨r, ?_, hr⟩
          rw [← hmap]
          exact (SameMrs.roceMrMapSge ⟨rfl, rfl, rfl, rfl⟩ _ _ _).symm
        · exact Or.inr himm

/-- A request was executed: the PSN moved, and an ACK was sent if it asked. -/
structure Executes (s s' : St) (pkt : Inbound) (acks : List RoceNetpkt) : Prop where
  acts : Acts s s' acks
  req : s'.qp.req = s.qp.req
  attr : s'.qp.attr = { s.qp.attr with rqPsn := roceQpPsnInc s.qp.attr.rqPsn }
  few : acks.length ≤ 1
  acks : ∀ ack ∈ acks, ∃ t, Works s t ∧
    acknowledgePkt t.ctx t.qp .ack 0x1f (ibBthGetPsn pkt.bth) pkt.calloc = .ok ack

/-- **The expected request.**  It is refused in silence, or executed. -/
theorem recvInSequence_acts {s s' : St} {pkt : Inbound} {ret : Int}
    (h : recvInSequence s pkt = .ok (ret, s')) (hplace : ¬OutOfPlace s pkt) :
    Refuses s pkt ∧ Works s s' ∨ ∃ acks, Executes s s' pkt acks := by
  have hclear : Works s { s with qp.resp.inPsnNak := false } := .responder rfl
  rcases recvInSequence_ok h with ⟨hret, hstep⟩ | ⟨-, s1, s2, hstep, hack, rfl⟩
  · exact Or.inl ⟨refuses_clear (hstep.refuses hret hplace), hclear.trans (hstep.works hplace)⟩
  · have hworks := hclear.trans (hstep.works hplace)
    have hqp := hworks.qp
    unfold ResponderOnly at hqp
    right
    rcases hack with ⟨-, rfl⟩ | ⟨-, hack⟩
    · refine ⟨[], ?_, ?_, ?_, Nat.zero_le _, by simp⟩
      · refine hworks.acts.silent ⟨⟨[], (List.append_nil _).symm, rfl⟩, rfl, rfl⟩
      · show s2.qp.req = _
        rw [hqp]
      · show { s2.qp.attr with rqPsn := roceQpPsnInc s2.qp.attr.rqPsn } = _
        rw [hqp]
    · obtain ⟨ack, rfl, hpkt⟩ := roceNetpktAcknowledge_ok hack
      refine ⟨[ack], ?_, ?_, ?_, Nat.le_refl _, ?_⟩
      · refine hworks.acts.silent ⟨⟨[.netXmit ack], rfl, rfl⟩, rfl, rfl⟩
      · show s1.qp.req = _
        rw [hqp]
      · show { s1.qp.attr with rqPsn := roceQpPsnInc s1.qp.attr.rqPsn } = _
        rw [hqp]
      · intro a ha
        obtain rfl := List.mem_singleton.mp ha
        exact ⟨s1, hworks, hpkt⟩

end Libroce
