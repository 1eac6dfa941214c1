import Libroce.RequesterBuild

/-!
# Runs of the requester

A run is a list of posts and of arriving acknowledgements.  Every operation
has one shape: it changes the queues (`reqPrepare`), then calls
`roce_xmit_pkts`, then takes finished WRs off the head of the send queue.

Main statements:
* `rocePostSend_prepare` — what a post changes before it transmits (`Posted`).
* `roceHandleAck_inv` — what the completion of one packet keeps, an
  acknowledgement keeps.
* `roceXmitPkts_ok` — transmission moves packets between the two queues
  (`Xmits`).
-/

namespace Libroce

open Machine (bind_eq_ok)

/-! ## Operations -/

inductive ReqOp where
  | post (wr : SendWr) (calloc : Nat → Bool)
  | acknowledge (syndrome : Syndrome) (val : UInt8) (psn msn : UInt32)

/-- One operation on the requester.  A posted WR is fresh. -/
def reqStep (s : St) : ReqOp → Except Fault St
  | .post wr calloc => rocePostSend s wr.fresh calloc
  | .acknowledge syndrome val psn msn => roceHandleAcknowledge s syndrome val psn msn

/-- The state in which an operation of an RC QP calls `roce_xmit_pkts`, if it does. -/
def reqPrepare (s : St) : ReqOp → Except Fault (Option St)
  | .post wr calloc => do
    let (s, wr) ← postGetMrs s wr.fresh
    let s ← requestQueue s wr calloc
    return some s
  | .acknowledge syndrome _ psn _ =>
    match syndrome with
    | .ack => do
      let s ← roceHandleAck s psn
      return some s
    | .nak => do
      let s ← roceHandleAck s ((psn - 1) &&& ibBthPsnMask)
      return some (s.emit (s.qp.req.outgoingPkts.map .netXmit))
    | .rnrNak => .ok none
    | .reserved => .ok none

/-- What follows the transmission. -/
def reqFinish : ReqOp → St → St
  | .post _ _, s => roceCompleteHead s
  | .acknowledge _ _ _ _, s => s

theorem postGetMrs_qp {s s1 : St} {wr wr1 : SendWr} (h : postGetMrs s wr = .ok (s1, wr1)) :
    s1.qp = s.qp := by
  unfold postGetMrs at h
  split at h
  · obtain ⟨rfl, -⟩ := Prod.mk.inj (Except.ok.inj h)
    rfl
  · obtain ⟨⟨ret, ctx⟩, -, h⟩ := bind_eq_ok.mp h
    obtain ⟨rfl, -⟩ := Prod.mk.inj (Except.ok.inj h)
    rfl

/-- A step is: prepare, transmit, finish. -/
theorem reqStep_eq (s : St) (op : ReqOp) (hrc : s.qp.qpType = .rc) :
    reqStep s op = (do
      match ← reqPrepare s op with
      | none => return s
      | some t =>
        let u ← roceXmitPkts t
        return reqFinish op u) := by
  cases op with
  | post wr calloc =>
    simp only [reqStep, reqPrepare, rocePostSend]
    cases hget : postGetMrs s wr.fresh with
    | error e => rfl
    | ok r =>
      obtain ⟨s1, wr1⟩ := r
      have hrc1 : s1.qp.qpType = .rc := by rw [postGetMrs_qp hget, hrc]
      simp only [bind, Except.bind, hrc1, roceRequestRc]
      cases requestQueue s1 wr1 calloc with
      | error e => rfl
      | ok t => rfl
  | acknowledge syndrome val psn msn =>
    simp only [reqStep, reqPrepare, roceHandleAcknowledge]
    cases syndrome with
    | ack =>
      simp only
      cases roceHandleAck s psn with
      | error e => rfl
      | ok t =>
        simp only [bind, Except.bind, pure, Except.pure]
        cases roceXmitPkts t with
        | error e => rfl
        | ok u => rfl
    | nak =>
      simp only [roceHandleNak]
      cases roceHandleAck s ((psn - 1) &&& ibBthPsnMask) with
      | error e => rfl
      | ok t =>
        simp only [bind, Except.bind, pure, Except.pure]
        cases roceXmitPkts (t.emit (t.qp.req.outgoingPkts.map .netXmit)) with
        | error e => rfl
        | ok u => rfl
    | rnrNak => rfl
    | reserved => rfl

/-- A step that returns. -/
theorem reqStep_ok {s s' : St} {op : ReqOp} (hrc : s.qp.qpType = .rc) (h : reqStep s op = .ok s') :
    reqPrepare s op = .ok none ∧ s' = s ∨
    ∃ t u, reqPrepare s op = .ok (some t) ∧ roceXmitPkts t = .ok u ∧ s' = reqFinish op u := by
  rw [reqStep_eq s op hrc] at h
  obtain ⟨o, ho, h⟩ := bind_eq_ok.mp h
  cases o with
  | none => exact Or.inl ⟨ho, (Except.ok.inj h).symm⟩
  | some t =>
    obtain ⟨u, hu, h⟩ := bind_eq_ok.mp h
    exact Or.inr ⟨t, u, ho, hu, (Except.ok.inj h).symm⟩

/-! ## Posts -/

/-- A post always gets as far as transmitting. -/
theorem reqStep_post_ok {s s' : St} {wr : SendWr} {calloc : Nat → Bool} (hrc : s.qp.qpType = .rc)
    (h : reqStep s (.post wr calloc) = .ok s') :
    ∃ t u, reqPrepare s (.post wr calloc) = .ok (some t) ∧ roceXmitPkts t = .ok u ∧
      s' = roceCompleteHead u := by
  rcases reqStep_ok hrc h with ⟨hnone, -⟩ | hsome
  · unfold reqPrepare at hnone
    obtain ⟨_, -, hnone⟩ := bind_eq_ok.mp hnone
    obtain ⟨_, -, hnone⟩ := bind_eq_ok.mp hnone
    cases hnone
  · exact hsome

/-- What a post leaves to transmit: the QP and the WR at the tail of its send queue. -/
inductive Posted (ctx : RoceCtx) (qp : RoceQp) (wr : SendWr) : RoceQp → SendWr → Prop where
  | failed (e : UInt8) (he : e ≠ 0) (m : Bool) : Posted ctx qp wr qp { wr with error := e, mapped := m }
  | skipped (m : Bool) (h : roceSendWrIsLocal wr = true ∨ Unimplemented wr.opcode) :
    Posted ctx qp wr qp { wr with error := 0, mapped := m }
  | queued (m : Bool) (pkts : List RoceNetpkt) (h : Train wr.addr qp.req.psn pkts)
      (hop : roceSendWrIsLocal wr = false ∧ ¬Unimplemented wr.opcode)
      (hs : Shaped ctx qp { wr with error := 0, mapped := m } pkts) :
    Posted ctx qp wr (qp.push pkts) { wr with error := 0, mapped := m }

theorem postGetMrs_ok {s s1 : St} {wr wr1 : SendWr} (h : postGetMrs s wr = .ok (s1, wr1)) :
    RefsOnly s.ctx s1.ctx ∧ ∃ e m, wr1 = { wr with error := e, mapped := m } := by
  unfold postGetMrs at h
  split at h
  · obtain ⟨rfl, rfl⟩ := Prod.mk.inj (Except.ok.inj h)
    exact ⟨.refl _, _, _, rfl⟩
  · obtain ⟨⟨ret, ctx⟩, hg, h⟩ := bind_eq_ok.mp h
    obtain ⟨rfl, rfl⟩ := Prod.mk.inj (Except.ok.inj h)
    exact ⟨roceGetMrs_refsOnly hg, _, _, rfl⟩

/-- What a post builds: first it takes its references. -/
theorem reqPrepare_post_ok {s t : St} {wr : SendWr} {calloc : Nat → Bool}
    (h : reqPrepare s (.post wr calloc) = .ok (some t)) :
    ∃ ctx wr1 qp wr2, postGetMrs s wr.fresh = .ok (⟨ctx, s.qp⟩, wr1) ∧
      requestBuild ctx s.qp wr1 calloc = .ok (qp, wr2) ∧ t = ⟨ctx, { qp with sq := s.qp.sq ++ [wr2] }⟩ := by
  unfold reqPrepare at h
  obtain ⟨⟨⟨ctx, qp1⟩, wr1⟩, hget, h⟩ := bind_eq_ok.mp h
  obtain ⟨t1, hqueue, h⟩ := bind_eq_ok.mp h
  obtain rfl := Option.some.inj (Except.ok.inj h)
  obtain rfl : qp1 = s.qp := postGetMrs_qp hget
  unfold requestQueue at hqueue
  obtain ⟨⟨qp, wr2⟩, hbuild, hqueue⟩ := bind_eq_ok.mp hqueue
  obtain rfl := Except.ok.inj hqueue
  exact ⟨ctx, wr1, qp, wr2, hget, hbuild, rfl⟩

/-- What a post changes before it transmits. -/
theorem rocePostSend_prepare {s t : St} {wr : SendWr} {calloc : Nat → Bool}
    (h : reqPrepare s (.post wr calloc) = .ok (some t)) :
    ∃ qp wr2, Posted t.ctx s.qp wr qp wr2 ∧ t.qp = { qp with sq := s.qp.sq ++ [wr2] } ∧
      RefsOnly s.ctx t.ctx := by
  obtain ⟨ctx, wr1, qp, wr2, hget, hbuild, rfl⟩ := reqPrepare_post_ok h
  obtain ⟨htr, e, m, rfl⟩ := postGetMrs_ok hget
  refine ⟨qp, wr2, ?_, rfl, htr⟩
  unfold requestBuild at hbuild
  split at hbuild
  · next he =>
    simp only at he
    subst he
    cases roceRcBuildPkts_ok hbuild with
    | failed e he => exact .failed e he m
    | skipped hs => exact .skipped m hs
    | queued pkts ht hop hs => exact .queued m pkts ht hop hs
  · next he =>
    obtain ⟨rfl, rfl⟩ := Prod.mk.inj (Except.ok.inj hbuild)
    exact .failed e he m

/-! ## Acknowledgements -/

/-- A signaled WR reports its length, and any other one nothing. -/
theorem completionEvents_ok {qp : RoceQp} {wr : SendWr} {es : List Event}
    (h : completionEvents qp wr = .ok es) :
    wrSignaled qp wr = true ∧
        (∃ len, roceSgeLen wr.sge 0 0 = .ok len ∧ es = [.cqComp (sendWc qp wr roceWcSuccess len) qp.scq]) ∨
      wrSignaled qp wr = false ∧ es = [] := by
  unfold completionEvents at h
  split at h
  · next hsig =>
    obtain ⟨len, hlen, h⟩ := bind_eq_ok.mp h
    exact Or.inl ⟨hsig, len, hlen, (Except.ok.inj h).symm⟩
  · next hsig => exact Or.inr ⟨Bool.eq_false_iff.mpr hsig, (Except.ok.inj h).symm⟩

@[simp] theorem roceCompleteHead_req (s : St) : (roceCompleteHead s).qp.req = s.qp.req := rfl

/-- The two ways a packet completes: it is not the last of its request, or the
WR at the head of the send queue goes with it. -/
theorem roceRcCompleteSendWr_ok {s s' : St} {pkt : RoceNetpkt}
    (h : roceRcCompleteSendWr s pkt = .ok s') :
    pkt.opaquePtr = none ∧
      s' = { roceCompleteHead s with qp.attr.sqPsn := roceQpPsnInc s.qp.attr.sqPsn } ∨
    ∃ wr sq reports ctx,
      s.qp.sq.dropWhile completesAtHead = wr :: sq ∧ pkt.opaquePtr = some wr.addr ∧
      completionEvents s.qp wr = .ok reports ∧
      roceFreeSendWr ((roceCompleteHead s).emit (.leaveSq wr :: reports)).ctx wr = .ok ctx ∧
      s' = roceCompleteHead
        ⟨ctx, { s.qp with sq := sq, attr.sqPsn := roceQpPsnInc s.qp.attr.sqPsn }⟩ := by
  unfold roceRcCompleteSendWr at h
  simp only at h
  split at h
  · next hnone =>
    obtain rfl := Except.ok.inj h
    exact Or.inl ⟨hnone, rfl⟩
  · next wrAddr hsome =>
    split at h
    · cases h
    · next wr sq hsq =>
      split at h
      · next haddr =>
        obtain ⟨reports, hrep, h⟩ := bind_eq_ok.mp h
        obtain ⟨ctx, hctx, h⟩ := bind_eq_ok.mp h
        obtain rfl := Except.ok.inj h
        exact Or.inr ⟨wr, sq, reports, ctx, hsq, by rw [hsome, haddr], hrep, hctx, rfl⟩
      · cases h

/-- The context in which the loop of `roce_handle_ack` completes its packet. -/
def St.takeOutgoing (s : St) (pkt : RoceNetpkt) (pkts : List RoceNetpkt) : St :=
  ({ s with qp.req.outgoingPkts := pkts } : St).emit [.acked pkt]

/-- What the completion of one packet keeps, the loop keeps. -/
theorem ackLoop_inv {P : St → Prop} {psn : UInt32}
    (hstep : ∀ s pkt pkts s', P s → s.qp.req.outgoingPkts = pkt :: pkts →
      roceRcCompleteSendWr (s.takeOutgoing pkt pkts) pkt = .ok s' → P s')
    {pkts : List RoceNetpkt} {s s' : St} (h0 : P s) (hout : s.qp.req.outgoingPkts = pkts)
    (h : ackLoop psn pkts s = .ok s') : P s' := by
  induction pkts generalizing s with
  | nil =>
    obtain rfl := Except.ok.inj h
    exact h0
  | cons pkt pkts ih =>
    rw [ackLoop] at h
    split at h
    · obtain rfl := Except.ok.inj h
      exact h0
    · split at h
      · cases h
      · next s1 h1 =>
        refine ih (hstep s pkt pkts s1 h0 hout h1) ?_ h
        rcases roceRcCompleteSendWr_ok h1 with ⟨-, rfl⟩ | ⟨wr, sq, reports, ctx, -, -, -, -, rfl⟩
        · rfl
        · rfl

/-- What the completion of one packet keeps, `roce_handle_ack` keeps. -/
theorem roceHandleAck_inv {P : St → Prop} {psn : UInt32}
    (hstep : ∀ s pkt pkts s', P s → s.qp.req.outgoingPkts = pkt :: pkts →
      roceRcCompleteSendWr (s.takeOutgoing pkt pkts) pkt = .ok s' → P s')
    {s s' : St} (h0 : P s) (h : roceHandleAck s psn = .ok s') : P s' := by
  unfold roceHandleAck at h
  split at h
  · obtain rfl := Except.ok.inj h
    exact h0
  · split at h
    · obtain rfl := Except.ok.inj h
      exact h0
    · exact ackLoop_inv hstep h0 rfl h

/-- What an acknowledgement does before it transmits: it completes packets, and
a NAK sends the outgoing ones again. -/
theorem acknowledge_prepare {s t : St} {syndrome : Syndrome} {val : UInt8} {psn msn : UInt32}
    (h : reqPrepare s (.acknowledge syndrome val psn msn) = .ok (some t)) :
    ∃ psn' u, ∃ again : List RoceNetpkt, roceHandleAck s psn' = .ok u ∧ t = u.emit (again.map .netXmit) := by
  unfold reqPrepare at h
  cases syndrome with
  | ack =>
    obtain ⟨s1, h1, h⟩ := bind_eq_ok.mp h
    obtain rfl := Option.some.inj (Except.ok.inj h)
    refine ⟨psn, s1, [], h1, ?_⟩
    show s1 = { s1 with ctx.trace := s1.ctx.trace ++ [] }
    rw [List.append_nil]
  | nak =>
    obtain ⟨s1, h1, h⟩ := bind_eq_ok.mp h
    obtain rfl := Option.some.inj (Except.ok.inj h)
    exact ⟨_, s1, _, h1, rfl⟩
  | rnrNak => cases h
  | reserved => cases h

/-- `roce_handle_ack` takes a prefix off the outgoing packets and moves the SQ
PSN by its length. -/
theorem roceHandleAck_drops {s u : St} {psn : UInt32} (hu : roceHandleAck s psn = .ok u) :
    ∃ n ≤ s.qp.req.outgoingPkts.length,
      u.qp.req = { s.qp.req with outgoingPkts := s.qp.req.outgoingPkts.drop n } ∧
      u.qp.attr = { s.qp.attr with sqPsn := psnAfter s.qp.attr.sqPsn n } := by
  revert hu
  apply roceHandleAck_inv (P := fun v => ∃ n ≤ s.qp.req.outgoingPkts.length,
    v.qp.req = { s.qp.req with outgoingPkts := s.qp.req.outgoingPkts.drop n } ∧
    v.qp.attr = { s.qp.attr with sqPsn := psnAfter s.qp.attr.sqPsn n })
  · rintro v pkt pkts v' ⟨n, hn, hreq, hattr⟩ hout hv
    have hdropn : s.qp.req.outgoingPkts.drop n = pkt :: pkts := by
      rw [← hout, hreq]
    have hlt : n < s.qp.req.outgoingPkts.length := by
      by_contra hge
      rw [List.drop_eq_nil_of_le (by omega)] at hdropn
      cases hdropn
    have hdrop : s.qp.req.outgoingPkts.drop (n + 1) = pkts := by
      rw [← List.tail_drop, hdropn, List.tail_cons]
    have hreq' : v'.qp.req = { v.qp.req with outgoingPkts := pkts } ∧
        v'.qp.attr = { v.qp.attr with sqPsn := roceQpPsnInc v.qp.attr.sqPsn } := by
      rcases roceRcCompleteSendWr_ok hv with ⟨-, rfl⟩ | ⟨wr, sq, reports, ctx, -, -, -, -, rfl⟩
      · exact ⟨rfl, rfl⟩
      · exact ⟨rfl, rfl⟩
    refine ⟨n + 1, hlt, ?_, ?_⟩
    · rw [hreq'.1, hreq, hdrop]
    · rw [hreq'.2, hattr, psnAfter]
  · exact ⟨0, Nat.zero_le _, rfl, rfl⟩

theorem acknowledge_drops {s t : St} {syndrome : Syndrome} {val : UInt8} {psn msn : UInt32}
    (h : reqPrepare s (.acknowledge syndrome val psn msn) = .ok (some t)) :
    ∃ n ≤ s.qp.req.outgoingPkts.length,
      t.qp.req = { s.qp.req with outgoingPkts := s.qp.req.outgoingPkts.drop n } ∧
      t.qp.attr = { s.qp.attr with sqPsn := psnAfter s.qp.attr.sqPsn n } := by
  obtain ⟨psn', u, again, hu, rfl⟩ := acknowledge_prepare h
  obtain ⟨n, hn, hdrop⟩ := roceHandleAck_drops hu
  exact ⟨n, hn, hdrop⟩

/-! ## Transmission -/

/-- The outgoing packets before the pending ones. -/
def RoceRequester.queued (req : RoceRequester) : List RoceNetpkt := req.outgoingPkts ++ req.pendingPkts

/-- Packets move from the pending to the outgoing queue and are sent. -/
structure Xmits (s s' : St) : Prop where
  queued : s'.qp.req.queued = s.qp.req.queued
  qp : s'.qp = { s.qp with
    req.outgoingPkts := s'.qp.req.outgoingPkts, req.pendingPkts := s'.qp.req.pendingPkts }
  ctx : ∃ sent : List RoceNetpkt,
    s'.ctx = { s.ctx with trace := s.ctx.trace ++ sent.map .netXmit }

theorem xmitLoop_append (sqPsn : UInt32) (pkts : List RoceNetpkt) :
    (xmitLoop sqPsn pkts).1 ++ (xmitLoop sqPsn pkts).2 = pkts := by
  induction pkts with
  | nil => rfl
  | cons pkt pkts ih =>
    rw [xmitLoop]
    split
    · rfl
    · rw [List.cons_append, ih]

theorem xmitPending_xmits (s : St) : Xmits s (xmitPending s) where
  queued := by
    show (s.qp.req.outgoingPkts ++ (xmitLoop s.qp.attr.sqPsn s.qp.req.pendingPkts).1) ++
      (xmitLoop s.qp.attr.sqPsn s.qp.req.pendingPkts).2 = _
    rw [List.append_assoc, xmitLoop_append]
    rfl
  qp := rfl
  ctx := ⟨_, rfl⟩

theorem roceXmitPkts_ok {s s' : St} (h : roceXmitPkts s = .ok s') : Xmits s s' := by
  unfold roceXmitPkts at h
  split at h
  · obtain rfl := Except.ok.inj h
    exact xmitPending_xmits s
  · simp only at h
    split at h
    · split at h
      · split at h
        · obtain rfl := Except.ok.inj h
          refine ⟨rfl, rfl, [], ?_⟩
          rw [List.map_nil, List.append_nil]
        · obtain rfl := Except.ok.inj h
          exact xmitPending_xmits s
      · cases h
    · cases h

/-! ## What the requester leaves alone -/

/-- Only the send queue, the packet queues and the SQ PSN changed. -/
def RequesterOnly (qp qp' : RoceQp) : Prop :=
  qp' = { qp with sq := qp'.sq, req := qp'.req, attr.sqPsn := qp'.attr.sqPsn }

theorem RequesterOnly.trans {a b c : RoceQp} (h1 : RequesterOnly a b) (h2 : RequesterOnly b c) :
    RequesterOnly a c := by
  unfold RequesterOnly at h1 h2 ⊢
  rw [h2, h1]

theorem Posted.requesterOnly {ctx : RoceCtx} {qp qp' : RoceQp} {wr wr' : SendWr}
    (h : Posted ctx qp wr qp' wr') : RequesterOnly qp qp' := by
  cases h with
  | failed e he m => rfl
  | skipped m hs => rfl
  | queued m pkts ht hop hs => rfl

theorem reqPrepare_requesterOnly {s t : St} {op : ReqOp} (hp : reqPrepare s op = .ok (some t)) :
    RequesterOnly s.qp t.qp := by
  cases op with
  | post wr calloc =>
    obtain ⟨qp, wr2, hposted, hqp, -⟩ := rocePostSend_prepare hp
    refine hposted.requesterOnly.trans ?_
    rw [hqp]
    rfl
  | acknowledge syndrome val psn msn =>
    obtain ⟨psn', u, again, hu, rfl⟩ := acknowledge_prepare hp
    show RequesterOnly s.qp u.qp
    revert hu
    apply roceHandleAck_inv (P := fun v => RequesterOnly s.qp v.qp)
    · rintro v pkt pkts v' hv hout hc
      refine hv.trans ?_
      rcases roceRcCompleteSendWr_ok hc with ⟨-, rfl⟩ | ⟨wr, sq, reports, ctx, -, -, -, -, rfl⟩
      · rfl
      · rfl
    · rfl

theorem reqStep_requesterOnly {s s' : St} {op : ReqOp} (hrc : s.qp.qpType = .rc)
    (hs : reqStep s op = .ok s') : RequesterOnly s.qp s'.qp := by
  rcases reqStep_ok hrc hs with ⟨-, rfl⟩ | ⟨t, u, hp, hx, rfl⟩
  · rfl
  · have hu : RequesterOnly t.qp u.qp := by
      rw [(roceXmitPkts_ok hx).qp]
      rfl
    refine ((reqPrepare_requesterOnly hp).trans hu).trans ?_
    cases op with
    | post wr calloc => rfl
    | acknowledge syndrome val psn msn => rfl

theorem RequesterOnly.qpType {qp qp' : RoceQp} (h : RequesterOnly qp qp') :
    qp'.qpType = qp.qpType := by rw [h]

end Libroce
