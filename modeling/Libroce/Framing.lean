import Libroce.PortRange
import Libroce.Quiescence
import Libroce.ResponderDatagram

/-!
# What a call builds

A call on a QP sends and queues packets that were queued before, and packets it
builds itself: those of an RC QP are framed for its own address vector, those
of a datagram for the vector of its AH.

    FramedBy     the headers of a packet were made for an address vector
    Issues P     what is sent or queued was queued before, or is in P

Main statement: `qpStep_issues`.
-/

namespace Libroce

open Outcome Machine

/-! ## Packets -/

/-- The headers of `pkt` were made for the address vector, on the port of the QP. -/
def FramedBy (s : St) (ahAttr : RoceAhAttr) (pkt : RoceNetpkt) : Prop :=
  ∃ port pkt0, portAt s.ctx s.qp.attr.portNum = .ok port ∧ roceNetpktSetEth pkt0 port ahAttr = .ok pkt

/-- What is sent or queued on the way from `s` to `t` was queued before, or is in `P`. -/
structure Issues (P : RoceNetpkt → Prop) (s t : St) : Prop where
  trace : ∃ es, t.ctx.trace = s.ctx.trace ++ es ∧ ∀ pkt ∈ sentPkts es, pkt ∈ s.qp.req.queued ∨ P pkt
  queued : ∀ pkt ∈ t.qp.req.queued, pkt ∈ s.qp.req.queued ∨ P pkt

section issues

variable {P Q : RoceNetpkt → Prop} {s t u : St}

theorem Issues.quiet (htrace : t.ctx.trace = s.ctx.trace) (hq : t.qp.req.queued = s.qp.req.queued) :
    Issues P s t := by
  constructor
  · refine ⟨[], by rw [htrace, List.append_nil], ?_⟩
    intro pkt hp
    cases hp
  · intro pkt hp
    rw [hq] at hp
    exact Or.inl hp

theorem Issues.trans (h1 : Issues P s t) (h2 : Issues P t u) : Issues P s u := by
  obtain ⟨es, hes, hsent1⟩ := h1.trace
  obtain ⟨fs, hfs, hsent2⟩ := h2.trace
  have hback : ∀ pkt, pkt ∈ t.qp.req.queued ∨ P pkt → pkt ∈ s.qp.req.queued ∨ P pkt := by
    intro pkt hp
    rcases hp with hp | hp
    · exact h1.queued pkt hp
    · exact Or.inr hp
  constructor
  · refine ⟨es ++ fs, by rw [hfs, hes, List.append_assoc], ?_⟩
    intro pkt hp
    rw [sentPkts_append, List.mem_append] at hp
    rcases hp with hp | hp
    · exact hsent1 pkt hp
    · exact hback pkt (hsent2 pkt hp)
  · exact fun pkt hp => hback pkt (h2.queued pkt hp)

theorem Issues.mono (h : Issues P s t) (hPQ : ∀ pkt, P pkt → Q pkt) : Issues Q s t := by
  obtain ⟨es, hes, hsent⟩ := h.trace
  constructor
  · exact ⟨es, hes, fun pkt hp => (hsent pkt hp).imp_right (hPQ pkt)⟩
  · exact fun pkt hp => (h.queued pkt hp).imp_right (hPQ pkt)

end issues

/-! ## Calls that go by the vector of the QP -/

/-- What the QP issues on the way from `s` to `t` is for its own vector, which stays. -/
structure Answers (s t : St) : Prop where
  ports : t.ctx.ports = s.ctx.ports
  route : t.qp.route = s.qp.route
  issues : Issues (FramedBy s s.qp.attr.ahAttr) s t

section answers

variable {s t u : St}

theorem Answers.refl (s : St) : Answers s s := ⟨rfl, rfl, .quiet rfl rfl⟩

theorem Answers.trans (h1 : Answers s t) (h2 : Answers t u) : Answers s u := by
  refine ⟨h2.ports.trans h1.ports, h2.route.trans h1.route, h1.issues.trans (h2.issues.mono ?_)⟩
  rintro pkt ⟨port, pkt0, hport, hset⟩
  have hnum : t.qp.attr.portNum = s.qp.attr.portNum := congrArg (·.2.1) h1.route
  have hav : t.qp.attr.ahAttr = s.qp.attr.ahAttr := congrArg (·.2.2) h1.route
  rw [hav] at hset
  refine ⟨port, pkt0, ?_, hset⟩
  rw [← hport, hnum]
  unfold portAt
  rw [h1.ports]

theorem Acts.answers {pkts : List RoceNetpkt} (h : Acts s t pkts)
    (hsent : ∀ pkt ∈ pkts, pkt ∈ s.qp.req.queued ∨ FramedBy s s.qp.attr.ahAttr pkt)
    (hq : ∀ pkt ∈ t.qp.req.queued, pkt ∈ s.qp.req.queued ∨ FramedBy s s.qp.attr.ahAttr pkt) :
    Answers s t := by
  obtain ⟨es, hes, hpkts⟩ := h.trace
  refine ⟨h.ports, ?_, ⟨es, hes, by rw [hpkts]; exact hsent⟩, hq⟩
  rw [h.qp]
  rfl

/-- Packets that were queued before. -/
theorem Acts.answers_queued {pkts : List RoceNetpkt} (h : Acts s t pkts)
    (hsent : ∀ pkt ∈ pkts, pkt ∈ s.qp.req.queued) (hq : ∀ pkt ∈ t.qp.req.queued, pkt ∈ s.qp.req.queued) :
    Answers s t := by
  apply h.answers
  · exact fun pkt hp => Or.inl (hsent pkt hp)
  · exact fun pkt hp => Or.inl (hq pkt hp)

/-- Work on a request builds nothing. -/
theorem Works.issues {P : RoceNetpkt → Prop} (h : Works s t) : Issues P s t := by
  obtain ⟨es, hes, hpkts⟩ := h.acts.trace
  have hqp := h.qp
  unfold ResponderOnly at hqp
  constructor
  · refine ⟨es, hes, ?_⟩
    intro pkt hp
    rw [hpkts] at hp
    cases hp
  · intro pkt hp
    rw [hqp] at hp
    exact Or.inl hp

theorem Works.answers (h : Works s t) : Answers s t := by
  refine ⟨h.acts.ports, ?_, h.issues⟩
  rw [h.acts.qp]
  rfl

theorem Answers.rqPsn (s : St) : Answers s { s with qp.attr.rqPsn := roceQpPsnInc s.qp.attr.rqPsn } :=
  ⟨rfl, rfl, .quiet rfl rfl⟩

theorem roceNetpktAcknowledge_answers {syndrome : Syndrome} {val : UInt8} {psn : UInt32}
    {calloc : Bool} (h : roceNetpktAcknowledge s syndrome val psn calloc = .ok t) : Answers s t := by
  obtain ⟨pkt, rfl, hpkt⟩ := roceNetpktAcknowledge_ok h
  obtain ⟨port, pkt0, hport, -, hset⟩ := (acknowledgePkt_packet hpkt).1.framed
  refine ⟨rfl, rfl, ⟨[.netXmit pkt], rfl, ?_⟩, fun q hq => Or.inl hq⟩
  intro q hq
  obtain rfl := List.mem_singleton.mp hq
  exact Or.inr ⟨port, pkt0, hport, hset⟩

/-- A request packet; a WRITE out of its place is answered with a NAK. -/
theorem recvRequest_answers {pkt : Inbound} {ret : Int} (h : recvRequest s pkt = .ok (ret, t)) :
    Answers s t := by
  by_cases hplace : OutOfPlace s pkt
  · obtain ⟨inprocess, reth, immdt, iovs, hreq, hout⟩ := hplace
    rw [recvRequest_eq, hreq] at h
    have h' : roceRdmaWritePayload s iovs reth immdt inprocess (ibBthGetOpcode pkt.bth) pkt.calloc =
        .ok (ret, t) := h
    unfold roceRdmaWritePayload at h'
    rw [if_pos hout] at h'
    cases hack : roceNetpktAcknowledge s .nak 1 s.qp.attr.rqPsn pkt.calloc with
    | error e =>
      simp only [hack] at h'
      cases h'
    | ok u =>
      simp only [hack] at h'
      obtain ⟨-, rfl⟩ := Prod.mk.inj (Except.ok.inj h')
      exact roceNetpktAcknowledge_answers hack
  · exact ((recvRequest_ok h).works hplace).answers

theorem recvInSequence_answers {pkt : Inbound} {ret : Int} (h : recvInSequence s pkt = .ok (ret, t)) :
    Answers s t := by
  have hclear : Answers s { s with qp.resp.inPsnNak := false } := ⟨rfl, rfl, .quiet rfl rfl⟩
  unfold recvInSequence at h
  obtain ⟨⟨ret1, s1⟩, hreq, h⟩ := bind_eq_ok.mp h
  have h1 : Answers s s1 := hclear.trans (recvRequest_answers hreq)
  dsimp only at h
  by_cases hret : ret1 ≠ 0
  · rw [if_pos hret] at h
    obtain ⟨-, rfl⟩ := Prod.mk.inj (Except.ok.inj h)
    exact h1
  · rw [if_neg hret] at h
    by_cases hasks : ibBthGetAck pkt.bth = true
    · rw [if_pos hasks] at h
      obtain ⟨s2, hack, h⟩ := bind_eq_ok.mp h
      obtain ⟨-, rfl⟩ := Prod.mk.inj (Except.ok.inj h)
      exact (h1.trans (roceNetpktAcknowledge_answers hack)).trans (.rqPsn s2)
    · rw [if_neg hasks] at h
      obtain ⟨-, rfl⟩ := Prod.mk.inj (Except.ok.inj h)
      exact h1.trans (.rqPsn s1)

/-! ## The requester -/

theorem roceHandleAck_answers {psn : UInt32} (h : roceHandleAck s psn = .ok t) : Answers s t := by
  obtain ⟨n, -, hreq, -⟩ := roceHandleAck_drops h
  refine (roceHandleAck_acts h).answers_queued ?_ ?_
  · intro pkt hp
    cases hp
  · intro pkt hp
    rw [hreq] at hp
    rcases List.mem_append.mp hp with hp | hp
    · exact List.mem_append_left _ (List.mem_of_mem_drop hp)
    · exact List.mem_append_right _ hp

theorem Moves.answers {moved : List RoceNetpkt} (h : Moves s t moved) : Answers s t := by
  have hmoved : ∀ pkt ∈ moved, pkt ∈ s.qp.req.pendingPkts := by
    intro pkt hp
    rw [h.pending]
    exact List.mem_append_left _ hp
  refine h.acts.answers_queued (fun pkt hp => List.mem_append_right _ (hmoved pkt hp)) ?_
  intro pkt hp
  unfold RoceRequester.queued at hp ⊢
  rw [h.pending]
  rw [h.qp] at hp
  simpa using hp

theorem roceXmitPkts_answers (h : roceXmitPkts s = .ok t) : Answers s t := by
  obtain ⟨moved, hmoves⟩ := roceXmitPkts_moves h
  exact hmoves.answers

theorem roceHandleAcknowledge_answers {syndrome : Syndrome} {val : UInt8} {psn msn : UInt32}
    (h : roceHandleAcknowledge s syndrome val psn msn = .ok t) : Answers s t := by
  unfold roceHandleAcknowledge at h
  cases syndrome with
  | ack =>
    obtain ⟨u, hack, h⟩ := bind_eq_ok.mp h
    exact (roceHandleAck_answers hack).trans (roceXmitPkts_answers h)
  | nak =>
    unfold roceHandleNak at h
    obtain ⟨u, hack, h⟩ := bind_eq_ok.mp h
    -- what is outgoing goes out again
    have hagain : Answers u (u.emit (u.qp.req.outgoingPkts.map .netXmit)) := by
      refine (Acts.emit u _).answers_queued ?_ fun pkt hp => hp
      intro pkt hp
      rw [sentPkts_xmits] at hp
      exact List.mem_append_left _ hp
    exact ((roceHandleAck_answers hack).trans hagain).trans (roceXmitPkts_answers h)
  | rnrNak =>
    obtain rfl := Except.ok.inj h
    exact .refl s
  | reserved =>
    obtain rfl := Except.ok.inj h
    exact .refl s

/-- The packets of a WR are for the vector of the QP. -/
theorem Shaped.framedBy {wr : SendWr} {pkts : List RoceNetpkt} (h : Shaped s.ctx s.qp wr pkts) :
    ∀ pkt ∈ pkts, FramedBy s s.qp.attr.ahAttr pkt := by
  intro pkt hmem
  obtain ⟨_, _, _, _, _, _, _, hreq⟩ := h.isRequest pkt hmem
  obtain ⟨port, pkt0, hport, -, hset⟩ := hreq.packet.framed
  exact ⟨port, pkt0, hport, hset⟩

/-- **Posting on an RC QP.** -/
theorem rocePostSend_answers {wr : SendWr} {calloc : Nat → Bool} (hrc : s.qp.qpType = .rc)
    (h : rocePostSend s wr.fresh calloc = .ok t) : Answers s t := by
  obtain ⟨t1, u, qp, wr2, moved, hposted, hrefs, hqp, hmoves, rfl⟩ := postSend_ok hrc h
  have hhead : Answers u (roceCompleteHead u) := by
    refine (roceCompleteHead_acts u).answers_queued ?_ ?_
    · intro pkt hp
      cases hp
    · exact fun pkt hp => hp
  -- the queue may grow by the packets of the WR
  have hgrow : ∀ pkt ∈ qp.req.queued, pkt ∈ s.qp.req.queued ∨ FramedBy s s.qp.attr.ahAttr pkt := by
    intro pkt hp
    cases hposted with
    | failed e he m => exact Or.inl hp
    | skipped m hskip => exact Or.inl hp
    | queued m pkts htrain hop hs =>
      have hpush : (s.qp.push pkts).req.queued = s.qp.req.queued ++ pkts := by
        show s.qp.req.outgoingPkts ++ (s.qp.req.pendingPkts ++ pkts) = _
        rw [← List.append_assoc]
        rfl
      rw [hpush] at hp
      rcases List.mem_append.mp hp with hp | hp
      · exact Or.inl hp
      · right
        obtain ⟨port, pkt0, hport, hset⟩ := Shaped.framedBy (s := ⟨t1.ctx, s.qp⟩) hs pkt hp
        refine ⟨port, pkt0, ?_, hset⟩
        rw [← hport]
        unfold portAt
        rw [hrefs.sameTables.ports]
  have hbuild : Answers s t1 := by
    refine ⟨hrefs.sameTables.ports, ?_, ⟨[], by rw [hrefs.trace, List.append_nil], ?_⟩, ?_⟩
    · rw [hqp]
      exact hposted.requesterOnly.route
    · intro pkt hp
      cases hp
    · rw [hqp]
      exact hgrow
  exact (hbuild.trans hmoves.answers).trans hhead

/-- **A packet for an RC QP.** -/
theorem roceRecvRc_answers {pkt : Inbound} {ret : Int} (h : roceRecvRc s pkt = .ok (ret, t)) :
    Answers s t := by
  unfold roceRecvRc at h
  split at h
  · unfold recvAcknowledge at h
    split at h
    · obtain ⟨-, rfl⟩ := Prod.mk.inj (Except.ok.inj h)
      exact .refl s
    · obtain ⟨u, hack, h⟩ := bind_eq_ok.mp h
      obtain ⟨-, rfl⟩ := Prod.mk.inj (Except.ok.inj h)
      exact roceHandleAcknowledge_answers hack
  · dsimp only at h
    split at h
    · obtain ⟨-, rfl⟩ := Prod.mk.inj (Except.ok.inj h)
      exact .refl s
    · split at h
      · obtain ⟨u, hseq, h⟩ := bind_eq_ok.mp h
        obtain ⟨-, rfl⟩ := Prod.mk.inj (Except.ok.inj h)
        unfold roceOutOfSeq at hseq
        by_cases hnak : s.qp.resp.inPsnNak = true
        · rw [if_pos hnak] at hseq
          obtain rfl := Except.ok.inj hseq
          exact .refl s
        · rw [if_neg hnak] at hseq
          cases hack : roceNetpktAcknowledge s .nak 0 s.qp.attr.rqPsn pkt.calloc with
          | error e =>
            simp only [hack] at hseq
            cases hseq
          | ok v =>
            simp only [hack] at hseq
            obtain rfl := Except.ok.inj hseq
            exact (roceNetpktAcknowledge_answers hack).trans ⟨rfl, rfl, .quiet rfl rfl⟩
      · exact recvInSequence_answers h

end answers

/-! ## Every call -/

/-- The vector that a call gives to `roce_netpkt_set_eth`, if it builds a packet:
that of the RC QP, or that of the AH of a datagram. -/
def QpCall.Uses (s : St) (ahAttr : RoceAhAttr) : QpCall → Prop
  | .modify _ _ => False
  | .postRecv _ _ _ => False
  | .postSend wr _ =>
    if s.qp.qpType = .rc then ahAttr = s.qp.attr.ahAttr
    else ∃ ah, roceResourceGet s.ctx.ahs wr.ud.ah = some ah ∧ ahAttr = ah.attr
  | .recv _ _ => s.qp.qpType = .rc ∧ ahAttr = s.qp.attr.ahAttr

/-- The packets made for the vector of the call. -/
def QpCall.Frames (s : St) (call : QpCall) (pkt : RoceNetpkt) : Prop :=
  ∃ ahAttr, call.Uses s ahAttr ∧ FramedBy s ahAttr pkt

/-- A datagram is framed for its AH. -/
theorem UdBuilt.framedBy {s : St} {wr : SendWr} {pkt : RoceNetpkt} (h : UdBuilt s wr pkt) :
    ∃ ah, roceResourceGet s.ctx.ahs wr.ud.ah = some ah ∧ FramedBy s ah.attr pkt := by
  cases h with
  | @mk mtu payload ah ahs calloc imm unmaps hmtu hlen hle hah h =>
    refine ⟨ah, hah, ?_⟩
    obtain ⟨pages, bytes, -, -, -, hp⟩ := udPkt_ok h
    obtain ⟨port, pkt1, hport, -, hset⟩ := hp.framed
    exact ⟨port, pkt1, hport, hset⟩

/-- **Posting a datagram.** -/
theorem rocePostSend_datagram {s t : St} {wr : SendWr} {calloc : Nat → Bool} (hud : s.qp.qpType ≠ .rc)
    (h : rocePostSend s wr calloc = .ok t) :
    Issues (fun pkt => ∃ ah, roceResourceGet s.ctx.ahs wr.ud.ah = some ah ∧ FramedBy s ah.attr pkt) s t := by
  unfold rocePostSend at h
  obtain ⟨⟨s1, wr1⟩, hget, h⟩ := bind_eq_ok.mp h
  have hqp := postGetMrs_qp hget
  obtain ⟨hrefs, e, m, rfl⟩ := postGetMrs_ok hget
  obtain ⟨ctx1, qp1⟩ := s1
  obtain rfl : qp1 = s.qp := hqp
  have hsend : roceRequestUd ⟨ctx1, s.qp⟩ { wr with error := e, mapped := m } (calloc 0) = .ok t := by
    dsimp only at h
    cases htype : s.qp.qpType with
    | rc => exact absurd htype hud
    | ud => simpa only [htype] using h
    | gsi => simpa only [htype] using h
    | _ =>
      simp only [htype] at h
      cases h
  have hsends := roceRequestUd_sends hsend
  obtain ⟨es, hes, hbuilt⟩ := hsends.trace
  constructor
  · refine ⟨es, by rw [hes, hrefs.trace], ?_⟩
    intro pkt hp
    right
    obtain ⟨ev, hev, hsent⟩ := List.mem_filterMap.mp hp
    have hxmit : ev = .netXmit pkt := by
      cases ev <;> first | exact congrArg Event.netXmit (Option.some.inj hsent) | cases hsent
    rw [hxmit] at hev
    obtain ⟨ah, hah, port, pkt0, hport, hset⟩ := (hbuilt pkt hev).framedBy
    have hctx : ctx1 = { s.ctx with pds := ctx1.pds, mrs := ctx1.mrs } := hrefs
    rw [hctx] at hah hport
    exact ⟨ah, hah, port, pkt0, hport, hset⟩
  · intro pkt hp
    have hreq : t.qp.req.queued = s.qp.req.queued := by
      rw [hsends.req]
      rfl
    rw [hreq] at hp
    exact Or.inl hp

theorem Attrs.issues {P : RoceNetpkt → Prop} {s t : St} (h : Attrs s t) : Issues P s t := by
  refine .quiet ?_ ?_
  · rw [h]
  · rw [h]

/-- A datagram is answered with nothing. -/
theorem roceRecvUd_issues {P : RoceNetpkt → Prop} {s t : St} {pkt : Inbound} {ip : NetHdr} {ret : Int}
    (h : roceRecvUd s pkt ip = .ok (ret, t)) : Issues P s t := by
  cases hg : udPayload pkt ip with
  | none =>
    obtain ⟨t', hrefused, hattrs⟩ := roceRecvUd_refused s hg
    obtain ⟨-, rfl⟩ := Prod.mk.inj (Except.ok.inj (hrefused.symm.trans h))
    exact hattrs.issues
  | some g =>
    obtain ⟨herr, hok⟩ := roceRecvUd_payload s hg
    cases hpay : roceRecvPayload s g.iovs g.immdt false g.opcode with
    | error e =>
      rw [herr e hpay] at h
      cases h
    | ok r =>
      obtain ⟨ret0, t0⟩ := r
      obtain ⟨t', hud, hattrs⟩ := hok ret0 t0 hpay
      obtain ⟨-, rfl⟩ := Prod.mk.inj (Except.ok.inj (hud.symm.trans h))
      exact (roceRecvPayload_ok hpay).works.issues.trans hattrs.issues

/-- **Receiving.** -/
theorem roceRecvBth_issues {s t : St} {d : Decap} {calloc : Bool} {ret : Int}
    (h : roceRecvBth s d calloc = .ok (ret, t)) :
    Issues (fun pkt => s.qp.qpType = .rc ∧ FramedBy s s.qp.attr.ahAttr pkt) s t := by
  have hdrop : ∀ {r : Int}, (.ok (r, s) : Except Fault (Int × St)) = .ok (ret, t) →
      Issues (fun pkt => s.qp.qpType = .rc ∧ FramedBy s s.qp.attr.ahAttr pkt) s t := by
    intro r hr
    obtain ⟨-, rfl⟩ := Prod.mk.inj (Except.ok.inj hr)
    exact .quiet rfl rfl
  unfold roceRecvBth at h
  dsimp only at h
  split at h
  · exact hdrop h
  split at h
  · exact hdrop h
  split at h
  · exact hdrop h
  split at h
  · exact hdrop h
  split at h
  · exact hdrop h
  cases htype : s.qp.qpType with
  | rc =>
    simp only [htype] at h
    exact (roceRecvRc_answers h).issues.mono fun pkt hp => ⟨rfl, hp⟩
  | ud =>
    simp only [htype] at h
    exact roceRecvUd_issues h
  | gsi =>
    simp only [htype] at h
    exact roceRecvUd_issues h
  | _ =>
    simp only [htype] at h
    cases h

/-- **Every call on a QP.**  It frames what it builds for the vector it uses. -/
theorem qpStep_issues {s t : St} {call : QpCall} (h : qpStep s call = .ok t) :
    Issues (call.Frames s) s t := by
  cases call with
  | modify attr attrMask =>
    obtain ⟨⟨ret, qp⟩, hmod, h⟩ := bind_eq_ok.mp h
    obtain rfl := Except.ok.inj h
    refine .quiet rfl ?_
    show qp.req.queued = _
    rw [roceModifyQp_stored hmod]
    rfl
  | postRecv p wrId sge =>
    obtain ⟨⟨ret, u⟩, hpost, h⟩ := bind_eq_ok.mp h
    obtain rfl := Except.ok.inj h
    exact (rocePostRecv_works hpost).issues
  | postSend wr calloc =>
    by_cases hrc : s.qp.qpType = .rc
    · refine (rocePostSend_answers hrc h).issues.mono fun pkt hp => ⟨_, ?_, hp⟩
      exact (if_pos hrc).mpr rfl
    · refine (rocePostSend_datagram hrc h).mono ?_
      rintro pkt ⟨ah, hah, hp⟩
      exact ⟨ah.attr, (if_neg hrc).mpr ⟨ah, hah, rfl⟩, hp⟩
  | recv d calloc =>
    obtain ⟨⟨ret, u⟩, hrecv, h⟩ := bind_eq_ok.mp h
    obtain rfl := Except.ok.inj h
    exact (roceRecvBth_issues hrecv).mono fun pkt hp => ⟨_, ⟨hp.1, rfl⟩, hp.2⟩

end Libroce
