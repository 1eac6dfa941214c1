import Libroce.DeviceFrame
import Libroce.RequesterAck
import Libroce.Transmit

/-!
# The requester among all the calls

What the runs of `RequesterRun` leave out: between two operations of the
requester the QP receives requests and posts receive WRs, its attributes are
modified, and other QPs work in the same context.  `qpEvent` is any of these.

    every event is a step of the requester, or goes by it,
    or renumbers an empty requester                          (qpEvent_cases)
    the queued PSNs stay consecutive, the outgoing ones sent (qpRun_row)
    with the SQ PSN set, the window stays filled             (qpRun_filled)
-/

namespace Libroce

open Machine (bind_eq_ok run)

/-! ## Events -/

/-- A call on the QP, or anything that happens elsewhere in its context. -/
inductive QpEvent where
  | call (call : QpCall)
  | elsewhere (ctx : RoceCtx) (es : List Event)

def qpEvent (s : St) : QpEvent → Except Fault St
  | .call call => qpStep s call
  | .elsewhere ctx es => .ok { s with ctx := { ctx with trace := s.ctx.trace ++ es } }

/-- Nothing of the requester changed. -/
structure Beside (s t : St) : Prop where
  trace : ∃ es, t.ctx.trace = s.ctx.trace ++ es
  qpType : t.qp.qpType = s.qp.qpType
  req : t.qp.req = s.qp.req
  sqPsn : t.qp.attr.sqPsn = s.qp.attr.sqPsn

theorem Beside.refl (s : St) : Beside s s := ⟨⟨[], (List.append_nil _).symm⟩, rfl, rfl, rfl⟩

theorem Beside.trans {s t u : St} (h1 : Beside s t) (h2 : Beside t u) : Beside s u := by
  obtain ⟨es, hes⟩ := h1.trace
  obtain ⟨fs, hfs⟩ := h2.trace
  refine ⟨⟨es ++ fs, ?_⟩, h2.qpType.trans h1.qpType, h2.req.trans h1.req, h2.sqPsn.trans h1.sqPsn⟩
  rw [hfs, hes, List.append_assoc]

theorem RefsOnly.beside {s : St} {ctx : RoceCtx} (h : RefsOnly s.ctx ctx) :
    Beside s { s with ctx := ctx } := by
  obtain ⟨es, hes, -⟩ := h.acts.trace
  exact ⟨⟨es, hes⟩, rfl, rfl, rfl⟩

theorem Works.beside {s t : St} (h : Works s t) : Beside s t := by
  obtain ⟨es, hes, -⟩ := h.acts.trace
  have hqp := h.qp
  unfold ResponderOnly at hqp
  refine ⟨⟨es, hes⟩, ?_, ?_, ?_⟩
  · rw [hqp]
  · rw [hqp]
  · rw [hqp]

theorem roceNetpktAcknowledge_beside {s t : St} {syndrome : Syndrome} {val : UInt8} {psn : UInt32}
    {calloc : Bool} (h : roceNetpktAcknowledge s syndrome val psn calloc = .ok t) : Beside s t := by
  obtain ⟨pkt, rfl, -⟩ := roceNetpktAcknowledge_ok h
  exact ⟨⟨_, rfl⟩, rfl, rfl, rfl⟩

theorem RequestStep.beside {s t : St} {pkt : Inbound} {ret : Int} (h : RequestStep s pkt ret t) :
    Beside s t := by
  cases h with
  | malformed _ => exact .refl s
  | send _ hs => exact hs.works.beside
  | write _ hs =>
    cases hs with
    | outOfOrder _ => exact ⟨⟨_, rfl⟩, rfl, rfl, rfl⟩
    | @first r _ _ _ _ _ hs =>
      have hstart : Works s (writeStart s r) := .responder rfl
      exact (hstart.trans hs.works).beside
    | next _ _ hs => exact hs.works.beside

/-- An acknowledgement is for the requester; a request goes by it. -/
theorem roceRecvRc_beside {s t : St} {pkt : Inbound} {ret : Int} (h : roceRecvRc s pkt = .ok (ret, t)) :
    Beside s t ∨ ∃ syndrome val psn msn, roceHandleAcknowledge s syndrome val psn msn = .ok t := by
  unfold roceRecvRc at h
  split at h
  · unfold recvAcknowledge at h
    split at h
    · obtain ⟨-, rfl⟩ := Prod.mk.inj (Except.ok.inj h)
      exact Or.inl (.refl s)
    · obtain ⟨u, hack, h⟩ := bind_eq_ok.mp h
      obtain ⟨-, rfl⟩ := Prod.mk.inj (Except.ok.inj h)
      exact Or.inr ⟨_, _, _, _, hack⟩
  · left
    simp only at h
    split at h
    · obtain ⟨-, rfl⟩ := Prod.mk.inj (Except.ok.inj h)
      exact .refl s
    · split at h
      · obtain ⟨u, hseq, h⟩ := bind_eq_ok.mp h
        obtain ⟨-, rfl⟩ := Prod.mk.inj (Except.ok.inj h)
        unfold roceOutOfSeq at hseq
        split at hseq
        · obtain rfl := Except.ok.inj hseq
          exact .refl s
        · split at hseq
          · cases hseq
          · next v hack =>
            obtain rfl := Except.ok.inj hseq
            exact (roceNetpktAcknowledge_beside hack).trans ⟨⟨[], (List.append_nil _).symm⟩, rfl, rfl, rfl⟩
      · have hclear : Beside s { s with qp.resp.inPsnNak := false } :=
          ⟨⟨[], (List.append_nil _).symm⟩, rfl, rfl, rfl⟩
        rcases recvInSequence_ok h with ⟨-, hstep⟩ | ⟨-, s1, s2, hstep, hack, rfl⟩
        · exact hclear.trans hstep.beside
        · have hdone : Beside s2 { s2 with qp.attr.rqPsn := roceQpPsnInc s2.qp.attr.rqPsn } :=
            ⟨⟨[], (List.append_nil _).symm⟩, rfl, rfl, rfl⟩
          rcases hack with ⟨-, rfl⟩ | ⟨-, hack⟩
          · exact (hclear.trans hstep.beside).trans hdone
          · exact ((hclear.trans hstep.beside).trans (roceNetpktAcknowledge_beside hack)).trans hdone

theorem rocePostRecv_beside {s t : St} {p : UInt64} {wr : RecvWr} {ret : Int}
    (h : rocePostRecv s p wr = .ok (ret, t)) : Beside s t := by
  unfold rocePostRecv at h
  split at h
  · cases h
  · next hget =>
    have hrefs := (roceGetMrs_refsOnly hget).beside
    split at h
    · split at h
      · cases h
      · next hfree =>
        obtain ⟨-, rfl⟩ := Prod.mk.inj (Except.ok.inj h)
        exact hrefs.trans (Works.freeRecvWr hfree).beside
    · obtain ⟨-, rfl⟩ := Prod.mk.inj (Except.ok.inj h)
      exact hrefs.trans ⟨⟨[], (List.append_nil _).symm⟩, rfl, rfl, rfl⟩

/-- A packet is refused before it is looked at, or received. -/
theorem roceRecvBth_rc {s t : St} {d : Decap} {calloc : Bool} {ret : Int} (hrc : s.qp.qpType = .rc)
    (h : roceRecvBth s d calloc = .ok (ret, t)) :
    Beside s t ∨ ∃ pkt, roceRecvRc s pkt = .ok (ret, t) := by
  have hsame : ∀ r : Int, (.ok (r, s) : Except Fault (Int × St)) = .ok (ret, t) → Beside s t := by
    intro r heq
    obtain ⟨-, rfl⟩ := Prod.mk.inj (Except.ok.inj heq)
    exact .refl s
  unfold roceRecvBth at h
  simp only at h
  split at h
  · exact Or.inl (hsame _ h)
  · split at h
    · exact Or.inl (hsame _ h)
    · split at h
      · exact Or.inl (hsame _ h)
      · split at h
        · exact Or.inl (hsame _ h)
        · split at h
          · exact Or.inl (hsame _ h)
          · rw [hrc] at h
            exact Or.inr ⟨_, h⟩

/-- An empty requester was given a new SQ PSN. -/
structure Renumbers (s t : St) : Prop where
  empty : s.qp.req.queued = []
  qpType : t.qp.qpType = s.qp.qpType
  req : t.qp.req = ⟨t.qp.attr.sqPsn, [], []⟩

theorem roceModifyQp_beside {s : St} {attr : RoceQpAttr} {attrMask : UInt32} {ret : Int} {qp : RoceQp}
    (h : roceModifyQp s.ctx s.qp attr attrMask = .ok (ret, qp)) :
    Beside s { s with qp := qp } ∨ Renumbers s { s with qp := qp } := by
  have htype : qp.qpType = s.qp.qpType := by rw [roceModifyQp_attrsOnly h]
  rcases roceModifyQp_cases h with hsame | ⟨hpend, hout, hset⟩
  · obtain ⟨hpsn, hreq⟩ := Prod.mk.inj hsame
    exact Or.inl ⟨⟨[], (List.append_nil _).symm⟩, htype, (Prod.mk.inj hreq).1, hpsn⟩
  · obtain ⟨hpsn, hreq⟩ := Prod.mk.inj hset
    refine Or.inr ⟨?_, htype, ?_⟩
    · rw [RoceRequester.queued, hpend, hout]
      rfl
    · show qp.req = ⟨qp.attr.sqPsn, [], []⟩
      rw [(Prod.mk.inj hreq).1, hpsn]

/-- What an event is to the requester. -/
theorem qpEvent_cases {s t : St} {e : QpEvent} (hrc : s.qp.qpType = .rc) (h : qpEvent s e = .ok t) :
    Beside s t ∨ Renumbers s t ∨ ∃ op, reqStep s op = .ok t := by
  cases e with
  | elsewhere ctx es =>
    obtain rfl := Except.ok.inj h
    exact Or.inl ⟨⟨es, rfl⟩, rfl, rfl, rfl⟩
  | call call =>
    cases call with
    | modify attr attrMask =>
      obtain ⟨⟨ret, qp⟩, hm, h⟩ := bind_eq_ok.mp h
      obtain rfl := Except.ok.inj h
      rcases roceModifyQp_beside hm with hb | hr
      · exact Or.inl hb
      · exact Or.inr (Or.inl hr)
    | postRecv p wrId sge =>
      obtain ⟨⟨ret, u⟩, hp, h⟩ := bind_eq_ok.mp h
      obtain rfl := Except.ok.inj h
      exact Or.inl (rocePostRecv_beside hp)
    | postSend wr calloc => exact Or.inr (Or.inr ⟨.post wr calloc, h⟩)
    | recv d calloc =>
      obtain ⟨⟨ret, u⟩, hr, h⟩ := bind_eq_ok.mp h
      obtain rfl := Except.ok.inj h
      rcases roceRecvBth_rc hrc hr with hb | ⟨pkt, hr⟩
      · exact Or.inl hb
      · rcases roceRecvRc_beside hr with hb | ⟨syndrome, val, psn, msn, hack⟩
        · exact Or.inl hb
        · exact Or.inr (Or.inr ⟨.acknowledge syndrome val psn msn, hack⟩)

/-! ## The queued packets -/

/-- The queued PSNs are consecutive and end at the next PSN. -/
def Consecutive (req : RoceRequester) : Prop :=
  ∃ b, psnsOf req.queued = Serial.seq psnMod b req.queued.length ∧
    req.psn.toNat % psnMod = (b + req.queued.length) % psnMod

theorem Consecutive.push {qp : RoceQp} {wrAddr : Nat} {pkts : List RoceNetpkt}
    (h : Consecutive qp.req) (ht : Train wrAddr qp.req.psn pkts) : Consecutive (qp.push pkts).req := by
  obtain ⟨b, hpsns, hnext⟩ := h
  have hq : (qp.push pkts).req.queued = qp.req.queued ++ pkts := by
    show qp.req.outgoingPkts ++ (qp.req.pendingPkts ++ pkts) = _
    rw [RoceRequester.queued, List.append_assoc]
  have hpkts : psnsOf pkts = Serial.seq psnMod qp.req.psn.toNat pkts.length := ht.psns
  refine ⟨b, ?_, ?_⟩
  · rw [hq, psnsOf_append, List.length_append, Serial.seq_append, hpsns, hpkts,
      ← Serial.seq_mod psnMod qp.req.psn.toNat, hnext, Serial.seq_mod]
  · show (psnAfter qp.req.psn pkts.length).toNat % psnMod = _
    rw [hq, List.length_append, psnAfter_toNat, ← Nat.mod_add_mod, hnext, Nat.mod_add_mod,
      Nat.add_assoc]

theorem Consecutive.drop {req : RoceRequester} {n : Nat} (h : Consecutive req)
    (hn : n ≤ req.outgoingPkts.length) :
    Consecutive { req with outgoingPkts := req.outgoingPkts.drop n } := by
  obtain ⟨b, hpsns, hnext⟩ := h
  have hq : RoceRequester.queued { req with outgoingPkts := req.outgoingPkts.drop n } =
      req.queued.drop n := by
    show req.outgoingPkts.drop n ++ req.pendingPkts = _
    rw [RoceRequester.queued, List.drop_append_of_le_length hn]
  have hlen : n ≤ req.queued.length := by
    rw [RoceRequester.queued, List.length_append]
    omega
  refine ⟨b + n, ?_, ?_⟩
  · rw [hq, psnsOf_drop, hpsns, Serial.seq_drop _ _ _ _ hlen, List.length_drop]
  · rw [hq, List.length_drop, show b + n + (req.queued.length - n) = b + req.queued.length by omega]
    exact hnext

theorem reqStep_consecutive {s t : St} {op : ReqOp} (hrc : s.qp.qpType = .rc)
    (h : Consecutive s.qp.req) (hs : reqStep s op = .ok t) : Consecutive t.qp.req := by
  rcases reqStep_ok hrc hs with ⟨-, rfl⟩ | ⟨v, u, hp, hx, rfl⟩
  · exact h
  · have hv : Consecutive v.qp.req := by
      cases op with
      | post wr calloc =>
        obtain ⟨qp, wr2, hposted, hqp, -⟩ := rocePostSend_prepare hp
        rw [hqp]
        cases hposted with
        | failed e he m => exact h
        | skipped m hskip => exact h
        | queued m pkts ht hop hshape => exact h.push ht
      | acknowledge syndrome val psn msn =>
        obtain ⟨n, hn, hreq, -⟩ := acknowledge_drops hp
        rw [hreq]
        exact h.drop hn
    have hu : Consecutive u.qp.req := by
      obtain ⟨b, hpsns, hnext⟩ := hv
      have hx := roceXmitPkts_ok hx
      refine ⟨b, ?_, ?_⟩
      · rw [hx.queued]
        exact hpsns
      · rw [hx.queued, ← hnext, hx.qp]
    cases op with
    | post wr calloc => exact hu
    | acknowledge syndrome val psn msn => exact hu

/-- Every outgoing packet was given to the network. -/
def OutgoingSent (s : St) : Prop := ∀ pkt ∈ s.qp.req.outgoingPkts, .netXmit pkt ∈ s.ctx.trace

theorem reqPrepare_trace {s t : St} {op : ReqOp} (hp : reqPrepare s op = .ok (some t)) :
    ∃ es, t.ctx.trace = s.ctx.trace ++ es := by
  cases op with
  | post wr calloc =>
    obtain ⟨qp, wr2, -, -, hrefs⟩ := rocePostSend_prepare hp
    exact hrefs.beside.trace
  | acknowledge syndrome val psn msn =>
    obtain ⟨psn', u, again, hu, rfl⟩ := acknowledge_prepare hp
    obtain ⟨es, hes, -⟩ := (roceHandleAck_acts hu).trace
    refine ⟨es ++ again.map .netXmit, ?_⟩
    rw [St.emit_trace, hes, List.append_assoc]

theorem reqStep_outgoingSent {s t : St} {op : ReqOp} (hrc : s.qp.qpType = .rc) (h : OutgoingSent s)
    (hs : reqStep s op = .ok t) : OutgoingSent t := by
  rcases reqStep_ok hrc hs with ⟨-, rfl⟩ | ⟨v, u, hp, hx, rfl⟩
  · exact h
  · obtain ⟨es, hes⟩ := reqPrepare_trace hp
    obtain ⟨moved, hmoves⟩ := roceXmitPkts_moves hx
    have hsub : ∀ pkt ∈ v.qp.req.outgoingPkts, pkt ∈ s.qp.req.outgoingPkts := by
      intro pkt hmem
      cases op with
      | post wr calloc =>
        rw [post_outgoing hp] at hmem
        exact hmem
      | acknowledge syndrome val psn msn =>
        obtain ⟨n, -, hreq, -⟩ := acknowledge_drops hp
        rw [hreq] at hmem
        exact List.mem_of_mem_drop hmem
    have hu : OutgoingSent u := by
      intro pkt hmem
      rw [hmoves.qp] at hmem
      rw [hmoves.ctx]
      rcases List.mem_append.mp hmem with hmem | hmem
      · apply List.mem_append_left
        rw [hes]
        exact List.mem_append_left _ (h pkt (hsub pkt hmem))
      · exact List.mem_append_right _ (List.mem_map_of_mem hmem)
    cases op with
    | acknowledge syndrome val psn msn => exact hu
    | post wr calloc =>
      obtain ⟨fs, hfs, -⟩ := (roceCompleteHead_acts u).trace
      intro pkt hmem
      show _ ∈ (roceCompleteHead u).ctx.trace
      rw [hfs]
      exact List.mem_append_left _ (hu pkt hmem)

/-- What holds of an RC QP between its calls. -/
structure Row (s : St) : Prop where
  rc : s.qp.qpType = .rc
  consecutive : Consecutive s.qp.req
  sent : OutgoingSent s

theorem Beside.row {s t : St} (hb : Beside s t) (h : Row s) : Row t := by
  obtain ⟨es, hes⟩ := hb.trace
  refine ⟨hb.qpType.trans h.rc, by rw [hb.req]; exact h.consecutive, ?_⟩
  intro pkt hmem
  rw [hb.req] at hmem
  rw [hes]
  exact List.mem_append_left _ (h.sent pkt hmem)

/-- An RC QP without a packet. -/
theorem row_of_empty {s : St} (hrc : s.qp.qpType = .rc) (h : s.qp.req.queued = []) : Row s := by
  refine ⟨hrc, ⟨s.qp.req.psn.toNat, ?_, ?_⟩, ?_⟩
  · rw [h]
    rfl
  · rw [h]
    rfl
  · intro pkt hmem
    have hq : pkt ∈ s.qp.req.queued := List.mem_append_left _ hmem
    rw [h] at hq
    cases hq

theorem qpEvent_row {s t : St} {e : QpEvent} (h : Row s) (he : qpEvent s e = .ok t) : Row t := by
  rcases qpEvent_cases h.rc he with hb | hr | ⟨op, hs⟩
  · exact hb.row h
  · refine row_of_empty (hr.qpType.trans h.rc) ?_
    rw [hr.req]
    rfl
  · exact ⟨by rw [(reqStep_requesterOnly h.rc hs).qpType, h.rc],
      reqStep_consecutive h.rc h.consecutive hs, reqStep_outgoingSent h.rc h.sent hs⟩

theorem qpRun_row {s t : St} {es : List QpEvent} (hrc : s.qp.qpType = .rc)
    (hempty : s.qp.req.queued = []) (h : run qpEvent s es = .ok t) : Row t :=
  Machine.run_inv (fun _ _ _ hr he => qpEvent_row hr he) (row_of_empty hrc hempty) h

/-- With the SQ PSN set, the events keep the window filled. -/
theorem qpEvent_filled {s t : St} {e : QpEvent} (h : s.qp.qpType = .rc ∧ Filled s.qp)
    (he : qpEvent s e = .ok t) : t.qp.qpType = .rc ∧ Filled t.qp := by
  obtain ⟨hrc, hf⟩ := h
  rcases qpEvent_cases hrc he with hb | hr | ⟨op, hs⟩
  · obtain ⟨⟨hpsns, hnext, hfew⟩, hfull⟩ := hf
    rw [← hb.req] at hpsns hnext hfew hfull
    rw [← hb.sqPsn] at hpsns hnext
    exact ⟨hb.qpType.trans hrc, ⟨hpsns, hnext, hfew⟩, hfull⟩
  · refine ⟨hr.qpType.trans hrc, filled_of_empty ?_ ?_ ?_⟩
    · rw [hr.req]
    · rw [hr.req]
    · rw [hr.req]
  · exact reqStep_filled ⟨hrc, hf⟩ hs

theorem qpRun_filled {s t : St} {es : List QpEvent} (h : SqPsnGiven s)
    (hr : run qpEvent s es = .ok t) : t.qp.qpType = .rc ∧ Filled t.qp :=
  Machine.run_inv (fun _ _ _ hf he => qpEvent_filled hf he) ⟨h.rc, h.empty.1⟩ hr

end Libroce
