import Libroce.Exchange
import Libroce.RequesterCalls

/-!
# The order of requests

`roce_recv_rc` executes a request only when its PSN is the expected one, and
asks for that one by a NAK when a later one arrives.  `in_psn_nak` keeps it from
asking again; only a packet that has the expected PSN takes that back.

    arrive s pkt   one packet, with what it made the responder do and send
    rcRun s es     the log of a run                            (arrive_spec, rcRun_flag)

Main statement: `rcRun_sequenced`.
-/

namespace Libroce

open Machine (bind_eq_ok)

/-! ## What is sent -/

/-- The syndrome of an acknowledgement and its value. -/
def RoceNetpkt.syndrome (pkt : RoceNetpkt) : Option (Syndrome × UInt8) :=
  if pkt.isRequest then none
  else some (ibAethGetSyndromeType (ibAethCodec.dec pkt.ext), ibAethGetSyndromeVal (ibAethCodec.dec pkt.ext))

def RoceNetpkt.isAck (pkt : RoceNetpkt) : Bool := pkt.syndrome.any fun s => s.1 == .ack

/-- A NAK of the code `IB_NAK_PSN_SEQ_ERR`, which is 0. -/
def RoceNetpkt.isSeqNak (pkt : RoceNetpkt) : Bool := pkt.syndrome.any fun s => s.1 == .nak && s.2 == 0

theorem acknowledgePkt_reads {s : St} {syndrome : Syndrome} {val : UInt8} {psn : UInt32} {calloc : Bool}
    {pkt : RoceNetpkt} (h : acknowledgePkt s.ctx s.qp syndrome val psn calloc = .ok pkt) :
    pkt.syndrome = some (syndrome, val &&& 0x1f) ∧ (roceNetpktPsn pkt).toNat = psn.toNat % psnMod := by
  obtain ⟨hp, -⟩ := acknowledgePkt_packet h
  obtain ⟨se, hb⟩ := hp.bth_eq
  refine ⟨?_, hp.psn_eq⟩
  have hop : pkt.isRequest = false := by
    unfold RoceNetpkt.isRequest
    rw [hb, ibBthGetOpcode_setBth _ _ _ _ _ _ _ _ (by decide)]
    rfl
  unfold RoceNetpkt.syndrome
  rw [hop, hp.ext_eq, Bytes.Codec.dec_enc_self, ibAethGetSyndromeType_set, ibAethGetSyndromeVal_set]
  rfl

theorem isRequest_unread {pkt : RoceNetpkt} (h : pkt.isRequest = true) :
    pkt.isAck = false ∧ pkt.isSeqNak = false := by
  unfold RoceNetpkt.isAck RoceNetpkt.isSeqNak RoceNetpkt.syndrome
  rw [if_pos h]
  exact ⟨rfl, rfl⟩

/-! ## One packet -/

/-- `roce_recv_rc`, with a note whether it has executed a request. -/
def recvRcNoted (s : St) (pkt : Inbound) : Except Fault (Bool × Int × St) :=
  if ibBthGetOpcode pkt.bth = ibOpcodeAcknowledge then do
    let r ← recvAcknowledge s pkt
    return (false, r)
  else
    let psnDiff := roceComparePsn s.qp.attr.rqPsn (ibBthGetPsn pkt.bth)
    if psnDiff > 0 then .ok (false, 0, s)
    else if psnDiff < 0 then do
      let s ← roceOutOfSeq s pkt.calloc
      return (false, 0, s)
    else do
      let r ← recvInSequence s pkt
      return (r.1 == 0, r)

/-- Without the note. -/
theorem recvRcNoted_eq (s : St) (pkt : Inbound) :
    (recvRcNoted s pkt).map (·.2) = roceRecvRc s pkt := by
  unfold recvRcNoted roceRecvRc
  by_cases hack : ibBthGetOpcode pkt.bth = ibOpcodeAcknowledge
  · rw [if_pos hack, if_pos hack]
    cases recvAcknowledge s pkt <;> rfl
  · rw [if_neg hack, if_neg hack]
    simp only
    by_cases hold : roceComparePsn s.qp.attr.rqPsn (ibBthGetPsn pkt.bth) > 0
    · rw [if_pos hold, if_pos hold]
      rfl
    · rw [if_neg hold, if_neg hold]
      by_cases hnew : roceComparePsn s.qp.attr.rqPsn (ibBthGetPsn pkt.bth) < 0
      · rw [if_pos hnew, if_pos hnew]
        cases roceOutOfSeq s pkt.calloc <;> rfl
      · rw [if_neg hnew, if_neg hnew]
        cases recvInSequence s pkt <;> rfl

/-- A packet that arrived: the RQ PSN it found, whether it was executed, and what
was sent meanwhile. -/
structure Arrival where
  pkt : Inbound
  rqPsn : UInt32
  executed : Bool
  sent : List RoceNetpkt

/-- A request whose PSN is the expected one. -/
def Arrival.InPlace (a : Arrival) : Prop :=
  ibBthGetOpcode a.pkt.bth ≠ ibOpcodeAcknowledge ∧
    (ibBthGetPsn a.pkt.bth).toNat = a.rqPsn.toNat % psnMod

def arrive (s : St) (pkt : Inbound) : Except Fault (Arrival × St) := do
  let (executed, _, t) ← recvRcNoted s pkt
  return (⟨pkt, s.qp.attr.rqPsn, executed, sentSince s t⟩, t)

/-- The queued packets are requests. -/
def QueuesRequests (qp : RoceQp) : Prop := ∀ pkt ∈ qp.req.queued, pkt.isRequest = true

/-- What one packet does. -/
structure ArrivalStep (s : St) (a : Arrival) (t : St) : Prop where
  rqPsn : a.rqPsn = s.qp.attr.rqPsn
  executed : a.executed = true → a.InPlace ∧ t.qp.attr.rqPsn = roceQpPsnInc s.qp.attr.rqPsn
  passed : a.executed = false → t.qp.attr.rqPsn = s.qp.attr.rqPsn
  acks : ∀ pkt ∈ a.sent, pkt.isAck = true →
    a.executed = true ∧ roceNetpktPsn pkt = ibBthGetPsn a.pkt.bth
  naks : ∀ pkt ∈ a.sent, pkt.isSeqNak = true → s.qp.resp.inPsnNak = false ∧
    t.qp.resp.inPsnNak = true ∧ (roceNetpktPsn pkt).toNat = a.rqPsn.toNat % psnMod
  once : (a.sent.filter RoceNetpkt.isSeqNak).length ≤ 1
  flag : ¬a.InPlace → s.qp.resp.inPsnNak = true → t.qp.resp.inPsnNak = true

/-- An acknowledgement makes the requester send packets it had queued. -/
theorem acknowledge_sends {s t : St} {syndrome : Syndrome} {val : UInt8} {psn msn : UInt32}
    (h : roceHandleAcknowledge s syndrome val psn msn = .ok t) :
    ∃ pkts, Acts s t pkts ∧ ∀ pkt ∈ pkts, pkt ∈ s.qp.req.queued := by
  have hnone : ∃ pkts, Acts s s pkts ∧ ∀ pkt ∈ pkts, pkt ∈ s.qp.req.queued := ⟨[], .refl s, by simp⟩
  cases syndrome with
  | ack =>
    obtain ⟨n, moved, -, hacts, hpend, -⟩ := handleAck_acts h
    refine ⟨moved, hacts, ?_⟩
    intro pkt hmem
    apply List.mem_append_right
    rw [hpend]
    exact List.mem_append_left _ hmem
  | nak =>
    obtain ⟨u, hu, hx⟩ := bind_eq_ok.mp h
    obtain ⟨n, -, hreq, -⟩ := roceHandleAck_drops hu
    obtain ⟨moved, hmoves⟩ := roceXmitPkts_moves hx
    have hagain := Acts.emit u (u.qp.req.outgoingPkts.map .netXmit)
    rw [sentPkts_xmits] at hagain
    refine ⟨u.qp.req.outgoingPkts ++ moved,
      (roceHandleAck_acts hu).silent (hagain.trans hmoves.acts), ?_⟩
    intro pkt hmem
    rcases List.mem_append.mp hmem with hmem | hmem
    · rw [hreq] at hmem
      exact List.mem_append_left _ (List.mem_of_mem_drop hmem)
    · apply List.mem_append_right
      have hpend : u.qp.req.pendingPkts = moved ++ t.qp.req.pendingPkts := hmoves.pending
      have hsame : u.qp.req.pendingPkts = s.qp.req.pendingPkts := by rw [hreq]
      rw [← hsame, hpend]
      exact List.mem_append_left _ hmem
  | rnrNak =>
    obtain rfl := Except.ok.inj h
    exact hnone
  | reserved =>
    obtain rfl := Except.ok.inj h
    exact hnone

/-- A request is worked on in silence, or is a WRITE out of its place: then the
answer is a NAK of another code. -/
theorem recvRequest_sends {s t : St} {pkt : Inbound} {ret : Int} (h : recvRequest s pkt = .ok (ret, t)) :
    Works s t ∨ ret ≠ 0 ∧ ∃ nak, t = ({ s with qp.resp.msn := s.qp.resp.msn + 1 } : St).emit [.netXmit nak] ∧
      nak.syndrome = some (.nak, 1) := by
  by_cases hplace : OutOfPlace s pkt
  · obtain ⟨inprocess, reth, immdt, iovs, hreq, hout⟩ := hplace
    rw [recvRequest_eq, hreq] at h
    unfold execRequest roceRdmaWritePayload at h
    simp only at h
    rw [if_pos hout] at h
    split at h
    · cases h
    · next u hack =>
      obtain ⟨rfl, rfl⟩ := Prod.mk.inj (Except.ok.inj h)
      obtain ⟨nak, rfl, hpkt⟩ := roceNetpktAcknowledge_ok hack
      exact Or.inr ⟨by decide, nak, rfl, (acknowledgePkt_reads hpkt).1⟩
  · exact Or.inl ((recvRequest_ok h).works hplace)

/-- What a packet with the expected PSN does. -/
theorem recvInSequence_sends {s t : St} {pkt : Inbound} {ret : Int}
    (h : recvInSequence s pkt = .ok (ret, t)) :
    ∃ sent, Acts s t sent ∧
      (ret ≠ 0 ∧ t.qp.attr.rqPsn = s.qp.attr.rqPsn ∧ (∀ p ∈ sent, p.syndrome = some (.nak, 1)) ∨
        ret = 0 ∧ t.qp.attr.rqPsn = roceQpPsnInc s.qp.attr.rqPsn ∧ ∀ p ∈ sent,
          p.syndrome = some (.ack, 0x1f) ∧
            (roceNetpktPsn p).toNat = (ibBthGetPsn pkt.bth).toNat % psnMod) := by
  unfold recvInSequence at h
  obtain ⟨⟨ret1, s1⟩, hreq, h⟩ := bind_eq_ok.mp h
  have hclear : Works s { s with qp.resp.inPsnNak := false } := .responder rfl
  have hkeeps : ∀ u, Works s u → u.qp.attr.rqPsn = s.qp.attr.rqPsn := by
    intro u hu
    have hqp := hu.qp
    unfold ResponderOnly at hqp
    rw [hqp]
  by_cases hret : ret1 ≠ 0
  · simp only [if_pos hret] at h
    obtain ⟨rfl, rfl⟩ := Prod.mk.inj (Except.ok.inj h)
    rcases recvRequest_sends hreq with hworks | ⟨-, nak, rfl, hnak⟩
    · have hs := hclear.trans hworks
      exact ⟨[], hs.acts, Or.inl ⟨hret, hkeeps _ hs, by simp⟩⟩
    · refine ⟨[nak], hclear.acts.silent ⟨⟨[.netXmit nak], rfl, rfl⟩, rfl, rfl⟩, Or.inl ⟨hret, rfl, ?_⟩⟩
      simpa using hnak
  · simp only [if_neg hret] at h
    have hworks : Works s s1 := by
      rcases recvRequest_sends hreq with hworks | ⟨hne, -⟩
      · exact hclear.trans hworks
      · exact absurd hne hret
    split at h
    · obtain ⟨s2, hack, h⟩ := bind_eq_ok.mp h
      obtain ⟨rfl, rfl⟩ := Prod.mk.inj (Except.ok.inj h)
      obtain ⟨ack, rfl, hpkt⟩ := roceNetpktAcknowledge_ok hack
      refine ⟨[ack], hworks.acts.silent ⟨⟨[.netXmit ack], rfl, rfl⟩, rfl, rfl⟩, Or.inr ⟨rfl, ?_, ?_⟩⟩
      · exact congrArg roceQpPsnInc (hkeeps s1 hworks)
      · intro p hp
        obtain rfl := List.mem_singleton.mp hp
        exact acknowledgePkt_reads hpkt
    · obtain ⟨rfl, rfl⟩ := Prod.mk.inj (Except.ok.inj h)
      refine ⟨[], hworks.acts.silent ⟨⟨[], (List.append_nil _).symm, rfl⟩, rfl, rfl⟩,
        Or.inr ⟨rfl, ?_, by simp⟩⟩
      exact congrArg roceQpPsnInc (hkeeps s1 hworks)

theorem syndrome_nakSeq {pkt : RoceNetpkt} (h : pkt.syndrome = some (.nak, 0)) :
    pkt.isAck = false ∧ pkt.isSeqNak = true := by
  unfold RoceNetpkt.isAck RoceNetpkt.isSeqNak
  rw [h]
  decide

theorem syndrome_nakInvalid {pkt : RoceNetpkt} (h : pkt.syndrome = some (.nak, 1)) :
    pkt.isAck = false ∧ pkt.isSeqNak = false := by
  unfold RoceNetpkt.isAck RoceNetpkt.isSeqNak
  rw [h]
  decide

theorem syndrome_ack {pkt : RoceNetpkt} (h : pkt.syndrome = some (.ack, 0x1f)) :
    pkt.isSeqNak = false := by
  unfold RoceNetpkt.isSeqNak
  rw [h]
  decide

/-- Without a PSN-sequence NAK. -/
theorem filter_seqNak_nil {pkts : List RoceNetpkt} (h : ∀ pkt ∈ pkts, pkt.isSeqNak = false) :
    pkts.filter RoceNetpkt.isSeqNak = [] := by
  rw [List.filter_eq_nil_iff]
  intro pkt hmem
  rw [h pkt hmem]
  simp

theorem ibBthGetPsn_mod (bth : IbBth) : (ibBthGetPsn bth).toNat % psnMod = (ibBthGetPsn bth).toNat := by
  have h := psnMask_toNat bth.u32_2
  unfold ibBthGetPsn
  rw [h, Nat.mod_mod]

/-- Equal serial numbers. -/
theorem inPlace_iff {a b : UInt32} : ¬roceComparePsn a b > 0 ∧ ¬roceComparePsn a b < 0 ↔
    b.toNat % psnMod = a.toNat % psnMod := by
  have hd := Serial.dist_lt (show 0 < psnMod by decide) a.toNat b.toNat
  rw [gt_iff_lt, roceComparePsn_pos, roceComparePsn_neg, eq_comm (a := b.toNat % psnMod),
    ← Serial.dist_eq_zero (by decide)]
  unfold psnMod at hd ⊢
  omega

/-- A packet that is not executed and draws no acknowledgement. -/
theorem ArrivalStep.quiet {s t : St} {a : Arrival} (hrq : a.rqPsn = s.qp.attr.rqPsn)
    (hex : a.executed = false) (hpsn : t.qp.attr.rqPsn = s.qp.attr.rqPsn)
    (hflag : t.qp.resp.inPsnNak = s.qp.resp.inPsnNak)
    (hsent : ∀ pkt ∈ a.sent, pkt.isAck = false ∧ pkt.isSeqNak = false) : ArrivalStep s a t where
  rqPsn := hrq
  executed := by rw [hex]; rintro ⟨⟩
  passed := fun _ => hpsn
  acks := by
    intro pkt hmem hyes
    rw [(hsent pkt hmem).1] at hyes
    cases hyes
  naks := by
    intro pkt hmem hyes
    rw [(hsent pkt hmem).2] at hyes
    cases hyes
  once := by
    rw [filter_seqNak_nil fun pkt hmem => (hsent pkt hmem).2]
    exact Nat.zero_le _
  flag := fun _ hset => hflag.trans hset

theorem arrive_acknowledge {s t : St} {pkt : Inbound} {ret : Int} (hrc : s.qp.qpType = .rc)
    (hq : QueuesRequests s.qp) (h : recvAcknowledge s pkt = .ok (ret, t)) :
    ArrivalStep s ⟨pkt, s.qp.attr.rqPsn, false, sentSince s t⟩ t := by
  unfold recvAcknowledge at h
  split at h
  · obtain ⟨-, rfl⟩ := Prod.mk.inj (Except.ok.inj h)
    refine .quiet rfl rfl rfl rfl ?_
    rw [(Acts.refl s).sentSince]
    simp
  · next aeth rest _ =>
    obtain ⟨u, hack, h⟩ := bind_eq_ok.mp h
    obtain ⟨-, rfl⟩ := Prod.mk.inj (Except.ok.inj h)
    have hstep : reqStep s (.acknowledge (ibAethGetSyndromeType aeth) (ibAethGetSyndromeVal aeth)
      (ibBthGetPsn pkt.bth) (ibAethGetMsn aeth)) = .ok u := hack
    have honly := reqStep_requesterOnly hrc hstep
    unfold RequesterOnly at honly
    obtain ⟨pkts, hacts, hqueued⟩ := acknowledge_sends hack
    refine .quiet rfl rfl (by rw [honly]) (by rw [honly]) ?_
    rw [hacts.sentSince]
    exact fun p hp => isRequest_unread (hq p (hqueued p hp))

theorem arrive_ahead {s t : St} {pkt : Inbound} (h : roceOutOfSeq s pkt.calloc = .ok t) :
    ArrivalStep s ⟨pkt, s.qp.attr.rqPsn, false, sentSince s t⟩ t := by
  unfold roceOutOfSeq at h
  split at h
  · obtain rfl := Except.ok.inj h
    refine .quiet rfl rfl rfl rfl ?_
    rw [(Acts.refl s).sentSince]
    simp
  · next hflag =>
    split at h
    · cases h
    · next u hack =>
      obtain rfl := Except.ok.inj h
      obtain ⟨nak, rfl, hpkt⟩ := roceNetpktAcknowledge_ok hack
      obtain ⟨hsyn, hpsn⟩ := acknowledgePkt_reads hpkt
      obtain ⟨hnack, hnak⟩ := syndrome_nakSeq hsyn
      have hsent : sentSince s { ({ s with qp.resp.msn := s.qp.resp.msn + 1 } : St).emit [.netXmit nak] with
          qp.resp.inPsnNak := true } = [nak] :=
        Acts.sentSince ⟨⟨[.netXmit nak], rfl, rfl⟩, rfl, rfl⟩
      rw [hsent]
      refine ⟨rfl, (by rintro ⟨⟩), fun _ => rfl, ?_, ?_, ?_, fun _ _ => rfl⟩
      · intro p hp hyes
        rw [List.mem_singleton.mp hp, hnack] at hyes
        cases hyes
      · intro p hp _
        rw [List.mem_singleton.mp hp]
        exact ⟨Bool.eq_false_iff.mpr hflag, rfl, hpsn⟩
      · exact List.length_filter_le _ _

theorem arrive_inPlace {s t : St} {pkt : Inbound} {ret : Int}
    (hin : (⟨pkt, s.qp.attr.rqPsn, false, []⟩ : Arrival).InPlace)
    (h : recvInSequence s pkt = .ok (ret, t)) :
    ArrivalStep s ⟨pkt, s.qp.attr.rqPsn, ret == 0, sentSince s t⟩ t := by
  obtain ⟨sent, hacts, hcase⟩ := recvInSequence_sends h
  have hnaks : ∀ p ∈ sent, p.isSeqNak = false := by
    intro p hp
    rcases hcase with ⟨-, -, hnak⟩ | ⟨-, -, hack⟩
    · exact (syndrome_nakInvalid (hnak p hp)).2
    · exact syndrome_ack (hack p hp).1
  rw [hacts.sentSince]
  refine ⟨rfl, ?_, ?_, ?_, ?_, ?_, fun hout => absurd hin hout⟩
  · intro hzero
    rcases hcase with ⟨hret, -⟩ | ⟨-, hpsn, -⟩
    · exact absurd (beq_iff_eq.mp hzero) hret
    · exact ⟨hin, hpsn⟩
  · intro hnonzero
    rcases hcase with ⟨-, hpsn, -⟩ | ⟨rfl, -⟩
    · exact hpsn
    · cases hnonzero
  · intro p hp hyes
    rcases hcase with ⟨-, -, hnak⟩ | ⟨rfl, -, hack⟩
    · rw [(syndrome_nakInvalid (hnak p hp)).1] at hyes
      cases hyes
    · refine ⟨rfl, UInt32.toNat_inj.mp ?_⟩
      rw [(hack p hp).2, ibBthGetPsn_mod]
  · intro p hp hyes
    rw [hnaks p hp] at hyes
    cases hyes
  · rw [filter_seqNak_nil hnaks]
    exact Nat.zero_le _

/-- **One packet.** -/
theorem arrive_step {s t : St} {pkt : Inbound} {a : Arrival} (hrc : s.qp.qpType = .rc)
    (hq : QueuesRequests s.qp) (h : arrive s pkt = .ok (a, t)) : ArrivalStep s a t := by
  unfold arrive at h
  obtain ⟨⟨executed, ret, u⟩, hr, h⟩ := bind_eq_ok.mp h
  obtain ⟨rfl, rfl⟩ := Prod.mk.inj (Except.ok.inj h)
  unfold recvRcNoted at hr
  split at hr
  · obtain ⟨r, hack, hr⟩ := bind_eq_ok.mp hr
    obtain ⟨rfl, rfl⟩ := Prod.mk.inj (Except.ok.inj hr)
    exact arrive_acknowledge hrc hq hack
  · next hreq =>
    simp only at hr
    split at hr
    · obtain ⟨rfl, hsame⟩ := Prod.mk.inj (Except.ok.inj hr)
      obtain ⟨rfl, rfl⟩ := Prod.mk.inj hsame
      refine .quiet rfl rfl rfl rfl ?_
      rw [(Acts.refl s).sentSince]
      simp
    · next hold =>
      split at hr
      · next hnew =>
        obtain ⟨u', hseq, hr⟩ := bind_eq_ok.mp hr
        obtain ⟨rfl, hsame⟩ := Prod.mk.inj (Except.ok.inj hr)
        obtain ⟨rfl, rfl⟩ := Prod.mk.inj hsame
        exact arrive_ahead hseq
      · next hnew =>
        obtain ⟨r, hseq, hr⟩ := bind_eq_ok.mp hr
        obtain ⟨rfl, rfl⟩ := Prod.mk.inj (Except.ok.inj hr)
        refine arrive_inPlace ⟨hreq, ?_⟩ hseq
        rw [← ibBthGetPsn_mod]
        exact inPlace_iff.mp ⟨hold, hnew⟩

/-! ## Runs -/

/-- A packet arrives, WRs are posted, or something happens elsewhere in the context. -/
inductive RcEvent where
  | arrives (pkt : Inbound)
  | postRecv (p wrId : UInt64) (sge : List RoceSge)
  | postSend (wr : SendWr) (calloc : Nat → Bool)
  | elsewhere (ctx : RoceCtx) (es : List Event)

def rcEvent (s : St) : RcEvent → Except Fault (List Arrival × St)
  | .arrives pkt => do
    let (a, t) ← arrive s pkt
    return ([a], t)
  | .postRecv p wrId sge => do
    let t ← qpEvent s (.call (.postRecv p wrId sge))
    return ([], t)
  | .postSend wr calloc => do
    let t ← qpEvent s (.call (.postSend wr calloc))
    return ([], t)
  | .elsewhere ctx es => do
    let t ← qpEvent s (.elsewhere ctx es)
    return ([], t)

/-- The arrivals of a run, and the state after it. -/
def rcRun : St → List RcEvent → Except Fault (List Arrival × St)
  | s, [] => .ok ([], s)
  | s, e :: es => do
    let (as, t) ← rcEvent s e
    let (bs, u) ← rcRun t es
    return (as ++ bs, u)

/-- An RC QP whose queued packets are requests. -/
structure RcRequests (s : St) : Prop where
  rc : s.qp.qpType = .rc
  requests : QueuesRequests s.qp

theorem Shaped.requests {ctx : RoceCtx} {qp : RoceQp} {wr : SendWr} {pkts : List RoceNetpkt}
    (h : Shaped ctx qp wr pkts) : ∀ pkt ∈ pkts, pkt.isRequest = true := by
  have hrequest : ∀ {pkt : RoceNetpkt} {opcode : UInt8}, opcode < 32 → opcode ≠ ibOpcodeAcknowledge →
      (∃ o ext padcnt ack psn payload, IsRequest ctx qp o opcode ext padcnt ack psn payload pkt) →
      pkt.isRequest = true := by
    rintro pkt opcode hlt hne ⟨o, ext, padcnt, ack, psn, payload, hreq⟩
    obtain ⟨se, hb⟩ := hreq.packet.bth_eq
    unfold RoceNetpkt.isRequest
    rw [hb, ibBthGetOpcode_setBth _ _ _ _ _ _ _ _ hlt]
    exact bne_iff_ne.mpr hne
  intro pkt hmem
  cases h with
  | only hmtu hlen hk hreq hb hin hfit =>
    obtain rfl := List.mem_singleton.mp hmem
    exact hrequest hk.fits.1 hk.ne_acknowledge ⟨_, _, _, _, _, _, hreq⟩
  | several hmtu hlen hk hm =>
    obtain ⟨first, mids, last, rfl, ⟨p, hfirst⟩, hmids, rest, psn, bytes, hlast, -⟩ := hm.parts
    obtain ⟨⟨hop1, hop2, hop3⟩, -⟩ := hk.fits
    obtain ⟨hne1, hne2, hne3⟩ := hk.ne_acknowledge
    rcases List.mem_append.mp hmem with hmem | hmem
    · rcases List.mem_cons.mp hmem with rfl | hmem
      · obtain ⟨_, hreq, -⟩ := hfirst
        exact hrequest hop1 hne1 ⟨_, _, _, _, _, _, hreq⟩
      · obtain ⟨p', _, hreq, -⟩ := hmids pkt hmem
        exact hrequest hop2 hne2 ⟨_, _, _, _, _, _, hreq⟩
    · obtain rfl := List.mem_singleton.mp hmem
      exact hrequest hop3 hne3 ⟨_, _, _, _, _, _, hlast⟩

theorem reqStep_requests {s t : St} {op : ReqOp} (h : RcRequests s) (hs : reqStep s op = .ok t) :
    RcRequests t := by
  refine ⟨by rw [(reqStep_requesterOnly h.rc hs).qpType, h.rc], ?_⟩
  rcases reqStep_ok h.rc hs with ⟨-, rfl⟩ | ⟨v, u, hp, hx, rfl⟩
  · exact h.requests
  · have hv : QueuesRequests v.qp := by
      cases op with
      | post wr calloc =>
        obtain ⟨qp, wr2, hposted, hqp, -⟩ := rocePostSend_prepare hp
        have hreq : v.qp.req = qp.req := by rw [hqp]
        unfold QueuesRequests
        rw [hreq]
        cases hposted with
        | failed e he m => exact h.requests
        | skipped m hskip => exact h.requests
        | queued m pkts ht hop hshape =>
          intro pkt hmem
          have hq : pkt ∈ s.qp.req.outgoingPkts ++ (s.qp.req.pendingPkts ++ pkts) := hmem
          rw [← List.append_assoc] at hq
          rcases List.mem_append.mp hq with hq | hq
          · exact h.requests pkt hq
          · exact hshape.requests pkt hq
      | acknowledge syndrome val psn msn =>
        obtain ⟨n, hn, hreq, -⟩ := acknowledge_drops hp
        intro pkt hmem
        rw [hreq] at hmem
        rcases List.mem_append.mp hmem with hmem | hmem
        · exact h.requests pkt (List.mem_append_left _ (List.mem_of_mem_drop hmem))
        · exact h.requests pkt (List.mem_append_right _ hmem)
    have hu : QueuesRequests u.qp := by
      unfold QueuesRequests
      rw [(roceXmitPkts_ok hx).queued]
      exact hv
    cases op with
    | post wr calloc => exact hu
    | acknowledge syndrome val psn msn => exact hu

theorem Beside.requests {s t : St} (hb : Beside s t) (h : RcRequests s) : RcRequests t := by
  refine ⟨hb.qpType.trans h.rc, ?_⟩
  unfold QueuesRequests
  rw [hb.req]
  exact h.requests

/-- The expected PSN and the flag stay as they are. -/
def Awaits (s t : St) : Prop :=
  t.qp.attr.rqPsn = s.qp.attr.rqPsn ∧ t.qp.resp.inPsnNak = s.qp.resp.inPsnNak

theorem rocePostRecv_awaits {s t : St} {p : UInt64} {wr : RecvWr} {ret : Int}
    (h : rocePostRecv s p wr = .ok (ret, t)) : Awaits s t := by
  unfold rocePostRecv at h
  split at h
  · cases h
  · split at h
    · split at h
      · cases h
      · obtain ⟨-, rfl⟩ := Prod.mk.inj (Except.ok.inj h)
        exact ⟨rfl, rfl⟩
    · obtain ⟨-, rfl⟩ := Prod.mk.inj (Except.ok.inj h)
      exact ⟨rfl, rfl⟩

theorem arrive_requests {s t : St} {pkt : Inbound} {a : Arrival} (h : RcRequests s)
    (ha : arrive s pkt = .ok (a, t)) : RcRequests t := by
  unfold arrive at ha
  obtain ⟨⟨executed, ret, u⟩, hr, ha⟩ := bind_eq_ok.mp ha
  obtain ⟨-, rfl⟩ := Prod.mk.inj (Except.ok.inj ha)
  have hrecv : roceRecvRc s pkt = .ok (ret, u) := by
    rw [← recvRcNoted_eq, hr]
    rfl
  rcases roceRecvRc_beside hrecv with hb | ⟨syndrome, val, psn, msn, hack⟩
  · exact hb.requests h
  · have hstep : reqStep s (.acknowledge syndrome val psn msn) = .ok u := hack
    exact reqStep_requests h hstep

/-- One event: a packet arrives, or the responder awaits the same packet as before. -/
theorem rcEvent_step {s t : St} {e : RcEvent} {as : List Arrival} (h : RcRequests s)
    (he : rcEvent s e = .ok (as, t)) :
    RcRequests t ∧ ((∃ a, as = [a] ∧ ArrivalStep s a t) ∨ as = [] ∧ Awaits s t) := by
  cases e with
  | arrives pkt =>
    obtain ⟨⟨a, u⟩, ha, he⟩ := bind_eq_ok.mp he
    obtain ⟨rfl, rfl⟩ := Prod.mk.inj (Except.ok.inj he)
    exact ⟨arrive_requests h ha, Or.inl ⟨a, rfl, arrive_step h.rc h.requests ha⟩⟩
  | postRecv p wrId sge =>
    obtain ⟨u, hu, he⟩ := bind_eq_ok.mp he
    obtain ⟨rfl, rfl⟩ := Prod.mk.inj (Except.ok.inj he)
    obtain ⟨⟨ret, v⟩, hp, hu⟩ := bind_eq_ok.mp hu
    obtain rfl := Except.ok.inj hu
    exact ⟨(rocePostRecv_beside hp).requests h, Or.inr ⟨rfl, rocePostRecv_awaits hp⟩⟩
  | postSend wr calloc =>
    obtain ⟨u, hu, he⟩ := bind_eq_ok.mp he
    obtain ⟨rfl, rfl⟩ := Prod.mk.inj (Except.ok.inj he)
    have hstep : reqStep s (.post wr calloc) = .ok u := hu
    have honly := reqStep_requesterOnly h.rc hstep
    unfold RequesterOnly at honly
    exact ⟨reqStep_requests h hstep, Or.inr ⟨rfl, by rw [honly], by rw [honly]⟩⟩
  | elsewhere ctx es =>
    obtain ⟨u, hu, he⟩ := bind_eq_ok.mp he
    obtain ⟨rfl, rfl⟩ := Prod.mk.inj (Except.ok.inj he)
    obtain rfl := Except.ok.inj hu
    exact ⟨⟨h.rc, h.requests⟩, Or.inr ⟨rfl, rfl, rfl⟩⟩

/-- The requests of a log that were executed. -/
def executed (log : List Arrival) : List Arrival := log.filter (·.executed)

/-- They have consecutive PSNs, and the RQ PSN counts them. -/
theorem rcRun_psns {s t : St} {es : List RcEvent} {log : List Arrival} (h : RcRequests s)
    (hr : rcRun s es = .ok (log, t)) :
    (executed log).map (fun a => (ibBthGetPsn a.pkt.bth).toNat) =
        Serial.seq psnMod s.qp.attr.rqPsn.toNat (executed log).length ∧
      t.qp.attr.rqPsn.toNat % psnMod =
        (s.qp.attr.rqPsn.toNat + (executed log).length) % psnMod := by
  induction es generalizing s log with
  | nil =>
    obtain ⟨rfl, rfl⟩ := Prod.mk.inj (Except.ok.inj hr)
    exact ⟨rfl, rfl⟩
  | cons e es ih =>
    obtain ⟨⟨as, u⟩, he, hr⟩ := bind_eq_ok.mp hr
    obtain ⟨⟨bs, v⟩, hrest, hr⟩ := bind_eq_ok.mp hr
    obtain ⟨rfl, rfl⟩ := Prod.mk.inj (Except.ok.inj hr)
    obtain ⟨hu, hcase⟩ := rcEvent_step h he
    obtain ⟨hpsns, hlast⟩ := ih hu hrest
    have hsame : u.qp.attr.rqPsn = s.qp.attr.rqPsn → executed (as ++ bs) = executed bs →
        (executed (as ++ bs)).map (fun a => (ibBthGetPsn a.pkt.bth).toNat) =
            Serial.seq psnMod s.qp.attr.rqPsn.toNat (executed (as ++ bs)).length ∧
          v.qp.attr.rqPsn.toNat % psnMod =
            (s.qp.attr.rqPsn.toNat + (executed (as ++ bs)).length) % psnMod := by
      intro hpsn hex
      rw [hex, ← hpsn]
      exact ⟨hpsns, hlast⟩
    rcases hcase with ⟨a, rfl, ha⟩ | ⟨rfl, hpsn, -⟩
    · cases hexec : a.executed with
      | false => exact hsame (ha.passed hexec) (List.filter_cons_of_neg (by simp [hexec]))
      | true =>
        obtain ⟨⟨-, hin⟩, hinc⟩ := ha.executed hexec
        have hcons : executed ([a] ++ bs) = a :: executed bs := List.filter_cons_of_pos hexec
        rw [hcons, List.map_cons, List.length_cons, Serial.seq_succ, hin, ha.rqPsn, hpsns, hlast, hinc,
          roceQpPsnInc_toNat, Serial.seq_mod, Nat.mod_add_mod, Nat.add_assoc, Nat.add_comm 1]
        exact ⟨rfl, rfl⟩
    · exact hsame hpsn rfl

/-- What is sent for each packet of the log. -/
structure Arrival.Answered (a : Arrival) : Prop where
  acks : ∀ pkt ∈ a.sent, pkt.isAck = true → a.executed = true ∧ roceNetpktPsn pkt = ibBthGetPsn a.pkt.bth
  naks : ∀ pkt ∈ a.sent, pkt.isSeqNak = true → (roceNetpktPsn pkt).toNat = a.rqPsn.toNat % psnMod
  once : (a.sent.filter RoceNetpkt.isSeqNak).length ≤ 1

theorem rcRun_answered {s t : St} {es : List RcEvent} {log : List Arrival} (h : RcRequests s)
    (hr : rcRun s es = .ok (log, t)) : ∀ a ∈ log, a.Answered := by
  induction es generalizing s log with
  | nil =>
    obtain ⟨rfl, rfl⟩ := Prod.mk.inj (Except.ok.inj hr)
    simp
  | cons e es ih =>
    obtain ⟨⟨as, u⟩, he, hr⟩ := bind_eq_ok.mp hr
    obtain ⟨⟨bs, v⟩, hrest, hr⟩ := bind_eq_ok.mp hr
    obtain ⟨rfl, rfl⟩ := Prod.mk.inj (Except.ok.inj hr)
    obtain ⟨hu, hcase⟩ := rcEvent_step h he
    intro a hmem
    rcases List.mem_append.mp hmem with hmem | hmem
    · rcases hcase with ⟨b, rfl, hb⟩ | ⟨rfl, -⟩
      · obtain rfl := List.mem_singleton.mp hmem
        exact ⟨hb.acks, fun pkt hp hnak => (hb.naks pkt hp hnak).2.2, hb.once⟩
      · cases hmem
    · exact ih hu hrest a hmem

/-! ## The spacing of the NAKs -/

/-- The arrival of the packet was answered by a PSN-sequence NAK. -/
def Arrival.Asks (a : Arrival) : Prop := ∃ pkt ∈ a.sent, pkt.isSeqNak = true

/-- While `asked` holds, no arrival draws a NAK; a packet in its place takes it back. -/
def Spaced (asked : Prop) : List Arrival → Prop
  | [] => True
  | a :: log => (asked → ¬a.Asks) ∧ Spaced (a.Asks ∨ asked ∧ ¬a.InPlace) log

theorem rcRun_spaced {s t : St} {es : List RcEvent} {log : List Arrival} {asked : Prop}
    (h : RcRequests s) (hr : rcRun s es = .ok (log, t)) (hflag : asked → s.qp.resp.inPsnNak = true) :
    Spaced asked log := by
  induction es generalizing s log asked with
  | nil =>
    obtain ⟨rfl, rfl⟩ := Prod.mk.inj (Except.ok.inj hr)
    trivial
  | cons e es ih =>
    obtain ⟨⟨as, u⟩, he, hr⟩ := bind_eq_ok.mp hr
    obtain ⟨⟨bs, v⟩, hrest, hr⟩ := bind_eq_ok.mp hr
    obtain ⟨rfl, rfl⟩ := Prod.mk.inj (Except.ok.inj hr)
    obtain ⟨hu, hcase⟩ := rcEvent_step h he
    rcases hcase with ⟨a, rfl, ha⟩ | ⟨rfl, -, hstay⟩
    · refine ⟨?_, ih hu hrest ?_⟩
      · rintro hasked ⟨pkt, hp, hnak⟩
        have hfalse := (ha.naks pkt hp hnak).1
        rw [hflag hasked] at hfalse
        cases hfalse
      · rintro (⟨pkt, hp, hnak⟩ | ⟨hasked, hout⟩)
        · exact (ha.naks pkt hp hnak).2.1
        · exact ha.flag hout (hflag hasked)
    · exact ih hu hrest fun hasked => hstay.trans (hflag hasked)

theorem Spaced.holds_off {mid after : List Arrival} {b : Arrival} {asked : Prop}
    (h : Spaced asked (mid ++ b :: after)) (hasked : asked) (hb : b.Asks) : ∃ c ∈ mid, c.InPlace := by
  induction mid generalizing asked with
  | nil => exact absurd hb (h.1 hasked)
  | cons c mid ih =>
    by_cases hc : c.InPlace
    · exact ⟨c, List.mem_cons_self, hc⟩
    · obtain ⟨d, hd, hin⟩ := ih h.2 (Or.inr ⟨hasked, hc⟩)
      exact ⟨d, List.mem_cons_of_mem _ hd, hin⟩

theorem Spaced.between {before mid after : List Arrival} {a b : Arrival} {asked : Prop}
    (h : Spaced asked (before ++ a :: (mid ++ b :: after))) (ha : a.Asks) (hb : b.Asks) :
    ∃ c ∈ mid, c.InPlace := by
  induction before generalizing asked with
  | nil => exact Spaced.holds_off h.2 (Or.inl ha) hb
  | cons c before ih => exact ih h.2

/-- What the log of a run from RQ PSN `rqPsn` says. -/
structure Sequenced (rqPsn : UInt32) (log : List Arrival) (t : St) : Prop where
  psns : (executed log).map (fun a => (ibBthGetPsn a.pkt.bth).toNat) =
    Serial.seq psnMod rqPsn.toNat (executed log).length
  rqPsn : t.qp.attr.rqPsn.toNat % psnMod = (rqPsn.toNat + (executed log).length) % psnMod
  answered : ∀ a ∈ log, a.Answered
  between : ∀ before a mid b after, log = before ++ a :: (mid ++ b :: after) → a.Asks → b.Asks →
    ∃ c ∈ mid, c.InPlace

/-- **Sequencing.**  For every sequence of packets, whatever their PSNs. -/
theorem rcRun_sequenced (s t : St) (h : RcRequests s) (es : List RcEvent) (log : List Arrival)
    (hr : rcRun s es = .ok (log, t)) : Sequenced s.qp.attr.rqPsn log t := by
  obtain ⟨hpsns, hlast⟩ := rcRun_psns h hr
  refine ⟨hpsns, hlast, rcRun_answered h hr, ?_⟩
  rintro before a mid b after rfl ha hb
  have hspaced : Spaced False (before ++ a :: (mid ++ b :: after)) := rcRun_spaced h hr (by rintro ⟨⟩)
  exact hspaced.between ha hb

/-- A request in its place, two that come too early, and the missing one. -/
def gapped : List RcEvent :=
  [0, 2, 3, 1].map fun psn => .arrives (smallPkt ibOpcodeSendOnly psn [[1, 2, 3]])

/-- The first gap is answered by a NAK, the second is not. -/
theorem rcRun_sequenced_gapped :
    ∃ log t, rcRun (smallRecv 3 2) gapped = .ok (log, t) ∧
      log.map (fun a => (a.executed, a.sent.map RoceNetpkt.isSeqNak)) =
        [(true, []), (false, [true]), (false, []), (true, [])] ∧
      Sequenced 0 log t := by
  have hlog : (rcRun (smallRecv 3 2) gapped).toOption.map (fun r =>
      r.1.map (fun a => (a.executed, a.sent.map RoceNetpkt.isSeqNak))) =
        some [(true, []), (false, [true]), (false, []), (true, [])] := by
    decide +kernel
  cases hr : rcRun (smallRecv 3 2) gapped with
  | error e =>
    rw [hr] at hlog
    cases hlog
  | ok r =>
    obtain ⟨log, t⟩ := r
    rw [hr] at hlog
    have hreq : RcRequests (smallRecv 3 2) := ⟨by decide +kernel, by
      have hq : (smallRecv 3 2).qp.req.queued = [] := by decide +kernel
      unfold QueuesRequests
      rw [hq]
      simp⟩
    have hpsn : (smallRecv 3 2).qp.attr.rqPsn = 0 := by decide +kernel
    refine ⟨log, t, rfl, Option.some.inj hlog, ?_⟩
    rw [← hpsn]
    exact rcRun_sequenced (smallRecv 3 2) t hreq gapped log hr

end Libroce
