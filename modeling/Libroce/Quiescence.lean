import Libroce.Exchange

/-!
# Quiescence

Two connected QPs, work posted on both, and then deliveries only.  An exchange
in which no request is refused while another follows it ends
(`exchange_quiesces`).  `roce_out_of_seq` answers what follows a refused
request with a NAK, and the NAK brings everything again (`exchange_endless`).
-/

namespace Libroce

open Machine (bind_eq_ok)

/-! ## Before the links deliver -/

/-- Two QPs set up for each other, before the first post. -/
structure Connected (a b : St) : Prop where
  there : Joined a b
  back : Joined b a
  sqPsnSet : SqPsnSet a.qp
  sqPsnSet' : SqPsnSet b.qp
  psn : b.qp.attr.rqPsn.toNat % psnMod = a.qp.attr.sqPsn.toNat
  psn' : a.qp.attr.rqPsn.toNat % psnMod = b.qp.attr.sqPsn.toNat

inductive Post where
  | send (wr : SendWr) (calloc : Nat → Bool)
  | recv (p wrId : UInt64) (sge : List RoceSge)

def postStep (s : St) : Post → Except Fault St
  | .send wr calloc => rocePostSend s wr.fresh calloc
  | .recv p wrId sge => do
    let (_, s) ← rocePostRecv s p (.fresh wrId sge)
    return s

/-- A side that has posted: what it sent is on its link. -/
def Side.posted (s0 s : St) : Side := ⟨s, sentSince s0 s⟩

/-- After posts the link holds the outgoing packets. -/
structure HasPosted (s0 s : St) : Prop where
  acts : Acts s0 s s.qp.req.outgoingPkts
  filled : s.qp.qpType = .rc ∧ Filled s.qp
  attr : s.qp.attr = s0.qp.attr
  requests : ∀ pkt ∈ s.qp.req.queued, pkt.isRequest = true ∧ ∃ opcode, Addressed s0 opcode pkt

theorem Addressed.isRequest {s : St} {opcode : UInt8} {pkt : RoceNetpkt} (h : Addressed s opcode pkt)
    (hne : opcode ≠ ibOpcodeAcknowledge) : pkt.isRequest = true := by
  obtain ⟨ext, padcnt, ack, psn, payload, hp, hfits⟩ := h
  obtain ⟨se, hbth⟩ := hp.bth_eq
  unfold RoceNetpkt.isRequest
  rw [hbth, ibBthGetOpcode_setBth _ _ _ _ _ _ _ _ hfits.opcode]
  exact bne_iff_ne.mpr hne

theorem SqPsnSet.hasPosted {s : St} (h : SqPsnSet s.qp) (hrc : s.qp.qpType = .rc) : HasPosted s s := by
  refine ⟨?_, ⟨hrc, h.window.filled⟩, rfl, ?_⟩
  · rw [h.outgoing]
    exact .refl s
  · intro pkt hmem
    unfold RoceRequester.queued at hmem
    rw [h.outgoing, h.pending] at hmem
    cases hmem

theorem HasPosted.send {s0 s s' : St} {wr : SendWr} {calloc : Nat → Bool} (hv : MtusValid s0)
    (h : HasPosted s0 s) (hp : rocePostSend s wr.fresh calloc = .ok s') : HasPosted s0 s' := by
  have hstep : reqStep s (.post wr calloc) = .ok s' := hp
  have hfilled := reqStep_filled h.filled hstep
  obtain ⟨t, u, qp, wr2, moved, hposted, hrefs, hqp, hmoves, rfl⟩ := postSend_ok h.filled.1 hp
  have hacts := hposted.acts hrefs hqp hmoves
  have hreq : t.qp.req = qp.req := by rw [hqp]
  have hattr : t.qp.attr = qp.attr := by rw [hqp]
  have hctx : Acts s0 ⟨t.ctx, s.qp⟩ s.qp.req.outgoingPkts := by
    have hs := h.acts.trans (RefsOnly.acts hrefs)
    rw [List.append_nil] at hs
    exact hs
  have hv' : MtusValid ⟨t.ctx, s.qp⟩ := by
    constructor
    · show roceValidMtu s.qp.attr.pathMtu = true
      rw [h.attr]
      exact hv.path
    · intro port hport
      refine hv.port port ?_
      rw [← hport]
      unfold portAt
      rw [hctx.ports]
  have hout : qp.req.outgoingPkts = s.qp.req.outgoingPkts ∧ qp.attr = s.qp.attr ∧
      ∀ pkt ∈ qp.req.queued, pkt.isRequest = true ∧ ∃ opcode, Addressed s0 opcode pkt := by
    cases hposted with
    | failed e he m => exact ⟨rfl, rfl, h.requests⟩
    | skipped m hs => exact ⟨rfl, rfl, h.requests⟩
    | queued m pkts ht hop hs =>
      refine ⟨rfl, rfl, ?_⟩
      intro pkt hmem
      have hmem' : pkt ∈ s.qp.req.queued ++ pkts := by
        unfold RoceRequester.queued
        rw [List.append_assoc]
        exact hmem
      rcases List.mem_append.mp hmem' with hmem | hmem
      · exact h.requests pkt hmem
      · obtain ⟨opcode, hne, ha⟩ := hs.addressed hv' pkt hmem
        exact ⟨ha.isRequest hne, opcode, ha.between hctx (.refl s0)⟩
  obtain ⟨hout, hattr', hrequests⟩ := hout
  have hqueued : u.qp.req.queued = qp.req.queued := by
    unfold RoceRequester.queued
    rw [hmoves.qp]
    show (t.qp.req.outgoingPkts ++ moved) ++ u.qp.req.pendingPkts = _
    rw [List.append_assoc, ← hmoves.pending, hreq]
  refine ⟨?_, hfilled, ?_, ?_⟩
  · have hall := h.acts.trans hacts
    have hlink : u.qp.req.outgoingPkts = s.qp.req.outgoingPkts ++ moved := by
      rw [hmoves.qp, hreq, hout]
    show Acts s0 _ u.qp.req.outgoingPkts
    rw [hlink]
    exact hall
  · show u.qp.attr = _
    rw [hmoves.qp, hattr, hattr', h.attr]
  · intro pkt hmem
    have hmem' : pkt ∈ u.qp.req.queued := hmem
    rw [hqueued] at hmem'
    exact hrequests pkt hmem'

theorem rocePostRecv_works {s s' : St} {p : UInt64} {wr : RecvWr} {ret : Int}
    (h : rocePostRecv s p wr = .ok (ret, s')) : Works s s' := by
  unfold rocePostRecv at h
  split at h
  · cases h
  · next ret1 ctx hget =>
    have hrefs : Works s { s with ctx := ctx } := ⟨(roceGetMrs_refsOnly hget).acts, rfl⟩
    split at h
    · split at h
      · cases h
      · next ctx' hfree =>
        obtain ⟨-, rfl⟩ := Prod.mk.inj (Except.ok.inj h)
        exact hrefs.trans (.freeRecvWr hfree)
    · obtain ⟨-, rfl⟩ := Prod.mk.inj (Except.ok.inj h)
      exact hrefs.trans ⟨⟨⟨[], (List.append_nil _).symm, rfl⟩, rfl, rfl⟩, rfl⟩

theorem HasPosted.recv {s0 s s' : St} (h : HasPosted s0 s) (hw : Works s s') : HasPosted s0 s' := by
  have hqp := hw.qp
  unfold ResponderOnly at hqp
  have hreq : s'.qp.req = s.qp.req := by rw [hqp]
  have hattr : s'.qp.attr = s.qp.attr := by rw [hqp]
  refine ⟨?_, ⟨?_, ?_⟩, by rw [hattr, h.attr], ?_⟩
  · have hall := h.acts.trans hw.acts
    rw [List.append_nil] at hall
    rw [hreq]
    exact hall
  · rw [hqp]
    exact h.filled.1
  · have hf := h.filled.2
    exact ⟨⟨by rw [hreq, hattr]; exact hf.counted.psns, by rw [hreq, hattr]; exact hf.counted.next,
      by rw [hreq]; exact hf.counted.few⟩, by rw [hreq]; exact hf.full⟩
  · rw [hreq]
    exact h.requests

theorem postStep_hasPosted {s0 s s' : St} {post : Post} (hv : MtusValid s0) (h : HasPosted s0 s)
    (hp : postStep s post = .ok s') : HasPosted s0 s' := by
  cases post with
  | send wr calloc => exact h.send hv hp
  | recv p wrId sge =>
    obtain ⟨⟨ret, t⟩, hr, hp⟩ := bind_eq_ok.mp hp
    obtain rfl := Except.ok.inj hp
    exact h.recv (rocePostRecv_works hr)

theorem postRun_hasPosted {s0 s : St} {posts : List Post} (hv : MtusValid s0) (hrc : s0.qp.qpType = .rc)
    (h : SqPsnSet s0.qp) (hp : Machine.run postStep s0 posts = .ok s) : HasPosted s0 s :=
  Machine.run_inv (fun _ _ _ ht hs => postStep_hasPosted hv ht hs) (h.hasPosted hrc) hp

/-- The requests of a side that has posted are its queued packets. -/
theorem HasPosted.flow {a0 a b0 b : St} (ha : HasPosted a0 a) (hb : HasPosted b0 b)
    (hj : Joined a0 b0) (hpsn : b0.qp.attr.rqPsn.toNat % psnMod = a0.qp.attr.sqPsn.toNat) :
    Flow (.posted a0 a) (.posted b0 b) := by
  have hlink : (Side.posted a0 a).link = a.qp.req.outgoingPkts := ha.acts.sentSince
  have hall : ∀ pkt ∈ a.qp.req.outgoingPkts, pkt.isRequest = true := fun pkt hmem =>
    (ha.requests pkt (List.mem_append_left _ hmem)).1
  have hreq : (Side.posted a0 a).requests = a.qp.req.queued := by
    unfold Side.requests
    rw [hlink, List.filter_eq_self.mpr hall]
    rfl
  have hans : (Side.posted a0 a).answers = [] := by
    unfold Side.answers
    rw [hlink, List.filter_eq_nil_iff]
    intro pkt hmem
    simp [hall pkt hmem]
  refine ⟨hj.acts ha.acts hb.acts, ?_, ?_, ?_⟩
  · intro pkt hmem
    rw [hreq] at hmem
    obtain ⟨hr, opcode, haddr⟩ := ha.requests pkt hmem
    exact ⟨hr, opcode, haddr.acts ha.acts⟩
  · intro pkt hmem
    rw [hans] at hmem
    cases hmem
  · have horder := ha.filled.2.counted.psns
    rw [hreq, horder, ha.attr, ← hpsn, Serial.seq_mod]
    show _ = Serial.seq psnMod b.qp.attr.rqPsn.toNat _
    rw [hb.attr]

/-! ## Exchanges that end -/

theorem exchangeStep_flow {x x' : Exchange} {d : Delivery} (h : Flow x.a x.b ∧ Flow x.b x.a)
    (hg : x.Unblocked d) (hs : exchangeStep x d = .ok x') :
    (Flow x'.a x'.b ∧ Flow x'.b x'.a) ∧ x'.size < x.size := by
  obtain ⟨hab, hba⟩ := h
  unfold exchangeStep at hs
  unfold Exchange.Unblocked at hg
  unfold Exchange.size
  cases hd : d.toB with
  | true =>
    rw [hd, if_pos rfl] at hs hg
    obtain ⟨⟨a, b⟩, hstep, hs⟩ := bind_eq_ok.mp hs
    obtain rfl := Except.ok.inj hs
    have hp := handOver_flow hab hba hg hstep
    exact ⟨⟨hp.there, hp.back⟩, hp.size⟩
  | false =>
    rw [hd, if_neg Bool.false_ne_true] at hs hg
    obtain ⟨⟨b, a⟩, hstep, hs⟩ := bind_eq_ok.mp hs
    obtain rfl := Except.ok.inj hs
    have hp := handOver_flow hba hab hg hstep
    refine ⟨⟨hp.back, hp.there⟩, ?_⟩
    have hsize := hp.size
    show a.size + b.size < _
    omega

/-- **Quiescence.**  However the two links take turns, the runs along which no
request is refused before another are of bounded length. -/
theorem exchange_quiesces (a0 b0 a b : St) (h0 : Connected a0 b0) (postsA postsB : List Post)
    (ha : Machine.run postStep a0 postsA = .ok a) (hb : Machine.run postStep b0 postsB = .ok b) :
    ∃ n, ∀ ds x, Machine.run exchangeStep ⟨.posted a0 a, .posted b0 b⟩ ds = .ok x →
      Machine.Along exchangeStep Exchange.Unblocked ⟨.posted a0 a, .posted b0 b⟩ ds → ds.length ≤ n := by
  have hpa := postRun_hasPosted h0.there.mtus h0.there.rc h0.sqPsnSet ha
  have hpb := postRun_hasPosted h0.back.mtus h0.back.rc h0.sqPsnSet' hb
  have hflow : Flow (Side.posted a0 a) (.posted b0 b) ∧ Flow (Side.posted b0 b) (.posted a0 a) :=
    ⟨hpa.flow hpb h0.there h0.psn, hpb.flow hpa h0.back h0.psn'⟩
  have hstep : ∀ x d x', (Flow x.a x.b ∧ Flow x.b x.a) → x.Unblocked d →
      exchangeStep x d = .ok x' → (Flow x'.a x'.b ∧ Flow x'.b x'.a) ∧ x'.size < x.size :=
    fun _ _ _ h hg hs => exchangeStep_flow h hg hs
  refine ⟨Exchange.size ⟨.posted a0 a, .posted b0 b⟩, ?_⟩
  intro ds x hrun hG
  exact Machine.length_le_of_along hstep hflow hG hrun

/-! ## Exchanges that do not -/

/-- A packet delivered does at `roce_net_recv` what `roce_recv_rc` does with it. -/
theorem Addressed.roceNetRecv_ok {x y t : St} {opcode : UInt8} {pkt : RoceNetpkt}
    (ha : Addressed x opcode pkt) (hj : Joined x y)
    (h : ∀ inb, Delivered pkt inb → ibBthGetOpcode inb.bth = opcode →
      ∃ ret, roceRecvRc y inb = .ok (ret, t)) :
    ∃ ret, Libroce.roceNetRecv y pkt.iovs true = .ok (ret, t) := by
  obtain ⟨hop, d, iovs, hdecap, -, hdel, hbth⟩ := ha.arrives hj rfl
  obtain ⟨ret, hrecv⟩ := h _ hdel (hdel.opcode.trans hop)
  unfold Libroce.roceNetRecv
  rw [hdecap]
  show ∃ r, (roceRecvBth y d true >>= _) = _
  rw [hbth, hrecv]
  by_cases hret : ret < 0
  · exact ⟨ret, if_pos hret⟩
  · exact ⟨_, if_neg hret⟩

theorem IsAnswer.roceNetRecv_ok {x y t : St} {syndrome : Syndrome} {pkt : RoceNetpkt}
    (ha : IsAnswer x syndrome pkt) (hj : Joined x y)
    (h : ∀ val msn, roceHandleAcknowledge y syndrome val (roceNetpktPsn pkt) msn = .ok t) :
    ∃ ret, Libroce.roceNetRecv y pkt.iovs true = .ok (ret, t) := by
  apply ha.addressed.roceNetRecv_ok hj
  intro inb hdel hop
  unfold roceRecvRc recvAcknowledge
  rw [if_pos hop]
  obtain ⟨aeth, rest, heth, htype⟩ := ha.aeth_read hdel
  refine ⟨0, ?_⟩
  simp only [heth, htype, hdel.psn, h]
  rfl

/-- Without a receive WR the expected SEND is refused, and the flag cleared. -/
theorem recvSend_noWr {s : St} {inb : Inbound} (hop : ibBthGetOpcode inb.bth = ibOpcodeSendOnly)
    (hpsn : roceComparePsn s.qp.attr.rqPsn (ibBthGetPsn inb.bth) = 0)
    (hword : s.qp.resp.word.bits = 0) (hrq : s.qp.rq = []) :
    roceRecvRc s inb =
      .ok (eAGAIN, ({ s with qp.resp.inPsnNak := false } : St).setWord (.wr 0)) := by
  have hreq : recvRequest { s with qp.resp.inPsnNak := false } inb =
      .ok (eAGAIN, ({ s with qp.resp.inPsnNak := false } : St).setWord (.wr 0)) := by
    rw [recvRequest_eq]
    unfold Inbound.request
    rw [hop]
    show roceRecvPayload _ inb.iovs none false ibOpcodeSendOnly = _
    unfold roceRecvPayload rocePopRecvWr rqPop
    simp [hword, hrq]
  have hne : ¬ibBthGetOpcode inb.bth = ibOpcodeAcknowledge := by
    rw [hop]
    decide
  unfold roceRecvRc recvInSequence
  simp only [if_neg hne, hpsn, gt_iff_lt, Int32.lt_irrefl, if_false, hreq]
  rfl

/-- What follows it is answered with a NAK. -/
theorem recvAhead_nak {s : St} {inb : Inbound} (hne : ibBthGetOpcode inb.bth ≠ ibOpcodeAcknowledge)
    (hpsn : roceComparePsn s.qp.attr.rqPsn (ibBthGetPsn inb.bth) < 0)
    (hflag : s.qp.resp.inPsnNak = false) {t : St}
    (hnak : roceNetpktAcknowledge s .nak 0 s.qp.attr.rqPsn inb.calloc = .ok t) :
    roceRecvRc s inb = .ok (0, { t with qp.resp.inPsnNak := true }) := by
  have hpos : ¬roceComparePsn s.qp.attr.rqPsn (ibBthGetPsn inb.bth) > 0 := by
    intro hgt
    have hlt := Int32.lt_trans hgt hpsn
    exact absurd hlt (Int32.lt_irrefl)
  unfold roceRecvRc roceOutOfSeq
  simp only [if_neg hne, if_neg hpos, if_pos hpsn, hflag, hnak]
  rfl

/-- A NAK behind the outgoing packets brings them all again. -/
theorem roceHandleNak_again {s : St} {psn : UInt32}
    (hstale : roceComparePsn s.qp.attr.sqPsn ((psn - 1) &&& ibBthPsnMask) > 0)
    (hpend : s.qp.req.pendingPkts = []) (hasserts : HeadAsserts s.qp) :
    ∃ t, roceHandleNak s psn = .ok t ∧ t.qp = s.qp ∧ Acts s t s.qp.req.outgoingPkts := by
  have hack : roceHandleAck s ((psn - 1) &&& ibBthPsnMask) = .ok s := if_pos hstale
  have hsent : sentPkts (s.qp.req.outgoingPkts.map .netXmit) = s.qp.req.outgoingPkts := sentPkts_xmits _
  obtain ⟨t, ht⟩ := (roceXmitPkts_ok_iff (s.emit (s.qp.req.outgoingPkts.map .netXmit))).mpr hasserts
  obtain ⟨moved, hmoves⟩ := roceXmitPkts_moves ht
  have hnil : moved = [] ∧ t.qp.req.pendingPkts = [] := by
    have hp := hmoves.pending
    rw [St.emit_qp, hpend] at hp
    exact List.append_eq_nil_iff.mp hp.symm
  refine ⟨t, ?_, ?_, ?_⟩
  · unfold roceHandleNak
    rw [hack]
    exact ht
  · rw [hmoves.qp, hnil.1, hnil.2, List.append_nil, ← hpend]
    rfl
  · have hemit := Acts.emit s (s.qp.req.outgoingPkts.map .netXmit)
    have hall := hemit.trans hmoves.acts
    rw [hsent, hnil.1, List.append_nil] at hall
    exact hall

/-- Two SENDs are under way and the peer has no receive WR for the first. -/
structure Stalled (p q : RoceNetpkt) (x : Exchange) : Prop where
  there : Joined x.a.st x.b.st
  back : Joined x.b.st x.a.st
  link : x.a.link = [p, q]
  linkBack : x.b.link = []
  sends : Addressed x.a.st ibOpcodeSendOnly p ∧ Addressed x.a.st ibOpcodeSendOnly q
  expected : roceComparePsn x.b.st.qp.attr.rqPsn (roceNetpktPsn p) = 0
  ahead : roceComparePsn x.b.st.qp.attr.rqPsn (roceNetpktPsn q) < 0
  canAck : CanAck x.b.st
  word : x.b.st.qp.resp.word.bits = 0
  rq : x.b.st.qp.rq = []
  outgoing : x.a.st.qp.req.outgoingPkts = [p, q]
  pending : x.a.st.qp.req.pendingPkts = []
  asserts : HeadAsserts x.a.st.qp
  stale : roceComparePsn x.a.st.qp.attr.sqPsn
    (((ibBthPsnMask &&& x.b.st.qp.attr.rqPsn) - 1) &&& ibBthPsnMask) > 0

theorem exchangeStep_toB {x : Exchange} {pkt : RoceNetpkt} {link : List RoceNetpkt} {ret : Int} {t : St}
    (hlink : x.a.link = pkt :: link) (h : roceNetRecv x.b.st pkt.iovs true = .ok (ret, t)) :
    exchangeStep x ⟨true, true⟩ = .ok ⟨⟨x.a.st, link⟩, ⟨t, x.b.link ++ sentSince x.b.st t⟩⟩ := by
  unfold exchangeStep Side.handOver
  simp only [if_true, hlink, h]
  rfl

theorem exchangeStep_toA {x : Exchange} {pkt : RoceNetpkt} {link : List RoceNetpkt} {ret : Int} {t : St}
    (hlink : x.b.link = pkt :: link) (h : roceNetRecv x.a.st pkt.iovs true = .ok (ret, t)) :
    exchangeStep x ⟨false, true⟩ = .ok ⟨⟨t, x.a.link ++ sentSince x.a.st t⟩, ⟨x.b.st, link⟩⟩ := by
  unfold exchangeStep Side.handOver
  simp only [Bool.false_eq_true, if_false, hlink, h]
  rfl

/-- The first is refused, the second brings a NAK, the NAK brings both again. -/
theorem Stalled.loop {p q : RoceNetpkt} {x : Exchange} (h : Stalled p q x) :
    ∃ x', Machine.run exchangeStep x [⟨true, true⟩, ⟨true, true⟩, ⟨false, true⟩] = .ok x' ∧
      Stalled p q x' := by
  obtain ⟨⟨a, la⟩, ⟨b, lb⟩⟩ := x
  obtain ⟨hab, hba, rfl, rfl, ⟨hp, hq⟩, hexp, hahead, hcan, hword, hrq, hout, hpend, hasserts, hstale⟩ := h
  simp only at hab hba hp hq hexp hahead hcan hword hrq hout hpend hasserts hstale
  -- the first packet
  obtain ⟨b1, hb1⟩ : ∃ b1, b1 = ({ b with qp.resp.inPsnNak := false } : St).setWord (.wr 0) := ⟨_, rfl⟩
  have hw1 : Works b b1 := by
    rw [hb1]
    exact .responder rfl
  obtain ⟨ret1, hr1⟩ : ∃ ret, roceNetRecv b p.iovs true = .ok (ret, b1) := by
    apply hp.roceNetRecv_ok hab
    intro inb hdel hop
    rw [hb1]
    exact ⟨_, recvSend_noWr hop (by rw [hdel.psn]; exact hexp) hword hrq⟩
  have hs1 := exchangeStep_toB (x := ⟨⟨a, [p, q]⟩, ⟨b, []⟩⟩) rfl hr1
  rw [hw1.acts.sentSince] at hs1
  -- the second packet
  have hcan1 : CanAck b1 := by
    obtain ⟨htype, port, sgid, hport, hgid⟩ := hcan
    rw [hb1]
    exact ⟨htype, port, sgid, hport, hgid⟩
  obtain ⟨nak, hnak⟩ := hcan1.acknowledge .nak 0 b1.qp.attr.rqPsn
  obtain ⟨b2, hb2⟩ : ∃ b2, b2 = ({ (({ b1 with qp.resp.msn := b1.qp.resp.msn + 1 } : St).emit
      [.netXmit nak]) with qp.resp.inPsnNak := true } : St) := ⟨_, rfl⟩
  have hab1 : Joined a b1 := hab.acts (.refl a) hw1.acts
  have hexp1 : b1.qp.attr = b.qp.attr := by rw [hb1]; rfl
  obtain ⟨ret2, hr2⟩ : ∃ ret, roceNetRecv b1 q.iovs true = .ok (ret, b2) := by
    apply hq.roceNetRecv_ok hab1
    intro inb hdel hop
    have hne : ibBthGetOpcode inb.bth ≠ ibOpcodeAcknowledge := by
      rw [hop]
      decide
    rw [hb2]
    refine ⟨0, recvAhead_nak hne ?_ ?_ ?_⟩
    · rw [hdel.psn, hexp1]
      exact hahead
    · rw [hb1]
      rfl
    · rw [hdel.calloc, hnak]
  have ha2 : Acts b1 b2 [nak] := by
    rw [hb2]
    exact ⟨⟨[.netXmit nak], rfl, rfl⟩, rfl, rfl⟩
  have hs2 := exchangeStep_toB (x := ⟨⟨a, [q]⟩, ⟨b1, [] ++ []⟩⟩) rfl hr2
  rw [ha2.sentSince] at hs2
  -- the NAK
  have hpkt : acknowledgePkt b1.ctx b1.qp .nak 0 b1.qp.attr.rqPsn true = .ok nak := by
    obtain ⟨pkt, heq, hpkt⟩ := roceNetpktAcknowledge_ok hnak
    have htrace := congrArg (fun s : St => s.ctx.trace.getLast?) heq
    simp only [St.emit_trace, List.getLast?_concat] at htrace
    rw [Event.netXmit.inj (Option.some.inj htrace)]
    exact hpkt
  have hans := acknowledgePkt_isAnswer hpkt
  have hb2a : Joined b2 a := (hba.acts hw1.acts (.refl a)).acts ha2 (.refl a)
  have hpsn : roceNetpktPsn nak = ibBthPsnMask &&& b.qp.attr.rqPsn := by
    obtain ⟨hpacket, -⟩ := acknowledgePkt_packet hpkt
    obtain ⟨se, hbth⟩ := hpacket.bth_eq
    unfold roceNetpktPsn
    rw [hbth, ibBthGetPsn_setBth, hexp1]
  have hstale3 : roceComparePsn a.qp.attr.sqPsn ((roceNetpktPsn nak - 1) &&& ibBthPsnMask) > 0 := by
    rw [hpsn]
    exact hstale
  obtain ⟨a3, hnak3, hqp3, hacts3⟩ := roceHandleNak_again hstale3 hpend hasserts
  obtain ⟨ret3, hr3⟩ : ∃ ret, roceNetRecv a nak.iovs true = .ok (ret, a3) :=
    (hans.acts ha2).roceNetRecv_ok hb2a fun val msn => hnak3
  have hs3 := exchangeStep_toA (x := ⟨⟨a, []⟩, ⟨b2, ([] ++ []) ++ [nak]⟩⟩) rfl hr3
  rw [hacts3.sentSince, hout] at hs3
  refine ⟨⟨⟨a3, [p, q]⟩, ⟨b2, []⟩⟩, ?_, ?_⟩
  · have hr3 := Machine.run_cons_ok exchangeStep [] hs3
    have hr2 := Machine.run_cons_ok exchangeStep [⟨false, true⟩] hs2
    have hr1 := Machine.run_cons_ok exchangeStep [⟨true, true⟩, ⟨false, true⟩] hs1
    exact hr1.trans (hr2.trans hr3)
  · have hb2attr : b2.qp.attr = b.qp.attr := by rw [hb2, hb1]; rfl
    refine ⟨?_, ?_, rfl, rfl, ⟨hp.acts hacts3, hq.acts hacts3⟩, ?_, ?_, ?_, ?_, ?_, ?_, ?_, ?_, ?_⟩
    · exact (hab1.acts (.refl a) ha2).acts hacts3 (.refl b2)
    · exact hb2a.acts (.refl b2) hacts3
    · rw [← hexp, ← hb2attr]
    · show roceComparePsn b2.qp.attr.rqPsn _ < 0
      rw [hb2attr]
      exact hahead
    · obtain ⟨htype, port, sgid, hport, hgid⟩ := hcan1
      show CanAck b2
      rw [hb2]
      exact ⟨htype, port, sgid, hport, hgid⟩
    · show b2.qp.resp.word.bits = 0
      rw [hb2, hb1]
      rfl
    · show b2.qp.rq = []
      rw [hb2, hb1]
      exact hrq
    · show a3.qp.req.outgoingPkts = _
      rw [hqp3, hout]
    · show a3.qp.req.pendingPkts = _
      rw [hqp3, hpend]
    · show HeadAsserts a3.qp
      rw [hqp3]
      exact hasserts
    · show roceComparePsn a3.qp.attr.sqPsn (((_ &&& b2.qp.attr.rqPsn) - 1) &&& _) > 0
      rw [hqp3, hb2attr]
      exact hstale

/-- One of two QPs that name each other. -/
def pairSt : St := ⟨smallCtx, { smallQp with attr.destQpNum := 2 }⟩

theorem pairSt_connected : Connected pairSt pairSt := by
  have hj : Joined pairSt pairSt := by
    refine ⟨rfl, rfl, ⟨smallPort, smallPort, rfl, rfl, rfl, rfl⟩, by decide, by decide, ?_, by decide, ?_⟩
    · exact Or.inr (Or.inl rfl)
    · intro port hport
      obtain rfl := Except.ok.inj hport
      decide
  have hset : SqPsnSet pairSt.qp := ⟨by decide, rfl, rfl, rfl⟩
  exact ⟨hj, hj, hset, hset, by decide, by decide⟩

/-- Posts of two SENDs. -/
def twoSends : List Post :=
  [.send (smallSend 1 .send) fun _ => true, .send (smallSend 2 .send) fun _ => true]

theorem twoSends_stalled {a : St} (ha : Machine.run postStep pairSt twoSends = .ok a) :
    ∃ p q, Stalled p q ⟨.posted pairSt a, .posted pairSt pairSt⟩ := by
  have hfacts : (Machine.run postStep pairSt twoSends).toOption.map (fun t =>
      (t.qp.req.outgoingPkts.map (fun p => (ibBthGetOpcode p.bth, roceNetpktPsn p)),
        t.qp.req.pendingPkts, t.qp.attr.sqPsn, t.qp.req.psn)) =
      some ([(ibOpcodeSendOnly, 0), (ibOpcodeSendOnly, 1)], [], 0, 2) := by decide +kernel
  rw [ha] at hfacts
  simp only [Except.toOption, Option.map_some, Option.some.injEq, Prod.mk.injEq] at hfacts
  obtain ⟨hpkts, hpend, hsq, hpsn⟩ := hfacts
  obtain ⟨p, q, hout, ⟨hpop, hppsn⟩, hqop, hqpsn⟩ : ∃ p q, a.qp.req.outgoingPkts = [p, q] ∧
      (ibBthGetOpcode p.bth = ibOpcodeSendOnly ∧ roceNetpktPsn p = 0) ∧
        ibBthGetOpcode q.bth = ibOpcodeSendOnly ∧ roceNetpktPsn q = 1 := by
    match hout : a.qp.req.outgoingPkts with
    | [] => simp [hout] at hpkts
    | [p] => simp [hout] at hpkts
    | [p, q] =>
      rw [hout] at hpkts
      simp only [List.map_cons, List.map_nil, List.cons.injEq, Prod.mk.injEq, and_true] at hpkts
      exact ⟨p, q, rfl, hpkts⟩
    | p :: q :: r :: rest => simp [hout] at hpkts
  have hc := pairSt_connected
  have hposted := postRun_hasPosted hc.there.mtus hc.there.rc hc.sqPsnSet ha
  have hsend : ∀ pkt ∈ [p, q], ibBthGetOpcode pkt.bth = ibOpcodeSendOnly →
      Addressed a ibOpcodeSendOnly pkt := by
    intro pkt hmem hop
    obtain ⟨-, opcode, haddr⟩ := hposted.requests pkt (by
      unfold RoceRequester.queued
      rw [hout, hpend, List.append_nil]
      exact hmem)
    obtain ⟨hop', -⟩ := haddr.arrives hc.there rfl
    rw [← hop'.symm.trans hop]
    exact haddr.acts hposted.acts
  have hlast : a.qp.req.outgoingPkts.getLast? = some q := by rw [hout]; rfl
  refine ⟨p, q, ?_, ?_, ?_, ?_, ⟨?_, ?_⟩, ?_, ?_, ?_, rfl, rfl, hout, hpend, ⟨?_, ?_⟩, ?_⟩
  · exact hc.there.acts hposted.acts (.refl _)
  · exact hc.back.acts (.refl _) hposted.acts
  · exact hposted.acts.sentSince.trans hout
  · exact (Acts.refl pairSt).sentSince
  · exact hsend p List.mem_cons_self hpop
  · exact hsend q (List.mem_cons_of_mem _ List.mem_cons_self) hqop
  · show roceComparePsn pairSt.qp.attr.rqPsn _ = 0
    rw [hppsn]
    decide
  · show roceComparePsn pairSt.qp.attr.rqPsn _ < 0
    rw [hqpsn]
    decide
  · exact ⟨rfl, smallPort, Vector.replicate 16 0, rfl, rfl⟩
  · intro pkt hmem
    rw [show (Side.posted pairSt a).st = a from rfl, hlast] at hmem
    obtain rfl := Option.some.inj hmem
    show roceNetpktPsn q ≥ a.qp.attr.sqPsn ∧ roceNetpktPsn q ≤ a.qp.req.psn
    rw [hqpsn, hsq, hpsn]
    decide
  · intro pkt hmem
    rw [show (Side.posted pairSt a).st = a from rfl, hlast] at hmem
    obtain rfl := Option.some.inj hmem
    show roceComparePsn (a.qp.attr.sqPsn + _) (roceNetpktPsn q) ≥ 0
    rw [hqpsn, hsq]
    decide
  · show roceComparePsn a.qp.attr.sqPsn (((_ &&& pairSt.qp.attr.rqPsn) - 1) &&& _) > 0
    rw [hsq]
    decide

/-- **No quiescence.**  Two SENDs and no receive WR: deliveries go on for ever. -/
theorem exchange_endless :
    Connected pairSt pairSt ∧ ∃ a b, Machine.run postStep pairSt twoSends = .ok a ∧
      Machine.run postStep pairSt [] = .ok b ∧
      ∀ n, ∃ ds x, ds.length = n ∧
        Machine.run exchangeStep ⟨.posted pairSt a, .posted pairSt b⟩ ds = .ok x := by
  have hok : (Machine.run postStep pairSt twoSends).toOption.isSome = true := by decide +kernel
  cases ha : Machine.run postStep pairSt twoSends with
  | error e =>
    rw [ha] at hok
    cases hok
  | ok a =>
    refine ⟨pairSt_connected, a, pairSt, rfl, rfl, ?_⟩
    obtain ⟨p, q, hstalled⟩ := twoSends_stalled ha
    intro n
    have hloop : ∀ x, Stalled p q x → ∃ ds x', ds ≠ [] ∧
        Machine.run exchangeStep x ds = .ok x' ∧ Stalled p q x' := by
      intro x hx
      obtain ⟨x', hr, hx'⟩ := hx.loop
      exact ⟨_, x', by simp, hr, hx'⟩
    exact Machine.exists_run_of_loop hloop hstalled n

/-- The same QPs with a page registered. -/
def pagedPair : St := ⟨withMr smallCtx smallMr, pairSt.qp⟩

theorem pagedPair_connected : Connected pagedPair pagedPair := by
  have hacts : Acts pairSt pagedPair [] := ⟨⟨[], rfl, rfl⟩, rfl, rfl⟩
  have hj := pairSt_connected.there.acts hacts hacts
  exact ⟨hj, hj, pairSt_connected.sqPsnSet, pairSt_connected.sqPsnSet, by decide, by decide⟩

/-- SENDs of the page's first bytes. -/
def pagedSends : List Post :=
  [.send { smallSend 1 .send with sendFlags := roceSendSignaled, sge := [⟨0x10000, 2, 0⟩] } fun _ => true,
    .send { smallSend 2 .send with sendFlags := roceSendSignaled, sge := [⟨0x10002, 3, 0⟩] } fun _ => true]

/-- The receive WRs for them. -/
def pagedRecvs : List Post := [.recv 0x1000 1 [⟨0x10800, 2, 0⟩], .recv 0x2000 2 [⟨0x10900, 3, 0⟩]]

/-- The requests, then their ACKs. -/
def pagedDeliveries : List Delivery := [⟨true, true⟩, ⟨true, true⟩, ⟨false, true⟩, ⟨false, true⟩]

/-- With receive WRs the requests are taken and acknowledged, and this is the end. -/
theorem exchange_quiesces_paged : ∃ a, Machine.run postStep pagedPair pagedSends = .ok a ∧
    ∃ b, Machine.run postStep pagedPair pagedRecvs = .ok b ∧
      (∃ n, ∀ ds x, Machine.run exchangeStep ⟨.posted pagedPair a, .posted pagedPair b⟩ ds = .ok x →
        Machine.Along exchangeStep Exchange.Unblocked ⟨.posted pagedPair a, .posted pagedPair b⟩ ds →
          ds.length ≤ n) ∧
      Machine.Along exchangeStep Exchange.Unblocked ⟨.posted pagedPair a, .posted pagedPair b⟩
        pagedDeliveries ∧
      ∃ x, Machine.run exchangeStep ⟨.posted pagedPair a, .posted pagedPair b⟩ pagedDeliveries = .ok x ∧
        x.size = 0 ∧ x.a.st.qp.req.outgoingPkts = [] := by
  obtain ⟨a, ha, b, hb, hend⟩ : ∃ a, Machine.run postStep pagedPair pagedSends = .ok a ∧
      ∃ b, Machine.run postStep pagedPair pagedRecvs = .ok b ∧
        Machine.Along exchangeStep Exchange.Unblocked ⟨.posted pagedPair a, .posted pagedPair b⟩
          pagedDeliveries ∧
        ∃ x, Machine.run exchangeStep ⟨.posted pagedPair a, .posted pagedPair b⟩ pagedDeliveries = .ok x ∧
          x.size = 0 ∧ x.a.st.qp.req.outgoingPkts = [] := by decide +kernel
  exact ⟨a, ha, b, hb, exchange_quiesces pagedPair pagedPair a b pagedPair_connected pagedSends pagedRecvs
    ha hb, hend⟩

end Libroce
