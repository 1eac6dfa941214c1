import Libroce.Agreement
import Libroce.Device
import Libroce.Transmit

/-!
# Two queue pairs over links

An RC QP on each of two contexts and, from each to the other, a link that
delivers what was sent in order.  Work is posted first; then packets are handed
over one at a time, and the packets each of these calls sends join the links.

    Joined           packets of one side are addressed to the other
    Flow             the requests under way are those the peer expects next
    handOver_flow    a delivery keeps both flows and lowers `Exchange.size`
-/

namespace Libroce

open Machine (bind_eq_ok)

/-! ## Packets from one side to the other -/

/-- The states in which `roce_recv_bth` lets requests in. -/
def RoceQp.receives (qp : RoceQp) : Prop :=
  qp.attr.qpState = .rtr ∨ qp.attr.qpState = .rts ∨ qp.attr.qpState = .sqd ∨ qp.attr.qpState = .sqe

/-- What `x` sends is addressed to `y`. -/
structure Joined (x y : St) : Prop where
  rc : x.qp.qpType = .rc
  rc' : y.qp.qpType = .rc
  port : ∃ p p', portAt x.ctx x.qp.attr.portNum = .ok p ∧ portAt y.ctx 1 = .ok p' ∧
    p'.vnetHdr = p.vnetHdr ∧ p'.mac = x.qp.attr.ahAttr.mac
  destqp : ibBthDestqpMask &&& x.qp.attr.destQpNum = y.qp.handle
  handle : y.qp.handle ≠ 0
  receives : y.qp.receives
  mtus : MtusValid x

theorem recvBthCheck_eq_zero {qp : RoceQp} {bth : IbBth} (hopen : qp.receives)
    (hkey : ibBthGetPkey bth = rocePkey) (htype : ibBthGetQpType bth = roceQpTypeToIb qp.qpType) :
    recvBthCheck qp bth = 0 := by
  unfold recvBthCheck
  rcases hopen with h | h | h | h <;> simp [h, hkey, htype]

/-- **The way across.**  A packet of `x` reaches `roce_recv_rc` at `y`, whatever
pieces its bytes come in. -/
theorem Addressed.arrives {x y : St} {opcode : UInt8} {pkt : RoceNetpkt} {frame : List (List UInt8)}
    (ha : Addressed x opcode pkt) (hj : Joined x y) (hframe : frame.flatten = pkt.iovs.flatten) :
    ibBthGetOpcode pkt.bth = opcode ∧ ∃ d iovs, roceNetDecap y.ctx frame = .ok (some d) ∧
      dropPad (ibBthGetPadcnt d.bth) d.iovs = some iovs ∧ Delivered pkt ⟨d.bth, iovs, true⟩ ∧
      ∀ calloc, roceRecvBth y d calloc = roceRecvRc y ⟨d.bth, iovs, calloc⟩ := by
  obtain ⟨ext, padcnt, ack, psn, payload, hp, hfits⟩ := ha
  obtain ⟨p, p', hport, hport', hvnet, hmac⟩ := hj.port
  have hdmac : p'.mac = pkt.ethh.dmac := by
    obtain ⟨q, pkt0, -, -, hset⟩ := hp.framed
    rw [hmac, (roceNetpktSetEth_frame hset).dmac_eq]
  obtain ⟨d, hdecap, hr⟩ := roceNetDecap_wire hp hfits hport hport' hvnet hdmac hframe
  obtain ⟨iovs, hdrop, hdel⟩ := hr.delivered hp hfits
  refine ⟨hdel.opcode.symm.trans hr.opcode, d, iovs, hdecap, hdrop, hdel, ?_⟩
  intro calloc
  have hdest : ibBthGetDestqp d.bth = y.qp.handle := hr.destqp.trans hj.destqp
  have hcheck : recvBthCheck y.qp d.bth = 0 := by
    apply recvBthCheck_eq_zero hj.receives hr.pkey
    rw [hr.qpType, hj.rc, hj.rc']
  have hmax : ¬(y.qp.handle = 1 ∧ QpType.rc = QpType.max) := by simp
  unfold roceRecvBth
  simp only [hdest, ne_eq, not_true_eq_false, if_false, if_neg hj.handle, hcheck, hdrop, hj.rc']
  exact if_neg hmax

/-- The two sides stay joined, whatever they do. -/
theorem Joined.acts {x y x' y' : St} {ps qs : List RoceNetpkt} (h : Joined x y) (hx : Acts x x' ps)
    (hy : Acts y y' qs) : Joined x' y' := by
  obtain ⟨p, p', hport, hport', hvnet, hmac⟩ := h.port
  refine ⟨?_, ?_, ⟨p, p', ?_, ?_, hvnet, ?_⟩, ?_, ?_, ?_, ?_, ?_⟩
  · rw [hx.qp]; exact h.rc
  · rw [hy.qp]; exact h.rc'
  · rw [← hport, hx.qp]
    unfold portAt
    rw [hx.ports]
  · rw [← hport']
    unfold portAt
    rw [hy.ports]
  · rw [hx.qp]; exact hmac
  · rw [hx.qp, hy.qp]; exact h.destqp
  · rw [hy.qp]; exact h.handle
  · have hreceives := h.receives
    unfold RoceQp.receives at hreceives ⊢
    rw [hy.qp]
    exact hreceives
  · rw [hx.qp]; exact h.mtus.path
  · intro q hq
    refine h.mtus.port q ?_
    rw [← hq]
    unfold portAt
    rw [hx.ports]

/-- Two ways from one state address alike. -/
theorem Addressed.between {s t u : St} {ps qs : List RoceNetpkt} {opcode : UInt8} {pkt : RoceNetpkt}
    (h : Addressed t opcode pkt) (ht : Acts s t ps) (hu : Acts s u qs) : Addressed u opcode pkt := by
  obtain ⟨ext, padcnt, ack, psn, payload, hp, hfits⟩ := h
  refine ⟨ext, padcnt, ack, psn, payload, ?_, hfits⟩
  obtain ⟨port, pkt0, hport, hvneth, hset⟩ := hp.framed
  have hports : u.ctx.ports = t.ctx.ports := hu.ports.trans ht.ports.symm
  have hattr : u.qp.qpType = t.qp.qpType ∧ u.qp.attr = { t.qp.attr with
      sqPsn := u.qp.attr.sqPsn, rqPsn := u.qp.attr.rqPsn } := by
    rw [hu.qp, ht.qp]
    exact ⟨rfl, rfl⟩
  obtain ⟨htype, hattr⟩ := hattr
  refine ⟨?_, hp.ext_eq, hp.payload_eq, hp.pad_eq, port, pkt0, ?_, hvneth, ?_⟩
  · rw [htype, hattr]; exact hp.bth_eq
  · rw [← hport, hattr]
    unfold portAt
    rw [hports]
  · rw [hattr]; exact hset

/-- A packet stays addressed. -/
theorem Addressed.acts {x x' : St} {ps : List RoceNetpkt} {opcode : UInt8} {pkt : RoceNetpkt}
    (h : Addressed x opcode pkt) (hx : Acts x x' ps) : Addressed x' opcode pkt := h.between (.refl x) hx

/-- What `roce_net_recv` does with a packet of the peer. -/
theorem Addressed.roceNetRecv {x y t : St} {opcode : UInt8} {pkt : RoceNetpkt} {calloc : Bool} {ret : Int}
    {frame : List (List UInt8)} (ha : Addressed x opcode pkt) (hj : Joined x y)
    (hframe : frame.flatten = pkt.iovs.flatten) (h : roceNetRecv y frame calloc = .ok (ret, t)) :
    ibBthGetOpcode pkt.bth = opcode ∧ ∃ d iovs ret', roceNetDecap y.ctx frame = .ok (some d) ∧
      dropPad (ibBthGetPadcnt d.bth) d.iovs = some iovs ∧ Delivered pkt ⟨d.bth, iovs, true⟩ ∧
      roceRecvRc y ⟨d.bth, iovs, calloc⟩ = .ok (ret', t) := by
  obtain ⟨hop, d, iovs, hdecap, hdrop, hdel, hbth⟩ := ha.arrives hj hframe
  refine ⟨hop, d, iovs, ?_⟩
  unfold Libroce.roceNetRecv at h
  rw [hdecap] at h
  obtain ⟨⟨ret', u⟩, hrecv, h⟩ := bind_eq_ok.mp (show (roceRecvBth y d calloc >>= _) = _ from h)
  rw [hbth] at hrecv
  simp only at h
  split at h
  · obtain ⟨-, rfl⟩ := Prod.mk.inj (Except.ok.inj h)
    exact ⟨ret', hdecap, hdrop, hdel, hrecv⟩
  · obtain ⟨-, rfl⟩ := Prod.mk.inj (Except.ok.inj h)
    exact ⟨ret', hdecap, hdrop, hdel, hrecv⟩

/-- An acknowledgement of `x`. -/
structure IsAnswer (x : St) (syndrome : Syndrome) (pkt : RoceNetpkt) : Prop where
  addressed : Addressed x ibOpcodeAcknowledge pkt
  aeth : ∃ val msn, pkt.ext ++ pkt.payload.flatten = ibAethCodec.enc (ibAethSet syndrome.code val msn)

theorem acknowledgePkt_isAnswer {s : St} {syndrome : Syndrome} {val : UInt8} {psn : UInt32}
    {calloc : Bool} {pkt : RoceNetpkt}
    (h : acknowledgePkt s.ctx s.qp syndrome val psn calloc = .ok pkt) : IsAnswer s syndrome pkt := by
  obtain ⟨hp, -⟩ := acknowledgePkt_packet h
  refine ⟨acknowledgePkt_addressed h, val, s.qp.resp.msn, ?_⟩
  rw [hp.ext_eq, hp.payload_eq, List.flatten_nil, List.append_nil]

theorem IsAnswer.acts {x x' : St} {ps : List RoceNetpkt} {syndrome : Syndrome} {pkt : RoceNetpkt}
    (h : IsAnswer x syndrome pkt) (hx : Acts x x' ps) : IsAnswer x' syndrome pkt :=
  ⟨h.addressed.acts hx, h.aeth⟩

/-- The AETH as the receiver reads it. -/
theorem IsAnswer.aeth_read {x : St} {syndrome : Syndrome} {pkt : RoceNetpkt} {inb : Inbound}
    (ha : IsAnswer x syndrome pkt) (hdel : Delivered pkt inb) :
    ∃ aeth rest, roceGetEth ibAethCodec inb.iovs = some (aeth, rest) ∧
      ibAethGetSyndromeType aeth = syndrome := by
  obtain ⟨val, msn, haeth⟩ := ha.aeth
  have hwire : inb.iovs.flatten = ibAethCodec.enc (ibAethSet syndrome.code val msn) ++ [] := by
    rw [List.append_nil, ← haeth]
    exact hdel.iovs
  obtain ⟨rest, heth, -⟩ := roceGetEth_enc ibAethCodec _ hwire (by decide)
  exact ⟨_, rest, heth, ibAethGetSyndromeType_set _ _ _⟩

/-- An acknowledgement goes to `roce_handle_acknowledge` with its syndrome and its PSN. -/
theorem IsAnswer.roceNetRecv {x y t : St} {syndrome : Syndrome} {pkt : RoceNetpkt} {calloc : Bool}
    {ret : Int} {frame : List (List UInt8)} (ha : IsAnswer x syndrome pkt) (hj : Joined x y)
    (hframe : frame.flatten = pkt.iovs.flatten) (h : roceNetRecv y frame calloc = .ok (ret, t)) :
    ∃ val msn, roceHandleAcknowledge y syndrome val (roceNetpktPsn pkt) msn = .ok t := by
  obtain ⟨hop, d, iovs, ret', -, -, hdel, hrecv⟩ := ha.addressed.roceNetRecv hj hframe h
  obtain ⟨aeth, rest, heth, htype⟩ := ha.aeth_read hdel
  have hack : ibBthGetOpcode d.bth = ibOpcodeAcknowledge := hdel.opcode.trans hop
  have hpsn : ibBthGetPsn d.bth = roceNetpktPsn pkt := hdel.psn
  unfold roceRecvRc recvAcknowledge at hrecv
  rw [if_pos hack] at hrecv
  simp only [heth] at hrecv
  obtain ⟨u, hhandle, hrecv⟩ := bind_eq_ok.mp hrecv
  obtain ⟨-, rfl⟩ := Prod.mk.inj (Except.ok.inj hrecv)
  rw [htype, hpsn] at hhandle
  exact ⟨_, _, hhandle⟩

/-! ## Sides and links -/

/-- A side, and the packets it sent that have not been handed over. -/
structure Side where
  st : St
  link : List RoceNetpkt

/-- The head packet of `x`'s link goes to `roce_net_recv` at `y`; `none` says
that there is no packet. -/
def Side.handOver (x y : Side) (calloc : Bool) : Except (Option Fault) (Side × Side) :=
  match x.link with
  | [] => .error none
  | pkt :: link =>
    match roceNetRecv y.st pkt.iovs calloc with
    | .error e => .error (some e)
    | .ok (_, st) => .ok ({ x with link := link }, ⟨st, y.link ++ sentSince y.st st⟩)

structure Exchange where
  a : Side
  b : Side

/-- Which link delivers, and the answer of `roce_calloc` should the receiver ask. -/
structure Delivery where
  toB : Bool
  calloc : Bool

def exchangeStep (x : Exchange) (d : Delivery) : Except (Option Fault) Exchange :=
  if d.toB then do
    let (a, b) ← x.a.handOver x.b d.calloc
    return ⟨a, b⟩
  else do
    let (b, a) ← x.b.handOver x.a d.calloc
    return ⟨a, b⟩

def RoceNetpkt.isRequest (pkt : RoceNetpkt) : Bool := ibBthGetOpcode pkt.bth != ibOpcodeAcknowledge

/-- The requests of a side that its peer has not had: sent or pending. -/
def Side.requests (x : Side) : List RoceNetpkt :=
  x.link.filter RoceNetpkt.isRequest ++ x.st.qp.req.pendingPkts

def Side.answers (x : Side) : List RoceNetpkt := x.link.filter fun pkt => !pkt.isRequest

/-- The head of `x`'s link is no request out of its place, and it is refused
only when no other request comes after it. -/
def Side.Unblocked (x y : Side) (calloc : Bool) : Prop :=
  ∀ pkt link d iovs, x.link = pkt :: link → pkt.isRequest = true →
    roceNetDecap y.st.ctx pkt.iovs = .ok (some d) →
    dropPad (ibBthGetPadcnt d.bth) d.iovs = some iovs →
      ¬OutOfPlace y.st ⟨d.bth, iovs, calloc⟩ ∧
        (Refuses y.st ⟨d.bth, iovs, calloc⟩ →
          link.filter RoceNetpkt.isRequest = [] ∧ x.st.qp.req.pendingPkts = [])

def Exchange.Unblocked (x : Exchange) (d : Delivery) : Prop :=
  if d.toB then x.a.Unblocked x.b d.calloc else x.b.Unblocked x.a d.calloc

instance (x y : Side) (calloc : Bool) : Decidable (x.Unblocked y calloc) :=
  match hlink : x.link with
  | [] => .isTrue (by intro _ _ _ _ h; rw [hlink] at h; cases h)
  | pkt :: link =>
    match hd : roceNetDecap y.st.ctx pkt.iovs with
    | .error _ => .isTrue (by intro _ _ _ _ h _ h'; rw [hlink] at h; cases h; rw [hd] at h'; cases h')
    | .ok none => .isTrue (by intro _ _ _ _ h _ h'; rw [hlink] at h; cases h; rw [hd] at h'; cases h')
    | .ok (some d) =>
      match hp : dropPad (ibBthGetPadcnt d.bth) d.iovs with
      | none => .isTrue (by
          intro _ _ _ _ h _ h' h''
          rw [hlink] at h
          cases h
          rw [hd] at h'
          cases h'
          rw [hp] at h''
          cases h'')
      | some iovs => decidable_of_iff (pkt.isRequest = true → ¬OutOfPlace y.st ⟨d.bth, iovs, calloc⟩ ∧
            (Refuses y.st ⟨d.bth, iovs, calloc⟩ →
              link.filter RoceNetpkt.isRequest = [] ∧ x.st.qp.req.pendingPkts = []))
          ⟨by
            intro hg _ _ _ _ h hreq h' h''
            rw [hlink] at h
            cases h
            rw [hd] at h'
            cases h'
            rw [hp] at h''
            cases h''
            exact hg hreq,
          fun hg hreq => hg pkt link d iovs hlink hreq hd hp⟩

instance (x : Exchange) (d : Delivery) : Decidable (x.Unblocked d) :=
  inferInstanceAs (Decidable (ite _ _ _))

/-! ## What is under way -/

/-- The packets of `x` under way to `y`: requests without a gap from the PSN `y`
expects, and ACKs. -/
structure Flow (x y : Side) : Prop where
  joined : Joined x.st y.st
  requests : ∀ pkt ∈ x.requests, pkt.isRequest = true ∧ ∃ opcode, Addressed x.st opcode pkt
  answers : ∀ pkt ∈ x.answers, IsAnswer x.st .ack pkt
  order : psnsOf x.requests = Serial.seq psnMod y.st.qp.attr.rqPsn.toNat x.requests.length

/-- Every request may bring an ACK, and every ACK is one delivery. -/
def Side.size (x : Side) : Nat := 2 * x.requests.length + x.answers.length

def Exchange.size (x : Exchange) : Nat := x.a.size + x.b.size

/-- The receiving end, with one packet less under way. -/
theorem Flow.receive {x y x' y' : Side} {qs : List RoceNetpkt} (h : Flow x y) (hx : x'.st = x.st)
    (hlink : x'.link = x.link.tail) (hy : Acts y.st y'.st qs)
    (horder : psnsOf x'.requests = Serial.seq psnMod y'.st.qp.attr.rqPsn.toNat x'.requests.length) :
    Flow x' y' := by
  have hsub : x'.link.Sublist x.link := by
    rw [hlink]
    exact List.tail_sublist _
  refine ⟨?_, ?_, ?_, horder⟩
  · rw [hx]
    exact h.joined.acts (.refl _) hy
  · intro pkt hmem
    unfold Side.requests at hmem
    rw [hx] at hmem ⊢
    apply h.requests
    rcases List.mem_append.mp hmem with hmem | hmem
    · exact List.mem_append_left _ ((hsub.filter _).subset hmem)
    · exact List.mem_append_right _ hmem
  · intro pkt hmem
    rw [hx]
    exact h.answers pkt ((hsub.filter _).subset hmem)

/-- The sending end, when what was pending may now be on the link. -/
theorem Flow.send {x y x' y' : Side} {ps : List RoceNetpkt} (h : Flow x y) (hx : Acts x.st x'.st ps)
    (hy : y'.st = y.st) (hreq : x'.requests = x.requests)
    (hans : ∀ pkt ∈ x'.answers, pkt ∈ x.answers ∨ IsAnswer x'.st .ack pkt) : Flow x' y' := by
  refine ⟨?_, ?_, ?_, ?_⟩
  · rw [hy]
    exact h.joined.acts hx (.refl _)
  · intro pkt hmem
    rw [hreq] at hmem
    obtain ⟨hreq, opcode, ha⟩ := h.requests pkt hmem
    exact ⟨hreq, opcode, ha.acts hx⟩
  · intro pkt hmem
    rcases hans pkt hmem with hmem | ha
    · exact (h.answers pkt hmem).acts hx
    · exact ha
  · rw [hreq, hy]
    exact h.order

/-- The request at the head of a link is the one the peer expects. -/
theorem Flow.head {x y : Side} {pkt : RoceNetpkt} {rest : List RoceNetpkt} (h : Flow x y)
    (hreq : x.requests = pkt :: rest) :
    (roceNetpktPsn pkt).toNat = y.st.qp.attr.rqPsn.toNat % psnMod ∧
      psnsOf rest = Serial.seq psnMod (y.st.qp.attr.rqPsn.toNat + 1) rest.length := by
  have horder := h.order
  rw [hreq, List.length_cons, Serial.seq_succ] at horder
  exact List.cons.inj horder

/-! ## One delivery -/

theorem Side.handOver_ok {x y x' y' : Side} {calloc : Bool} (h : x.handOver y calloc = .ok (x', y')) :
    ∃ pkt link ret t, x.link = pkt :: link ∧ roceNetRecv y.st pkt.iovs calloc = .ok (ret, t) ∧
      x' = ⟨x.st, link⟩ ∧ y' = ⟨t, y.link ++ sentSince y.st t⟩ := by
  unfold Side.handOver at h
  split at h
  · cases h
  · next pkt link hlink =>
    split at h
    · cases h
    · next ret t hrecv =>
      obtain ⟨rfl, rfl⟩ := Prod.mk.inj (Except.ok.inj h)
      exact ⟨pkt, link, ret, t, hlink, hrecv, rfl, rfl⟩

/-- What a delivery keeps, and how it counts. -/
structure Progress (x y x' y' : Side) : Prop where
  there : Flow x' y'
  back : Flow y' x'
  size : x'.size + y'.size < x.size + y.size

/-- A request is delivered. -/
theorem handOver_request {x y : Side} {pkt : RoceNetpkt} {link : List RoceNetpkt} {calloc : Bool}
    {ret : Int} {t : St} (hxy : Flow x y) (hyx : Flow y x) (hg : x.Unblocked y calloc)
    (hlink : x.link = pkt :: link) (hreq : pkt.isRequest = true)
    (h : roceNetRecv y.st pkt.iovs calloc = .ok (ret, t)) :
    Progress x y ⟨x.st, link⟩ ⟨t, y.link ++ sentSince y.st t⟩ := by
  have hrequests : x.requests = pkt :: (⟨x.st, link⟩ : Side).requests := by
    unfold Side.requests
    rw [hlink, List.filter_cons_of_pos hreq]
    rfl
  have hanswers : x.answers = (⟨x.st, link⟩ : Side).answers := by
    unfold Side.answers
    rw [hlink, List.filter_cons_of_neg (by simp [hreq])]
  have htail : (⟨x.st, link⟩ : Side).link = x.link.tail := by rw [hlink, List.tail_cons]
  obtain ⟨-, opcode, ha⟩ := hxy.requests pkt (by rw [hrequests]; exact List.mem_cons_self)
  obtain ⟨-, d, iovs, ret', hdecap, hdrop, hdel, hrc⟩ := ha.roceNetRecv hxy.joined rfl h
  obtain ⟨hplace, hlast⟩ := hg pkt link d iovs hlink hreq hdecap hdrop
  obtain ⟨hpsn, horder⟩ := hxy.head hrequests
  -- the packet is the expected one
  have hne : ¬ibBthGetOpcode d.bth = ibOpcodeAcknowledge := by
    rw [show ibBthGetOpcode d.bth = _ from hdel.opcode]
    exact bne_iff_ne.mp hreq
  have hzero : roceComparePsn y.st.qp.attr.rqPsn (ibBthGetPsn d.bth) = 0 := by
    rw [show ibBthGetPsn d.bth = _ from hdel.psn, roceComparePsn_eq_zero,
      Serial.dist_eq_zero (by decide), hpsn, Nat.mod_mod]
  unfold roceRecvRc at hrc
  rw [if_neg hne] at hrc
  simp only [hzero, gt_iff_lt, Int32.lt_irrefl, if_false] at hrc
  rcases recvInSequence_acts hrc hplace with ⟨hrefuses, hworks⟩ | ⟨acks, hexec⟩
  · -- refused: nothing comes after it
    obtain ⟨hnone, hpend⟩ := hlast hrefuses
    have hqp := hworks.qp
    unfold ResponderOnly at hqp
    have hsent : y.link ++ sentSince y.st t = y.link := by
      rw [hworks.acts.sentSince, List.append_nil]
    have hrest : (⟨x.st, link⟩ : Side).requests = [] := by
      show link.filter _ ++ x.st.qp.req.pendingPkts = []
      rw [hnone, hpend]
      rfl
    have hreq' : (⟨t, y.link⟩ : Side).requests = y.requests := by
      show y.link.filter _ ++ t.qp.req.pendingPkts = _
      rw [hqp]
      rfl
    rw [hsent]
    refine ⟨hxy.receive rfl htail hworks.acts ?_, ?_, ?_⟩
    · rw [hrest]
      rfl
    · exact hyx.send hworks.acts rfl hreq' fun pkt hmem => Or.inl hmem
    · have hans' : (⟨t, y.link⟩ : Side).answers = y.answers := rfl
      unfold Side.size
      rw [hrequests, hanswers, hreq', hans', List.length_cons]
      omega
  · -- executed: at most one ACK joins the link
    rw [hexec.acts.sentSince]
    have hacks : ∀ ack ∈ acks, ack.isRequest = false ∧ IsAnswer t .ack ack := by
      intro ack hmem
      obtain ⟨u, hworks, hpkt⟩ := hexec.acks ack hmem
      have hans := acknowledgePkt_isAnswer hpkt
      obtain ⟨hop, -⟩ := hans.addressed.arrives (hyx.joined.acts hworks.acts (.refl _)) rfl
      have hty : Acts y.st t acks := hexec.acts
      refine ⟨?_, ⟨?_, hans.aeth⟩⟩
      · unfold RoceNetpkt.isRequest
        rw [hop]
        rfl
      · exact hans.addressed.between hworks.acts hty
    have hfilter : acks.filter RoceNetpkt.isRequest = [] := by
      rw [List.filter_eq_nil_iff]
      intro ack hmem
      rw [(hacks ack hmem).1]
      simp
    have hfilter' : acks.filter (fun pkt => !pkt.isRequest) = acks := by
      rw [List.filter_eq_self]
      intro ack hmem
      rw [(hacks ack hmem).1]
      rfl
    have hreq' : (⟨t, y.link ++ acks⟩ : Side).requests = y.requests := by
      show (y.link ++ acks).filter _ ++ t.qp.req.pendingPkts = _
      rw [List.filter_append, hfilter, List.append_nil, hexec.req]
      rfl
    have hans' : (⟨t, y.link ++ acks⟩ : Side).answers = y.answers ++ acks := by
      show (y.link ++ acks).filter _ = _
      rw [List.filter_append, hfilter']
      rfl
    refine ⟨hxy.receive rfl htail hexec.acts ?_, ?_, ?_⟩
    · rw [horder, hexec.attr, roceQpPsnInc_toNat, Serial.seq_mod]
    · refine hyx.send hexec.acts rfl hreq' ?_
      intro pkt hmem
      rw [hans'] at hmem
      rcases List.mem_append.mp hmem with hmem | hmem
      · exact Or.inl hmem
      · exact Or.inr (hacks pkt hmem).2
    · have hfew := hexec.few
      unfold Side.size
      rw [hrequests, hanswers, hreq', hans', List.length_cons, List.length_append]
      omega

/-- An ACK is delivered. -/
theorem handOver_answer {x y : Side} {pkt : RoceNetpkt} {link : List RoceNetpkt} {calloc : Bool}
    {ret : Int} {t : St} (hxy : Flow x y) (hyx : Flow y x) (hlink : x.link = pkt :: link)
    (hreq : pkt.isRequest = false) (h : roceNetRecv y.st pkt.iovs calloc = .ok (ret, t)) :
    Progress x y ⟨x.st, link⟩ ⟨t, y.link ++ sentSince y.st t⟩ := by
  have hrequests : x.requests = (⟨x.st, link⟩ : Side).requests := by
    unfold Side.requests
    rw [hlink, List.filter_cons_of_neg (by simp [hreq])]
  have hanswers : x.answers = pkt :: (⟨x.st, link⟩ : Side).answers := by
    unfold Side.answers
    rw [hlink, List.filter_cons_of_pos (by simp [hreq])]
  have htail : (⟨x.st, link⟩ : Side).link = x.link.tail := by rw [hlink, List.tail_cons]
  have hans := hxy.answers pkt (by rw [hanswers]; exact List.mem_cons_self)
  obtain ⟨val, msn, hhandle⟩ := hans.roceNetRecv hxy.joined rfl h
  obtain ⟨n, moved, -, hacts, hpend, -, hattr⟩ := handleAck_acts hhandle
  -- what moved from the pending queue are requests
  have hmoved : ∀ p ∈ moved, p.isRequest = true := by
    intro p hmem
    refine (hyx.requests p ?_).1
    unfold Side.requests
    rw [hpend]
    exact List.mem_append_right _ (List.mem_append_left _ hmem)
  have hreq' : (⟨t, y.link ++ moved⟩ : Side).requests = y.requests := by
    show (y.link ++ moved).filter _ ++ t.qp.req.pendingPkts = _
    rw [List.filter_append, List.filter_eq_self.mpr hmoved, List.append_assoc, ← hpend]
    rfl
  have hans' : (⟨t, y.link ++ moved⟩ : Side).answers = y.answers := by
    have hnone : moved.filter (fun pkt => !pkt.isRequest) = [] := by
      rw [List.filter_eq_nil_iff]
      intro p hmem
      simp [hmoved p hmem]
    show (y.link ++ moved).filter _ = _
    rw [List.filter_append, hnone, List.append_nil]
    rfl
  rw [hacts.sentSince]
  refine ⟨hxy.receive rfl htail hacts ?_, ?_, ?_⟩
  · rw [← hrequests, hxy.order]
    show _ = Serial.seq psnMod t.qp.attr.rqPsn.toNat _
    rw [hattr]
  · refine hyx.send hacts rfl hreq' ?_
    intro p hmem
    rw [hans'] at hmem
    exact Or.inl hmem
  · unfold Side.size
    rw [hrequests, hanswers, hreq', hans', List.length_cons]
    omega

theorem handOver_flow {x y x' y' : Side} {calloc : Bool} (hxy : Flow x y) (hyx : Flow y x)
    (hg : x.Unblocked y calloc) (h : x.handOver y calloc = .ok (x', y')) : Progress x y x' y' := by
  obtain ⟨pkt, link, ret, t, hlink, hrecv, rfl, rfl⟩ := Side.handOver_ok h
  by_cases hreq : pkt.isRequest = true
  · exact handOver_request hxy hyx hg hlink hreq hrecv
  · exact handOver_answer hxy hyx hlink (Bool.not_eq_true _ ▸ hreq) hrecv

end Libroce
