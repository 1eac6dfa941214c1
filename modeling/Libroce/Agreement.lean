import Libroce.RoundTrip
import Libroce.ResponderIdle
import Libroce.Segmentation

/-!
# Requester and responder

The packets built for a WR are the packets of one message, and a responder that
is ready for the message accepts them: all of them, unless the WR is a
SEND_WITH_INV, its receive WR cannot be measured, or the iovecs of the MRs do not
take a packet's payload.

    Shaped.fragments       the packets carry one message
    Fragments.packets      delivered, they are that message's packets
    recvMessage_ok         the responder takes them

Main statement: `roceRcBuildPkts_accepted`.
-/

namespace Libroce

open Machine (bind_eq_ok)

/-! ## Packets on their way -/

/-- A packet as `roce_recv_rc` gets it: decapsulated and without its padding. -/
structure Delivered (pkt : RoceNetpkt) (inb : Inbound) : Prop where
  opcode : ibBthGetOpcode inb.bth = ibBthGetOpcode pkt.bth
  ack : ibBthGetAck inb.bth = ibBthGetAck pkt.bth
  psn : ibBthGetPsn inb.bth = roceNetpktPsn pkt
  iovs : inb.iovs.flatten = pkt.ext ++ pkt.payload.flatten
  calloc : inb.calloc = true

/-- What `roce_net_decap` reads back and `roce_recv_bth` hands on is delivered. -/
theorem Received.delivered {s : St} {opcode : UInt8} {ext : List UInt8} {padcnt : UInt8}
    {destqp : UInt32} {ack : Bool} {psn : UInt32} {ahAttr : RoceAhAttr} {payload : List (List UInt8)}
    {pkt : RoceNetpkt} {d : Decap} (hr : Received s.qp.qpType opcode padcnt destqp ack psn pkt d)
    (hp : IsPacket s.ctx s.qp opcode ext padcnt destqp ack psn ahAttr payload pkt)
    (hfits : Fits opcode ext padcnt payload) :
    ∃ iovs, dropPad (ibBthGetPadcnt d.bth) d.iovs = some iovs ∧ Delivered pkt ⟨d.bth, iovs, true⟩ := by
  obtain ⟨se, hbth⟩ := hp.bth_eq
  obtain ⟨iovs, hdrop, hiovs⟩ := hr.unpadded
  refine ⟨iovs, hdrop, ⟨?_, ?_, ?_, hiovs, rfl⟩⟩
  · show ibBthGetOpcode d.bth = _
    rw [hr.opcode, hbth, ibBthGetOpcode_setBth _ _ _ _ _ _ _ _ hfits.opcode]
  · show ibBthGetAck d.bth = _
    rw [hr.ack, hbth, ibBthGetAck_setBth]
  · show ibBthGetPsn d.bth = _
    unfold roceNetpktPsn
    rw [hr.psn, hbth, ibBthGetPsn_setBth]

/-! ## The message of a WR -/

/-- The RETH of a WRITE. -/
def SendWr.reth (wr : SendWr) (payload : UInt32) : Option IbReth :=
  match wr.opcode with
  | .rdmaWrite => some ⟨wr.remoteAddr, wr.rkey, payload⟩
  | .rdmaWriteWithImm => some ⟨wr.remoteAddr, wr.rkey, payload⟩
  | _ => none

/-- The immediate of a WR that has one. -/
def SendWr.immdt (wr : SendWr) : Option UInt32 :=
  match wr.opcode with
  | .sendWithImm => some wr.imm
  | .rdmaWriteWithImm => some wr.imm
  | _ => none

/-- The message that the packets of a WR carry. -/
def SendWr.message (wr : SendWr) (payload : UInt32) (pkts : List RoceNetpkt) : Message :=
  ⟨wr.reth payload, wr.immdt, pkts.map (·.payload.flatten)⟩

/-- It, up to its bytes, when the packets have `mtu` bytes at most. -/
def SendWr.outline (wr : SendWr) (mtu : Nat) : Outline :=
  ⟨wr.reth (UInt32.ofNat wr.len), wr.immdt.isSome, Segment.sizes mtu wr.len⟩

theorem SendWr.message_outline {wr : SendWr} {payload : UInt32} {pkts : List RoceNetpkt} {mtu : Nat}
    (hlen : requestLen wr = .ok payload)
    (hsizes : pkts.map (·.payload.flatten.length) = Segment.sizes mtu wr.len) :
    (wr.message payload pkts).outline = wr.outline mtu := by
  have hpayload : UInt32.ofNat wr.len = payload := by
    rw [← requestLen_ok hlen, UInt32.ofNat_toNat]
  unfold Message.outline SendWr.outline SendWr.message
  rw [hpayload, List.map_map, ← hsizes]
  rfl

theorem SendWr.outline_total {wr : SendWr} {m : Message} {mtu : Nat} (h : m.outline = wr.outline mtu) :
    m.total = wr.len := by
  rw [← m.sum_sizes, h]
  exact Segment.sum_sizes mtu wr.len

/-- `pkt` carries a payload of the message. -/
structure Conveys (m : Message) (first last : Bool) (pkt : RoceNetpkt) : Prop where
  opcode : ibBthGetOpcode pkt.bth = m.opcode first last
  ext : pkt.ext = m.ext first last
  mtu : pkt.payload.flatten.length ≤ 4096

theorem Conveys.carries {m : Message} {first last : Bool} {pkt : RoceNetpkt} {inb : Inbound}
    {psn : UInt32} (h : Conveys m first last pkt) (hd : Delivered pkt inb)
    (hpsn : roceNetpktPsn pkt = psn) : Carries m first last psn pkt.payload.flatten inb :=
  ⟨by rw [hd.opcode, h.opcode], by rw [hd.psn, hpsn], by rw [hd.iovs, h.ext], h.mtu, hd.calloc⟩

/-- The packets of a message from one of them on; only one that is alone may be empty. -/
inductive Fragments (m : Message) : Bool → List RoceNetpkt → Prop where
  | last {first : Bool} {pkt : RoceNetpkt} (hne : pkt.payload.flatten ≠ [] ∨ first = true)
      (h : Conveys m first true pkt) : Fragments m first [pkt]
  | more {first : Bool} {pkt : RoceNetpkt} {pkts : List RoceNetpkt} (hne : pkt.payload.flatten ≠ [])
      (h : Conveys m first false pkt) (hrest : Fragments m false pkts) :
      Fragments m first (pkt :: pkts)

theorem Fragments.packets {m : Message} {first : Bool} {pkts : List RoceNetpkt}
    (h : Fragments m first pkts) {inbs : List Inbound} (hd : List.Forall₂ Delivered pkts inbs)
    {psn : UInt32} (hlt : psn.toNat < psnMod)
    (hpsns : pkts.map (fun p => (roceNetpktPsn p).toNat) = Serial.seq psnMod psn.toNat pkts.length) :
    m.Packets first psn (pkts.map (·.payload.flatten)) inbs := by
  induction h generalizing inbs psn with
  | last hne hconv =>
    rw [List.map_singleton, List.length_singleton, Serial.seq_succ, Nat.mod_eq_of_lt hlt] at hpsns
    have hpsn := UInt32.toNat_inj.mp (List.cons.inj hpsns).1
    cases hd with
    | cons hd hnil =>
      cases hnil
      exact .last hne (hconv.carries hd hpsn)
  | more hne hconv hrest ih =>
    rw [List.map_cons, List.length_cons, Serial.seq_succ, Nat.mod_eq_of_lt hlt] at hpsns
    obtain ⟨hpsn, hpsns'⟩ := List.cons.inj hpsns
    have hpsn := UInt32.toNat_inj.mp hpsn
    cases hd with
    | cons hd hds =>
      refine .more hne (hconv.carries hd hpsn) (ih hds ?_ ?_)
      · rw [roceQpPsnInc_toNat]
        exact Nat.mod_lt _ (by decide)
      · rw [hpsns', roceQpPsnInc_toNat, Serial.seq_mod]

/-! ## The packets of a WR -/

/-- What a WR has mapped is backed by memory; an inline array that fits a
packet is not mapped. -/
def SenderBacked (ctx : RoceCtx) (qp : RoceQp) (wr : SendWr) : Prop :=
  roceSendWrIsInline wr = true ∧ wr.len ≤ qp.attr.pathMtu.toNat ∨ AllBacked ctx qp wr.sge

theorem IsPacket.conveys {ctx : RoceCtx} {qp : RoceQp} {opcode : UInt8} {ext : List UInt8}
    {padcnt : UInt8} {destqp : UInt32} {ack : Bool} {psn : UInt32} {ahAttr : RoceAhAttr}
    {bytes : List (List UInt8)} {pkt : RoceNetpkt} {m : Message} {first last : Bool}
    (h : IsPacket ctx qp opcode ext padcnt destqp ack psn ahAttr bytes pkt) (hop : opcode < 32)
    (hopcode : opcode = m.opcode first last) (hext : ext = m.ext first last)
    (hmtu : bytes.flatten.length ≤ 4096) : Conveys m first last pkt := by
  obtain ⟨se, hbth⟩ := h.bth_eq
  refine ⟨?_, by rw [h.ext_eq, hext], by rw [h.payload_eq]; exact hmtu⟩
  rw [hbth, ibBthGetOpcode_setBth _ _ _ _ _ _ _ _ hop, hopcode]

section kinds

variable {wr : SendWr} {payload : UInt32}

theorem OnlyKind.message {opcode : UInt8} {ext : List UInt8} (h : OnlyKind wr payload opcode ext)
    (hinv : wr.opcode ≠ .sendWithInv) (pkts : List RoceNetpkt) :
    opcode = (wr.message payload pkts).opcode true true ∧
      ext = (wr.message payload pkts).ext true true := by
  cases h with
  | sendWithInv hop => exact absurd hop hinv
  | _ hop =>
    simp [SendWr.message, SendWr.reth, SendWr.immdt, Message.opcode, Message.ext, messageOpcode,
      writeReth, hop]

theorem SeveralKind.message {kind : MultiKind} (h : SeveralKind wr payload kind)
    (hinv : wr.opcode ≠ .sendWithInv) (pkts : List RoceNetpkt) :
    (kind.opFirst = (wr.message payload pkts).opcode true false ∧
      kind.extFirst = (wr.message payload pkts).ext true false) ∧
    (kind.opMiddle = (wr.message payload pkts).opcode false false ∧
      [] = (wr.message payload pkts).ext false false) ∧
    kind.opLast = (wr.message payload pkts).opcode false true ∧
      kind.extLast = (wr.message payload pkts).ext false true := by
  cases h with
  | sendWithInv hop => exact absurd hop hinv
  | _ hop =>
    simp [SendWr.message, SendWr.reth, SendWr.immdt, Message.opcode, Message.ext, messageOpcode,
      writeReth, sendMultiKind, writeMultiKind, hop]

/-- The opcodes of a SEND_WITH_INV. -/
def endsWithInv (opcode : UInt8) : Bool :=
  opcode == ibOpcodeSendOnlyWithInvalidate || opcode == ibOpcodeSendLastWithInvalidate

theorem OnlyKind.endsWithInv {opcode : UInt8} {ext : List UInt8} (h : OnlyKind wr payload opcode ext)
    (hinv : wr.opcode = .sendWithInv) : endsWithInv opcode = true := by
  cases h with
  | sendWithInv hop => rfl
  | _ hop =>
    rw [hop] at hinv
    cases hinv

theorem SeveralKind.endsWithInv {kind : MultiKind} (h : SeveralKind wr payload kind)
    (hinv : wr.opcode = .sendWithInv) : endsWithInv kind.opLast = true := by
  cases h with
  | sendWithInv hop => rfl
  | _ hop =>
    rw [hop] at hinv
    cases hinv

end kinds

theorem MtusValid.pos {s : St} (h : MtusValid s) {mtu : UInt16} (hm : roceGetMtu s.ctx s.qp = .ok mtu) :
    0 < mtu.toNat := by
  have hvalid := h.valid hm
  unfold roceValidMtu at hvalid
  simp only [Bool.or_eq_true, beq_iff_eq] at hvalid
  rcases hvalid with (rfl | rfl) | rfl <;> decide

section shaped

variable {ctx : RoceCtx} {qp : RoceQp} {wr : SendWr} {pkts : List RoceNetpkt}

/-- A FIRST or MIDDLE packet of backed SGEs is full. -/
theorem IsPart.full {opcode : UInt8} {ext : List UInt8} {mtu : UInt16} {psn : UInt32}
    {pkt : RoceNetpkt} {sges : List RoceSge} (h : IsPart ctx qp sges opcode ext mtu psn pkt)
    (hb : AllBacked ctx qp sges) : pkt.payload.flatten.length = mtu.toNat := by
  obtain ⟨bytes, hreq, hbytes⟩ := h
  rw [hreq.packet.payload_eq, hbytes.eq hb]

theorem IsPart.conveys {opcode : UInt8} {ext : List UInt8} {mtu : UInt16} {psn : UInt32}
    {pkt : RoceNetpkt} {sges : List RoceSge} {m : Message} {first : Bool}
    (h : IsPart ctx qp sges opcode ext mtu psn pkt) (hop : opcode < 32)
    (hopcode : opcode = m.opcode first false) (hext : ext = m.ext first false)
    (hmtu : mtu.toNat ≤ 4096) : Conveys m first false pkt := by
  obtain ⟨bytes, hreq, hbytes⟩ := h
  exact hreq.packet.conveys hop hopcode hext (Nat.le_trans hbytes.le hmtu)

/-- MIDDLE packets and the LAST one. -/
theorem fragments_of_parts {m : Message} {mids : List RoceNetpkt} {last : RoceNetpkt} {mtu : Nat}
    (hpos : 0 < mtu)
    (hmids : ∀ pkt ∈ mids, Conveys m false false pkt ∧ pkt.payload.flatten.length = mtu)
    (hlast : Conveys m false true last) (hne : 0 < last.payload.flatten.length) :
    Fragments m false (mids ++ [last]) := by
  induction mids with
  | nil => exact .last (Or.inl (List.length_pos_iff.mp hne)) hlast
  | cons mid mids ih =>
    obtain ⟨⟨hmid, hfull⟩, hmids'⟩ := List.forall_mem_cons.mp hmids
    refine .more (List.length_pos_iff.mp ?_) hmid (ih hmids')
    rw [hfull]
    exact hpos

/-- The packets of a WR carry one message, cut as the MTU says. -/
theorem Shaped.fragments (h : Shaped ctx qp wr pkts) (hrc : qp.qpType = .rc)
    (hv : MtusValid ⟨ctx, qp⟩) (hb : SenderBacked ctx qp wr) (hinv : wr.opcode ≠ .sendWithInv) :
    ∃ payload, requestLen wr = .ok payload ∧ Fragments (wr.message payload pkts) true pkts ∧
      (wr.message payload pkts).outline = wr.outline qp.attr.pathMtu.toNat := by
  have hpath : ∀ mtu, roceGetMtu ctx qp = .ok mtu → qp.attr.pathMtu = mtu := by
    intro mtu hmtu
    unfold roceGetMtu at hmtu
    rw [if_pos (Or.inl hrc)] at hmtu
    exact Except.ok.inj hmtu
  cases h with
  | @only mtu payload opcode ext bytes pkt hmtu hlen hk hreq hbytes hin hle =>
    obtain ⟨hop, -⟩ := hk.fits
    obtain ⟨hopcode, hext⟩ := hk.message hinv [pkt]
    have hfull : bytes.flatten.length = payload.toNat := by
      rcases hb with ⟨hinline, -⟩ | hb
      · exact hin hinline
      · exact hbytes.eq hb
    have hconv := hreq.packet.conveys hop hopcode hext
      (Nat.le_trans (Nat.le_trans hbytes.le hle) (hv.le hmtu))
    refine ⟨payload, hlen, .last (Or.inr rfl) hconv, SendWr.message_outline hlen ?_⟩
    rw [List.map_singleton, hreq.packet.payload_eq, hfull, hpath mtu hmtu, ← requestLen_ok hlen,
      Segment.sizes_of_le hle]
  | @several mtu payload kind pkts hmtu hlen hk hm =>
    obtain ⟨first, mids, last, rfl, ⟨p, hfirst⟩, hmids, rest, psn, bytes, hlast, hbytes, hpos, hle,
      htotal⟩ := hm.parts
    have hb : AllBacked ctx qp wr.sge := by
      rcases hb with ⟨-, hfits⟩ | hb
      · rw [← requestLen_ok hlen, hpath mtu hmtu, ← htotal, Nat.succ_mul] at hfits
        omega
      · exact hb
    obtain ⟨⟨hop1, hop2, hop3⟩, -, -⟩ := hk.fits
    obtain ⟨⟨hf, hfe⟩, ⟨hmi, hme⟩, hl, hle'⟩ := hk.message hinv (first :: mids ++ [last])
    have hmtu' := hv.le hmtu
    have hlastlen : last.payload.flatten.length = rest.toNat := by
      rw [hlast.packet.payload_eq, hbytes.eq hb]
    have hfirstlen := hfirst.full hb
    have hmidslen : ∀ pkt ∈ mids, pkt.payload.flatten.length = mtu.toNat := by
      intro pkt hmem
      obtain ⟨p', hmid⟩ := hmids pkt hmem
      exact hmid.full hb
    have hfrag : Fragments (wr.message payload (first :: mids ++ [last])) false (mids ++ [last]) := by
      refine fragments_of_parts (hv.pos hmtu) ?_
        (hlast.packet.conveys hop3 hl hle' (Nat.le_trans (Nat.le_trans hbytes.le hle) hmtu')) ?_
      · intro pkt hmem
        obtain ⟨p', hmid⟩ := hmids pkt hmem
        exact ⟨hmid.conveys hop2 hmi hme hmtu', hmid.full hb⟩
      · rw [hlastlen]
        exact hpos
    refine ⟨payload, hlen, .more (List.length_pos_iff.mp ?_) (hfirst.conveys hop1 hf hfe hmtu') hfrag,
      SendWr.message_outline hlen ?_⟩
    · rw [hfirstlen]
      exact hv.pos hmtu
    · rw [hpath mtu hmtu, ← requestLen_ok hlen, Segment.sizes_eq htotal hpos hle, List.replicate_succ,
        List.cons_append, List.cons_append, List.map_cons, List.map_append, List.map_singleton, hfirstlen,
        hlastlen, List.map_eq_replicate_iff.mpr hmidslen]

/-- The last packet of a SEND_WITH_INV says so. -/
theorem Shaped.endsWithInv (h : Shaped ctx qp wr pkts) (hinv : wr.opcode = .sendWithInv) :
    ∃ init last, pkts = init ++ [last] ∧ Libroce.endsWithInv (ibBthGetOpcode last.bth) = true := by
  have hset : ∀ {opcode ext padcnt ack psn bytes pkt},
      IsRequest ctx qp (some wr.addr) opcode ext padcnt ack psn bytes pkt → opcode < 32 →
        ibBthGetOpcode pkt.bth = opcode := by
    intro opcode ext padcnt ack psn bytes pkt hreq hop
    obtain ⟨se, hbth⟩ := hreq.packet.bth_eq
    rw [hbth, ibBthGetOpcode_setBth _ _ _ _ _ _ _ _ hop]
  cases h with
  | only hmtu hlen hk hreq hbytes hin hle =>
    refine ⟨[], _, rfl, ?_⟩
    rw [hset hreq hk.fits.1, hk.endsWithInv hinv]
  | several hmtu hlen hk hm =>
    obtain ⟨first, mids, last, rfl, -, -, rest, psn, bytes, hlast, -⟩ := hm.parts
    refine ⟨_, last, rfl, ?_⟩
    rw [hset hlast hk.fits.1.2.2, hk.endsWithInv hinv]

end shaped

/-! ## What acceptance takes -/

/-- A request that moves the PSN was carried out. -/
theorem roceRecvRc_counted {s t : St} {pkt : Inbound}
    (hop : ibBthGetOpcode pkt.bth ≠ ibOpcodeAcknowledge) (h : roceRecvRc s pkt = .ok (0, t))
    (hpsn : t.qp.attr.rqPsn = roceQpPsnInc s.qp.attr.rqPsn) :
    ∃ s1, RequestStep { s with qp.resp.inPsnNak := false } pkt 0 s1 := by
  obtain ⟨s1, -, -, hstep, -⟩ := roceRecvRc_carriedOut hop h hpsn
  exact ⟨s1, hstep⟩

/-- So was the last of those that are accepted. -/
theorem Accepts.last {s t : St} {inbs : List Inbound} {pkt : Inbound} (h : Accepts s (inbs ++ [pkt]) t)
    (hop : ibBthGetOpcode pkt.bth ≠ ibOpcodeAcknowledge) : ∃ u s1, RequestStep u pkt 0 s1 := by
  induction inbs generalizing s with
  | nil =>
    cases h with
    | cons h hpsn hrest =>
      obtain ⟨s1, hstep⟩ := roceRecvRc_counted hop h hpsn
      exact ⟨_, s1, hstep⟩
  | cons inb inbs ih =>
    cases h with
    | cons h hpsn hrest => exact ih hrest

/-! ## Agreement -/

/-- The last PSN of a train. -/
theorem Train.last {wrAddr : Nat} {psn : UInt32} {pkts : List RoceNetpkt} (h : Train wrAddr psn pkts)
    {pkt : RoceNetpkt} (hlast : pkts.getLast? = some pkt) :
    (roceNetpktPsn pkt).toNat = (psn.toNat + (pkts.length - 1)) % psnMod := by
  have hpos := List.length_pos_iff.mpr h.ne_nil
  have hseq := Serial.seq_getLast? psnMod psn.toNat pkts.length hpos
  rw [← h.psns, List.getLast?_map, hlast] at hseq
  exact Option.some.inj hseq

/-- The expected PSN ends one past the last packet. -/
theorem Accepts.past {s t : St} {wrAddr : Nat} {psn : UInt32} {pkts : List RoceNetpkt}
    {inbs : List Inbound} (h : Accepts s inbs t) (htrain : Train wrAddr psn pkts)
    (hlen : inbs.length = pkts.length) (hpsn : s.qp.attr.rqPsn.toNat = psn.toNat % psnMod)
    {pkt : RoceNetpkt} (hlast : pkts.getLast? = some pkt) :
    t.qp.attr.rqPsn = roceQpPsnInc (roceNetpktPsn pkt) := by
  have hafter : ∀ n, roceQpPsnInc^[n] s.qp.attr.rqPsn = psnAfter s.qp.attr.rqPsn n := by
    intro n
    induction n with
    | zero => rfl
    | succ n ih => rw [Function.iterate_succ_apply', ih, psnAfter]
  have hpos := List.length_pos_iff.mpr htrain.ne_nil
  rw [h.rqPsn, hlen, hafter, show pkts.length = pkts.length - 1 + 1 by omega, psnAfter]
  have hlt : (psnAfter s.qp.attr.rqPsn (pkts.length - 1)).toNat < psnMod := by
    apply psnAfter_lt
    rw [hpsn]
    exact Nat.mod_lt _ (by decide)
  have hsame : psnAfter s.qp.attr.rqPsn (pkts.length - 1) = roceNetpktPsn pkt := by
    apply UInt32.toNat_inj.mp
    rw [← Nat.mod_eq_of_lt hlt, psnAfter_toNat, htrain.last hlast, hpsn, Nat.mod_add_mod]
  rw [hsame]

theorem endsWithInv_request {pkt : Inbound} (h : endsWithInv (ibBthGetOpcode pkt.bth) = true) :
    pkt.request = none ∧ ibBthGetOpcode pkt.bth ≠ ibOpcodeAcknowledge := by
  unfold endsWithInv at h
  unfold Inbound.request
  rcases Bool.or_eq_true_iff.mp h with hop | hop
  · rw [beq_iff_eq.mp hop]
    exact ⟨rfl, by decide⟩
  · rw [beq_iff_eq.mp hop]
    exact ⟨rfl, by decide⟩

theorem delivered_last {init : List RoceNetpkt} {last : RoceNetpkt} {inbs : List Inbound}
    (hd : List.Forall₂ Delivered (init ++ [last]) inbs) :
    ∃ inbs' inb, inbs = inbs' ++ [inb] ∧ Delivered last inb := by
  induction init generalizing inbs with
  | nil =>
    cases hd with
    | cons hlast hnil =>
      cases hnil
      exact ⟨[], _, rfl, hlast⟩
  | cons pkt init ih =>
    cases hd with
    | @cons _ inb _ _ _ hds =>
      obtain ⟨inbs', inb', rfl, hlast⟩ := ih hds
      exact ⟨inb :: inbs', inb', rfl, hlast⟩

/-- `roce_recv_rc` has no case for a SEND_WITH_INV. -/
theorem Accepts.not_endsWithInv {s t : St} {pkts : List RoceNetpkt} {inbs : List Inbound}
    (h : Accepts s inbs t) (hd : List.Forall₂ Delivered pkts inbs)
    (hinv : ∃ init last, pkts = init ++ [last] ∧ endsWithInv (ibBthGetOpcode last.bth) = true) :
    False := by
  obtain ⟨init, last, rfl, hends⟩ := hinv
  obtain ⟨inbs', inb, rfl, hlast⟩ := delivered_last hd
  rw [← hlast.opcode] at hends
  obtain ⟨hnone, hop⟩ := endsWithInv_request hends
  obtain ⟨u, s1, hstep⟩ := h.last hop
  have hret : ∃ ret, ret = 0 ∧ RequestStep u inb ret s1 := ⟨0, rfl, hstep⟩
  obtain ⟨ret, hret, hstep⟩ := hret
  cases hstep with
  | malformed h => cases hret
  | send hreq h => cases hnone.symm.trans hreq
  | write hreq h => cases hnone.symm.trans hreq

/-- **Requester and responder agree.**  A peer that has what the message needs accepts
each packet of a WR, with the expected PSN one past the last in the end, exactly
when its memory takes their payloads and the WR is no SEND_WITH_INV. -/
theorem roceRcBuildPkts_accepted {ctx : RoceCtx} {qp qp' : RoceQp} {wr wr' : SendWr}
    {calloc : Nat → Bool} {pkts : List RoceNetpkt} (hrc : qp.qpType = .rc)
    (hv : MtusValid ⟨ctx, qp⟩) (hb : SenderBacked ctx qp wr)
    (hbuild : roceRcBuildPkts ctx qp wr calloc = .ok (qp', wr'))
    (hpkts : qp'.req.pendingPkts = qp.req.pendingPkts ++ pkts) (hne : pkts ≠ []) {s : St}
    {inbs : List Inbound} (hl : Listening s) (hpow : rocePowerOf2 s.ctx.pageSize.toUInt64 = true)
    (hidle : RespIdle s) (hpsn : s.qp.attr.rqPsn.toNat = qp.req.psn.toNat % psnMod)
    (hready : Provided s (wr.outline qp.attr.pathMtu.toNat) s.qp.rq)
    (hd : List.Forall₂ Delivered pkts inbs) :
    (∃ t, Accepts s inbs t ∧
      ∀ pkt, pkts.getLast? = some pkt → t.qp.attr.rqPsn = roceQpPsnInc (roceNetpktPsn pkt)) ↔
      wr.opcode ≠ .sendWithInv ∧ MessageLands s (wr.outline qp.attr.pathMtu.toNat) s.qp.rq := by
  have hnil : ∀ {q : RoceQp}, q.req.pendingPkts = q.req.pendingPkts ++ pkts → False := by
    intro q h
    exact hne (List.append_cancel_left (h.symm.trans (List.append_nil _).symm))
  cases roceRcBuildPkts_ok hbuild with
  | failed e he => exact (hnil hpkts).elim
  | skipped hs => exact (hnil hpkts).elim
  | queued pkts' htrain hop hs =>
    obtain rfl : pkts' = pkts := List.append_cancel_left hpkts
    have hlen : inbs.length = pkts'.length := hd.length_eq.symm
    by_cases hinv : wr.opcode = .sendWithInv
    · refine iff_of_false ?_ (fun h => h.1 hinv)
      rintro ⟨t, hacc, -⟩
      exact hacc.not_endsWithInv hd (hs.endsWithInv hinv)
    · obtain ⟨payload, hreqlen, hfrag, hout⟩ := hs.fragments hrc hv hb hinv
      rw [← hout] at hready ⊢
      have hlt : s.qp.attr.rqPsn.toNat < psnMod := by
        rw [hpsn]
        exact Nat.mod_lt _ (by decide)
      have hp : (wr.message payload pkts').Packets true s.qp.attr.rqPsn
          (wr.message payload pkts').payloads inbs := by
        refine hfrag.packets hd hlt ?_
        rw [htrain.psns, hpsn, Serial.seq_mod]
      have hwf : (wr.message payload pkts').WellFormed s.qp.attr.rqPsn inbs := by
        refine ⟨hp, fun reth hreth => ?_⟩
        have hdma : reth.dmalen = payload := by
          unfold SendWr.message SendWr.reth at hreth
          simp only at hreth
          split at hreth
          · rw [← Option.some.inj hreth]
          · rw [← Option.some.inj hreth]
          · cases hreth
        rw [SendWr.outline_total hout, hdma, requestLen_ok hreqlen]
      constructor
      · rintro ⟨t, hacc, -⟩
        exact ⟨hinv, recvMessage_lands hl hidle hwf hpow hready hacc.run⟩
      · rintro ⟨-, hlands⟩
        obtain ⟨t, hacc, -⟩ := recvMessage_ok hl hidle hwf hpow hready hlands
        exact ⟨t, hacc, fun pkt hlast => hacc.past htrain hlen hpsn hlast⟩

/-- A packet delivered in one piece. -/
def RoceNetpkt.inbound (pkt : RoceNetpkt) : Inbound :=
  ⟨pkt.bth, [pkt.ext ++ pkt.payload.flatten], true⟩

theorem RoceNetpkt.delivered_inbound (pkt : RoceNetpkt) : Delivered pkt pkt.inbound :=
  ⟨rfl, rfl, rfl, List.append_nil _, rfl⟩

/-- A WR without SGEs, sent inline. -/
def emptySend (opcode : WrOpcode) : SendWr := { smallSend 5 opcode with sge := [] }

/-- A SEND_WITH_INV is refused. -/
theorem roceRcBuildPkts_accepted_inv :
    Provided (smallRecv 2 1) ((emptySend .sendWithInv).outline smallQp.attr.pathMtu.toNat)
      (smallRecv 2 1).qp.rq ∧
      MessageLands (smallRecv 2 1) ((emptySend .sendWithInv).outline smallQp.attr.pathMtu.toNat)
        (smallRecv 2 1).qp.rq ∧
      Listening (smallRecv 2 1) ∧ RespIdle (smallRecv 2 1) ∧ (smallRecv 2 1).qp.attr.qpState = .rts ∧
      ∃ qp' pkt t, roceRcBuildPkts smallCtx smallQp (emptySend .sendWithInv) (fun _ => true) =
          .ok (qp', emptySend .sendWithInv) ∧ qp'.req.pendingPkts = [pkt] ∧
        Delivered pkt pkt.inbound ∧ ibBthGetPsn pkt.inbound.bth = (smallRecv 2 1).qp.attr.rqPsn ∧
        roceRecvRc (smallRecv 2 1) pkt.inbound = .ok (ePROTO, t) ∧
        t.qp.attr.rqPsn = (smallRecv 2 1).qp.attr.rqPsn := by
  have hpieces : recvPieces [⟨0x10000, 2, 0⟩] 0 0
      ((emptySend .sendWithInv).outline smallQp.attr.pathMtu.toNat).sizes = [[]] := by decide
  refine ⟨⟨0x1000, 0, [⟨0x10000, 2, 0⟩], rfl, rfl, by decide, ?_⟩, ?_, smallRecv_listening, ⟨rfl, rfl⟩,
    rfl, _, _, _, rfl, rfl, RoceNetpkt.delivered_inbound _, rfl, rfl, rfl⟩
  · intro d hd
    rw [hpieces] at hd
    rw [List.mem_singleton.mp hd]
    exact ⟨.mem, fun sge hsge => absurd hsge List.not_mem_nil⟩
  · intro p wrId sge hhead hwr
    obtain rfl := Option.some.inj hhead
    obtain ⟨rfl, rfl⟩ := RecvWr.fresh_inj (Option.some.inj hwr)
    refine ⟨List.cons_ne_nil _ _, by decide, ?_⟩
    intro d hd
    rw [hpieces] at hd
    rw [List.mem_singleton.mp hd]
    exact ⟨fun sge hsge => absurd hsge List.not_mem_nil, rfl, by decide⟩

/-- A SEND of 1500 bytes with an immediate. -/
def pagedSend : SendWr :=
  { smallSend 5 .sendWithImm with
    sendFlags := roceSendSolicited
    sge := [⟨0x10000, 600, 0⟩, ⟨0x10300, 900, 0⟩] }

/-- Both of its packets are accepted. -/
theorem roceRcBuildPkts_accepted_two :
    ∃ qp' wr' pkts t, roceRcBuildPkts (withMr smallCtx smallMr) smallQp pagedSend (fun _ => true) =
        .ok (qp', wr') ∧ qp'.req.pendingPkts = pkts ∧ pkts.length = 2 ∧
      Accepts (smallRecv 2000 1) (pkts.map (·.inbound)) t ∧ t.qp.attr.rqPsn = 2 := by
  have hrun : (roceRcBuildPkts (withMr smallCtx smallMr) smallQp pagedSend (fun _ => true)).toOption.map
      (fun r => r.1.req.pendingPkts.length) = some 2 := by decide +kernel
  have hv : MtusValid ⟨withMr smallCtx smallMr, smallQp⟩ := by
    refine ⟨by decide, ?_⟩
    rintro port hport
    obtain rfl := Except.ok.inj hport
    decide
  have hb : SenderBacked (withMr smallCtx smallMr) smallQp pagedSend := by
    refine Or.inr (allBacked_of_sgeIn fun g hg => ⟨pageMr 0, ?_⟩)
    have hpaged : (pageMr 0).Paged := by
      refine ⟨rfl, ?_, by decide⟩
      intro iov hiov
      rw [List.mem_singleton.mp hiov]
      rfl
    rcases List.mem_cons.mp hg with rfl | hg
    · exact ⟨⟨rfl, rfl, rfl, rfl, rfl⟩, hpaged, by unfold InRange; decide, by decide⟩
    · rw [List.mem_singleton.mp hg]
      exact ⟨⟨rfl, rfl, rfl, rfl, rfl⟩, hpaged, by unfold InRange; decide, by decide⟩
  have hlive : roceGetMrNoref (smallRecv 2000 1).ctx (roceKeyToIndex 0) = some (pageMr 1) := rfl
  have hlisten : Listening (smallRecv 2000 1) :=
    ⟨⟨rfl, smallPort, Vector.replicate 16 0, rfl, rfl⟩, pdsLive_one rfl (Option.some_ne_none _),
      List.nodup_singleton 0x1000, by decide⟩
  have hpieces : ∀ d ∈ recvPieces [⟨0x10000, 2000, 0⟩] 0 0
        (pagedSend.outline smallQp.attr.pathMtu.toNat).sizes,
      d = [⟨0x10000, 1024, 0⟩] ∨ d = [⟨0x10400, 476, 0⟩] := by decide
  have hready : Provided (smallRecv 2000 1) (pagedSend.outline smallQp.attr.pathMtu.toNat)
      (smallRecv 2000 1).qp.rq := by
    refine ⟨0x1000, 0, [⟨0x10000, 2000, 0⟩], rfl, rfl, by decide, ?_⟩
    intro d hd
    rcases hpieces d hd with rfl | rfl
    · exact pageMr_opens hlive rfl (by decide) (by decide) (by decide)
    · exact pageMr_opens hlive rfl (by decide) (by decide) (by decide)
  have hlands : MessageLands (smallRecv 2000 1) (pagedSend.outline smallQp.attr.pathMtu.toNat)
      (smallRecv 2000 1).qp.rq := by
    intro p wrId sge hhead hwr
    obtain rfl := Option.some.inj hhead
    obtain ⟨rfl, rfl⟩ := RecvWr.fresh_inj (Option.some.inj hwr)
    refine ⟨List.cons_ne_nil _ _, by decide, ?_⟩
    intro d hd
    rcases hpieces d hd with rfl | rfl
    · exact pageMr_lands hlive rfl (by decide) (by decide) (by decide)
    · exact pageMr_lands hlive rfl (by decide) (by decide) (by decide)
  cases hbuild : roceRcBuildPkts (withMr smallCtx smallMr) smallQp pagedSend (fun _ => true) with
  | error e =>
    rw [hbuild] at hrun
    cases hrun
  | ok r =>
    obtain ⟨qp', wr'⟩ := r
    rw [hbuild] at hrun
    have htwo : qp'.req.pendingPkts.length = 2 := Option.some.inj hrun
    have hne : qp'.req.pendingPkts ≠ [] := List.length_pos_iff.mp (by rw [htwo]; decide)
    have hd : List.Forall₂ Delivered qp'.req.pendingPkts (qp'.req.pendingPkts.map (·.inbound)) := by
      rw [List.forall₂_map_right_iff]
      exact List.forall₂_same.mpr fun pkt _ => pkt.delivered_inbound
    obtain ⟨t, hacc, -⟩ := (roceRcBuildPkts_accepted rfl hv hb hbuild rfl hne hlisten
      (by decide) ⟨rfl, rfl⟩ rfl
      hready hd).mpr ⟨by decide, hlands⟩
    refine ⟨qp', wr', _, t, rfl, rfl, htwo, hacc, ?_⟩
    rw [hacc.rqPsn, List.length_map, htwo]
    rfl

end Libroce
