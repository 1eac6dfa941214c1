import Libroce.RequesterBuild
import Libroce.Responder

/-!
# Packets on the wire

What one side builds, the other side takes apart.  `roce_net_decap` reads the
headers back from any segmentation of the bytes, and its ICRC covers the bytes
the sender's covered: the body without the four last ones.

Main statements:
* `roceNetDecap_wire` — one packet, described by what its builder was given.
* `roceNetDecap_assembled` — every packet of the requester and every
  acknowledgement.
-/

namespace Libroce

open Machine (bind_eq_ok)

/-! ## Headers off the front -/

/-- An encoded header comes off the front, whatever the segmentation. -/
theorem takeHdr_enc {α : Type} (c : Bytes.Codec α) (a : α) {iovs : List (List UInt8)}
    {rest : List UInt8} (h : iovs.flatten = c.enc a ++ rest) :
    ∃ iovs', takeHdr c iovs = some (a, iovs') ∧ iovs'.flatten = rest := by
  have hfst : (roceIovAdvance c.width iovs).1 = c.enc a := by
    rw [roceIovAdvance_fst, h, c.take_enc]
  have hsnd : (roceIovAdvance c.width iovs).2.flatten = rest := by
    rw [roceIovAdvance_snd, h, c.drop_enc]
  refine ⟨(roceIovAdvance c.width iovs).2, ?_, hsnd⟩
  unfold takeHdr
  rw [hfst, if_neg (not_not.mpr (c.length_enc a)), c.dec_enc_self]

/-- The headers around the BTH and the body, as `roce_netpkt_set_eth` leaves them. -/
structure IsFrame (vneth : List UInt8) (dmac : Vector UInt8 6) (pkt : RoceNetpkt) : Prop where
  vneth_eq : pkt.vneth = vneth
  dmac_eq : pkt.ethh.dmac = dmac
  ip : pkt.ethh.type = ethernetIp ∧ (∃ h, pkt.ip = .ip4 h ∧ h.u8_0 = 0x45) ∨
    pkt.ethh.type = ethernetIpv6 ∧ ∃ h, pkt.ip = .ip6 h
  dport : pkt.udph.dport = roceV2UdpDport
  length : pkt.udph.length =
    8 + (roceIovLen (ibBthCodec.enc pkt.bth :: pkt.body)).toUInt16 + 4
  icrc : pkt.icrc = roceCrc32Pkt pkt.ip [] pkt.udph pkt.bth pkt.body

theorem roceNetpktSetEth_frame {pkt0 pkt : RoceNetpkt} {port : RocePort} {ahAttr : RoceAhAttr}
    (h : roceNetpktSetEth pkt0 port ahAttr = .ok pkt) : IsFrame pkt0.vneth ahAttr.mac pkt := by
  unfold roceNetpktSetEth at h
  split at h
  · cases h
  · simp only at h
    split at h
    · obtain rfl := Except.ok.inj h
      exact ⟨rfl, rfl, Or.inl ⟨rfl, _, rfl, rfl⟩, rfl, rfl, rfl⟩
    · obtain rfl := Except.ok.inj h
      exact ⟨rfl, rfl, Or.inr ⟨rfl, _, rfl⟩, rfl, rfl, rfl⟩

/-- The bytes of a packet. -/
theorem RoceNetpkt.flatten_iovs (pkt : RoceNetpkt) :
    pkt.iovs.flatten = pkt.vneth ++ (ethernetCodec.enc pkt.ethh ++ (pkt.ip.bytes ++
      (udpCodec.enc pkt.udph ++ (ibBthCodec.enc pkt.bth ++
        (pkt.body.flatten ++ Bytes.Codec.le32.enc pkt.icrc))))) := by
  simp [RoceNetpkt.iovs]

theorem RoceNetpkt.flatten_body (pkt : RoceNetpkt) :
    pkt.body.flatten = pkt.ext ++ pkt.payload.flatten ++ pkt.pad := by
  simp [RoceNetpkt.body]

/-! ## Decapsulation -/

section decap

variable {vneth : List UInt8} {dmac : Vector UInt8 6} {pkt : RoceNetpkt}

/-- The IP header comes off; an IPv4 header without options leaves none. -/
theorem IsFrame.decapIp (h : IsFrame vneth dmac pkt) {iovs : List (List UInt8)} {rest : List UInt8}
    (hw : iovs.flatten = pkt.ip.bytes ++ rest) :
    ∃ iovs', decapIp pkt.ethh.type iovs = .ok (some (pkt.ip, [], iovs')) ∧ iovs'.flatten = rest := by
  rcases h.ip with ⟨htype, ip4, hip, hihl⟩ | ⟨htype, ip6, hip⟩
  · rw [hip] at hw ⊢
    obtain ⟨iovs', htake, hrest⟩ := takeHdr_enc ipCodec ip4 hw
    have hlen : (((ip4.u8_0 &&& 0xf) <<< 2) - 20).toNat = 0 := by rw [hihl]; decide
    refine ⟨iovs', ?_, hrest⟩
    unfold Libroce.decapIp decapIhl
    rw [htype, if_pos rfl, htake]
    simp only [if_pos hlen]
    rfl
  · rw [hip] at hw ⊢
    obtain ⟨iovs', htake, hrest⟩ := takeHdr_enc ipv6Codec ip6 hw
    refine ⟨iovs', ?_, hrest⟩
    have hne : ¬ethernetIpv6 = ethernetIp := by decide
    unfold Libroce.decapIp
    rw [htype, if_neg hne, if_pos rfl, htake]

/-- The UDP length the receiver expects is the one the sender wrote. -/
theorem IsFrame.udpLength (h : IsFrame vneth dmac pkt) (hfit : pkt.body.flatten.length + 24 < 2 ^ 16)
    {iovs : List (List UInt8)}
    (hw : iovs.flatten = ibBthCodec.enc pkt.bth ++
      (pkt.body.flatten ++ Bytes.Codec.le32.enc pkt.icrc)) :
    pkt.udph.length.toUInt32 = 8 + roceIovLen iovs := by
  have hbth : (ibBthCodec.enc pkt.bth).length = 12 := ibBthCodec.length_enc _
  have hicrc : (Bytes.Codec.le32.enc pkt.icrc).length = 4 := Bytes.Codec.le32.length_enc _
  have hsend : (roceIovLen (ibBthCodec.enc pkt.bth :: pkt.body)).toNat =
      12 + pkt.body.flatten.length := by
    rw [roceIovLen_toNat, List.flatten_cons, List.length_append, hbth]
    exact Nat.mod_eq_of_lt (by omega)
  have hrecv : (roceIovLen iovs).toNat = 12 + (pkt.body.flatten.length + 4) := by
    rw [roceIovLen_toNat, hw, List.length_append, List.length_append, hbth, hicrc]
    exact Nat.mod_eq_of_lt (by omega)
  apply UInt32.toNat_inj.mp
  have h8 : (8 : UInt16).toNat = 8 := rfl
  have h4 : (4 : UInt16).toNat = 4 := rfl
  have h8' : (8 : UInt32).toNat = 8 := rfl
  rw [h.length, UInt16.toNat_toUInt32, UInt16.toNat_add, UInt16.toNat_add, UInt32.toNat_toUInt16,
    UInt32.toNat_add, hsend, hrecv, h8, h4, h8']
  omega

/-- From the UDP header on: the ICRC covers the same bytes on both sides. -/
theorem IsFrame.decapUdp (h : IsFrame vneth dmac pkt) (hfit : pkt.body.flatten.length + 24 < 2 ^ 16)
    {iovs : List (List UInt8)}
    (hw : iovs.flatten = udpCodec.enc pkt.udph ++ (ibBthCodec.enc pkt.bth ++
      (pkt.body.flatten ++ Bytes.Codec.le32.enc pkt.icrc))) :
    ∃ iovs', decapUdp pkt.ip [] iovs = some ⟨maskBth pkt.bth, maskIp pkt.ip, iovs'⟩ ∧
      iovs'.flatten = pkt.body.flatten := by
  obtain ⟨iovs1, hudp, hw1⟩ := takeHdr_enc udpCodec pkt.udph hw
  obtain ⟨iovs2, hbth, hw2⟩ := takeHdr_enc ibBthCodec pkt.bth hw1
  have hicrc : (Bytes.Codec.le32.enc pkt.icrc).length = 4 := Bytes.Codec.le32.length_enc _
  have hsplit : iovs2.flatten.length - 4 = pkt.body.flatten.length := by
    rw [hw2, List.length_append, hicrc, Nat.add_sub_cancel]
  have hfst : (roceIovReverse 4 iovs2).1 = Bytes.Codec.le32.enc pkt.icrc := by
    rw [roceIovReverse_fst, hsplit, hw2, List.drop_left]
  have hsnd : (roceIovReverse 4 iovs2).2.flatten = pkt.body.flatten := by
    rw [roceIovReverse_snd, hsplit, hw2, List.take_left]
  have hcrc : roceCrc32Pkt pkt.ip [] pkt.udph pkt.bth (roceIovReverse 4 iovs2).2 = pkt.icrc := by
    rw [roceCrc32Pkt_congr pkt.ip [] pkt.udph pkt.bth hsnd, ← h.icrc]
  refine ⟨(roceIovReverse 4 iovs2).2, ?_, hsnd⟩
  unfold Libroce.decapUdp
  rw [hudp]
  simp only
  rw [if_neg (not_not.mpr h.dport), if_neg (not_not.mpr (h.udpLength hfit hw1)), hbth]
  simp only
  rw [hfst, hcrc, if_neg (not_not.mpr hicrc), Bytes.Codec.dec_enc_self,
    if_neg (not_not.mpr rfl)]

/-- The whole of `roce_net_decap`. -/
theorem IsFrame.roceNetDecap (h : IsFrame vneth dmac pkt)
    (hfit : pkt.body.flatten.length + 24 < 2 ^ 16) {ctx : RoceCtx} {port : RocePort}
    (hport : portAt ctx 1 = .ok port) (hvnet : vneth.length = port.vnetHdr.toNat)
    (hmac : port.mac = dmac) {iovs : List (List UInt8)} (hw : iovs.flatten = pkt.iovs.flatten) :
    ∃ iovs', roceNetDecap ctx iovs = .ok (some ⟨maskBth pkt.bth, maskIp pkt.ip, iovs'⟩) ∧
      iovs'.flatten = pkt.body.flatten := by
  rw [pkt.flatten_iovs, h.vneth_eq] at hw
  have hne : iovs ≠ [] := by
    rintro rfl
    have hlen := congrArg List.length hw
    rw [List.length_append, List.length_append, ethernetCodec.length_enc] at hlen
    have hwidth : ethernetCodec.width = 14 := rfl
    rw [hwidth, List.flatten_nil, List.length_nil] at hlen
    omega
  have hv : (roceIovAdvance port.vnetHdr.toNat iovs).1 = vneth := by
    rw [roceIovAdvance_fst, hw, ← hvnet, List.take_left]
  have hw1 := roceIovAdvance_snd port.vnetHdr.toNat iovs
  rw [hw, ← hvnet, List.drop_left] at hw1
  obtain ⟨iovs2, heth, hw2⟩ := takeHdr_enc ethernetCodec pkt.ethh hw1
  obtain ⟨iovs3, hip, hw3⟩ := h.decapIp hw2
  obtain ⟨iovs4, hudp, hw4⟩ := h.decapUdp hfit hw3
  have hmatch : roceMacMatched port.mac pkt.ethh.dmac = true := by
    rw [h.dmac_eq, hmac]
    exact beq_self_eq_true _
  refine ⟨iovs4, ?_, hw4⟩
  unfold Libroce.roceNetDecap
  rw [if_neg hne, hport]
  simp only
  rw [hv, if_neg (not_not.mpr hvnet), ← hvnet, heth]
  simp only
  rw [if_pos hmatch, hip]
  simp only [bind, Except.bind, hudp]
  rfl

end decap

/-! ## The BTH and the padding -/

/-- Masking the reserved byte leaves the destination QP. -/
theorem ibBthGetDestqp_maskBth (bth : IbBth) : ibBthGetDestqp (maskBth bth) = ibBthGetDestqp bth := by
  unfold ibBthGetDestqp maskBth
  apply UInt32.eq_of_toBitVec_eq
  ext i hi
  simp only [UInt32.toBitVec_and, UInt32.toBitVec_or, UInt32.toBitVec_not, BitVec.getElem_and,
    BitVec.getElem_or, BitVec.getElem_not]
  cases ibBthDestqpMask.toBitVec[i] <;> simp

/-- `roce_recv_bth` takes the padding off the tail. -/
theorem dropPad_append {padcnt : UInt8} {iovs : List (List UInt8)} {bytes pad : List UInt8}
    (hpad : pad.length = padcnt.toNat) (hw : iovs.flatten = bytes ++ pad)
    (hfit : iovs.flatten.length < 2 ^ 32) :
    ∃ rest, dropPad padcnt iovs = some rest ∧ rest.flatten = bytes := by
  unfold dropPad
  split
  · next hz =>
    have hnil : pad = [] := by
      rw [hz] at hpad
      exact List.length_eq_zero_iff.mp hpad
    refine ⟨iovs, rfl, ?_⟩
    rw [hw, hnil, List.append_nil]
  · have hlen : iovs.flatten.length = bytes.length + padcnt.toNat := by
      rw [hw, List.length_append, hpad]
    have hge : ¬ (roceIovLen iovs).toNat < padcnt.toNat := by
      rw [roceIovLen_toNat, Nat.mod_eq_of_lt hfit]
      omega
    rw [if_neg hge]
    refine ⟨_, rfl, ?_⟩
    rw [roceIovReverse_snd, hlen, Nat.add_sub_cancel, hw, List.take_left]

/-- What the receiver has in hand: the fields that were set, and the body. -/
structure Received (qpType : QpType) (opcode padcnt : UInt8) (destqp : UInt32) (ack : Bool)
    (psn : UInt32) (pkt : RoceNetpkt) (d : Decap) : Prop where
  opcode : ibBthGetOpcode d.bth = opcode
  qpType : ibBthGetQpType d.bth = roceQpTypeToIb qpType
  padcnt : ibBthGetPadcnt d.bth = padcnt
  pkey : ibBthGetPkey d.bth = rocePkey
  destqp : ibBthGetDestqp d.bth = ibBthDestqpMask &&& destqp
  ack : ibBthGetAck d.bth = ack
  psn : ibBthGetPsn d.bth = ibBthPsnMask &&& psn
  ip : d.ip = maskIp pkt.ip
  body : d.iovs.flatten = pkt.ext ++ pkt.payload.flatten ++ pkt.pad
  unpadded : ∃ rest, dropPad (ibBthGetPadcnt d.bth) d.iovs = some rest ∧
    rest.flatten = pkt.ext ++ pkt.payload.flatten

/-- The bounds that hold of every packet the library builds. -/
structure Fits (opcode : UInt8) (ext : List UInt8) (padcnt : UInt8) (payload : List (List UInt8)) :
    Prop where
  opcode : opcode < 32
  ext : ext.length ≤ 20
  padcnt : padcnt < 4
  payload : payload.flatten.length ≤ 4096

/-- **One packet.** -/
theorem roceNetDecap_wire {ctx ctx' : RoceCtx} {qp : RoceQp} {opcode : UInt8} {ext : List UInt8}
    {padcnt : UInt8} {destqp : UInt32} {ack : Bool} {psn : UInt32} {ahAttr : RoceAhAttr}
    {payload : List (List UInt8)} {pkt : RoceNetpkt} {port port' : RocePort}
    (h : IsPacket ctx qp opcode ext padcnt destqp ack psn ahAttr payload pkt)
    (hfits : Fits opcode ext padcnt payload) (hport : portAt ctx qp.attr.portNum = .ok port)
    (hport' : portAt ctx' 1 = .ok port') (hvnet : port'.vnetHdr = port.vnetHdr)
    (hmac : port'.mac = pkt.ethh.dmac) {iovs : List (List UInt8)}
    (hw : iovs.flatten = pkt.iovs.flatten) :
    ∃ d, roceNetDecap ctx' iovs = .ok (some d) ∧
      Received qp.qpType opcode padcnt destqp ack psn pkt d := by
  obtain ⟨port0, pkt0, hport0, hvneth, hset⟩ := h.framed
  obtain rfl := Except.ok.inj (hport0.symm.trans hport)
  obtain ⟨se, hbth⟩ := h.bth_eq
  have hframe := roceNetpktSetEth_frame hset
  have hpadlen : pkt.pad.length = padcnt.toNat := by rw [h.pad_eq, List.length_replicate]
  have hp4 := UInt8.lt_iff_toNat_lt.mp hfits.padcnt
  have h4 : (4 : UInt8).toNat = 4 := rfl
  have hext := hfits.ext
  have hpay := hfits.payload
  have hbody : pkt.body.flatten.length = ext.length + payload.flatten.length + padcnt.toNat := by
    rw [pkt.flatten_body, List.length_append, List.length_append, hpadlen, h.ext_eq, h.payload_eq]
  obtain ⟨iovs', hdecap, hiovs⟩ := hframe.roceNetDecap (by omega) hport'
    (by rw [hvneth, List.length_replicate, hvnet]) (by rw [hmac, hframe.dmac_eq]) hw
  have hpad : ibBthGetPadcnt (maskBth pkt.bth) = padcnt := by
    show ibBthGetPadcnt pkt.bth = padcnt
    rw [hbth, ibBthGetPadcnt_setBth _ _ _ _ _ _ _ _ hfits.padcnt]
  refine ⟨_, hdecap, ⟨?_, ?_, hpad, ?_, ?_, ?_, ?_, rfl, ?_, ?_⟩⟩
  · show ibBthGetOpcode pkt.bth = opcode
    rw [hbth, ibBthGetOpcode_setBth _ _ _ _ _ _ _ _ hfits.opcode]
  · show ibBthGetQpType pkt.bth = _
    rw [hbth, ibBthGetQpType_setBth _ _ _ _ _ _ _ _ hfits.opcode]
  · show ibBthGetPkey pkt.bth = _
    rw [hbth, ibBthGetPkey_setBth]
  · show ibBthGetDestqp (maskBth pkt.bth) = _
    rw [ibBthGetDestqp_maskBth, hbth, ibBthGetDestqp_setBth]
  · show ibBthGetAck pkt.bth = ack
    rw [hbth, ibBthGetAck_setBth]
  · show ibBthGetPsn pkt.bth = _
    rw [hbth, ibBthGetPsn_setBth]
  · show iovs'.flatten = _
    rw [hiovs, pkt.flatten_body]
  · show ∃ rest, dropPad (ibBthGetPadcnt (maskBth pkt.bth)) iovs' = some rest ∧ _
    rw [hpad]
    refine dropPad_append hpadlen (by rw [hiovs, pkt.flatten_body]) ?_
    rw [hiovs]
    omega

/-! ## Every packet -/

/-- The MTUs that `roce_set_port_attr`, `roce_create_qp` and `roce_modify_qp` let through. -/
structure MtusValid (s : St) : Prop where
  path : roceValidMtu s.qp.attr.pathMtu = true
  port : ∀ port, portAt s.ctx 1 = .ok port → roceValidMtu port.activeMtu = true

theorem MtusValid.valid {s : St} (h : MtusValid s) {mtu : UInt16}
    (hm : roceGetMtu s.ctx s.qp = .ok mtu) : roceValidMtu mtu = true := by
  unfold roceGetMtu at hm
  split at hm
  · obtain rfl := Except.ok.inj hm
    exact h.path
  · split at hm
    · cases hm
    · next port hport =>
      obtain rfl := Except.ok.inj hm
      exact h.port port hport

theorem MtusValid.le {s : St} (h : MtusValid s) {mtu : UInt16} (hm : roceGetMtu s.ctx s.qp = .ok mtu) :
    mtu.toNat ≤ 4096 := by
  have hvalid := h.valid hm
  unfold roceValidMtu at hvalid
  simp only [Bool.or_eq_true, beq_iff_eq] at hvalid
  rcases hvalid with (rfl | rfl) | rfl <;> decide

/-- The packets one call assembles: those a request of an RC QP queues, the one a
UD request sends, and the one of an acknowledgement. -/
inductive Assembled (s : St) (pkt : RoceNetpkt) : Prop where
  | rc {wr wr' : SendWr} {calloc : Nat → Bool} {qp' : RoceQp}
      (h : roceRcBuildPkts s.ctx s.qp wr calloc = .ok (qp', wr'))
      (hp : pkt ∈ qp'.req.pendingPkts.drop s.qp.req.pendingPkts.length)
  | ud {wr : SendWr} {calloc : Bool} {s' : St} (h : roceRequestUd s wr calloc = .ok s')
      (hp : Event.netXmit pkt ∈ s'.ctx.trace.drop s.ctx.trace.length)
  | acknowledge {syndrome : Syndrome} {val : UInt8} {psn : UInt32} {calloc : Bool} {s' : St}
      (h : roceNetpktAcknowledge s syndrome val psn calloc = .ok s')
      (hp : Event.netXmit pkt ∈ s'.ctx.trace.drop s.ctx.trace.length)

/-- What the builder of a packet was given, within bounds. -/
def Described (s : St) (pkt : RoceNetpkt) : Prop :=
  ∃ opcode ext padcnt destqp ack psn ahAttr payload,
    IsPacket s.ctx s.qp opcode ext padcnt destqp ack psn ahAttr payload pkt ∧
      Fits opcode ext padcnt payload

theorem length_writeReth (wr : SendWr) (payload : UInt32) : (writeReth wr payload).length = 16 :=
  ibRethCodec.length_enc _

theorem length_immdt_le (imm : UInt32) : (ibImmdtCodec.enc imm).length ≤ 20 := by
  have h : (ibImmdtCodec.enc imm).length = 4 := ibImmdtCodec.length_enc _
  omega

theorem length_ieth_le (rkey : UInt32) : (ibIethCodec.enc rkey).length ≤ 20 := by
  have h : (ibIethCodec.enc rkey).length = 4 := ibIethCodec.length_enc _
  omega

theorem OnlyKind.fits {wr : SendWr} {payload : UInt32} {opcode : UInt8} {ext : List UInt8}
    (h : OnlyKind wr payload opcode ext) : opcode < 32 ∧ ext.length ≤ 20 := by
  cases h with
  | send => exact ⟨by decide, Nat.zero_le _⟩
  | sendWithImm => exact ⟨by decide, length_immdt_le wr.imm⟩
  | sendWithInv => exact ⟨by decide, length_ieth_le wr.imm⟩
  | rdmaWrite => exact ⟨by decide, by rw [length_writeReth]; omega⟩
  | rdmaWriteWithImm =>
    have himm : (ibImmdtCodec.enc wr.imm).length = 4 := ibImmdtCodec.length_enc _
    have hreth := length_writeReth wr payload
    refine ⟨by decide, ?_⟩
    rw [List.length_append]
    omega

theorem sendMultiKind_fits (wr : SendWr) (inv imm : Bool) :
    ((sendMultiKind wr inv imm).opFirst < 32 ∧ (sendMultiKind wr inv imm).opMiddle < 32 ∧
      (sendMultiKind wr inv imm).opLast < 32) ∧
      (sendMultiKind wr inv imm).extFirst.length ≤ 20 ∧
      (sendMultiKind wr inv imm).extLast.length ≤ 20 := by
  have himm : (ibImmdtCodec.enc wr.imm).length ≤ 20 := length_immdt_le wr.imm
  have hieth : (ibIethCodec.enc wr.imm).length ≤ 20 := length_ieth_le wr.imm
  have hfirst : ibOpcodeSendFirst < 32 := by decide
  have hmiddle : ibOpcodeSendMiddle < 32 := by decide
  have hlast : ibOpcodeSendLast < 32 := by decide
  have hlastImm : ibOpcodeSendLastWithImmediate < 32 := by decide
  have hlastInv : ibOpcodeSendLastWithInvalidate < 32 := by decide
  cases inv with
  | true => exact ⟨⟨hfirst, hmiddle, hlastInv⟩, Nat.zero_le _, hieth⟩
  | false =>
    cases imm with
    | true => exact ⟨⟨hfirst, hmiddle, hlastImm⟩, Nat.zero_le _, himm⟩
    | false => exact ⟨⟨hfirst, hmiddle, hlast⟩, Nat.zero_le _, Nat.zero_le _⟩

theorem writeMultiKind_fits (wr : SendWr) (imm : Bool) (payload : UInt32) :
    ((writeMultiKind wr imm payload).opFirst < 32 ∧ (writeMultiKind wr imm payload).opMiddle < 32 ∧
      (writeMultiKind wr imm payload).opLast < 32) ∧
      (writeMultiKind wr imm payload).extFirst.length ≤ 20 ∧
      (writeMultiKind wr imm payload).extLast.length ≤ 20 := by
  have himm : (ibImmdtCodec.enc wr.imm).length ≤ 20 := length_immdt_le wr.imm
  have hreth : (writeReth wr payload).length ≤ 20 := by rw [length_writeReth]; omega
  have hfirst : ibOpcodeRdmaWriteFirst < 32 := by decide
  have hmiddle : ibOpcodeRdmaWriteMiddle < 32 := by decide
  have hlast : ibOpcodeRdmaWriteLast < 32 := by decide
  have hlastImm : ibOpcodeRdmaWriteLastWithImmediate < 32 := by decide
  cases imm with
  | true => exact ⟨⟨hfirst, hmiddle, hlastImm⟩, hreth, himm⟩
  | false => exact ⟨⟨hfirst, hmiddle, hlast⟩, hreth, Nat.zero_le _⟩

theorem SeveralKind.fits {wr : SendWr} {payload : UInt32} {kind : MultiKind}
    (h : SeveralKind wr payload kind) :
    (kind.opFirst < 32 ∧ kind.opMiddle < 32 ∧ kind.opLast < 32) ∧
      kind.extFirst.length ≤ 20 ∧ kind.extLast.length ≤ 20 := by
  cases h with
  | send => exact sendMultiKind_fits wr false false
  | sendWithImm => exact sendMultiKind_fits wr false true
  | sendWithInv => exact sendMultiKind_fits wr true false
  | rdmaWrite => exact writeMultiKind_fits wr false payload
  | rdmaWriteWithImm => exact writeMultiKind_fits wr true payload

theorem OnlyKind.ne_acknowledge {wr : SendWr} {payload : UInt32} {opcode : UInt8} {ext : List UInt8}
    (h : OnlyKind wr payload opcode ext) : opcode ≠ ibOpcodeAcknowledge := by
  cases h <;> decide

theorem SeveralKind.ne_acknowledge {wr : SendWr} {payload : UInt32} {kind : MultiKind}
    (h : SeveralKind wr payload kind) : kind.opFirst ≠ ibOpcodeAcknowledge ∧
      kind.opMiddle ≠ ibOpcodeAcknowledge ∧ kind.opLast ≠ ibOpcodeAcknowledge := by
  cases h <;> simp [sendMultiKind, writeMultiKind] <;> decide

/-- A packet for the peer of the QP, as its attributes name it. -/
def Addressed (s : St) (opcode : UInt8) (pkt : RoceNetpkt) : Prop :=
  ∃ ext padcnt ack psn payload,
    IsPacket s.ctx s.qp opcode ext padcnt s.qp.attr.destQpNum ack psn s.qp.attr.ahAttr payload pkt ∧
      Fits opcode ext padcnt payload

theorem Addressed.described {s : St} {opcode : UInt8} {pkt : RoceNetpkt} (h : Addressed s opcode pkt) :
    Described s pkt := by
  obtain ⟨ext, padcnt, ack, psn, payload, hp, hfits⟩ := h
  exact ⟨_, _, _, _, _, _, _, _, hp, hfits⟩

theorem IsPart.addressed {s : St} {sges : List RoceSge} {opcode : UInt8} {ext : List UInt8}
    {mtu : UInt16} {psn : UInt32} {pkt : RoceNetpkt} (h : IsPart s.ctx s.qp sges opcode ext mtu psn pkt)
    (hop : opcode < 32) (hext : ext.length ≤ 20) (hmtu : mtu.toNat ≤ 4096) :
    Addressed s opcode pkt := by
  obtain ⟨bytes, hreq, hb⟩ := h
  exact ⟨_, _, _, _, _, hreq.packet, hop, hext, by decide, Nat.le_trans hb.le hmtu⟩

/-- No MTU of the QP is above the largest. -/
def MtusFit (s : St) : Prop := ∀ mtu, roceGetMtu s.ctx s.qp = .ok mtu → mtu.toNat ≤ 4096

theorem Shaped.addressed_of_fit {s : St} {wr : SendWr} {pkts : List RoceNetpkt} (hle : MtusFit s)
    (h : Shaped s.ctx s.qp wr pkts) :
    ∀ pkt ∈ pkts, ∃ opcode, opcode ≠ ibOpcodeAcknowledge ∧ Addressed s opcode pkt := by
  intro pkt hmem
  cases h with
  | only hmtu hlen hk hreq hb hin hfit =>
    obtain rfl := List.mem_singleton.mp hmem
    obtain ⟨hop, hext⟩ := hk.fits
    have hle : _ ≤ 4096 := Nat.le_trans (Nat.le_trans hb.le hfit) (hle _ hmtu)
    exact ⟨_, hk.ne_acknowledge, _, _, _, _, _, hreq.packet, hop, hext, padCount_lt _, hle⟩
  | several hmtu hlen hk hm =>
    obtain ⟨first, mids, last, rfl, ⟨p, hfirst⟩, hmids, rest, psn, bytes, hlast, hb, -, hfit, -⟩ :=
      hm.parts
    obtain ⟨⟨hop1, hop2, hop3⟩, hext1, hext3⟩ := hk.fits
    obtain ⟨hne1, hne2, hne3⟩ := hk.ne_acknowledge
    have hle := hle _ hmtu
    rcases List.mem_append.mp hmem with hmem | hmem
    · rcases List.mem_cons.mp hmem with rfl | hmem
      · exact ⟨_, hne1, hfirst.addressed hop1 hext1 hle⟩
      · obtain ⟨p', hmid⟩ := hmids pkt hmem
        exact ⟨_, hne2, hmid.addressed hop2 (Nat.zero_le _) hle⟩
    · obtain rfl := List.mem_singleton.mp hmem
      exact ⟨_, hne3, _, _, _, _, _, hlast.packet, hop3, hext3, padCount_lt _,
        Nat.le_trans (Nat.le_trans hb.le hfit) hle⟩

/-- The packets of a WR are requests to the peer. -/
theorem Shaped.addressed {s : St} {wr : SendWr} {pkts : List RoceNetpkt} (hv : MtusValid s)
    (h : Shaped s.ctx s.qp wr pkts) :
    ∀ pkt ∈ pkts, ∃ opcode, opcode ≠ ibOpcodeAcknowledge ∧ Addressed s opcode pkt :=
  h.addressed_of_fit fun _ hmtu => hv.le hmtu

/-- A packet of a UD request. -/
theorem udPkt_described {s : St} {ahs : List (Option RoceAh)} {wr : SendWr} {calloc imm : Bool}
    {payload : UInt32} {ahAttr : RoceAhAttr} {pkt : RoceNetpkt} {unmaps : List Event} {mtu : UInt16}
    (hlen : requestLen wr = .ok payload) (hle : payload ≤ mtu.toUInt32) (hmtu : mtu.toNat ≤ 4096)
    (h : udPkt { s.ctx with ahs := ahs } s.qp wr calloc imm payload ahAttr =
      .ok (some (pkt, unmaps))) : Described s pkt := by
  obtain ⟨pages, bytes, hbytes, -, -, hp⟩ := udPkt_ok h
  have hb := onlyPayload_total hlen hbytes
  have hle' : payload.toNat ≤ mtu.toNat := by
    have := UInt32.le_iff_toNat_le.mp hle
    rwa [UInt16.toNat_toUInt32] at this
  have hdeth : ∀ d, (ibDethCodec.enc d).length = 8 := ibDethCodec.length_enc
  have himm : (ibImmdtCodec.enc wr.imm).length = 4 := ibImmdtCodec.length_enc _
  have hp' : IsPacket s.ctx s.qp _ _ _ _ _ _ _ _ pkt :=
    ⟨hp.bth_eq, hp.ext_eq, hp.payload_eq, hp.pad_eq, hp.framed⟩
  refine ⟨_, _, _, _, _, _, _, _, hp', ?_, ?_, padCount_lt _, by omega⟩
  · cases imm <;> decide
  · cases imm
    · show (ibDethCodec.enc _).length ≤ 20
      rw [hdeth]
      omega
    · show (ibDethCodec.enc _ ++ ibImmdtCodec.enc wr.imm).length ≤ 20
      rw [List.length_append, hdeth, himm]
      omega

/-- After the packet a UD request only unmaps. -/
theorem udPkt_unmaps {ctx : RoceCtx} {qp : RoceQp} {wr : SendWr} {calloc imm : Bool} {payload : UInt32}
    {ahAttr : RoceAhAttr} {pkt : RoceNetpkt} {unmaps : List Event}
    (h : udPkt ctx qp wr calloc imm payload ahAttr = .ok (some (pkt, unmaps))) :
    ∀ q, Event.netXmit q ∉ unmaps := by
  obtain ⟨-, -, -, hunmaps, -⟩ := udPkt_ok h
  intro q hq
  obtain ⟨iov, hiov⟩ := onlyUnmap_ok hunmaps _ hq
  cases hiov

/-- A packet that a UD request sends: it fits the MTU, and its AH was found. -/
inductive UdBuilt (s : St) (wr : SendWr) (pkt : RoceNetpkt) : Prop where
  | mk {mtu : UInt16} {payload : UInt32} {ah : RoceAh} {ahs : List (Option RoceAh)} {calloc imm : Bool}
      {unmaps : List Event} (hmtu : roceGetMtu s.ctx s.qp = .ok mtu)
      (hlen : requestLen wr = .ok payload) (hle : payload ≤ mtu.toUInt32)
      (hah : roceResourceGet s.ctx.ahs wr.ud.ah = some ah)
      (h : udPkt { s.ctx with ahs := ahs } s.qp wr calloc imm payload ah.attr = .ok (some (pkt, unmaps)))

theorem UdBuilt.described {s : St} {wr : SendWr} {pkt : RoceNetpkt} (h : UdBuilt s wr pkt)
    (hv : MtusValid s) : Described s pkt := by
  cases h with
  | mk hmtu hlen hle hah h => exact udPkt_described hlen hle (hv.le hmtu) h

/-- What a UD request leaves: no packet is queued, and it sent what it built. -/
structure UdSends (s t : St) (wr : SendWr) : Prop where
  req : t.qp.req = { s.qp.req with psn := t.qp.req.psn }
  trace : ∃ es, t.ctx.trace = s.ctx.trace ++ es ∧ ∀ pkt, Event.netXmit pkt ∈ es → UdBuilt s wr pkt

theorem UdSends.quiet {s t : St} {wr : SendWr} (hreq : t.qp.req = s.qp.req)
    (htrace : t.ctx.trace = s.ctx.trace) : UdSends s t wr := by
  refine ⟨by rw [hreq], [], by rw [htrace, List.append_nil], ?_⟩
  intro pkt hp
  cases hp

theorem roceUdSendPkt_sends {s t : St} {wr wr' : SendWr} {calloc imm : Bool} {payload : UInt32}
    {mtu : UInt16} (hmtu : roceGetMtu s.ctx s.qp = .ok mtu) (hlen : requestLen wr = .ok payload)
    (hle : payload ≤ mtu.toUInt32) (h : roceUdSendPkt s wr calloc imm payload = .ok (t, wr')) :
    UdSends s t wr := by
  unfold roceUdSendPkt at h
  cases hget : roceGetAh s.ctx wr.ud.ah with
  | none =>
    simp only [hget] at h
    obtain ⟨rfl, -⟩ := Prod.mk.inj (Except.ok.inj h)
    exact .quiet rfl rfl
  | some r =>
    obtain ⟨ah, ctx⟩ := r
    simp only [hget] at h
    obtain ⟨hah, rfl⟩ := roceGetAh_ok hget
    have hput : ∀ c, (rocePutAh c wr.ud.ah).trace = c.trace := by
      intro c
      obtain ⟨ahs, h⟩ := rocePutAh_withAhs c wr.ud.ah
      rw [h]
      rfl
    obtain ⟨sent, hpkt, h⟩ := bind_eq_ok.mp h
    cases sent with
    | none =>
      obtain ⟨rfl, -⟩ := Prod.mk.inj (Except.ok.inj h)
      exact .quiet rfl (hput _)
    | some sent =>
      obtain ⟨pkt, unmaps⟩ := sent
      obtain ⟨rfl, -⟩ := Prod.mk.inj (Except.ok.inj h)
      refine ⟨rfl, .netXmit pkt :: unmaps, hput _, ?_⟩
      intro q hq
      rcases List.mem_cons.mp hq with hq | hq
      · obtain rfl := Event.netXmit.inj hq
        exact .mk hmtu hlen hle hah hpkt
      · exact absurd hq (udPkt_unmaps hpkt q)

/-- The state a UD request leaves before its completion. -/
theorem udRequest_sends {s t : St} {wr wr' : SendWr} {calloc : Bool} {len : UInt32}
    (h : udRequest s wr calloc = .ok (t, wr', len)) : UdSends s t wr := by
  unfold udRequest at h
  split at h
  · unfold udSwitch at h
    obtain ⟨mtu, hmtu, h⟩ := bind_eq_ok.mp h
    obtain ⟨payload, hlen, h⟩ := bind_eq_ok.mp h
    split at h
    · obtain ⟨rfl, -⟩ := Prod.mk.inj (Except.ok.inj h)
      exact .quiet rfl rfl
    · next hle =>
      split at h
      · obtain ⟨⟨s2, wr2⟩, hud, h⟩ := bind_eq_ok.mp h
        obtain ⟨rfl, -⟩ := Prod.mk.inj (Except.ok.inj h)
        exact roceUdSendPkt_sends hmtu hlen (UInt32.not_lt.mp hle) hud
      · obtain ⟨⟨s2, wr2⟩, hud, h⟩ := bind_eq_ok.mp h
        obtain ⟨rfl, -⟩ := Prod.mk.inj (Except.ok.inj h)
        exact roceUdSendPkt_sends hmtu hlen (UInt32.not_lt.mp hle) hud
      · obtain ⟨rfl, -⟩ := Prod.mk.inj (Except.ok.inj h)
        exact .quiet rfl rfl
  · obtain ⟨rfl, -⟩ := Prod.mk.inj (Except.ok.inj h)
    exact .quiet rfl rfl

theorem roceRequestUd_sends {s t : St} {wr : SendWr} {calloc : Bool}
    (h : roceRequestUd s wr calloc = .ok t) : UdSends s t wr := by
  unfold roceRequestUd at h
  obtain ⟨⟨s1, wr1, len⟩, hreq, h⟩ := bind_eq_ok.mp h
  obtain ⟨ctx, hfree, h⟩ := bind_eq_ok.mp h
  obtain rfl := Except.ok.inj h
  obtain ⟨hqp, es, hes, hbuilt⟩ := udRequest_sends hreq
  have htrace : ctx.trace = _ := (roceFreeSendWr_refsOnly hfree).trace
  split at htrace
  · next hrep =>
    rw [if_pos hrep]
    refine ⟨hqp, es ++ [.cqComp (sendWc s1.qp wr1 wr1.error len) s1.qp.scq], ?_, ?_⟩
    · rw [htrace, St.emit_trace, hes, List.append_assoc]
    · intro pkt hp
      rcases List.mem_append.mp hp with hp | hp
      · exact hbuilt pkt hp
      · cases List.mem_singleton.mp hp
  · next hrep =>
    rw [if_neg hrep]
    exact ⟨hqp, es, by rw [htrace, hes], hbuilt⟩

/-- The packet of an acknowledgement: its AETH is all it carries. -/
theorem acknowledgePkt_packet {s : St} {syndrome : Syndrome} {val : UInt8} {psn : UInt32}
    {calloc : Bool} {pkt : RoceNetpkt}
    (h : acknowledgePkt s.ctx s.qp syndrome val psn calloc = .ok pkt) :
    IsPacket s.ctx s.qp ibOpcodeAcknowledge
      (ibAethCodec.enc (ibAethSet syndrome.code val s.qp.resp.msn)) 0 s.qp.attr.destQpNum false psn
      s.qp.attr.ahAttr [] pkt ∧
    Fits ibOpcodeAcknowledge (ibAethCodec.enc (ibAethSet syndrome.code val s.qp.resp.msn)) 0 [] := by
  have haeth : (ibAethCodec.enc (ibAethSet syndrome.code val s.qp.resp.msn)).length = 4 :=
    ibAethCodec.length_enc _
  refine ⟨?_, by decide, by omega, by decide, Nat.zero_le _⟩
  unfold acknowledgePkt at h
  split at h
  · cases h
  · cases h
  · next pkt0 halloc =>
    obtain ⟨-, hb, -, hpay, hpad, -, port0, hport0, hvneth⟩ := roceNetpktAlloc_some halloc
    simp only at h
    split at h
    · cases h
    · next port hport =>
      obtain rfl := Except.ok.inj (hport0.symm.trans hport)
      obtain ⟨h1, -, h3, h4, h5, -⟩ := roceNetpktSetEth_ok h
      refine ⟨⟨false, by rw [h1, hb]⟩, h3, by rw [h4, hpay], by rw [h5, hpad], port0, _, hport, ?_, h⟩
      exact hvneth

theorem acknowledgePkt_addressed {s : St} {syndrome : Syndrome} {val : UInt8} {psn : UInt32}
    {calloc : Bool} {pkt : RoceNetpkt}
    (h : acknowledgePkt s.ctx s.qp syndrome val psn calloc = .ok pkt) :
    Addressed s ibOpcodeAcknowledge pkt := by
  obtain ⟨hp, hfits⟩ := acknowledgePkt_packet h
  exact ⟨_, _, _, _, _, hp, hfits⟩

theorem Assembled.described {s : St} {pkt : RoceNetpkt} (h : Assembled s pkt) (hv : MtusValid s) :
    Described s pkt := by
  cases h with
  | rc h hp =>
    cases roceRcBuildPkts_ok h with
    | failed e he =>
      rw [List.drop_length] at hp
      cases hp
    | skipped hs =>
      rw [List.drop_length] at hp
      cases hp
    | queued pkts ht hop hs =>
      have hdrop : (s.qp.push pkts).req.pendingPkts = s.qp.req.pendingPkts ++ pkts := rfl
      rw [hdrop, List.drop_left] at hp
      obtain ⟨opcode, -, ha⟩ := hs.addressed hv pkt hp
      exact ha.described
  | ud h hp =>
    obtain ⟨-, es, hes, hbuilt⟩ := roceRequestUd_sends h
    rw [hes, List.drop_left] at hp
    exact (hbuilt pkt hp).described hv
  | acknowledge h hp =>
    obtain ⟨q, rfl, hq⟩ := roceNetpktAcknowledge_ok h
    rw [St.emit_trace, List.drop_left, List.mem_singleton] at hp
    obtain rfl := Event.netXmit.inj hp
    exact (acknowledgePkt_addressed hq).described

/-- **Every packet.**  On a context with the same vnet header length whose port
owns the destination MAC, `roce_net_decap` reads back from any segmentation
what the packet's builder set. -/
theorem roceNetDecap_assembled {s : St} {pkt : RoceNetpkt} {ctx' : RoceCtx} {port port' : RocePort}
    {iovs : List (List UInt8)} (h : Assembled s pkt) (hv : MtusValid s)
    (hport : portAt s.ctx s.qp.attr.portNum = .ok port) (hport' : portAt ctx' 1 = .ok port')
    (hvnet : port'.vnetHdr = port.vnetHdr) (hmac : port'.mac = pkt.ethh.dmac)
    (hw : iovs.flatten = pkt.iovs.flatten) :
    ∃ opcode se padcnt destqp ack psn,
      pkt.bth = roceNetpktSetBth ⟨0, 0, 0, 0, 0⟩ s.qp.qpType opcode se padcnt destqp ack psn ∧
      pkt.pad = List.replicate padcnt.toNat 0 ∧
      ∃ d, roceNetDecap ctx' iovs = .ok (some d) ∧
        Received s.qp.qpType opcode padcnt destqp ack psn pkt d := by
  obtain ⟨opcode, ext, padcnt, destqp, ack, psn, ahAttr, payload, hp, hfits⟩ := h.described hv
  obtain ⟨se, hbth⟩ := hp.bth_eq
  exact ⟨opcode, se, padcnt, destqp, ack, psn, hbth, hp.pad_eq,
    roceNetDecap_wire hp hfits hport hport' hvnet hmac hw⟩

/-- An acknowledgement over IPv6, received in one piece. -/
theorem roceNetDecap_assembled_acknowledge :
    ∃ pkt d, acknowledgePkt smallCtx smallQp .ack 0x1f 5 true = .ok pkt ∧
      roceNetDecap smallCtx [pkt.iovs.flatten] = .ok (some d) ∧ ibBthGetPsn d.bth = 5 ∧
      d.iovs.flatten = pkt.ext ++ pkt.payload.flatten ++ pkt.pad := by
  have hpkt : ∃ pkt, acknowledgePkt smallCtx smallQp .ack 0x1f 5 true = .ok pkt ∧
      roceNetpktAcknowledge ⟨smallCtx, smallQp⟩ .ack 0x1f 5 true =
        .ok (({ (⟨smallCtx, smallQp⟩ : St) with qp.resp.msn := 1 } : St).emit [.netXmit pkt]) ∧
      smallPort.mac = pkt.ethh.dmac ∧ ibBthGetPsn pkt.bth = 5 := ⟨_, rfl, rfl, rfl, rfl⟩
  obtain ⟨pkt, hpkt, hack, hmac, hpsn⟩ := hpkt
  have hv : MtusValid ⟨smallCtx, smallQp⟩ := by
    refine ⟨by decide, ?_⟩
    rintro port hport
    obtain rfl := Except.ok.inj hport
    decide
  have hport : portAt smallCtx 1 = .ok smallPort := rfl
  have hw : [pkt.iovs.flatten].flatten = pkt.iovs.flatten := List.append_nil _
  obtain ⟨opcode, se, padcnt, destqp, ack, psn, hbth, -, d, hd, hr⟩ :=
    roceNetDecap_assembled (.acknowledge hack List.mem_cons_self) hv hport hport rfl hmac hw
  rw [hbth, ibBthGetPsn_setBth] at hpsn
  exact ⟨pkt, d, hpkt, hd, hr.psn.trans hpsn, hr.body⟩

end Libroce
