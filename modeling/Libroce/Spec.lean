import Libroce.Types

/-!
# Headers on the wire

`include/spec/*.h`: the layout of each header as a `Codec`, and the bit fields
of the BTH and the AETH.

    ibBthGetPsn (roceNetpktSetBth .. psn) = psn &&& ibBthPsnMask
    ibBthCodec.dec (ibBthCodec.enc bth ++ rest) = bth            (dec_enc)
-/

namespace Libroce

open Bytes

/-! ## Layouts -/

def ethernetCodec : Codec EthernetHdr :=
  ((Codec.raw 6).seq ((Codec.raw 6).seq Codec.be16)).iso
    (fun p => ⟨p.1, p.2.1, p.2.2⟩) (fun h => (h.dmac, h.smac, h.type)) fun _ => rfl

def ipCodec : Codec IpHdr :=
  (Codec.u8.seq (Codec.u8.seq (Codec.be16.seq (Codec.be16.seq (Codec.be16.seq (Codec.u8.seq
    (Codec.u8.seq (Codec.le16.seq (Codec.be32.seq Codec.be32))))))))).iso
    (fun (v, tos, len, id, frag, ttl, proto, sum, s, d) => ⟨v, tos, len, id, frag, ttl, proto, sum, s, d⟩)
    (fun h => (h.u8_0, h.tos, h.length, h.id, h.fragOff, h.ttl, h.protocol, h.checksum, h.saddr,
      h.daddr))
    fun _ => rfl

def ipv6Codec : Codec Ipv6Hdr :=
  (Codec.be32.seq (Codec.be16.seq (Codec.u8.seq (Codec.u8.seq
    ((Codec.raw 16).seq (Codec.raw 16)))))).iso
    (fun (w, len, next, hop, s, d) => ⟨w, len, next, hop, s, d⟩)
    (fun h => (h.u32_0, h.payloadLen, h.nexthdr, h.hopLimit, h.saddr, h.daddr)) fun _ => rfl

theorem ipCodec_onto : ipCodec.Onto := by
  apply Codec.Onto.iso
  · exact Codec.onto_u8.seq (Codec.onto_u8.seq (Codec.onto_be16.seq (Codec.onto_be16.seq (Codec.onto_be16.seq
      (Codec.onto_u8.seq (Codec.onto_u8.seq (Codec.onto_le16.seq (Codec.onto_be32.seq Codec.onto_be32))))))))
  · exact fun _ => rfl

theorem ipv6Codec_onto : ipv6Codec.Onto := by
  apply Codec.Onto.iso
  · exact Codec.onto_be32.seq (Codec.onto_be16.seq (Codec.onto_u8.seq (Codec.onto_u8.seq
      ((Codec.onto_raw 16).seq (Codec.onto_raw 16)))))
  · exact fun _ => rfl

def udpCodec : Codec UdpHdr :=
  (Codec.be16.seq (Codec.be16.seq (Codec.be16.seq Codec.le16))).iso
    (fun (s, d, len, sum) => ⟨s, d, len, sum⟩)
    (fun h => (h.sport, h.dport, h.length, h.checksum)) fun _ => rfl

def ibBthCodec : Codec IbBth :=
  (Codec.u8.seq (Codec.u8.seq (Codec.be16.seq (Codec.be32.seq Codec.be32)))).iso
    (fun (op, flags, pkey, w1, w2) => ⟨op, flags, pkey, w1, w2⟩)
    (fun h => (h.opcode, h.flags, h.pkey, h.u32_1, h.u32_2)) fun _ => rfl

def ibRethCodec : Codec IbReth :=
  (Codec.be64.seq (Codec.be32.seq Codec.be32)).iso
    (fun (va, rkey, len) => ⟨va, rkey, len⟩) (fun h => (h.va, h.rkey, h.dmalen)) fun _ => rfl

/-- `ib_deth`; the source QPN is masked when it is set and when it is read. -/
structure IbDeth where
  qkey : UInt32
  u32_1 : UInt32
  deriving DecidableEq

def ibDethCodec : Codec IbDeth :=
  (Codec.be32.seq Codec.be32).iso (fun p => ⟨p.1, p.2⟩) (fun h => (h.qkey, h.u32_1)) fun _ => rfl

/-- `ib_immdt`: stored and read without `htobe32`. -/
def ibImmdtCodec : Codec UInt32 := Codec.le32

/-- `ib_ieth` -/
def ibIethCodec : Codec UInt32 := Codec.be32

/-- `ib_aeth`, as its word `u32_0` -/
def ibAethCodec : Codec UInt32 := Codec.be32

/-! ## Opcodes -/

def ibOpcodeRc : UInt8 := 0x0
def ibOpcodeUc : UInt8 := 0x1
def ibOpcodeRd : UInt8 := 0x2
def ibOpcodeUd : UInt8 := 0x3
def ibOpcodeMask : UInt8 := 0x1f

def ibOpcodeSendFirst : UInt8 := 0x00
def ibOpcodeSendMiddle : UInt8 := 0x01
def ibOpcodeSendLast : UInt8 := 0x02
def ibOpcodeSendLastWithImmediate : UInt8 := 0x03
def ibOpcodeSendOnly : UInt8 := 0x04
def ibOpcodeSendOnlyWithImmediate : UInt8 := 0x05
def ibOpcodeRdmaWriteFirst : UInt8 := 0x06
def ibOpcodeRdmaWriteMiddle : UInt8 := 0x07
def ibOpcodeRdmaWriteLast : UInt8 := 0x08
def ibOpcodeRdmaWriteLastWithImmediate : UInt8 := 0x09
def ibOpcodeRdmaWriteOnly : UInt8 := 0x0a
def ibOpcodeRdmaWriteOnlyWithImmediate : UInt8 := 0x0b
def ibOpcodeAcknowledge : UInt8 := 0x11
def ibOpcodeSendLastWithInvalidate : UInt8 := 0x16
def ibOpcodeSendOnlyWithInvalidate : UInt8 := 0x17

/-- `roce_qp_type_to_ib`; no QP of type `max` sends or receives. -/
def roceQpTypeToIb : QpType → UInt8
  | .smi => ibOpcodeUd
  | .gsi => ibOpcodeUd
  | .rc => ibOpcodeRc
  | .uc => ibOpcodeUc
  | .rd => ibOpcodeRd
  | .ud => ibOpcodeUd
  | .max => 0

/-! ## Bit fields -/

/-- The setters' `(mask & val) | (~mask & old)`. -/
def setField (mask val old : UInt32) : UInt32 := (mask &&& val) ||| (~~~mask &&& old)

/-- The setters' `|= mask` and `&= ~mask`. -/
def setFlag (mask old : UInt32) (b : Bool) : UInt32 := if b then old ||| mask else old &&& ~~~mask

def setField8 (mask val old : UInt8) : UInt8 := (mask &&& val) ||| (~~~mask &&& old)

def setFlag8 (mask old : UInt8) (b : Bool) : UInt8 := if b then old ||| mask else old &&& ~~~mask

def ibBthSeMask : UInt8 := 0x80
def ibBthMigMask : UInt8 := 0x40
def ibBthPadcntMask : UInt8 := 0x30
def ibBthTverMask : UInt8 := 0x0f
def ibBthFecnMask : UInt32 := 0x80000000
def ibBthBecnMask : UInt32 := 0x40000000
def ibBthResv1Mask : UInt32 := 0x3f000000
def ibBthDestqpMask : UInt32 := 0x00ffffff
def ibBthAckMask : UInt32 := 0x80000000
def ibBthResv2Mask : UInt32 := 0x7f000000
def ibAethMsnMask : UInt32 := 0x00ffffff
def ibDethSrcqpMask : UInt32 := 0x00ffffff

def ibBthSetOpcode (bth : IbBth) (qpType opcode : UInt8) : IbBth :=
  { bth with opcode := (qpType <<< 5) ||| opcode }

def ibBthSetSe (bth : IbBth) (se : Bool) : IbBth :=
  { bth with flags := setFlag8 ibBthSeMask bth.flags se }

def ibBthSetMig (bth : IbBth) (mig : Bool) : IbBth :=
  { bth with flags := setFlag8 ibBthMigMask bth.flags mig }

def ibBthSetPadcnt (bth : IbBth) (padcnt : UInt8) : IbBth :=
  { bth with flags := setField8 ibBthPadcntMask (padcnt <<< 4) bth.flags }

def ibBthSetTver (bth : IbBth) (tver : UInt8) : IbBth :=
  { bth with flags := setField8 ibBthTverMask tver bth.flags }

def ibBthSetPkey (bth : IbBth) (pkey : UInt16) : IbBth := { bth with pkey := pkey }

def ibBthSetFecn (bth : IbBth) (fecn : Bool) : IbBth :=
  { bth with u32_1 := setFlag ibBthFecnMask bth.u32_1 fecn }

def ibBthSetBecn (bth : IbBth) (becn : Bool) : IbBth :=
  { bth with u32_1 := setFlag ibBthBecnMask bth.u32_1 becn }

def ibBthClearResv1 (bth : IbBth) : IbBth := { bth with u32_1 := bth.u32_1 &&& ~~~ibBthResv1Mask }

def ibBthSetDestqp (bth : IbBth) (destqp : UInt32) : IbBth :=
  { bth with u32_1 := setField ibBthDestqpMask destqp bth.u32_1 }

def ibBthSetAck (bth : IbBth) (ack : Bool) : IbBth :=
  { bth with u32_2 := setFlag ibBthAckMask bth.u32_2 ack }

def ibBthClearResv2 (bth : IbBth) : IbBth := { bth with u32_2 := bth.u32_2 &&& ~~~ibBthResv2Mask }

def ibBthSetPsn (bth : IbBth) (psn : UInt32) : IbBth :=
  { bth with u32_2 := setField ibBthPsnMask psn bth.u32_2 }

def ibBthGetQpType (bth : IbBth) : UInt8 := bth.opcode >>> 5

def ibBthGetOpcode (bth : IbBth) : UInt8 := bth.opcode &&& ibOpcodeMask

def ibBthGetSe (bth : IbBth) : Bool := ibBthSeMask &&& bth.flags != 0

def ibBthGetPadcnt (bth : IbBth) : UInt8 := (ibBthPadcntMask &&& bth.flags) >>> 4

def ibBthGetPkey (bth : IbBth) : UInt16 := bth.pkey

def ibBthGetDestqp (bth : IbBth) : UInt32 := ibBthDestqpMask &&& bth.u32_1

def ibBthGetAck (bth : IbBth) : Bool := bth.u32_2 &&& ibBthAckMask != 0

def ibBthGetPsn (bth : IbBth) : UInt32 := ibBthPsnMask &&& bth.u32_2

/-- The word `ipv6_hdr_set_version_tc_fl` stores. -/
def ipv6VersionTcFl (version tclass : UInt8) (flowLabel : UInt32) : UInt32 :=
  ((version &&& 0xf).toUInt32 <<< 28) ||| (tclass.toUInt32 <<< 20) ||| (flowLabel &&& 0x000fffff)

/-- `ib_aeth_set` -/
def ibAethSet (type val : UInt8) (msn : UInt32) : UInt32 :=
  ((((type &&& 3) <<< 5) ||| (val &&& 0x1f)).toUInt32 <<< 24) ||| (ibAethMsnMask &&& msn)

def Syndrome.code : Syndrome → UInt8
  | .ack => 0
  | .rnrNak => 1
  | .reserved => 2
  | .nak => 3

/-- `ib_aeth_get_syndrome` -/
def ibAethGetSyndrome (aeth : UInt32) : UInt8 := ((aeth &&& 0xff000000) >>> 24).toUInt8

/-- `ib_aeth_get_syndrome_type`: bits 6:5. -/
def ibAethGetSyndromeType (aeth : UInt32) : Syndrome :=
  match (ibAethGetSyndrome aeth >>> 5) &&& 3 with
  | 0 => .ack
  | 1 => .rnrNak
  | 2 => .reserved
  | _ => .nak

/-- `ib_aeth_get_syndrome_val`: bits 4:0. -/
def ibAethGetSyndromeVal (aeth : UInt32) : UInt8 := ibAethGetSyndrome aeth &&& 0x1f

def ibAethGetMsn (aeth : UInt32) : UInt32 := aeth &&& ibAethMsnMask

/-! ## `roce_netpkt_set_bth` -/

def rocePkey : UInt16 := 0xffff

def roceNetpktSetBth (bth : IbBth) (qpType : QpType) (opcode : UInt8) (se : Bool) (padcnt : UInt8)
    (destqp : UInt32) (ack : Bool) (psn : UInt32) : IbBth :=
  let bth := ibBthSetOpcode bth (roceQpTypeToIb qpType) opcode
  let bth := ibBthSetSe bth se
  let bth := ibBthSetMig bth false
  let bth := ibBthSetPadcnt bth padcnt
  let bth := ibBthSetTver bth 0
  let bth := ibBthSetPkey bth rocePkey
  let bth := ibBthSetFecn bth false
  let bth := ibBthSetBecn bth false
  let bth := ibBthClearResv1 bth
  let bth := ibBthSetDestqp bth destqp
  let bth := ibBthSetAck bth ack
  let bth := ibBthClearResv2 bth
  ibBthSetPsn bth psn

theorem and_setField (mask val old : UInt32) : mask &&& setField mask val old = mask &&& val := by
  unfold setField
  apply UInt32.eq_of_toBitVec_eq
  ext i hi
  simp only [UInt32.toBitVec_and, UInt32.toBitVec_or, UInt32.toBitVec_not, BitVec.getElem_and,
    BitVec.getElem_or, BitVec.getElem_not]
  cases mask.toBitVec[i] <;> simp

/-- A field does not show in the bits outside its mask. -/
theorem and_setField_of_disjoint (m mask val old : UInt32) (h : m &&& mask = 0) :
    setField mask val old &&& m = old &&& m := by
  unfold setField
  apply UInt32.eq_of_toBitVec_eq
  ext i hi
  have hb : (m &&& mask).toBitVec[i] = false := by rw [h]; simp
  simp only [UInt32.toBitVec_and, UInt32.toBitVec_or, UInt32.toBitVec_not, BitVec.getElem_and,
    BitVec.getElem_or, BitVec.getElem_not] at hb ⊢
  revert hb
  cases mask.toBitVec[i] <;> cases m.toBitVec[i] <;> simp

theorem setFlag_and (mask old : UInt32) (b : Bool) :
    setFlag mask old b &&& mask = if b then mask else 0 := by
  unfold setFlag
  apply UInt32.eq_of_toBitVec_eq
  ext i hi
  cases b
  · simp [UInt32.toBitVec_and, UInt32.toBitVec_not]
  · simp only [if_true, UInt32.toBitVec_and, UInt32.toBitVec_or, BitVec.getElem_and,
      BitVec.getElem_or]
    cases mask.toBitVec[i] <;> simp

theorem and_setField8 (mask val old : UInt8) : mask &&& setField8 mask val old = mask &&& val := by
  unfold setField8
  apply UInt8.eq_of_toBitVec_eq
  ext i hi
  simp only [UInt8.toBitVec_and, UInt8.toBitVec_or, UInt8.toBitVec_not, BitVec.getElem_and,
    BitVec.getElem_or, BitVec.getElem_not]
  cases mask.toBitVec[i] <;> simp

theorem and_setField8_of_disjoint (m mask val old : UInt8) (h : m &&& mask = 0) :
    m &&& setField8 mask val old = m &&& old := by
  unfold setField8
  apply UInt8.eq_of_toBitVec_eq
  ext i hi
  have hb : (m &&& mask).toBitVec[i] = false := by rw [h]; simp
  simp only [UInt8.toBitVec_and, UInt8.toBitVec_or, UInt8.toBitVec_not, BitVec.getElem_and,
    BitVec.getElem_or, BitVec.getElem_not] at hb ⊢
  revert hb
  cases mask.toBitVec[i] <;> cases m.toBitVec[i] <;> simp

theorem and_setFlag8 (mask old : UInt8) (b : Bool) :
    mask &&& setFlag8 mask old b = if b then mask else 0 := by
  unfold setFlag8
  apply UInt8.eq_of_toBitVec_eq
  ext i hi
  cases b
  · simp only [if_neg Bool.false_ne_true, UInt8.toBitVec_and, UInt8.toBitVec_not, BitVec.getElem_and,
      BitVec.getElem_not]
    cases mask.toBitVec[i] <;> simp
  · simp only [if_true, UInt8.toBitVec_and, UInt8.toBitVec_or, BitVec.getElem_and,
      BitVec.getElem_or]
    cases mask.toBitVec[i] <;> simp

section setBth

variable (bth : IbBth) (qpType : QpType) (opcode : UInt8) (se : Bool) (padcnt : UInt8)
  (destqp : UInt32) (ack : Bool) (psn : UInt32)

@[simp] theorem ibBthGetPsn_setBth :
    ibBthGetPsn (roceNetpktSetBth bth qpType opcode se padcnt destqp ack psn) =
      ibBthPsnMask &&& psn := and_setField ..

@[simp] theorem ibBthGetDestqp_setBth :
    ibBthGetDestqp (roceNetpktSetBth bth qpType opcode se padcnt destqp ack psn) =
      ibBthDestqpMask &&& destqp := and_setField ..

@[simp] theorem ibBthGetPkey_setBth :
    ibBthGetPkey (roceNetpktSetBth bth qpType opcode se padcnt destqp ack psn) = rocePkey := rfl

@[simp] theorem ibBthGetAck_setBth :
    ibBthGetAck (roceNetpktSetBth bth qpType opcode se padcnt destqp ack psn) = ack := by
  have hr : ibBthAckMask &&& ~~~ibBthResv2Mask = ibBthAckMask := by decide
  have hne : ibBthAckMask ≠ 0 := by decide
  unfold ibBthGetAck roceNetpktSetBth ibBthSetPsn ibBthClearResv2 ibBthSetAck
  simp only
  rw [and_setField_of_disjoint _ _ _ _ (by decide), UInt32.and_assoc,
    UInt32.and_comm (~~~ibBthResv2Mask), hr, setFlag_and]
  cases ack
  · simp
  · simp [hne]

theorem ibBthGetPadcnt_setBth (h : padcnt < 4) :
    ibBthGetPadcnt (roceNetpktSetBth bth qpType opcode se padcnt destqp ack psn) = padcnt := by
  have hpad : ∀ k : Fin 4, (ibBthPadcntMask &&& (UInt8.ofNat k <<< 4)) >>> 4 = UInt8.ofNat k := by
    decide
  have hk := hpad ⟨padcnt.toNat, UInt8.lt_iff_toNat_lt.mp h⟩
  rw [UInt8.ofNat_toNat] at hk
  refine Eq.trans ?_ hk
  unfold ibBthGetPadcnt
  congr 1
  exact (and_setField8_of_disjoint _ _ _ _ (by decide)).trans
    (and_setField8 ibBthPadcntMask (padcnt <<< 4) _)

@[simp] theorem ibBthGetSe_setBth :
    ibBthGetSe (roceNetpktSetBth bth qpType opcode se padcnt destqp ack psn) = se := by
  have hmig : ibBthSeMask &&& ~~~ibBthMigMask = ibBthSeMask := by decide
  have hne : ibBthSeMask ≠ 0 := by decide
  unfold ibBthGetSe roceNetpktSetBth ibBthSetTver ibBthSetPadcnt ibBthSetMig ibBthSetSe
  show (ibBthSeMask &&& setField8 _ _ (setField8 _ _ (setFlag8 ibBthMigMask _ false)) != 0) = se
  rw [and_setField8_of_disjoint _ _ _ _ (by decide), and_setField8_of_disjoint _ _ _ _ (by decide)]
  show (ibBthSeMask &&& (setFlag8 ibBthSeMask _ se &&& ~~~ibBthMigMask) != 0) = se
  rw [UInt8.and_comm (setFlag8 _ _ _), ← UInt8.and_assoc, hmig, and_setFlag8]
  cases se
  · rfl
  · simp [hne]

theorem ibBthGetQpType_setBth (h : opcode < 32) :
    ibBthGetQpType (roceNetpktSetBth bth qpType opcode se padcnt destqp ack psn) =
      roceQpTypeToIb qpType := by
  have hop : ∀ k : Fin 32,
      ((roceQpTypeToIb qpType <<< 5) ||| UInt8.ofNat k) >>> 5 = roceQpTypeToIb qpType := by
    cases qpType <;> decide
  have hk := hop ⟨opcode.toNat, UInt8.lt_iff_toNat_lt.mp h⟩
  rwa [UInt8.ofNat_toNat] at hk

theorem ibBthGetOpcode_setBth (h : opcode < 32) :
    ibBthGetOpcode (roceNetpktSetBth bth qpType opcode se padcnt destqp ack psn) = opcode := by
  have hop : ∀ k : Fin 32,
      ((roceQpTypeToIb qpType <<< 5) ||| UInt8.ofNat k) &&& ibOpcodeMask = UInt8.ofNat k := by
    cases qpType <;> decide
  have hk := hop ⟨opcode.toNat, UInt8.lt_iff_toNat_lt.mp h⟩
  rwa [UInt8.ofNat_toNat] at hk

end setBth

/-! ## The AETH -/

/-- The syndrome does not read the bits of the MSN. -/
theorem ibAethGetSyndrome_msn (x msn : UInt32) :
    ibAethGetSyndrome (x ||| (ibAethMsnMask &&& msn)) = ibAethGetSyndrome x := by
  have hand : (x ||| (ibAethMsnMask &&& msn)) &&& 0xff000000 = x &&& 0xff000000 := by
    have hmask : ibAethMsnMask &&& 0xff000000 = 0 := by decide
    apply UInt32.eq_of_toBitVec_eq
    ext i hi
    have hb : (ibAethMsnMask &&& 0xff000000).toBitVec[i] = false := by rw [hmask]; simp
    simp only [UInt32.toBitVec_and, UInt32.toBitVec_or, BitVec.getElem_and, BitVec.getElem_or] at hb ⊢
    revert hb
    generalize (0xff000000 : UInt32).toBitVec[i] = m
    cases m <;> cases ibAethMsnMask.toBitVec[i] <;> simp
  unfold ibAethGetSyndrome
  rw [hand]

theorem ibAethGetSyndromeType_set (syndrome : Syndrome) (val : UInt8) (msn : UInt32) :
    ibAethGetSyndromeType (ibAethSet syndrome.code val msn) = syndrome := by
  have hcode : ∀ k : Fin 32, ibAethGetSyndromeType
      ((((syndrome.code &&& 3) <<< 5) ||| UInt8.ofNat k).toUInt32 <<< 24) = syndrome := by
    cases syndrome <;> decide
  have hlt : (val &&& 0x1f).toNat < 32 := by
    rw [UInt8.toNat_and]
    exact Nat.lt_succ_of_le Nat.and_le_right
  have hk := hcode ⟨(val &&& 0x1f).toNat, hlt⟩
  rw [UInt8.ofNat_toNat] at hk
  refine Eq.trans ?_ hk
  unfold ibAethGetSyndromeType ibAethSet
  rw [ibAethGetSyndrome_msn]

theorem ibAethGetSyndromeVal_set (syndrome : Syndrome) (val : UInt8) (msn : UInt32) :
    ibAethGetSyndromeVal (ibAethSet syndrome.code val msn) = val &&& 0x1f := by
  have hcode : ∀ k : Fin 32, ibAethGetSyndromeVal
      ((((syndrome.code &&& 3) <<< 5) ||| UInt8.ofNat k).toUInt32 <<< 24) = UInt8.ofNat k := by
    cases syndrome <;> decide
  have hlt : (val &&& 0x1f).toNat < 32 := by
    rw [UInt8.toNat_and]
    exact Nat.lt_succ_of_le Nat.and_le_right
  have hk := hcode ⟨(val &&& 0x1f).toNat, hlt⟩
  rw [UInt8.ofNat_toNat] at hk
  refine Eq.trans ?_ hk
  unfold ibAethGetSyndromeVal ibAethSet
  rw [ibAethGetSyndrome_msn]

end Libroce
