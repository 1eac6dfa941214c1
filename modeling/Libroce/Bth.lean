import Libroce.Checksum

/-!
# The base transport header in memory

`ib-spec.h` reads and writes the twelve bytes of a BTH through words of the
host.  `BthSet` names a setter, `BthSet.store` is what it does to the words, and
`IbBth.values` is what the twelve getters return.

    (op.store host raw).header host = op.apply (raw.header host)
    (op.apply bth).values = op.update bth.values       for op.Fits

Main statement: `roceNetpktSetBth_values`.
-/

namespace Libroce

/-! ## Words in network order -/

/-- The number that bytes in memory spell on a host of this order. -/
def ByteOrder.ofBytes : ByteOrder → List UInt8 → Nat
  | .little => Bytes.ofLE
  | .big => Bytes.ofBE

/-- The bytes in memory of a number of `w` bytes. -/
def ByteOrder.toBytes : ByteOrder → Nat → Nat → List UInt8
  | .little => Bytes.toLE
  | .big => Bytes.toBE

def ByteOrder.htobe16 (host : ByteOrder) (x : UInt16) : UInt16 :=
  UInt16.ofNat (host.ofBytes (Bytes.toBE 2 x.toNat))

def ByteOrder.be16toh (host : ByteOrder) (x : UInt16) : UInt16 :=
  UInt16.ofNat (Bytes.ofBE (host.toBytes 2 x.toNat))

def ByteOrder.htobe32 (host : ByteOrder) (x : UInt32) : UInt32 :=
  UInt32.ofNat (host.ofBytes (Bytes.toBE 4 x.toNat))

def ByteOrder.be32toh (host : ByteOrder) (x : UInt32) : UInt32 :=
  UInt32.ofNat (Bytes.ofBE (host.toBytes 4 x.toNat))

@[simp] theorem ByteOrder.length_toBytes (host : ByteOrder) (w x : Nat) : (host.toBytes w x).length = w := by
  cases host with
  | little => exact Bytes.length_toLE w x
  | big => exact Bytes.length_toBE w x

theorem ByteOrder.toBytes_ofBytes (host : ByteOrder) (bs : List UInt8) :
    host.toBytes bs.length (host.ofBytes bs) = bs := by
  cases host with
  | little => exact Bytes.toLE_ofLE bs
  | big => exact Bytes.toBE_ofBE bs

theorem ByteOrder.ofBytes_lt (host : ByteOrder) (bs : List UInt8) : host.ofBytes bs < 256 ^ bs.length := by
  cases host with
  | little => exact Bytes.ofLE_lt bs
  | big => exact Bytes.ofBE_lt bs

/-- The bytes of a word in network order. -/
theorem ByteOrder.toBytes_htobe16 (host : ByteOrder) (x : UInt16) :
    host.toBytes 2 (host.htobe16 x).toNat = Bytes.toBE 2 x.toNat := by
  have hlt := host.ofBytes_lt (Bytes.toBE 2 x.toNat)
  have hback := host.toBytes_ofBytes (Bytes.toBE 2 x.toNat)
  rw [Bytes.length_toBE] at hlt hback
  have hlt : host.ofBytes (Bytes.toBE 2 x.toNat) < 2 ^ 16 := hlt
  unfold ByteOrder.htobe16
  rw [UInt16.toNat_ofNat', Nat.mod_eq_of_lt hlt, hback]

theorem ByteOrder.toBytes_htobe32 (host : ByteOrder) (x : UInt32) :
    host.toBytes 4 (host.htobe32 x).toNat = Bytes.toBE 4 x.toNat := by
  have hlt := host.ofBytes_lt (Bytes.toBE 4 x.toNat)
  have hback := host.toBytes_ofBytes (Bytes.toBE 4 x.toNat)
  rw [Bytes.length_toBE] at hlt hback
  have hlt : host.ofBytes (Bytes.toBE 4 x.toNat) < 2 ^ 32 := hlt
  unfold ByteOrder.htobe32
  rw [UInt32.toNat_ofNat', Nat.mod_eq_of_lt hlt, hback]

@[simp] theorem ByteOrder.be16toh_htobe16 (host : ByteOrder) (x : UInt16) :
    host.be16toh (host.htobe16 x) = x := by
  have hlt := x.toNat_lt
  unfold ByteOrder.be16toh
  rw [host.toBytes_htobe16, Bytes.ofBE_toBE, ← UInt16.toNat_inj, UInt16.toNat_ofNat']
  omega

@[simp] theorem ByteOrder.be32toh_htobe32 (host : ByteOrder) (x : UInt32) :
    host.be32toh (host.htobe32 x) = x := by
  have hlt := x.toNat_lt
  unfold ByteOrder.be32toh
  rw [host.toBytes_htobe32, Bytes.ofBE_toBE, ← UInt32.toNat_inj, UInt32.toNat_ofNat']
  omega

/-- The bytes of a word are those of the number it stands for. -/
theorem ByteOrder.toBE_be32toh (host : ByteOrder) (x : UInt32) :
    Bytes.toBE 4 (host.be32toh x).toNat = host.toBytes 4 x.toNat := by
  have hlt := Bytes.ofBE_lt (host.toBytes 4 x.toNat)
  have hback := Bytes.toBE_ofBE (host.toBytes 4 x.toNat)
  rw [host.length_toBytes] at hlt hback
  have hlt : Bytes.ofBE (host.toBytes 4 x.toNat) < 2 ^ 32 := hlt
  unfold ByteOrder.be32toh
  rw [UInt32.toNat_ofNat', Nat.mod_eq_of_lt hlt, hback]

theorem ByteOrder.toBE_be16toh (host : ByteOrder) (x : UInt16) :
    Bytes.toBE 2 (host.be16toh x).toNat = host.toBytes 2 x.toNat := by
  have hlt := Bytes.ofBE_lt (host.toBytes 2 x.toNat)
  have hback := Bytes.toBE_ofBE (host.toBytes 2 x.toNat)
  rw [host.length_toBytes] at hlt hback
  have hlt : Bytes.ofBE (host.toBytes 2 x.toNat) < 2 ^ 16 := hlt
  unfold ByteOrder.be16toh
  rw [UInt16.toNat_ofNat', Nat.mod_eq_of_lt hlt, hback]

/-! ### Bits -/

/-- The bit of a word in memory that is bit `i` of the number. -/
def ByteOrder.bit : ByteOrder → Nat → Nat
  | .little, i => 8 * (3 - i / 8) + i % 8
  | .big, i => i

theorem ByteOrder.bit_lt (host : ByteOrder) {i : Nat} (h : i < 32) : host.bit i < 32 := by
  cases host with
  | little =>
    show 8 * (3 - i / 8) + i % 8 < 32
    omega
  | big => exact h

theorem testBit_be32toh (host : ByteOrder) (x : UInt32) {i : Nat} (h : i < 32) :
    (host.be32toh x).toNat.testBit i = x.toNat.testBit (host.bit i) := by
  have hback := host.toBE_be32toh x
  cases host with
  | big =>
    have hlt := x.toNat_lt
    have hsame : (ByteOrder.big.be32toh x).toNat = x.toNat := by
      have hval := congrArg Bytes.ofBE hback
      unfold ByteOrder.toBytes at hval
      rw [Bytes.ofBE_toBE, Bytes.ofBE_toBE] at hval
      have hlt' := (ByteOrder.big.be32toh x).toNat_lt
      omega
    rw [hsame]
    rfl
  | little =>
    have hbyte : ∀ k < 4, ((ByteOrder.little.be32toh x).toNat / 256 ^ k) % 256 =
      (x.toNat / 256 ^ (3 - k)) % 256 := by
      generalize (ByteOrder.little.be32toh x).toNat = y at hback
      have hlist : [(y / 256 / 256 / 256).toUInt8, (y / 256 / 256).toUInt8, (y / 256).toUInt8, y.toUInt8] =
          [x.toNat.toUInt8, (x.toNat / 256).toUInt8, (x.toNat / 256 / 256).toUInt8,
            (x.toNat / 256 / 256 / 256).toUInt8] := hback
      injection hlist with h3 htail
      injection htail with h2 htail
      injection htail with h1 htail
      injection htail with h0 htail
      have h3 : y / 256 / 256 / 256 % 256 = x.toNat % 256 := congrArg UInt8.toNat h3
      have h2 : y / 256 / 256 % 256 = x.toNat / 256 % 256 := congrArg UInt8.toNat h2
      have h1 : y / 256 % 256 = x.toNat / 256 / 256 % 256 := congrArg UInt8.toNat h1
      have h0 : y % 256 = x.toNat / 256 / 256 / 256 % 256 := congrArg UInt8.toNat h0
      rw [Nat.div_div_eq_div_mul, Nat.div_div_eq_div_mul] at h3 h0
      rw [Nat.div_div_eq_div_mul] at h2 h1
      intro k hk
      have hcases : k = 0 ∨ k = 1 ∨ k = 2 ∨ k = 3 := by omega
      rcases hcases with rfl | rfl | rfl | rfl
      · rw [Nat.pow_zero, Nat.div_one]
        exact h0
      · exact h1
      · exact h2
      · rw [Nat.sub_self, Nat.pow_zero, Nat.div_one]
        exact h3
    have hk := hbyte (i / 8) (by omega)
    have hbits : ∀ (n k j : Nat), j < 8 → n.testBit (8 * k + j) = (n / 256 ^ k % 256).testBit j := by
      intro n k j hj
      rw [show 256 = 2 ^ 8 by rfl, Nat.testBit_mod_two_pow, ← Nat.pow_mul, Nat.testBit_div_two_pow]
      simp [hj, Nat.add_comm]
    show _ = x.toNat.testBit (8 * (3 - i / 8) + i % 8)
    rw [hbits _ _ _ (Nat.mod_lt i (by decide)), ← hk, ← hbits _ _ _ (Nat.mod_lt i (by decide)),
      Nat.div_add_mod]

theorem eq_of_testBit {x y : UInt32} (h : ∀ i < 32, x.toNat.testBit i = y.toNat.testBit i) : x = y := by
  apply UInt32.toNat_inj.mp
  apply Nat.eq_of_testBit_eq
  intro i
  by_cases hi : i < 32
  · exact h i hi
  · have hle : 2 ^ 32 ≤ 2 ^ i := Nat.pow_le_pow_right (by decide) (by omega)
    rw [Nat.testBit_lt_two_pow (Nat.lt_of_lt_of_le x.toNat_lt hle),
      Nat.testBit_lt_two_pow (Nat.lt_of_lt_of_le y.toNat_lt hle)]

theorem testBit_not (x : UInt32) {i : Nat} (h : i < 32) : (~~~x).toNat.testBit i = !x.toNat.testBit i := by
  show (~~~x).toBitVec.getLsbD i = !x.toBitVec.getLsbD i
  rw [UInt32.toBitVec_not, BitVec.getLsbD_not]
  simp [h]

theorem be32toh_or (host : ByteOrder) (x y : UInt32) :
    host.be32toh (x ||| y) = host.be32toh x ||| host.be32toh y := by
  apply eq_of_testBit
  intro i hi
  rw [testBit_be32toh host _ hi, UInt32.toNat_or, UInt32.toNat_or, Nat.testBit_or, Nat.testBit_or,
    testBit_be32toh host _ hi, testBit_be32toh host _ hi]

theorem be32toh_and (host : ByteOrder) (x y : UInt32) :
    host.be32toh (x &&& y) = host.be32toh x &&& host.be32toh y := by
  apply eq_of_testBit
  intro i hi
  rw [testBit_be32toh host _ hi, UInt32.toNat_and, UInt32.toNat_and, Nat.testBit_and, Nat.testBit_and,
    testBit_be32toh host _ hi, testBit_be32toh host _ hi]

theorem be32toh_not (host : ByteOrder) (x : UInt32) : host.be32toh (~~~x) = ~~~host.be32toh x := by
  apply eq_of_testBit
  intro i hi
  rw [testBit_be32toh host _ hi, testBit_not _ hi, testBit_not _ (host.bit_lt hi), testBit_be32toh host _ hi]

/-! ## Setters -/

/-- A call of a setter `ib_bth_set_*` or `ib_bth_clear_*`. -/
inductive BthSet where
  | opcode (qpType opcode : UInt8)
  | se (se : Bool)
  | mig (mig : Bool)
  | padcnt (padcnt : UInt8)
  | tver (tver : UInt8)
  | pkey (pkey : UInt16)
  | fecn (fecn : Bool)
  | becn (becn : Bool)
  | clearResv1
  | destqp (destqp : UInt32)
  | ack (ack : Bool)
  | clearResv2
  | psn (psn : UInt32)

/-- `ib_bth`, by its words as the host holds them -/
structure RawBth where
  opcode : UInt8
  flags : UInt8
  pkey : UInt16
  u32_1 : UInt32
  u32_2 : UInt32

def RawBth.bytes (host : ByteOrder) (raw : RawBth) : List UInt8 :=
  raw.opcode :: raw.flags :: (host.toBytes 2 raw.pkey.toNat ++ (host.toBytes 4 raw.u32_1.toNat ++
    host.toBytes 4 raw.u32_2.toNat))

/-- The setters' `|= htobe32(mask)` and `&= ~htobe32(mask)`. -/
def setFlagBe (host : ByteOrder) (mask old : UInt32) (b : Bool) : UInt32 :=
  if b then old ||| host.htobe32 mask else old &&& ~~~host.htobe32 mask

/-- The setters' `htobe32((mask & val) | (~mask & be32toh(old)))`. -/
def setFieldBe (host : ByteOrder) (mask val old : UInt32) : UInt32 :=
  host.htobe32 ((mask &&& val) ||| (~~~mask &&& host.be32toh old))

/-- What the setter stores. -/
def BthSet.store (host : ByteOrder) (raw : RawBth) : BthSet → RawBth
  | .opcode type code => { raw with opcode := (type <<< 5) ||| code }
  | .se b => { raw with flags := setFlag8 ibBthSeMask raw.flags b }
  | .mig b => { raw with flags := setFlag8 ibBthMigMask raw.flags b }
  | .padcnt val => { raw with flags := setField8 ibBthPadcntMask (val <<< 4) raw.flags }
  | .tver val => { raw with flags := setField8 ibBthTverMask val raw.flags }
  | .pkey val => { raw with pkey := host.htobe16 val }
  | .fecn b => { raw with u32_1 := setFlagBe host ibBthFecnMask raw.u32_1 b }
  | .becn b => { raw with u32_1 := setFlagBe host ibBthBecnMask raw.u32_1 b }
  | .clearResv1 => { raw with u32_1 := raw.u32_1 &&& host.htobe32 (~~~ibBthResv1Mask) }
  | .destqp val => { raw with u32_1 := setFieldBe host ibBthDestqpMask val raw.u32_1 }
  | .ack b => { raw with u32_2 := setFlagBe host ibBthAckMask raw.u32_2 b }
  | .clearResv2 => { raw with u32_2 := raw.u32_2 &&& host.htobe32 (~~~ibBthResv2Mask) }
  | .psn val => { raw with u32_2 := setFieldBe host ibBthPsnMask val raw.u32_2 }

/-- The same on a header whose words are read already. -/
def BthSet.apply (bth : IbBth) : BthSet → IbBth
  | .opcode type code => ibBthSetOpcode bth type code
  | .se b => ibBthSetSe bth b
  | .mig b => ibBthSetMig bth b
  | .padcnt val => ibBthSetPadcnt bth val
  | .tver val => ibBthSetTver bth val
  | .pkey val => ibBthSetPkey bth val
  | .fecn b => ibBthSetFecn bth b
  | .becn b => ibBthSetBecn bth b
  | .clearResv1 => ibBthClearResv1 bth
  | .destqp val => ibBthSetDestqp bth val
  | .ack b => ibBthSetAck bth b
  | .clearResv2 => ibBthClearResv2 bth
  | .psn val => ibBthSetPsn bth val

/-- The calls of `roce_netpkt_set_bth`, in order. -/
def setBthCalls (qpType : QpType) (opcode : UInt8) (se : Bool) (padcnt : UInt8) (destqp : UInt32)
    (ack : Bool) (psn : UInt32) : List BthSet :=
  [.opcode (roceQpTypeToIb qpType) opcode, .se se, .mig false, .padcnt padcnt, .tver 0, .pkey rocePkey,
    .fecn false, .becn false, .clearResv1, .destqp destqp, .ack ack, .clearResv2, .psn psn]

/-- The header that the words spell. -/
def RawBth.header (host : ByteOrder) (raw : RawBth) : IbBth :=
  ⟨raw.opcode, raw.flags, host.be16toh raw.pkey, host.be32toh raw.u32_1, host.be32toh raw.u32_2⟩

theorem toBE_one (x : UInt8) : Bytes.toBE 1 x.toNat = [x] := by
  show [x.toNat.toUInt8] = [x]
  rw [show x.toNat.toUInt8 = x from UInt8.ofNat_toNat]

theorem ibBthCodec_enc (bth : IbBth) :
    ibBthCodec.enc bth = bth.opcode :: bth.flags ::
      (Bytes.toBE 2 bth.pkey.toNat ++ (Bytes.toBE 4 bth.u32_1.toNat ++ Bytes.toBE 4 bth.u32_2.toNat)) := by
  show Bytes.toBE 1 bth.opcode.toNat ++ (Bytes.toBE 1 bth.flags.toNat ++ _) = _
  rw [toBE_one, toBE_one]
  rfl

theorem RawBth.bytes_header (host : ByteOrder) (raw : RawBth) :
    raw.bytes host = ibBthCodec.enc (raw.header host) := by
  rw [ibBthCodec_enc]
  unfold RawBth.bytes RawBth.header
  rw [host.toBE_be16toh, host.toBE_be32toh, host.toBE_be32toh]

theorem be32toh_setFlagBe (host : ByteOrder) (mask old : UInt32) (b : Bool) :
    host.be32toh (setFlagBe host mask old b) = setFlag mask (host.be32toh old) b := by
  unfold setFlagBe setFlag
  cases b with
  | true => simp only [if_true, be32toh_or, ByteOrder.be32toh_htobe32]
  | false => simp only [Bool.false_eq_true, if_false, be32toh_and, be32toh_not, ByteOrder.be32toh_htobe32]

theorem be32toh_setFieldBe (host : ByteOrder) (mask val old : UInt32) :
    host.be32toh (setFieldBe host mask val old) = setField mask val (host.be32toh old) := by
  unfold setFieldBe setField
  rw [ByteOrder.be32toh_htobe32]

/-- Storing in memory is setting in the header. -/
theorem BthSet.header_store (host : ByteOrder) (raw : RawBth) (op : BthSet) :
    (op.store host raw).header host = op.apply (raw.header host) := by
  cases op with
  | opcode => rfl
  | se => rfl
  | mig => rfl
  | padcnt => rfl
  | tver => rfl
  | pkey pkey =>
    unfold RawBth.header BthSet.store BthSet.apply ibBthSetPkey
    simp only [ByteOrder.be16toh_htobe16]
  | fecn fecn =>
    unfold RawBth.header BthSet.store BthSet.apply ibBthSetFecn
    simp only [be32toh_setFlagBe]
  | becn becn =>
    unfold RawBth.header BthSet.store BthSet.apply ibBthSetBecn
    simp only [be32toh_setFlagBe]
  | clearResv1 =>
    unfold RawBth.header BthSet.store BthSet.apply ibBthClearResv1
    simp only [be32toh_and, ByteOrder.be32toh_htobe32]
  | destqp destqp =>
    unfold RawBth.header BthSet.store BthSet.apply ibBthSetDestqp
    simp only [be32toh_setFieldBe]
  | ack ack =>
    unfold RawBth.header BthSet.store BthSet.apply ibBthSetAck
    simp only [be32toh_setFlagBe]
  | clearResv2 =>
    unfold RawBth.header BthSet.store BthSet.apply ibBthClearResv2
    simp only [be32toh_and, ByteOrder.be32toh_htobe32]
  | psn psn =>
    unfold RawBth.header BthSet.store BthSet.apply ibBthSetPsn
    simp only [be32toh_setFieldBe]

theorem header_stores (host : ByteOrder) (raw : RawBth) (ops : List BthSet) :
    (ops.foldl (BthSet.store host) raw).header host = ops.foldl BthSet.apply (raw.header host) := by
  induction ops generalizing raw with
  | nil => rfl
  | cons op ops ih =>
    rw [List.foldl_cons, List.foldl_cons, ih, op.header_store]

/-! ## Getters -/

def ibBthGetMig (bth : IbBth) : Bool := ibBthMigMask &&& bth.flags != 0

def ibBthGetTver (bth : IbBth) : UInt8 := ibBthTverMask &&& bth.flags

def ibBthGetFecn (bth : IbBth) : Bool := bth.u32_1 &&& ibBthFecnMask != 0

def ibBthGetBecn (bth : IbBth) : Bool := bth.u32_1 &&& ibBthBecnMask != 0

/-- What the getters `ib_bth_get_*` return. -/
structure BthValues where
  qpType : UInt8
  opcode : UInt8
  se : Bool
  mig : Bool
  padcnt : UInt8
  tver : UInt8
  pkey : UInt16
  fecn : Bool
  becn : Bool
  destqp : UInt32
  ack : Bool
  psn : UInt32
  deriving DecidableEq

def IbBth.values (bth : IbBth) : BthValues where
  qpType := ibBthGetQpType bth
  opcode := ibBthGetOpcode bth
  se := ibBthGetSe bth
  mig := ibBthGetMig bth
  padcnt := ibBthGetPadcnt bth
  tver := ibBthGetTver bth
  pkey := ibBthGetPkey bth
  fecn := ibBthGetFecn bth
  becn := ibBthGetBecn bth
  destqp := ibBthGetDestqp bth
  ack := ibBthGetAck bth
  psn := ibBthGetPsn bth

/-- The arguments fit their fields. -/
def BthSet.Fits : BthSet → Prop
  | .opcode type code => type < 8 ∧ code < 32
  | .padcnt val => val < 4
  | .tver val => val < 16
  | .destqp val => val < 0x1000000
  | .psn val => val < 0x1000000
  | _ => True

/-- What a setter is for: the field it names. -/
def BthSet.update (v : BthValues) : BthSet → BthValues
  | .opcode type code => { v with qpType := type, opcode := code }
  | .se b => { v with se := b }
  | .mig b => { v with mig := b }
  | .padcnt val => { v with padcnt := val }
  | .tver val => { v with tver := val }
  | .pkey val => { v with pkey := val }
  | .fecn b => { v with fecn := b }
  | .becn b => { v with becn := b }
  | .clearResv1 => v
  | .destqp val => { v with destqp := val }
  | .ack b => { v with ack := b }
  | .clearResv2 => v
  | .psn val => { v with psn := val }

/-! ### Masks -/

theorem and_setFlag (mask old : UInt32) (b : Bool) : mask &&& setFlag mask old b = if b then mask else 0 := by
  rw [UInt32.and_comm, setFlag_and]

/-- A flag does not show in the bits outside its mask. -/
theorem and_setFlag_of_disjoint (m mask old : UInt32) (b : Bool) (h : m &&& mask = 0) :
    m &&& setFlag mask old b = m &&& old := by
  unfold setFlag
  apply UInt32.eq_of_toBitVec_eq
  ext i hi
  have hb : (m &&& mask).toBitVec[i] = false := by rw [h]; simp
  cases b
  · simp only [Bool.false_eq_true, if_false, UInt32.toBitVec_and, UInt32.toBitVec_not, BitVec.getElem_and,
      BitVec.getElem_not] at hb ⊢
    revert hb
    cases mask.toBitVec[i] <;> cases m.toBitVec[i] <;> simp
  · simp only [if_true, UInt32.toBitVec_and, UInt32.toBitVec_or, BitVec.getElem_and,
    BitVec.getElem_or] at hb ⊢
    revert hb
    cases mask.toBitVec[i] <;> cases m.toBitVec[i] <;> simp

theorem and_setFlag8_of_disjoint (m mask old : UInt8) (b : Bool) (h : m &&& mask = 0) :
    m &&& setFlag8 mask old b = m &&& old := by
  unfold setFlag8
  apply UInt8.eq_of_toBitVec_eq
  ext i hi
  have hb : (m &&& mask).toBitVec[i] = false := by rw [h]; simp
  cases b
  · simp only [Bool.false_eq_true, if_false, UInt8.toBitVec_and, UInt8.toBitVec_not, BitVec.getElem_and,
      BitVec.getElem_not] at hb ⊢
    revert hb
    cases mask.toBitVec[i] <;> cases m.toBitVec[i] <;> simp
  · simp only [if_true, UInt8.toBitVec_and, UInt8.toBitVec_or, BitVec.getElem_and, BitVec.getElem_or] at hb ⊢
    revert hb
    cases mask.toBitVec[i] <;> cases m.toBitVec[i] <;> simp

theorem and_setField_outside (m mask val old : UInt32) (h : m &&& mask = 0) :
    m &&& setField mask val old = m &&& old := by
  rw [UInt32.and_comm, and_setField_of_disjoint m mask val old h, UInt32.and_comm]

theorem setFlag_and_of_disjoint (m mask old : UInt32) (b : Bool) (h : m &&& mask = 0) :
    setFlag mask old b &&& m = old &&& m := by
  rw [UInt32.and_comm, and_setFlag_of_disjoint m mask old b h, UInt32.and_comm]

theorem and_ne_zero {mask : UInt32} (hne : mask ≠ 0) (b : Bool) : ((if b then mask else 0) != 0) = b := by
  cases b with
  | true => simpa using hne
  | false => rfl

theorem and8_ne_zero {mask : UInt8} (hne : mask ≠ 0) (b : Bool) : ((if b then mask else 0) != 0) = b := by
  cases b with
  | true => simpa using hne
  | false => rfl

theorem padcnt_shift {v : UInt8} (h : v < 4) : (ibBthPadcntMask &&& (v <<< 4)) >>> 4 = v := by
  have hall : ∀ k : Fin 4, (ibBthPadcntMask &&& (UInt8.ofNat k <<< 4)) >>> 4 = UInt8.ofNat k := by decide
  have hk := hall ⟨v.toNat, UInt8.lt_iff_toNat_lt.mp h⟩
  rwa [UInt8.ofNat_toNat] at hk

theorem tver_mask {v : UInt8} (h : v < 16) : ibBthTverMask &&& v = v := by
  have hall : ∀ k : Fin 16, ibBthTverMask &&& UInt8.ofNat k = UInt8.ofNat k := by decide
  have hk := hall ⟨v.toNat, UInt8.lt_iff_toNat_lt.mp h⟩
  rwa [UInt8.ofNat_toNat] at hk

theorem opcode_split {type code : UInt8} (ht : type < 8) (hc : code < 32) :
    ((type <<< 5) ||| code) >>> 5 = type ∧ ((type <<< 5) ||| code) &&& ibOpcodeMask = code := by
  have hall : ∀ (t : Fin 8) (c : Fin 32), ((UInt8.ofNat t <<< 5) ||| UInt8.ofNat c) >>> 5 = UInt8.ofNat t ∧
      ((UInt8.ofNat t <<< 5) ||| UInt8.ofNat c) &&& ibOpcodeMask = UInt8.ofNat c := by decide
  have hk := hall ⟨type.toNat, UInt8.lt_iff_toNat_lt.mp ht⟩ ⟨code.toNat, UInt8.lt_iff_toNat_lt.mp hc⟩
  rwa [UInt8.ofNat_toNat, UInt8.ofNat_toNat] at hk

theorem mask24 {v : UInt32} (h : v < 0x1000000) : (0x00ffffff : UInt32) &&& v = v := by
  have hlt : v.toNat < 2 ^ 24 := UInt32.lt_iff_toNat_lt.mp h
  rw [UInt32.and_comm, ← UInt32.toNat_inj, UInt32.toNat_and]
  show v.toNat &&& (2 ^ 24 - 1) = v.toNat
  rw [Nat.and_two_pow_sub_one_eq_mod, Nat.mod_eq_of_lt hlt]

/-- A setter whose arguments fit changes the field it names, and no other. -/
theorem BthSet.values_apply {op : BthSet} (h : op.Fits) (bth : IbBth) :
    (op.apply bth).values = op.update bth.values := by
  cases op with
  | opcode type code =>
    obtain ⟨htype, hcode⟩ := opcode_split h.1 h.2
    unfold IbBth.values BthSet.apply BthSet.update ibBthGetQpType ibBthGetOpcode ibBthSetOpcode
    simp only [htype, hcode]
    rfl
  | se b =>
    unfold IbBth.values BthSet.apply BthSet.update ibBthSetSe
      ibBthGetSe ibBthGetMig ibBthGetPadcnt ibBthGetTver
    simp (disch := decide) only [and_setFlag8, and8_ne_zero, and_setFlag8_of_disjoint]
    rfl
  | mig b =>
    unfold IbBth.values BthSet.apply BthSet.update ibBthSetMig
      ibBthGetSe ibBthGetMig ibBthGetPadcnt ibBthGetTver
    simp (disch := decide) only [and_setFlag8, and8_ne_zero, and_setFlag8_of_disjoint]
    rfl
  | padcnt val =>
    unfold IbBth.values BthSet.apply BthSet.update ibBthSetPadcnt
      ibBthGetSe ibBthGetMig ibBthGetPadcnt ibBthGetTver
    simp (disch := decide) only [and_setField8, and_setField8_of_disjoint]
    rw [padcnt_shift h]
    rfl
  | tver val =>
    unfold IbBth.values BthSet.apply BthSet.update ibBthSetTver
      ibBthGetSe ibBthGetMig ibBthGetPadcnt ibBthGetTver
    simp (disch := decide) only [and_setField8, and_setField8_of_disjoint]
    rw [tver_mask h]
    rfl
  | pkey val => rfl
  | fecn b =>
    unfold IbBth.values BthSet.apply BthSet.update ibBthSetFecn ibBthGetFecn ibBthGetBecn ibBthGetDestqp
    simp (disch := decide) only [setFlag_and, and_ne_zero, and_setFlag_of_disjoint, setFlag_and_of_disjoint]
    rfl
  | becn b =>
    unfold IbBth.values BthSet.apply BthSet.update ibBthSetBecn ibBthGetFecn ibBthGetBecn ibBthGetDestqp
    simp (disch := decide) only [setFlag_and, and_ne_zero, and_setFlag_of_disjoint, setFlag_and_of_disjoint]
    rfl
  | clearResv1 =>
    -- clearing reserved bits is clearing a flag
    have hclear : ibBthClearResv1 bth = { bth with u32_1 := setFlag ibBthResv1Mask bth.u32_1 false } := rfl
    unfold IbBth.values BthSet.apply BthSet.update ibBthGetFecn ibBthGetBecn ibBthGetDestqp
    simp (disch := decide) only [hclear, and_setFlag_of_disjoint, setFlag_and_of_disjoint]
    rfl
  | destqp val =>
    unfold IbBth.values BthSet.apply BthSet.update ibBthSetDestqp ibBthGetFecn ibBthGetBecn ibBthGetDestqp
    simp (disch := decide) only [and_setField, and_setField_of_disjoint]
    rw [show ibBthDestqpMask &&& val = val from mask24 h]
    rfl
  | ack b =>
    unfold IbBth.values BthSet.apply BthSet.update ibBthSetAck ibBthGetAck ibBthGetPsn
    simp (disch := decide) only [setFlag_and, and_ne_zero, and_setFlag_of_disjoint]
    rfl
  | clearResv2 =>
    have hclear : ibBthClearResv2 bth = { bth with u32_2 := setFlag ibBthResv2Mask bth.u32_2 false } := rfl
    unfold IbBth.values BthSet.apply BthSet.update ibBthGetAck ibBthGetPsn
    simp (disch := decide) only [hclear, and_setFlag_of_disjoint, setFlag_and_of_disjoint]
    rfl
  | psn val =>
    unfold IbBth.values BthSet.apply BthSet.update ibBthSetPsn ibBthGetAck ibBthGetPsn
    simp (disch := decide) only [and_setField, and_setField_of_disjoint]
    rw [show ibBthPsnMask &&& val = val from mask24 h]
    rfl

theorem values_applies {ops : List BthSet} (h : ∀ op ∈ ops, op.Fits) (bth : IbBth) :
    (ops.foldl BthSet.apply bth).values = ops.foldl BthSet.update bth.values := by
  induction ops generalizing bth with
  | nil => rfl
  | cons op ops ih =>
    rw [List.foldl_cons, List.foldl_cons, ih fun o ho => h o (List.mem_cons_of_mem _ ho),
      BthSet.values_apply (h op List.mem_cons_self)]

/-! ## `roce_netpkt_set_bth` -/

section setBthBytes

variable (bth : IbBth) (qpType : QpType) (opcode : UInt8) (se : Bool) (padcnt : UInt8)
  (destqp : UInt32) (ack : Bool) (psn : UInt32)

theorem setBthCalls_apply :
    (setBthCalls qpType opcode se padcnt destqp ack psn).foldl BthSet.apply bth =
      roceNetpktSetBth bth qpType opcode se padcnt destqp ack psn := rfl

/-- The fields side by side. -/
def laidOut : IbBth where
  opcode := (roceQpTypeToIb qpType <<< 5) ||| opcode
  flags := (if se then ibBthSeMask else 0) ||| (padcnt <<< 4)
  pkey := rocePkey
  u32_1 := destqp
  u32_2 := (if ack then ibBthAckMask else 0) ||| psn

theorem roceQpTypeToIb_lt : roceQpTypeToIb qpType < 8 := by
  cases qpType <;> decide

theorem or_and8 (m m' x : UInt8) : (m &&& x) ||| (m' &&& x) = (m ||| m') &&& x := by
  apply UInt8.eq_of_toBitVec_eq
  ext i hi
  simp only [UInt8.toBitVec_and, UInt8.toBitVec_or, BitVec.getElem_and, BitVec.getElem_or]
  rw [Bool.and_or_distrib_right]

theorem or_and32 (m m' x : UInt32) : (m &&& x) ||| (m' &&& x) = (m ||| m') &&& x := by
  apply UInt32.eq_of_toBitVec_eq
  ext i hi
  simp only [UInt32.toBitVec_and, UInt32.toBitVec_or, BitVec.getElem_and, BitVec.getElem_or]
  rw [Bool.and_or_distrib_right]

/-- The masks of a word leave no bit out. -/
theorem flags_split (x : UInt8) :
    (ibBthSeMask &&& x) ||| (ibBthMigMask &&& x) ||| (ibBthPadcntMask &&& x) |||
      (ibBthTverMask &&& x) = x := by
  rw [or_and8, or_and8, or_and8]
  exact UInt8.neg_one_and

theorem u32_1_split (x : UInt32) :
    (ibBthFecnMask &&& x) ||| (ibBthBecnMask &&& x) ||| (ibBthResv1Mask &&& x) |||
      (ibBthDestqpMask &&& x) = x := by
  rw [or_and32, or_and32, or_and32]
  exact UInt32.neg_one_and

theorem u32_2_split (x : UInt32) :
    (ibBthAckMask &&& x) ||| (ibBthResv2Mask &&& x) ||| (ibBthPsnMask &&& x) = x := by
  rw [or_and32, or_and32]
  exact UInt32.neg_one_and

/-- Nothing of the prior header is left. -/
theorem roceNetpktSetBth_laidOut (hpad : padcnt < 4) (hdest : destqp < 0x1000000) (hpsn : psn < 0x1000000) :
    roceNetpktSetBth bth qpType opcode se padcnt destqp ack psn =
      laidOut qpType opcode se padcnt destqp ack psn := by
  have hkeep : ibBthPadcntMask &&& (padcnt <<< 4) = padcnt <<< 4 := by
    have hall : ∀ k : Fin 4, ibBthPadcntMask &&& (UInt8.ofNat k <<< 4) = UInt8.ofNat k <<< 4 := by decide
    have hk := hall ⟨padcnt.toNat, UInt8.lt_iff_toNat_lt.mp hpad⟩
    rwa [UInt8.ofNat_toNat] at hk
  have hflags : setField8 ibBthTverMask 0 (setField8 ibBthPadcntMask (padcnt <<< 4)
      (setFlag8 ibBthMigMask (setFlag8 ibBthSeMask bth.flags se) false)) =
      (if se then ibBthSeMask else 0) ||| (padcnt <<< 4) := by
    rw [← flags_split (setField8 _ _ _)]
    simp (disch := decide) only [and_setField8, and_setField8_of_disjoint, and_setFlag8,
      and_setFlag8_of_disjoint, hkeep, Bool.false_eq_true, if_false, UInt8.or_zero, UInt8.and_zero]
  have hword1 : setField ibBthDestqpMask destqp (setFlag ibBthResv1Mask
      (setFlag ibBthBecnMask (setFlag ibBthFecnMask bth.u32_1 false) false) false) = destqp := by
    have hkeep : ibBthDestqpMask &&& destqp = destqp := mask24 hdest
    rw [← u32_1_split (setField _ _ _)]
    simp (disch := decide) only [and_setField, and_setField_outside, and_setFlag, and_setFlag_of_disjoint,
      hkeep, Bool.false_eq_true, if_false, UInt32.zero_or]
  have hword2 :
      setField ibBthPsnMask psn (setFlag ibBthResv2Mask (setFlag ibBthAckMask bth.u32_2 ack) false) =
      (if ack then ibBthAckMask else 0) ||| psn := by
    have hkeep : ibBthPsnMask &&& psn = psn := mask24 hpsn
    rw [← u32_2_split (setField _ _ _)]
    simp (disch := decide) only [and_setField, and_setField_outside, and_setFlag, and_setFlag_of_disjoint,
      hkeep, Bool.false_eq_true, if_false, UInt32.or_zero]
  have hwords : roceNetpktSetBth bth qpType opcode se padcnt destqp ack psn =
      ⟨(roceQpTypeToIb qpType <<< 5) ||| opcode,
        setField8 ibBthTverMask 0 (setField8 ibBthPadcntMask (padcnt <<< 4)
          (setFlag8 ibBthMigMask (setFlag8 ibBthSeMask bth.flags se) false)), rocePkey,
        setField ibBthDestqpMask destqp (setFlag ibBthResv1Mask
          (setFlag ibBthBecnMask (setFlag ibBthFecnMask bth.u32_1 false) false) false),
        setField ibBthPsnMask psn (setFlag ibBthResv2Mask (setFlag ibBthAckMask bth.u32_2 ack) false)⟩ := rfl
  rw [hwords, hflags, hword1, hword2]
  rfl

/-- A word whose highest byte is a flag, in network order. -/
theorem toBE_flag (b : Bool) {val : UInt32} (h : val < 0x1000000) :
    Bytes.toBE 4 ((if b then ibBthAckMask else 0) ||| val).toNat =
      (if b then (0x80 : UInt8) else 0) :: Bytes.toBE 3 val.toNat := by
  have hlt : val.toNat < 2 ^ 24 := UInt32.lt_iff_toNat_lt.mp h
  have hcons : ∀ n, Bytes.toBE 4 n =
      [(n / 256 / 256 / 256).toUInt8, (n / 256 / 256).toUInt8, (n / 256).toUInt8, n.toUInt8] := fun n => rfl
  have hcons3 : ∀ n, Bytes.toBE 3 n = [(n / 256 / 256).toUInt8, (n / 256).toUInt8, n.toUInt8] := fun n => rfl
  have hmod : ∀ m n : Nat, m % 256 = n % 256 → m.toUInt8 = n.toUInt8 := fun m n h => UInt8.toNat_inj.mp h
  rw [hcons, hcons3, UInt32.toNat_or]
  cases b with
  | false =>
    have hor : (0 : UInt32).toNat ||| val.toNat = val.toNat := Nat.zero_or _
    rw [if_neg Bool.false_ne_true, if_neg Bool.false_ne_true, hor,
      hmod (val.toNat / 256 / 256 / 256) 0 (by omega)]
    rfl
  | true =>
    have hor : (ibBthAckMask).toNat ||| val.toNat = 2 ^ 31 + val.toNat := by
      have hadd := Nat.two_pow_add_eq_or_of_lt (show val.toNat < 2 ^ 31 by omega) 1
      rw [Nat.mul_one] at hadd
      exact hadd.symm
    rw [if_pos rfl, if_pos rfl, hor, hmod ((2 ^ 31 + val.toNat) / 256 / 256 / 256) 0x80 (by omega),
      hmod ((2 ^ 31 + val.toNat) / 256 / 256) (val.toNat / 256 / 256) (by omega),
      hmod ((2 ^ 31 + val.toNat) / 256) (val.toNat / 256) (by omega),
      hmod (2 ^ 31 + val.toNat) val.toNat (by omega)]
    rfl

/-- `roce_netpkt_set_bth` on the words of the host -/
def RawBth.setBth (host : ByteOrder) (raw : RawBth) : RawBth :=
  (setBthCalls qpType opcode se padcnt destqp ack psn).foldl (BthSet.store host) raw

/-- What is set. -/
def setBthValues : BthValues :=
  ⟨roceQpTypeToIb qpType, opcode, se, false, padcnt, 0, rocePkey, false, false, destqp, ack, psn⟩

/-- **The BTH.**  Whatever the twelve bytes were, on a host of either byte order
`roce_netpkt_set_bth` leaves the fields side by side in network order; the
getters return what was set, and after any further setters each the value its
field was given last. -/
theorem roceNetpktSetBth_values (host : ByteOrder) (raw : RawBth) (hop : opcode < 32) (hpad : padcnt < 4)
    (hdest : destqp < 0x1000000) (hpsn : psn < 0x1000000) :
    (raw.setBth qpType opcode se padcnt destqp ack psn host).bytes host =
      [(roceQpTypeToIb qpType <<< 5) ||| opcode, (if se then (0x80 : UInt8) else 0) ||| (padcnt <<< 4),
        0xff, 0xff, 0] ++
        Bytes.toBE 3 destqp.toNat ++ [if ack then (0x80 : UInt8) else 0] ++ Bytes.toBE 3 psn.toNat ∧
    ((raw.setBth qpType opcode se padcnt destqp ack psn host).header host).values =
      setBthValues qpType opcode se padcnt destqp ack psn ∧
    ∀ ops : List BthSet, (∀ op ∈ ops, op.Fits) →
      ((ops.foldl (BthSet.store host)
          (raw.setBth qpType opcode se padcnt destqp ack psn host)).header host).values =
        ops.foldl BthSet.update (setBthValues qpType opcode se padcnt destqp ack psn) := by
  have hcalls : ∀ op ∈ setBthCalls qpType opcode se padcnt destqp ack psn, op.Fits := by
    intro op hmem
    refine List.forall_iff_forall_mem.mp ?_ op hmem
    exact ⟨⟨roceQpTypeToIb_lt qpType, hop⟩, trivial, trivial, hpad, (by decide : (0 : UInt8) < 16), trivial,
      trivial, trivial, trivial, hdest, trivial, trivial, hpsn⟩
  have hvalues : ((raw.setBth qpType opcode se padcnt destqp ack psn host).header host).values =
      setBthValues qpType opcode se padcnt destqp ack psn := by
    unfold RawBth.setBth
    rw [header_stores, values_applies hcalls]
    rfl
  refine ⟨?_, hvalues, fun ops hops => ?_⟩
  · have hnone := toBE_flag false hdest
    rw [if_neg Bool.false_ne_true, if_neg Bool.false_ne_true, UInt32.zero_or] at hnone
    unfold RawBth.setBth
    rw [RawBth.bytes_header, header_stores, setBthCalls_apply,
      roceNetpktSetBth_laidOut _ _ _ _ _ _ _ _ hpad hdest hpsn, ibBthCodec_enc]
    unfold laidOut
    simp only [hnone, toBE_flag ack hpsn]
    rfl
  · rw [header_stores, values_applies hops, hvalues]

end setBthBytes

/-- Bytes that were all ones, and two setters later. -/
theorem roceNetpktSetBth_values_ones :
    (RawBth.setBth .ud 0x04 true 3 0x123456 true 0xabcdef .little
        ⟨0xff, 0xff, 0xffff, 0xffffffff, 0xffffffff⟩).bytes .little =
      [0x64, 0xb0, 0xff, 0xff, 0, 0x12, 0x34, 0x56, 0x80, 0xab, 0xcd, 0xef] ∧
    (([BthSet.becn true, BthSet.psn 7].foldl (BthSet.store .little)
        (RawBth.setBth .ud 0x04 true 3 0x123456 true 0xabcdef .little
          ⟨0xff, 0xff, 0xffff, 0xffffffff, 0xffffffff⟩)).header .little).values =
      ⟨3, 4, true, false, 3, 0, 0xffff, false, true, 0x123456, true, 7⟩ := by
  obtain ⟨hbytes, -, hops⟩ := roceNetpktSetBth_values .ud 0x04 true 3 0x123456 true 0xabcdef .little
    ⟨0xff, 0xff, 0xffff, 0xffffffff, 0xffffffff⟩ (by decide) (by decide) (by decide) (by decide)
  refine ⟨hbytes.trans (by decide), hops _ fun op hop => ?_⟩
  rcases List.mem_cons.mp hop with rfl | hop
  · trivial
  · obtain rfl := List.mem_singleton.mp hop
    show (7 : UInt32) < 0x1000000
    decide

end Libroce
