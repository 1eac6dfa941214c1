import Libroce.Crc
import Libroce.Lib.ReflectedCrc

/-!
# The ICRC and its specification

`crc.c` once more, with its loops and its `struct iovec`s as they stand, against
the definition of the check bit by bit.

    the loops over 8, 4 and 1 bytes  =  one fold        (roceCrc32Loops_eq)
    the fold by the table            =  bit by bit      (roceCrc32Buf_register)

Main statement: `roceCrc32Pkt_spec`.
-/

namespace Libroce

/-! ## The loops -/

/-- `roce_crc32_2` -/
def roceCrc32Two (crc : UInt32) (a b : UInt8) : UInt32 := roceCrc32One (roceCrc32One crc a) b

/-- `roce_crc32_4` -/
def roceCrc32Four (crc : UInt32) (a b c d : UInt8) : UInt32 :=
  roceCrc32Two (roceCrc32Two crc a b) c d

/-- `roce_crc32_8` -/
def roceCrc32Eight (crc : UInt32) (a b c d e f g h : UInt8) : UInt32 :=
  roceCrc32Four (roceCrc32Four crc a b c d) e f g h

/-- `while (len >= 8)`: the register and what is left of the buffer. -/
def crcLoopEight : UInt32 → List UInt8 → UInt32 × List UInt8
  | crc, a :: b :: c :: d :: e :: f :: g :: h :: buf =>
    crcLoopEight (roceCrc32Eight crc a b c d e f g h) buf
  | crc, buf => (crc, buf)

/-- `while (len >= 4)` -/
def crcLoopFour : UInt32 → List UInt8 → UInt32 × List UInt8
  | crc, a :: b :: c :: d :: buf => crcLoopFour (roceCrc32Four crc a b c d) buf
  | crc, buf => (crc, buf)

/-- `while (len > 0)` -/
def crcLoopOne : UInt32 → List UInt8 → UInt32
  | crc, a :: buf => crcLoopOne (roceCrc32One crc a) buf
  | crc, [] => crc

/-- `__roce_crc32` -/
def roceCrc32Loops (crc : UInt32) (buf : List UInt8) (len : UInt32) : UInt32 :=
  let (crc, buf) := crcLoopEight crc (buf.take len.toNat)
  let (crc, buf) := crcLoopFour crc buf
  crcLoopOne crc buf

theorem crcLoopEight_eq (crc : UInt32) (buf : List UInt8) :
    roceCrc32Buf (crcLoopEight crc buf).1 (crcLoopEight crc buf).2 = roceCrc32Buf crc buf := by
  induction crc, buf using crcLoopEight.induct with
  | case1 crc a b c d e f g h buf ih =>
    rw [crcLoopEight, ih]
    simp only [roceCrc32Buf, List.foldl_cons, roceCrc32Eight, roceCrc32Four, roceCrc32Two]
  | case2 crc buf hshort => rw [crcLoopEight]; exact hshort

theorem crcLoopFour_eq (crc : UInt32) (buf : List UInt8) :
    roceCrc32Buf (crcLoopFour crc buf).1 (crcLoopFour crc buf).2 = roceCrc32Buf crc buf := by
  induction crc, buf using crcLoopFour.induct with
  | case1 crc a b c d buf ih =>
    rw [crcLoopFour, ih]
    simp only [roceCrc32Buf, List.foldl_cons, roceCrc32Four, roceCrc32Two]
  | case2 crc buf hshort => rw [crcLoopFour]; exact hshort

theorem crcLoopOne_eq (crc : UInt32) (buf : List UInt8) : crcLoopOne crc buf = roceCrc32Buf crc buf := by
  induction buf generalizing crc with
  | nil => rfl
  | cons a buf ih =>
    rw [crcLoopOne, ih]
    rfl

/-- The three loops are one fold over the bytes. -/
theorem roceCrc32Loops_eq (crc : UInt32) (buf : List UInt8) (len : UInt32) :
    roceCrc32Loops crc buf len = roceCrc32Buf crc (buf.take len.toNat) := by
  unfold roceCrc32Loops
  simp only
  rw [crcLoopOne_eq, crcLoopFour_eq, crcLoopEight_eq]

/-- An `iovec` of the body: NULL with a length, or a base with its bytes. -/
inductive CrcIovec where
  | null (len : Nat)
  | buf (bytes : List UInt8)

/-- `roce_crc32`; the length is passed on as a `uint32_t`. -/
def roceCrc32Iovecs (crc : UInt32) : List CrcIovec → UInt32
  | [] => crc
  | .null _ :: iovs => roceCrc32Iovecs crc iovs
  | .buf bytes :: iovs =>
    if bytes.length = 0 then roceCrc32Iovecs crc iovs
    else roceCrc32Iovecs (roceCrc32Loops crc bytes (UInt32.ofNat bytes.length)) iovs

/-- `roce_crc32_pkt` -/
def roceCrc32PktIovecs (ip : NetHdr) (ihlbuf : List UInt8) (ihllen : UInt8) (udph : UdpHdr) (bth : IbBth)
    (iovs : List CrcIovec) : UInt32 :=
  let icrc := match ip with
    | .ip4 _ =>
      let icrc := roceCrc32Loops 0xdebb20e3 (maskIp ip).bytes 20
      if ihllen ≠ 0 then roceCrc32Loops icrc ihlbuf ihllen.toUInt32 else icrc
    | .ip6 _ => roceCrc32Loops 0xdebb20e3 (maskIp ip).bytes 40
  let icrc := roceCrc32Loops icrc (udpCodec.enc (maskUdp udph)) 8
  let icrc := roceCrc32Loops icrc (ibBthCodec.enc (maskBth bth)) 12
  ~~~(roceCrc32Iovecs icrc iovs)

/-- What an iovec contributes. -/
def CrcIovec.bytes : CrcIovec → List UInt8
  | .null _ => []
  | .buf bytes => bytes

theorem roceCrc32Iovecs_eq (crc : UInt32) {iovs : List CrcIovec}
    (h : ∀ iov ∈ iovs, iov.bytes.length < 2 ^ 32) :
    roceCrc32Iovecs crc iovs = roceCrc32Buf crc (iovs.flatMap CrcIovec.bytes) := by
  induction iovs generalizing crc with
  | nil => rfl
  | cons iov iovs ih =>
    have ih := fun crc => ih crc fun i hi => h i (List.mem_cons_of_mem _ hi)
    rw [List.flatMap_cons]
    cases iov with
    | null len => exact ih crc
    | buf bytes =>
      have hlen : bytes.length < 2 ^ 32 := h (.buf bytes) List.mem_cons_self
      rw [roceCrc32Iovecs]
      by_cases hzero : bytes.length = 0
      · rw [if_pos hzero, ih, List.length_eq_zero_iff.mp hzero]
        rfl
      · rw [if_neg hzero, ih, roceCrc32Loops_eq, UInt32.toNat_ofNat', Nat.mod_eq_of_lt hlen,
          List.take_length]
        unfold roceCrc32Buf
        rw [← List.foldl_append]
        rfl

/-! ## The specification -/

/-- The polynomial of the check, reflected. -/
def icrcPoly : BitVec 32 := 0xedb88320#32

/-- The header with the fields a router may change set to ones. -/
def icrcIp : NetHdr → NetHdr
  | .ip4 h => .ip4 { h with tos := 0xff, ttl := 0xff, checksum := 0xffff }
  | .ip6 h => .ip6 { h with u32_0 := h.u32_0 ||| 0x0fffffff, hopLimit := 0xff }

/-- The bytes under the check. -/
def icrcBytes (ip : NetHdr) (options : List UInt8) (udph : UdpHdr) (bth : IbBth) (body : List UInt8) :
    List UInt8 :=
  List.replicate 8 0xff ++ (icrcIp ip).bytes ++ options ++ udpCodec.enc { udph with checksum := 0xffff } ++
    ibBthCodec.enc { bth with u32_1 := bth.u32_1 ||| 0xff000000 } ++ body

/-- The complement of the register after these bytes, bit by bit. -/
def icrcSpec (ip : NetHdr) (options : List UInt8) (udph : UdpHdr) (bth : IbBth) (body : List UInt8) :
    UInt32 :=
  ⟨~~~(ReflectedCrc.register icrcPoly (BitVec.allOnes 32)
    ((icrcBytes ip options udph bth body).map UInt8.toBitVec))⟩

/-- An IPv6 header has its version in front. -/
def NetHdr.Versioned : NetHdr → Prop
  | .ip4 _ => True
  | .ip6 h => h.u32_0 >>> 28 = 6

/-- The IP options: IPv6 has none. -/
def NetHdr.options (ihlbuf : List UInt8) (ihllen : UInt8) : NetHdr → List UInt8
  | .ip4 _ => ihlbuf.take ihllen.toNat
  | .ip6 _ => []

/-- The table by octet. -/
def crcTable (b : BitVec 8) : BitVec 32 := (roceCrcTable.getD b.toNat 0).toBitVec

/-- Each entry of the table is eight shifts of its index. -/
theorem crcTable_eq (b : BitVec 8) : crcTable b = ReflectedCrc.shifts icrcPoly 8 (b.setWidth 32) := by
  have hall : roceCrcTable.toList.map UInt32.toBitVec =
      (List.range 256).map fun i => ReflectedCrc.shifts icrcPoly 8 (BitVec.ofNat 32 i) := by
    decide +kernel
  have hlt : b.toNat < 256 := b.isLt
  have hentry : (roceCrcTable.toList[b.toNat]?).map UInt32.toBitVec =
      some (ReflectedCrc.shifts icrcPoly 8 (BitVec.ofNat 32 b.toNat)) := by
    rw [← List.getElem?_map, hall, List.getElem?_map, List.getElem?_range hlt]
    rfl
  rw [Array.getElem?_toList] at hentry
  unfold crcTable
  rw [Array.getD_eq_getD_getElem?]
  obtain ⟨x, hx, hword⟩ := Option.map_eq_some_iff.mp hentry
  rw [hx, Option.getD_some, hword, BitVec.ofNat_toNat]

theorem roceCrc32One_toBitVec (crc : UInt32) (byte : UInt8) :
    (roceCrc32One crc byte).toBitVec =
      crcTable (crc.toBitVec.setWidth 8 ^^^ byte.toBitVec) ^^^ (crc.toBitVec >>> 8) := by
  have hindex : ((crc ^^^ byte.toUInt32) &&& 0xff).toNat =
      (crc.toBitVec.setWidth 8 ^^^ byte.toBitVec).toNat := by
    have hmask : (0xff : UInt32).toNat = 2 ^ 8 - 1 := rfl
    have hbyte : byte.toNat % 2 ^ 8 = byte.toNat := Nat.mod_eq_of_lt byte.toNat_lt
    rw [UInt32.toNat_and, hmask, Nat.and_two_pow_sub_one_eq_mod, UInt32.toNat_xor,
      UInt8.toNat_toUInt32, Nat.xor_mod_two_pow, hbyte, BitVec.toNat_xor, BitVec.toNat_setWidth]
    rfl
  unfold roceCrc32One crcTable
  rw [UInt32.toBitVec_xor, hindex]
  rfl

/-- The fold over the bytes is the register bit by bit. -/
theorem roceCrc32Buf_register (crc : UInt32) (buf : List UInt8) :
    (roceCrc32Buf crc buf).toBitVec =
      ReflectedCrc.register icrcPoly crc.toBitVec (buf.map UInt8.toBitVec) := by
  rw [ReflectedCrc.register_table icrcPoly crcTable_eq (by decide)]
  induction buf generalizing crc with
  | nil => rfl
  | cons b buf ih =>
    show (roceCrc32Buf (roceCrc32One crc b) buf).toBitVec = _
    rw [ih, roceCrc32One_toBitVec]
    rfl

/-- The precomputed seed is the register after the eight bytes of ones. -/
theorem icrcSeed : roceCrc32Buf 0xffffffff (List.replicate 8 0xff) = 0xdebb20e3 := by
  decide +kernel

/-- A word whose top four bits are 6, with all others set. -/
theorem or_low28 {x : UInt32} (h : x >>> 28 = 6) : x ||| 0x0fffffff = 0x6fffffff := by
  have hbits : x.toBitVec >>> 28 = 6#32 := congrArg UInt32.toBitVec h
  apply UInt32.toBitVec_inj.mp
  apply BitVec.eq_of_getLsbD_eq
  intro i hi
  have hor : (x ||| 0x0fffffff).toBitVec = x.toBitVec ||| 0x0fffffff#32 := rfl
  have hconst : (0x6fffffff : UInt32).toBitVec = 0x6fffffff#32 := rfl
  rw [hor, hconst, BitVec.getLsbD_or]
  by_cases hlow : i < 28
  · have hmask : ∀ j < 28, (0x0fffffff#32).getLsbD j = true ∧ (0x6fffffff#32).getLsbD j = true := by
      decide
    rw [(hmask i hlow).1, (hmask i hlow).2, Bool.or_true]
  · have htop : x.toBitVec.getLsbD i = (6#32).getLsbD (i - 28) := by
      rw [← hbits, BitVec.getLsbD_ushiftRight]
      congr 1
      omega
    have hmask : ∀ j < 4, ((6#32).getLsbD j || (0x0fffffff#32).getLsbD (28 + j)) =
        (0x6fffffff#32).getLsbD (28 + j) := by decide
    have hj := hmask (i - 28) (by omega)
    rw [show 28 + (i - 28) = i by omega] at hj
    rw [htop, hj]

theorem icrcIp_eq {ip : NetHdr} (h : ip.Versioned) : maskIp ip = icrcIp ip := by
  cases ip with
  | ip4 hdr => rfl
  | ip6 hdr =>
    have hword : ipv6VersionTcFl 6 0xff 0xffffff = hdr.u32_0 ||| 0x0fffffff := by
      rw [or_low28 h]
      rfl
    unfold maskIp icrcIp
    rw [hword]

/-- A loop over all the bytes of a buffer. -/
theorem roceCrc32Loops_all (crc : UInt32) {buf : List UInt8} {len : UInt32}
    (h : buf.length = len.toNat) : roceCrc32Loops crc buf len = roceCrc32Buf crc buf := by
  rw [roceCrc32Loops_eq, ← h, List.take_length]

/-- The headers leave one register. -/
theorem roceCrc32PktIovecs_eq (ip : NetHdr) (ihlbuf : List UInt8) (ihllen : UInt8) (udph : UdpHdr)
    (bth : IbBth) (iovs : List CrcIovec) :
    roceCrc32PktIovecs ip ihlbuf ihllen udph bth iovs =
      ~~~(roceCrc32Iovecs (roceCrc32Buf 0xffffffff (List.replicate 8 0xff ++ (maskIp ip).bytes ++
        ip.options ihlbuf ihllen ++ udpCodec.enc (maskUdp udph) ++ ibBthCodec.enc (maskBth bth))) iovs) := by
  have happend : ∀ crc xs ys, roceCrc32Buf (roceCrc32Buf crc xs) ys = roceCrc32Buf crc (xs ++ ys) := by
    intro crc xs ys
    unfold roceCrc32Buf
    rw [List.foldl_append]
  have hudp : (udpCodec.enc (maskUdp udph)).length = (8 : UInt32).toNat := udpCodec.length_enc _
  have hbth : (ibBthCodec.enc (maskBth bth)).length = (12 : UInt32).toNat := ibBthCodec.length_enc _
  unfold roceCrc32PktIovecs
  simp only
  rw [roceCrc32Loops_all _ hudp, roceCrc32Loops_all _ hbth, ← icrcSeed]
  cases ip with
  | ip4 h =>
    have hip : (maskIp (.ip4 h)).bytes.length = (20 : UInt32).toNat := ipCodec.length_enc _
    simp only [NetHdr.options]
    rw [roceCrc32Loops_all _ hip]
    by_cases hihl : ihllen = 0
    · rw [hihl]
      simp only [ne_eq, not_true_eq_false, if_false, happend, UInt8.toNat_zero, List.take_zero,
        List.append_nil]
    · rw [if_pos hihl, roceCrc32Loops_eq, UInt8.toNat_toUInt32]
      simp only [happend]
  | ip6 h =>
    have hip : (maskIp (.ip6 h)).bytes.length = (40 : UInt32).toNat := ipv6Codec.length_enc _
    simp only [NetHdr.options]
    rw [roceCrc32Loops_all _ hip]
    simp only [happend, List.append_nil]

/-- Iovecs of less than 4 GiB are checked with all their bytes. -/
theorem roceCrc32PktIovecs_short {ip : NetHdr} {ihlbuf : List UInt8} {ihllen : UInt8} {udph : UdpHdr}
    {bth : IbBth} {iovs : List (List UInt8)} (hihl : ihlbuf.length = ihllen.toNat)
    (hshort : ∀ iov ∈ iovs, iov.length < 2 ^ 32) :
    roceCrc32PktIovecs ip ihlbuf ihllen udph bth (iovs.map .buf) = roceCrc32Pkt ip ihlbuf udph bth iovs := by
  have hlen : ∀ iov ∈ iovs.map CrcIovec.buf, iov.bytes.length < 2 ^ 32 := by
    intro iov hiov
    obtain ⟨bytes, hbytes, rfl⟩ := List.mem_map.mp hiov
    exact hshort bytes hbytes
  have hbody : (iovs.map CrcIovec.buf).flatMap CrcIovec.bytes = iovs.flatten := by
    rw [List.flatMap_map]
    exact List.flatMap_id
  have happend : ∀ crc xs ys, roceCrc32Buf crc (xs ++ ys) = roceCrc32Buf (roceCrc32Buf crc xs) ys := by
    intro crc xs ys
    unfold roceCrc32Buf
    rw [List.foldl_append]
  rw [roceCrc32PktIovecs_eq, roceCrc32Iovecs_eq _ hlen, hbody]
  unfold roceCrc32Pkt
  cases ip with
  | ip4 h =>
    simp only [happend, icrcSeed, roceCrc32_eq, NetHdr.options, ← hihl, List.take_length]
  | ip6 h =>
    simp only [NetHdr.options, List.append_nil, happend, icrcSeed, roceCrc32_eq]

theorem roceCrc32PktIovecs_spec {ip : NetHdr} {iovs : List CrcIovec} (hip : ip.Versioned)
    (hlen : ∀ iov ∈ iovs, iov.bytes.length < 2 ^ 32) (ihlbuf : List UInt8) (ihllen : UInt8)
    (udph : UdpHdr) (bth : IbBth) :
    roceCrc32PktIovecs ip ihlbuf ihllen udph bth iovs =
      icrcSpec ip (ip.options ihlbuf ihllen) udph bth (iovs.flatMap CrcIovec.bytes) := by
  rw [roceCrc32PktIovecs_eq, roceCrc32Iovecs_eq _ hlen]
  unfold icrcSpec icrcBytes
  apply UInt32.toBitVec_inj.mp
  rw [UInt32.toBitVec_not, roceCrc32Buf_register, roceCrc32Buf_register,
    ← ReflectedCrc.register_append, ← List.map_append, icrcIp_eq hip]
  rfl

/-- Headers that differ in the masked fields only. -/
structure SameUnmasked (ip ip' : NetHdr) (udph udph' : UdpHdr) (bth bth' : IbBth) : Prop where
  ip : icrcIp ip' = icrcIp ip
  udp : ({ udph' with checksum := 0xffff } : UdpHdr) = { udph with checksum := 0xffff }
  bth : ({ bth' with u32_1 := bth'.u32_1 ||| 0xff000000 } : IbBth) =
    { bth with u32_1 := bth.u32_1 ||| 0xff000000 }

theorem NetHdr.options_congr {ip ip' : NetHdr} (h : icrcIp ip' = icrcIp ip) (ihlbuf : List UInt8)
    (ihllen : UInt8) : ip'.options ihlbuf ihllen = ip.options ihlbuf ihllen := by
  cases ip <;> cases ip' <;> first | rfl | cases h

/-- **The ICRC.**  For iovecs shorter than 4 GiB `roce_crc32_pkt` returns the
check of the specification.  It depends neither on how the body is cut into
iovecs nor on what the masked fields held. -/
theorem roceCrc32Pkt_spec {ip : NetHdr} {iovs : List CrcIovec} (hip : ip.Versioned)
    (hlen : ∀ iov ∈ iovs, iov.bytes.length < 2 ^ 32) (ihlbuf : List UInt8) (ihllen : UInt8)
    (udph : UdpHdr) (bth : IbBth) :
    roceCrc32PktIovecs ip ihlbuf ihllen udph bth iovs =
        icrcSpec ip (ip.options ihlbuf ihllen) udph bth (iovs.flatMap CrcIovec.bytes) ∧
      ∀ ip' iovs' udph' bth', ip'.Versioned → (∀ iov ∈ iovs', iov.bytes.length < 2 ^ 32) →
        SameUnmasked ip ip' udph udph' bth bth' →
        iovs'.flatMap CrcIovec.bytes = iovs.flatMap CrcIovec.bytes →
        roceCrc32PktIovecs ip' ihlbuf ihllen udph' bth' iovs' =
          roceCrc32PktIovecs ip ihlbuf ihllen udph bth iovs := by
  refine ⟨roceCrc32PktIovecs_spec hip hlen ihlbuf ihllen udph bth, ?_⟩
  intro ip' iovs' udph' bth' hip' hlen' hsame hbytes
  rw [roceCrc32PktIovecs_spec hip hlen, roceCrc32PktIovecs_spec hip' hlen', hbytes,
    NetHdr.options_congr hsame.ip]
  unfold icrcSpec icrcBytes
  rw [hsame.ip, hsame.udp, hsame.bth]

/-- A buffer of 4 GiB: its length is 0 as a `uint32_t`. -/
theorem roceCrc32Iovecs_wraps (crc : UInt32) {buf : List UInt8} (h : buf.length = 2 ^ 32) :
    roceCrc32Iovecs crc [.buf buf] = crc := by
  have hzero : UInt32.ofNat buf.length = 0 := by
    rw [h]
    rfl
  have hne : buf.length ≠ 0 := by omega
  rw [roceCrc32Iovecs, if_neg hne, hzero, roceCrc32Loops_eq]
  rfl

/-- Two such buffers that differ in their last byte get one check from the code,
and two from the specification. -/
theorem roceCrc32Pkt_spec_long :
    ¬ ∀ (ip : NetHdr) (ihlbuf : List UInt8) (ihllen : UInt8) (udph : UdpHdr) (bth : IbBth)
      (iovs : List CrcIovec), ip.Versioned →
      roceCrc32PktIovecs ip ihlbuf ihllen udph bth iovs =
        icrcSpec ip (ip.options ihlbuf ihllen) udph bth (iovs.flatMap CrcIovec.bytes) := by
  intro hclaim
  have hspec := fun n b => hclaim (.ip4 ⟨0x45, 0, 0, 0, 0, 0, 0, 0, 0, 0⟩) [] 0 ⟨0, 0, 0, 0⟩ ⟨0, 0, 0, 0, 0⟩
    [.buf (List.replicate n 0 ++ [b])] trivial
  have hlen : ∀ b : UInt8, (List.replicate (2 ^ 32 - 1) (0 : UInt8) ++ [b]).length = 2 ^ 32 := by
    intro b
    rw [List.length_append, List.length_replicate, List.length_singleton]
    decide
  have hcode : ∀ b, roceCrc32PktIovecs (.ip4 ⟨0x45, 0, 0, 0, 0, 0, 0, 0, 0, 0⟩) [] 0 ⟨0, 0, 0, 0⟩
      ⟨0, 0, 0, 0, 0⟩ [.buf (List.replicate (2 ^ 32 - 1) 0 ++ [b])] =
      roceCrc32PktIovecs (.ip4 ⟨0x45, 0, 0, 0, 0, 0, 0, 0, 0, 0⟩) [] 0 ⟨0, 0, 0, 0⟩
        ⟨0, 0, 0, 0, 0⟩ [] := by
    intro b
    unfold roceCrc32PktIovecs
    simp only [roceCrc32Iovecs_wraps _ (hlen b)]
    rfl
  have hne : ReflectedCrc.shifts icrcPoly 8 ((0#8).setWidth 32) ≠
      ReflectedCrc.shifts icrcPoly 8 ((1#8).setWidth 32) := by decide
  generalize 2 ^ 32 - 1 = n at hcode
  have heq := (hspec n 0).symm.trans (((hcode 0).trans (hcode 1).symm).trans (hspec n 1))
  unfold icrcSpec icrcBytes at heq
  have hreg := BitVec.not_inj.mp (congrArg UInt32.toBitVec heq)
  simp only [List.flatMap_cons, List.flatMap_nil, CrcIovec.bytes, List.append_nil, ← List.append_assoc,
    List.map_append, List.map_cons, List.map_nil] at hreg
  exact ReflectedCrc.register_concat_ne icrcPoly hne _ _ hreg

/-- Three bytes in two pieces, a NULL and an empty iovec between them. -/
theorem roceCrc32Pkt_spec_pieces :
    roceCrc32PktIovecs (.ip6 ⟨0x60000000, 0, 0, 0, Vector.replicate 16 0, Vector.replicate 16 0⟩) [] 0
        ⟨0, 0, 0, 0⟩ ⟨0, 0, 0, 0, 0⟩ [.buf [1, 2], .null 7, .buf [], .buf [3]] =
      icrcSpec (.ip6 ⟨0x60000000, 0, 0, 0, Vector.replicate 16 0, Vector.replicate 16 0⟩) []
        ⟨0, 0, 0, 0⟩ ⟨0, 0, 0, 0, 0⟩ [1, 2, 3] := by
  have hip : (NetHdr.ip6 ⟨0x60000000, 0, 0, 0, Vector.replicate 16 0, Vector.replicate 16 0⟩).Versioned :=
    show (0x60000000 : UInt32) >>> 28 = 6 by decide
  exact (roceCrc32Pkt_spec hip (by decide) [] 0 _ _).1

end Libroce
