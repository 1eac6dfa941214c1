import Libroce.Lib.OnesComplement
import Libroce.Netpkt

/-!
# The header checksum

`checksum.h` on a host of either byte order: the words of a header, the 32-bit
sum over them and the loop that folds its carries.

    roceChecksumOn .little buf = roceChecksum buf
    roceChecksumOn host (storeWord host buf i (roceChecksumOn host buf)) = 0

Main statement: `roceChecksum_verifies`.
-/

namespace Libroce

open OnesComplement

/-! ## Words -/

inductive ByteOrder where
  | little
  | big
  deriving DecidableEq

/-- Two bytes as a host of this order reads them. -/
def ByteOrder.word : ByteOrder → UInt8 → UInt8 → UInt16
  | .little, b0, b1 => UInt16.ofNat (b0.toNat + 256 * b1.toNat)
  | .big, b0, b1 => UInt16.ofNat (b1.toNat + 256 * b0.toNat)

/-- A word as a host of this order stores it. -/
def ByteOrder.bytes : ByteOrder → UInt16 → List UInt8
  | .little, w => Bytes.toLE 2 w.toNat
  | .big, w => Bytes.toBE 2 w.toNat

/-- The words `roce_checksum` reads; an odd byte at the end is left out. -/
def words (host : ByteOrder) : List UInt8 → List UInt16
  | b0 :: b1 :: rest => host.word b0 b1 :: words host rest
  | _ => []

/-- `addr[i] = w` -/
def storeWord (host : ByteOrder) (buf : List UInt8) (i : Nat) (w : UInt16) : List UInt8 :=
  buf.take (2 * i) ++ host.bytes w ++ buf.drop (2 * i + 2)

/-- `while (len > 1) sum += *addr++` -/
def checksumAdd (sum : UInt32) : List UInt16 → UInt32
  | [] => sum
  | w :: ws => checksumAdd (sum + w.toUInt32) ws

/-- `sum = (sum & 0xffff) + (sum >> 16)` -/
def checksumCarry (sum : UInt32) : UInt32 := (sum &&& (0xffff : UInt32)) + (sum >>> (16 : UInt32))

theorem checksumCarry_toNat (sum : UInt32) : (checksumCarry sum).toNat = carry 65536 sum.toNat := by
  have hlt := sum.toNat_lt
  have hand : (sum &&& (0xffff : UInt32)).toNat = sum.toNat % 65536 := by
    rw [UInt32.toNat_and]
    exact Nat.and_two_pow_sub_one_eq_mod sum.toNat 16
  have hshift : (sum >>> (16 : UInt32)).toNat = sum.toNat / 65536 := by
    rw [UInt32.toNat_shiftRight]
    exact Nat.shiftRight_eq_div_pow sum.toNat 16
  unfold checksumCarry carry
  rw [UInt32.toNat_add, hand, hshift, Nat.mod_eq_of_lt (by omega)]

theorem shiftRight_eq_zero_iff (sum : UInt32) : sum >>> (16 : UInt32) = 0 ↔ sum.toNat < 65536 := by
  have hshift : (sum >>> (16 : UInt32)).toNat = sum.toNat / 65536 := by
    rw [UInt32.toNat_shiftRight]
    exact Nat.shiftRight_eq_div_pow sum.toNat 16
  rw [← UInt32.toNat_inj, hshift]
  show sum.toNat / 65536 = 0 ↔ _
  omega

/-- `while (sum >> 16) sum = (sum & 0xffff) + (sum >> 16)` -/
def checksumFold (sum : UInt32) : UInt32 :=
  if sum >>> (16 : UInt32) = 0 then sum else checksumFold (checksumCarry sum)
termination_by sum.toNat
decreasing_by
  rename_i hfold
  rw [checksumCarry_toNat]
  rw [shiftRight_eq_zero_iff] at hfold
  exact carry_lt (by decide) (by omega)

/-- `roce_checksum` on a host of either order -/
def roceChecksumOn (host : ByteOrder) (buf : List UInt8) : UInt16 :=
  (~~~(checksumFold (checksumAdd 0 (words host buf)))).toUInt16

/-! ## The sum and its folding -/

/-- The words added up, without a width. -/
def wordSum (ws : List UInt16) : Nat := (ws.map (·.toNat)).sum

theorem checksumAdd_toNat {sum : UInt32} {ws : List UInt16} (h : sum.toNat + 65535 * ws.length < 2 ^ 32) :
    (checksumAdd sum ws).toNat = sum.toNat + wordSum ws := by
  induction ws generalizing sum with
  | nil => rfl
  | cons w ws ih =>
    have hw := w.toNat_lt
    rw [List.length_cons] at h
    have hadd : (sum + w.toUInt32).toNat = sum.toNat + w.toNat := by
      rw [UInt32.toNat_add, UInt16.toNat_toUInt32, Nat.mod_eq_of_lt (by omega)]
    rw [checksumAdd, ih (by omega), hadd]
    show sum.toNat + w.toNat + wordSum ws = sum.toNat + (w.toNat + wordSum ws)
    omega

theorem checksumFold_toNat (sum : UInt32) : (checksumFold sum).toNat = endAround 65536 sum.toNat := by
  induction sum using checksumFold.induct with
  | case1 sum hdone =>
    rw [checksumFold, if_pos hdone, endAround_of_lt ((shiftRight_eq_zero_iff sum).mp hdone)]
  | case2 sum hmore ih =>
    have hle : 65536 ≤ sum.toNat := by
      rw [shiftRight_eq_zero_iff] at hmore
      omega
    rw [checksumFold, if_neg hmore, ih, checksumCarry_toNat, endAround_of_le (by decide) hle]

/-- The loop folds at most twice. -/
theorem checksumFold_turns (sum : UInt32) :
    ∃ n ≤ 2, checksumFold sum = checksumCarry^[n] sum ∧ checksumFold sum >>> (16 : UInt32) = 0 ∧
      ∀ m < n, checksumCarry^[m] sum >>> (16 : UInt32) ≠ 0 := by
  have hlt := sum.toNat_lt
  have honce := checksumCarry_toNat sum
  have htwice := checksumCarry_toNat (checksumCarry sum)
  rw [honce] at htwice
  unfold carry at honce htwice
  by_cases h0 : sum >>> (16 : UInt32) = 0
  · refine ⟨0, by omega, ?_, ?_, fun m hm => absurd hm (Nat.not_lt_zero m)⟩
    · rw [checksumFold, if_pos h0]
      rfl
    · rw [checksumFold, if_pos h0]
      exact h0
  · by_cases h1 : checksumCarry sum >>> (16 : UInt32) = 0
    · refine ⟨1, by omega, ?_, ?_, fun m hm => ?_⟩
      · rw [checksumFold, if_neg h0, checksumFold, if_pos h1]
        rfl
      · rw [checksumFold, if_neg h0, checksumFold, if_pos h1]
        exact h1
      · obtain rfl : m = 0 := by omega
        exact h0
    · have h2 : checksumCarry (checksumCarry sum) >>> (16 : UInt32) = 0 := by
        rw [shiftRight_eq_zero_iff] at h1 ⊢
        omega
      refine ⟨2, by omega, ?_, ?_, fun m hm => ?_⟩
      · rw [checksumFold, if_neg h0, checksumFold, if_neg h1, checksumFold, if_pos h2]
        rfl
      · rw [checksumFold, if_neg h0, checksumFold, if_neg h1, checksumFold, if_pos h2]
        exact h2
      · have hm : m = 0 ∨ m = 1 := by omega
        rcases hm with rfl | rfl
        · exact h0
        · exact h1

/-! ## Buffers -/

theorem length_words (host : ByteOrder) (buf : List UInt8) : (words host buf).length = buf.length / 2 := by
  induction buf using words.induct with
  | case1 b0 b1 rest ih =>
    rw [words, List.length_cons, ih, List.length_cons, List.length_cons]
    omega
  | case2 buf hshort =>
    cases buf with
    | nil => rfl
    | cons b0 rest =>
      cases rest with
      | nil => simp [words]
      | cons b1 rest => exact absurd rfl (hshort b0 b1 rest)

theorem ByteOrder.length_bytes (host : ByteOrder) (w : UInt16) : (host.bytes w).length = 2 := by
  cases host with
  | little => exact Bytes.length_toLE 2 _
  | big => exact Bytes.length_toBE 2 _

/-- What is stored is what is read. -/
theorem ByteOrder.words_bytes (host : ByteOrder) (w : UInt16) (rest : List UInt8) :
    words host (host.bytes w ++ rest) = w :: words host rest := by
  have hlo : (w.toNat.toUInt8).toNat = w.toNat % 256 := UInt8.toNat_ofNat'
  have hhi : ((w.toNat / 256).toUInt8).toNat = w.toNat / 256 % 256 := UInt8.toNat_ofNat'
  have hlt := w.toNat_lt
  have hword : UInt16.ofNat (w.toNat.toUInt8.toNat + 256 * (w.toNat / 256).toUInt8.toNat) = w := by
    rw [hlo, hhi, ← UInt16.toNat_inj, UInt16.toNat_ofNat']
    omega
  cases host with
  | little => exact congrArg (· :: words .little rest) hword
  | big => exact congrArg (· :: words .big rest) hword

theorem length_storeWord {host : ByteOrder} {buf : List UInt8} {i : Nat} {w : UInt16}
    (h : 2 * i + 2 ≤ buf.length) : (storeWord host buf i w).length = buf.length := by
  unfold storeWord
  rw [List.length_append, List.length_append, List.length_take, List.length_drop, host.length_bytes]
  omega

/-- A store changes one word. -/
theorem words_storeWord {host : ByteOrder} {buf : List UInt8} {i : Nat} {w : UInt16}
    (h : 2 * i + 2 ≤ buf.length) : words host (storeWord host buf i w) = (words host buf).set i w := by
  induction i generalizing buf with
  | zero =>
    cases buf with
    | nil => exact absurd h (by simp)
    | cons b0 buf =>
      cases buf with
      | nil => exact absurd h (by simp)
      | cons b1 rest =>
        show words host (host.bytes w ++ rest) = (host.word b0 b1 :: words host rest).set 0 w
        rw [host.words_bytes, List.set_cons_zero]
  | succ i ih =>
    cases buf with
    | nil => exact absurd h (by simp)
    | cons b0 buf =>
      cases buf with
      | nil => exact absurd h (by simp)
      | cons b1 rest =>
        rw [List.length_cons, List.length_cons] at h
        have hstore : storeWord host (b0 :: b1 :: rest) (i + 1) w = b0 :: b1 :: storeWord host rest i w := rfl
        rw [hstore, words, words, ih (by omega), List.set_cons_succ]

/-- Storing over a word that is zero adds to the sum. -/
theorem wordSum_set {ws : List UInt16} {i : Nat} {w : UInt16} (h : ws[i]? = some 0) :
    wordSum (ws.set i w) = wordSum ws + w.toNat := by
  induction ws generalizing i with
  | nil => cases h
  | cons w' ws ih =>
    cases i with
    | zero =>
      obtain rfl := Option.some.inj h
      show w.toNat + wordSum ws = 0 + wordSum ws + w.toNat
      omega
    | succ i =>
      show w'.toNat + wordSum (ws.set i w) = w'.toNat + wordSum ws + w.toNat
      rw [ih h]
      omega

/-- The checksum is the complement of the digit that is left. -/
theorem roceChecksumOn_toNat {host : ByteOrder} {buf : List UInt8} (h : buf.length ≤ 2 ^ 17) :
    (roceChecksumOn host buf).toNat = 65535 - endAround 65536 (wordSum (words host buf)) := by
  have hlen := length_words host buf
  have hzero : (0 : UInt32).toNat = 0 := rfl
  have hadd : (checksumAdd 0 (words host buf)).toNat = wordSum (words host buf) := by
    rw [checksumAdd_toNat (by rw [hzero]; omega), hzero, Nat.zero_add]
  have hfold := checksumFold_toNat (checksumAdd 0 (words host buf))
  obtain ⟨hdigit, -⟩ := endAround_spec (show 1 < 65536 by decide) (wordSum (words host buf))
  rw [hadd] at hfold
  unfold roceChecksumOn
  rw [UInt32.toNat_toUInt16, UInt32.toNat_not, hfold]
  show (2 ^ 32 - 1 - endAround 65536 (wordSum (words host buf))) % 2 ^ 16 = _
  omega

/-- A checksum of zero: the words are not all zero, and their sum is a multiple
of 65535. -/
theorem roceChecksumOn_eq_zero {host : ByteOrder} {buf : List UInt8} (h : buf.length ≤ 2 ^ 17) :
    roceChecksumOn host buf = 0 ↔ 0 < wordSum (words host buf) ∧ 65535 ∣ wordSum (words host buf) := by
  obtain ⟨hdigit, -⟩ := endAround_spec (show 1 < 65536 by decide) (wordSum (words host buf))
  have hmax : endAround 65536 (wordSum (words host buf)) = 65535 ↔ _ := endAround_eq_max (by decide)
  rw [← UInt16.toNat_inj, roceChecksumOn_toNat h, ← hmax]
  show 65535 - _ = 0 ↔ _
  omega

/-! ## The other byte order -/

theorem word_big_modEq (b0 b1 : UInt8) :
    (ByteOrder.big.word b0 b1).toNat ≡ 256 * (ByteOrder.little.word b0 b1).toNat [MOD 65535] := by
  have h0 := b0.toNat_lt
  have h1 := b1.toNat_lt
  have hbig : (ByteOrder.big.word b0 b1).toNat = b1.toNat + 256 * b0.toNat := by
    unfold ByteOrder.word
    rw [UInt16.toNat_ofNat', Nat.mod_eq_of_lt (by omega)]
  have hlittle : (ByteOrder.little.word b0 b1).toNat = b0.toNat + 256 * b1.toNat := by
    unfold ByteOrder.word
    rw [UInt16.toNat_ofNat', Nat.mod_eq_of_lt (by omega)]
  rw [hbig, hlittle]
  exact swap_modEq (show 0 < 256 by decide) b0.toNat b1.toNat

theorem word_pos_iff (b0 b1 : UInt8) :
    (ByteOrder.big.word b0 b1).toNat = 0 ↔ (ByteOrder.little.word b0 b1).toNat = 0 := by
  have h0 := b0.toNat_lt
  have h1 := b1.toNat_lt
  unfold ByteOrder.word
  rw [UInt16.toNat_ofNat', UInt16.toNat_ofNat', Nat.mod_eq_of_lt (by omega), Nat.mod_eq_of_lt (by omega)]
  omega

/-- Reading the bytes in the other order multiplies the sum by 256. -/
theorem wordSum_big (buf : List UInt8) :
    wordSum (words .big buf) ≡ 256 * wordSum (words .little buf) [MOD 65535] ∧
      (wordSum (words .big buf) = 0 ↔ wordSum (words .little buf) = 0) := by
  induction buf using words.induct with
  | case1 b0 b1 rest ih =>
    obtain ⟨hmod, hzero⟩ := ih
    have hword := word_big_modEq b0 b1
    have hword0 := word_pos_iff b0 b1
    rw [words, words]
    show (ByteOrder.big.word b0 b1).toNat + wordSum (words .big rest) ≡
        256 * ((ByteOrder.little.word b0 b1).toNat + wordSum (words .little rest)) [MOD 65535] ∧
      ((ByteOrder.big.word b0 b1).toNat + wordSum (words .big rest) = 0 ↔
        (ByteOrder.little.word b0 b1).toNat + wordSum (words .little rest) = 0)
    rw [Nat.mul_add]
    refine ⟨hword.add hmod, ?_⟩
    omega
  | case2 buf hshort =>
    have hnil : ∀ host, words host buf = [] := by
      intro host
      cases buf with
      | nil => rfl
      | cons b0 rest =>
        cases rest with
        | nil => simp [words]
        | cons b1 rest => exact absurd rfl (hshort b0 b1 rest)
    rw [hnil, hnil]
    exact ⟨rfl, Iff.rfl⟩

/-- A receiver of either byte order finds the same headers intact. -/
theorem roceChecksumOn_order {buf : List UInt8} (h : buf.length ≤ 2 ^ 17) (host receiver : ByteOrder)
    (hzero : roceChecksumOn host buf = 0) : roceChecksumOn receiver buf = 0 := by
  obtain ⟨hmod, hsame⟩ := wordSum_big buf
  have hiff : roceChecksumOn .big buf = 0 ↔ roceChecksumOn .little buf = 0 := by
    rw [roceChecksumOn_eq_zero h, roceChecksumOn_eq_zero h]
    unfold Nat.ModEq at hmod
    omega
  cases host with
  | little =>
    cases receiver with
    | little => exact hzero
    | big => exact hiff.mpr hzero
  | big =>
    cases receiver with
    | little => exact hiff.mp hzero
    | big => exact hzero

/-- The bytes of the checksum are the same on every host. -/
theorem bytes_roceChecksumOn {buf : List UInt8} (h : buf.length ≤ 2 ^ 17) :
    ByteOrder.big.bytes (roceChecksumOn .big buf) = ByteOrder.little.bytes (roceChecksumOn .little buf) := by
  obtain ⟨hmod, hsame⟩ := wordSum_big buf
  have hbig := @roceChecksumOn_toNat .big buf h
  have hlittle := @roceChecksumOn_toNat .little buf h
  generalize wordSum (words .big buf) = sb at hmod hsame hbig
  generalize wordSum (words .little buf) = sl at hmod hsame hlittle
  generalize (roceChecksumOn .big buf) = cb at hbig ⊢
  generalize (roceChecksumOn .little buf) = cl at hlittle ⊢
  -- `cb` is `cl` with its bytes exchanged
  have hswap : cb.toNat = cl.toNat / 256 + 256 * (cl.toNat % 256) := by
    obtain ⟨hblt, hbmod, hbpos⟩ := endAround_spec (show 1 < 65536 by decide) sb
    obtain ⟨hllt, hlmod, hlpos⟩ := endAround_spec (show 1 < 65536 by decide) sl
    rcases Nat.eq_zero_or_pos sl with rfl | hpos
    · obtain rfl := hsame.mpr rfl
      rw [endAround_zero (by decide)] at hbig hlittle
      rw [hbig, hlittle]
    · have hbpos := hbpos (Nat.pos_of_ne_zero fun hz => Nat.ne_of_gt hpos (hsame.mp hz))
      have hlpos := hlpos hpos
      have hcl := swap_modEq (show 0 < 256 by decide) (cl.toNat % 256) (cl.toNat / 256)
      rw [Nat.mod_add_div] at hcl
      have hsum : cb.toNat + endAround 65536 sb = 65535 ∧ cl.toNat + endAround 65536 sl = 65535 := by omega
      unfold Nat.ModEq at hmod hbmod hlmod hcl
      have hcong : cb.toNat % 65535 = (cl.toNat / 256 + 256 * (cl.toNat % 256)) % 65535 := by omega
      omega
  have hlo : cb.toNat % 256 = cl.toNat / 256 % 256 := by
    have hlt := cl.toNat_lt
    omega
  have hhi : cb.toNat / 256 % 256 = cl.toNat % 256 := by
    have hquot : cl.toNat / 256 < 256 := by
      have hlt := cl.toNat_lt
      omega
    rw [hswap, Nat.add_mul_div_left _ _ (by decide), Nat.div_eq_of_lt hquot, Nat.zero_add, Nat.mod_mod]
  have hb0 : (cb.toNat / 256).toUInt8 = cl.toNat.toUInt8 := UInt8.toNat_inj.mp hhi
  have hb1 : cb.toNat.toUInt8 = (cl.toNat / 256).toUInt8 := UInt8.toNat_inj.mp hlo
  show [(cb.toNat / 256).toUInt8, cb.toNat.toUInt8] = [cl.toNat.toUInt8, (cl.toNat / 256).toUInt8]
  rw [hb0, hb1]

/-! ## Stored checksums -/

theorem foldCarry_eq (sum : Nat) : foldCarry sum = endAround 65536 sum := by
  induction sum using foldCarry.induct with
  | case1 sum hlt => rw [foldCarry, if_pos hlt, endAround_of_lt hlt]
  | case2 sum hge ih =>
    rw [foldCarry, if_neg hge, ih]
    exact (endAround_of_le (by decide) (Nat.le_of_not_lt hge)).symm

theorem roceChecksumOn_stored {host : ByteOrder} {buf : List UInt8} {i : Nat} (hlen : buf.length ≤ 2 ^ 17)
    (hfield : (words host buf)[i]? = some 0) :
    roceChecksumOn host (storeWord host buf i (roceChecksumOn host buf)) = 0 := by
  obtain ⟨hi, -⟩ := List.getElem?_eq_some_iff.mp hfield
  rw [length_words] at hi
  have hroom : 2 * i + 2 ≤ buf.length := by omega
  have hmax : endAround 65536
      (wordSum (words host buf) + (65536 - 1 - endAround 65536 (wordSum (words host buf)))) = 65536 - 1 :=
    endAround_complement (by decide) _
  rw [← UInt16.toNat_inj, roceChecksumOn_toNat (by rw [length_storeWord hroom]; exact hlen),
    words_storeWord hroom, wordSum_set hfield, roceChecksumOn_toNat hlen, hmax]
  rfl

theorem wordSum_little (buf : List UInt8) : wordSum (words .little buf) = (hostWords buf).sum := by
  induction buf using words.induct with
  | case1 b0 b1 rest ih =>
    have h0 := b0.toNat_lt
    have h1 := b1.toNat_lt
    have hword : (ByteOrder.little.word b0 b1).toNat = b0.toNat + 256 * b1.toNat := by
      unfold ByteOrder.word
      rw [UInt16.toNat_ofNat', Nat.mod_eq_of_lt (by omega)]
    rw [words, hostWords, List.sum_cons, ← ih, ← hword]
    rfl
  | case2 buf hshort =>
    cases buf with
    | nil => rfl
    | cons b0 rest =>
      cases rest with
      | nil => simp [words, hostWords, wordSum]
      | cons b1 rest => exact absurd rfl (hshort b0 b1 rest)

/-- On a little-endian host. -/
theorem roceChecksumOn_little {buf : List UInt8} (h : buf.length ≤ 2 ^ 17) :
    roceChecksumOn .little buf = roceChecksum buf := by
  obtain ⟨hdigit, -⟩ := endAround_spec (show 1 < 65536 by decide) (hostWords buf).sum
  rw [← UInt16.toNat_inj, roceChecksumOn_toNat h, wordSum_little]
  unfold roceChecksum
  rw [UInt16.toNat_not, UInt16.toNat_ofNat', foldCarry_eq, Nat.mod_eq_of_lt hdigit]
  rfl

/-! ## IPv4 headers -/

theorem length_ipCodec (h : IpHdr) : (ipCodec.enc h).length = 20 := ipCodec.length_enc h

theorem storeWord_checksum (h : IpHdr) (checksum : UInt16) :
    storeWord .little (ipCodec.enc { h with checksum := 0 }) 5 checksum =
      ipCodec.enc { h with checksum := checksum } := rfl

theorem words_checksum (h : IpHdr) (host : ByteOrder) :
    (words host (ipCodec.enc { h with checksum := 0 }))[5]? = some 0 := by
  have hstored : storeWord host (ipCodec.enc { h with checksum := 0 }) 5 0 =
      ipCodec.enc { h with checksum := 0 } := by
    have hzero : host.bytes 0 = ByteOrder.little.bytes 0 := by
      cases host with
      | little => rfl
      | big => decide
    unfold storeWord
    rw [hzero]
    exact storeWord_checksum h 0
  have hlen := length_ipCodec { h with checksum := 0 }
  rw [← hstored, words_storeWord (by rw [hlen]; decide), List.getElem?_set_self]
  rw [length_words, hlen]
  decide

/-- The header of `roce_netpkt_set4`, as a host of either order stores its checksum. -/
theorem netpktIp4_stored (hopLimit : UInt8) (sgid dgid : Vector UInt8 16) (payloadLen : UInt16)
    (host : ByteOrder) :
    storeWord host (ipCodec.enc { netpktIp4 hopLimit sgid dgid payloadLen with checksum := 0 }) 5
        (roceChecksumOn host (ipCodec.enc { netpktIp4 hopLimit sgid dgid payloadLen with checksum := 0 })) =
      ipCodec.enc (netpktIp4 hopLimit sgid dgid payloadLen) := by
  have hlen : (ipCodec.enc { netpktIp4 hopLimit sgid dgid payloadLen with checksum := 0 }).length ≤
    2 ^ 17 := by
    rw [length_ipCodec]
    decide
  have hlittle : storeWord .little
      (ipCodec.enc { netpktIp4 hopLimit sgid dgid payloadLen with checksum := 0 }) 5
      (roceChecksumOn .little (ipCodec.enc { netpktIp4 hopLimit sgid dgid payloadLen with checksum := 0 })) =
      ipCodec.enc (netpktIp4 hopLimit sgid dgid payloadLen) := by
    rw [storeWord_checksum, roceChecksumOn_little hlen]
    rfl
  cases host with
  | little => exact hlittle
  | big =>
    rw [← hlittle]
    unfold storeWord
    rw [bytes_roceChecksumOn hlen]

/-- **Checksums.**  On a host of either order the checksum, stored over a field
that is zero, makes the checksum zero; no prefix of the sums overflows 32 bits,
the carries are folded at most twice, and every receiver of a header that
`roce_netpkt_set4` built finds a checksum of zero. -/
theorem roceChecksum_verifies {host : ByteOrder} {buf : List UInt8} {i : Nat} (heven : buf.length % 2 = 0)
    (hlen : buf.length ≤ 2 ^ 17) (hfield : (words host buf)[i]? = some 0) :
    (roceChecksumOn host (storeWord host buf i (roceChecksumOn host buf)) = 0 ∧
      2 * (words host buf).length = buf.length) ∧
    (∀ buf', buf' = buf ∨ buf' = storeWord host buf i (roceChecksumOn host buf) →
      (∀ ws, ws <+: words host buf' → (checksumAdd 0 ws).toNat = wordSum ws) ∧
      ∃ n ≤ 2, checksumFold (checksumAdd 0 (words host buf')) =
          checksumCarry^[n] (checksumAdd 0 (words host buf')) ∧
        checksumFold (checksumAdd 0 (words host buf')) >>> (16 : UInt32) = 0 ∧
        ∀ m < n, checksumCarry^[m] (checksumAdd 0 (words host buf')) >>> (16 : UInt32) ≠ 0) ∧
    ∀ pkt dmac smac hopLimit sgid dgid payloadLen h,
      (roceNetpktSet4 pkt dmac smac hopLimit sgid dgid payloadLen).ip = .ip4 h →
      storeWord host (ipCodec.enc { h with checksum := 0 }) 5
          (roceChecksumOn host (ipCodec.enc { h with checksum := 0 })) = ipCodec.enc h ∧
        ∀ receiver, roceChecksumOn receiver (ipCodec.enc h) = 0 := by
  obtain ⟨hi, -⟩ := List.getElem?_eq_some_iff.mp hfield
  rw [length_words] at hi
  have hroom : 2 * i + 2 ≤ buf.length := by omega
  refine ⟨⟨roceChecksumOn_stored hlen hfield, ?_⟩, ?_, ?_⟩
  · rw [length_words]
    omega
  · intro buf' hbuf'
    have hlen' : buf'.length ≤ 2 ^ 17 := by
      rcases hbuf' with rfl | rfl
      · exact hlen
      · rw [length_storeWord hroom]
        exact hlen
    refine ⟨fun ws hws => ?_, ?_⟩
    · have hcount := hws.length_le
      rw [length_words] at hcount
      have hzero : (0 : UInt32).toNat = 0 := rfl
      rw [checksumAdd_toNat (by rw [hzero]; omega), hzero, Nat.zero_add]
    · exact checksumFold_turns (checksumAdd 0 (words host buf'))
  · intro pkt dmac smac hopLimit sgid dgid payloadLen h hip
    obtain rfl : netpktIp4 hopLimit sgid dgid payloadLen = h := NetHdr.ip4.inj hip
    have hsmall : ∀ h, (ipCodec.enc h).length ≤ 2 ^ 17 := by
      intro h
      rw [length_ipCodec]
      decide
    refine ⟨netpktIp4_stored hopLimit sgid dgid payloadLen host, fun receiver => ?_⟩
    apply roceChecksumOn_order (hsmall _) host receiver
    rw [← netpktIp4_stored hopLimit sgid dgid payloadLen host]
    exact roceChecksumOn_stored (hsmall _) (words_checksum _ host)

/-- Twenty bytes whose checksum field is the sixth word. -/
theorem roceChecksum_verifies_header :
    roceChecksumOn .little (storeWord .little
      (ipCodec.enc ⟨0x45, 0, 56, 0, 0x4000, 64, 17, 0, 0xc0a80001, 0xc0a800c7⟩) 5
      (roceChecksumOn .little (ipCodec.enc ⟨0x45, 0, 56, 0, 0x4000, 64, 17, 0, 0xc0a80001,
        0xc0a800c7⟩))) = 0 :=
  (roceChecksum_verifies (by decide) (by decide) (by decide)).1.1

end Libroce
