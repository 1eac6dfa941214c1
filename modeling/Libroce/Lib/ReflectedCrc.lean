import Mathlib.Data.List.Basic
import Mathlib.Data.BitVec

/-!
# Reflected cyclic redundancy checks

The register of a reflected CRC over `w` bits with the polynomial `poly` takes
the bits of a message one after the other, least significant first.  A byte at
a time, from a table of 256 words, gives the same register.

    eight bits of a byte  =  eight shifts of `c ^^^ b`          (takeBits_eq)
    eight shifts of `x`   =  table (low octet of x) ^^^ x >>> 8  (shifts_eight)
    a message             =  its bytes, by the table             (register_table)

With the highest bit of `poly` set shifts lose nothing.  Then a change within
`w` bits shows in the register, whatever follows (`register_burst`), and a message
with the complement of its register behind it leaves one fixed register
(`register_trailer`).
-/

namespace ReflectedCrc

variable {w : Nat} (poly : BitVec w)

/-- The register takes one bit. -/
def takeBit (c : BitVec w) (bit : Bool) : BitVec w :=
  if c.getLsbD 0 != bit then (c >>> 1) ^^^ poly else c >>> 1

/-- The register takes the `n` low bits of `b`. -/
def takeBits : Nat → BitVec w → BitVec w → BitVec w
  | 0, c, _ => c
  | n + 1, c, b => takeBits n (takeBit poly c (b.getLsbD 0)) (b >>> 1)

/-- The register after a message. -/
def register (c : BitVec w) (message : List (BitVec 8)) : BitVec w :=
  message.foldl (fun c b => takeBits poly 8 c (b.setWidth w)) c

/-- A shift of the register, without a bit to take. -/
def shift (c : BitVec w) : BitVec w := takeBit poly c false

def shifts : Nat → BitVec w → BitVec w
  | 0, c => c
  | n + 1, c => shifts n (shift poly c)

theorem register_append (c : BitVec w) (xs ys : List (BitVec 8)) :
    register poly c (xs ++ ys) = register poly (register poly c xs) ys := List.foldl_append

theorem xor_poly_twice (a b p : BitVec w) : a ^^^ p ^^^ (b ^^^ p) = a ^^^ b := by
  rw [BitVec.xor_comm b p, BitVec.xor_assoc a p, ← BitVec.xor_assoc p p, BitVec.xor_self,
    BitVec.zero_xor]

/-- Shifts are linear. -/
theorem shift_xor (a b : BitVec w) : shift poly (a ^^^ b) = shift poly a ^^^ shift poly b := by
  unfold shift takeBit
  rw [BitVec.getLsbD_xor, BitVec.ushiftRight_xor_distrib]
  cases a.getLsbD 0 <;> cases b.getLsbD 0
  · rfl
  · exact BitVec.xor_assoc _ _ _
  · show a >>> 1 ^^^ b >>> 1 ^^^ poly = a >>> 1 ^^^ poly ^^^ b >>> 1
    rw [BitVec.xor_assoc, BitVec.xor_comm (b >>> 1), BitVec.xor_assoc]
  · exact (xor_poly_twice _ _ _).symm

theorem shifts_xor (n : Nat) (a b : BitVec w) :
    shifts poly n (a ^^^ b) = shifts poly n a ^^^ shifts poly n b := by
  induction n generalizing a b with
  | zero => rfl
  | succ n ih => rw [shifts, shift_xor, ih, shifts, shifts]

/-- Taking a bit and shifting the other operand is shifting both at once. -/
theorem takeBit_xor (c b : BitVec w) :
    takeBit poly c (b.getLsbD 0) ^^^ (b >>> 1) = shift poly (c ^^^ b) := by
  unfold shift takeBit
  rw [BitVec.getLsbD_xor, BitVec.ushiftRight_xor_distrib]
  cases c.getLsbD 0 <;> cases b.getLsbD 0
  · rfl
  · show c >>> 1 ^^^ poly ^^^ b >>> 1 = c >>> 1 ^^^ b >>> 1 ^^^ poly
    rw [BitVec.xor_assoc, BitVec.xor_comm poly, BitVec.xor_assoc]
  · show c >>> 1 ^^^ poly ^^^ b >>> 1 = c >>> 1 ^^^ b >>> 1 ^^^ poly
    rw [BitVec.xor_assoc, BitVec.xor_comm poly, BitVec.xor_assoc]
  · rfl

/-- Taking `n` bits is `n` shifts, when there are no more bits than that. -/
theorem takeBits_eq {n : Nat} (c : BitVec w) {b : BitVec w} (hb : ∀ i, n ≤ i → b.getLsbD i = false) :
    takeBits poly n c b = shifts poly n (c ^^^ b) := by
  induction n generalizing c b with
  | zero =>
    have hzero : b = 0#w := by
      apply BitVec.eq_of_getLsbD_eq
      intro i _
      rw [hb i (Nat.zero_le i), BitVec.getLsbD_zero]
    rw [takeBits, shifts, hzero, BitVec.xor_zero]
  | succ n ih =>
    have hrest : ∀ i, n ≤ i → (b >>> 1).getLsbD i = false := by
      intro i hi
      rw [BitVec.getLsbD_ushiftRight]
      exact hb _ (by omega)
    rw [takeBits, ih _ hrest, takeBit_xor, shifts]

/-- Shifts of a word whose low bits are clear only move it down. -/
theorem shifts_clear {n : Nat} {x : BitVec w} (hx : ∀ i, i < n → x.getLsbD i = false) :
    shifts poly n x = x >>> n := by
  induction n generalizing x with
  | zero => rw [shifts, BitVec.ushiftRight_zero]
  | succ n ih =>
    have hshift : shift poly x = x >>> 1 := by
      unfold shift takeBit
      rw [hx 0 (Nat.succ_pos n)]
      rfl
    have hrest : ∀ i, i < n → (x >>> 1).getLsbD i = false := by
      intro i hi
      rw [BitVec.getLsbD_ushiftRight]
      exact hx _ (by omega)
    rw [shifts, hshift, ih hrest, ← BitVec.shiftRight_add, Nat.add_comm]

/-- The low octet of a word. -/
def octet (x : BitVec w) : BitVec w := (x.setWidth 8).setWidth w

theorem getLsbD_octet (x : BitVec w) (i : Nat) :
    (octet x).getLsbD i = (decide (i < w) && (decide (i < 8) && x.getLsbD i)) := by
  unfold octet
  rw [BitVec.getLsbD_setWidth, BitVec.getLsbD_setWidth]

/-- Eight shifts of a word: those of its low octet, and the rest moved down. -/
theorem shifts_eight (x : BitVec w) : shifts poly 8 x = shifts poly 8 (octet x) ^^^ (x >>> 8) := by
  have hsplit : x = octet x ^^^ (octet x ^^^ x) := by
    rw [← BitVec.xor_assoc, BitVec.xor_self, BitVec.zero_xor]
  have hclear : ∀ i, i < 8 → (octet x ^^^ x).getLsbD i = false := by
    intro i hi
    rw [BitVec.getLsbD_xor, getLsbD_octet]
    by_cases hw : i < w
    · simp [hi, hw]
    · simp [hw, BitVec.getLsbD_of_ge x i (by omega)]
  have hhigh : (octet x ^^^ x) >>> 8 = x >>> 8 := by
    apply BitVec.eq_of_getLsbD_eq
    intro i _
    rw [BitVec.getLsbD_ushiftRight, BitVec.getLsbD_ushiftRight, BitVec.getLsbD_xor, getLsbD_octet]
    simp [show ¬ 8 + i < 8 by omega]
  calc shifts poly 8 x = shifts poly 8 (octet x ^^^ (octet x ^^^ x)) := by rw [← hsplit]
    _ = shifts poly 8 (octet x) ^^^ shifts poly 8 (octet x ^^^ x) := shifts_xor poly 8 _ _
    _ = shifts poly 8 (octet x) ^^^ (x >>> 8) := by rw [shifts_clear poly hclear, hhigh]

/-- A byte at a time, by any table that holds eight shifts of each octet. -/
theorem takeBits_table {table : BitVec 8 → BitVec w}
    (ht : ∀ b, table b = shifts poly 8 (b.setWidth w)) (hw : 8 ≤ w) (c : BitVec w) (b : BitVec 8) :
    takeBits poly 8 c (b.setWidth w) = table (c.setWidth 8 ^^^ b) ^^^ (c >>> 8) := by
  have hb : ∀ i, 8 ≤ i → (b.setWidth w).getLsbD i = false := by
    intro i hi
    rw [BitVec.getLsbD_setWidth, BitVec.getLsbD_of_ge b i hi, Bool.and_false]
  have hoctet : octet (c ^^^ b.setWidth w) = (c.setWidth 8 ^^^ b).setWidth w := by
    unfold octet
    rw [BitVec.setWidth_xor, BitVec.setWidth_setWidth_of_le b hw, BitVec.setWidth_eq]
  have hrest : (c ^^^ b.setWidth w) >>> 8 = c >>> 8 := by
    rw [BitVec.ushiftRight_xor_distrib]
    apply BitVec.eq_of_getLsbD_eq
    intro i _
    rw [BitVec.getLsbD_xor, BitVec.getLsbD_ushiftRight, BitVec.getLsbD_ushiftRight,
      hb (8 + i) (by omega), Bool.xor_false]
  rw [takeBits_eq poly c hb, shifts_eight, hoctet, ← ht, hrest]

/-- **The table.**  A message taken bit by bit leaves the register that the
table gives byte by byte. -/
theorem register_table {table : BitVec 8 → BitVec w}
    (ht : ∀ b, table b = shifts poly 8 (b.setWidth w)) (hw : 8 ≤ w) (c : BitVec w)
    (message : List (BitVec 8)) :
    register poly c message =
      message.foldl (fun (c : BitVec w) b => table (c.setWidth 8 ^^^ b) ^^^ (c >>> 8)) c := by
  induction message generalizing c with
  | nil => rfl
  | cons b message ih =>
    have hstep := takeBits_table poly ht hw c b
    show register poly (takeBits poly 8 c (b.setWidth w)) message = _
    rw [ih, hstep]
    rfl

/-- Two messages that differ in their last byte only leave different registers. -/
theorem register_concat_ne {a b : BitVec 8}
    (hne : shifts poly 8 (a.setWidth w) ≠ shifts poly 8 (b.setWidth w)) (c : BitVec w)
    (message : List (BitVec 8)) : register poly c (message ++ [a]) ≠ register poly c (message ++ [b]) := by
  intro heq
  rw [register_append, register_append] at heq
  have hhigh : ∀ (x : BitVec 8) i, 8 ≤ i → (x.setWidth w).getLsbD i = false := by
    intro x i hi
    rw [BitVec.getLsbD_setWidth, BitVec.getLsbD_of_ge x i hi, Bool.and_false]
  have hstep : takeBits poly 8 (register poly c message) (a.setWidth w) =
    takeBits poly 8 (register poly c message) (b.setWidth w) := heq
  rw [takeBits_eq poly _ (hhigh a), takeBits_eq poly _ (hhigh b), shifts_xor, shifts_xor] at hstep
  exact hne ((BitVec.xor_right_inj _).mp hstep)

/-! ## Bursts -/

/-- The highest bit tells what a shift dropped. -/
theorem getLsbD_shift (hpoly : poly.getLsbD (w - 1) = true) (c : BitVec w) :
    (shift poly c).getLsbD (w - 1) = c.getLsbD 0 := by
  have hw : w - 1 < w := BitVec.lt_of_getLsbD hpoly
  have htop : (c >>> 1).getLsbD (w - 1) = false := by
    rw [BitVec.getLsbD_ushiftRight]
    exact BitVec.getLsbD_of_ge c _ (by omega)
  unfold shift takeBit
  cases hbit : c.getLsbD 0
  · exact htop
  · show (c >>> 1 ^^^ poly).getLsbD (w - 1) = true
    rw [BitVec.getLsbD_xor, htop, hpoly]
    rfl

theorem shift_inj (hpoly : poly.getLsbD (w - 1) = true) {a b : BitVec w}
    (h : shift poly a = shift poly b) : a = b := by
  have hlow : a.getLsbD 0 = b.getLsbD 0 := by
    rw [← getLsbD_shift poly hpoly a, ← getLsbD_shift poly hpoly b, h]
  have hhigh : a >>> 1 = b >>> 1 := by
    unfold shift takeBit at h
    rw [hlow] at h
    cases hbit : b.getLsbD 0
    · rw [hbit] at h
      exact h
    · rw [hbit] at h
      exact (BitVec.xor_left_inj poly).mp h
  apply BitVec.eq_of_getLsbD_eq
  intro i _
  cases i with
  | zero => exact hlow
  | succ i =>
    have hbit := congrArg (·.getLsbD i) hhigh
    simp only [BitVec.getLsbD_ushiftRight] at hbit
    rw [Nat.add_comm]
    exact hbit

theorem shifts_inj (hpoly : poly.getLsbD (w - 1) = true) {n : Nat} {a b : BitVec w}
    (h : shifts poly n a = shifts poly n b) : a = b := by
  induction n generalizing a b with
  | zero => exact h
  | succ n ih => exact shift_inj poly hpoly (ih h)

theorem shifts_add (m n : Nat) (c : BitVec w) : shifts poly (m + n) c = shifts poly n (shifts poly m c) := by
  induction m generalizing c with
  | zero => rw [Nat.zero_add, shifts]
  | succ m ih => rw [Nat.succ_add, shifts, shifts, ih]

/-- The bytes of a word, the lowest first. -/
def word : List (BitVec 8) → BitVec w
  | [] => 0#w
  | b :: bs => b.setWidth w ^^^ (word bs <<< 8)

/-- The low byte of the rest is clear. -/
theorem getLsbD_word_shift (x : BitVec w) {i : Nat} (hi : i < 8) : (x <<< 8).getLsbD i = false := by
  rw [BitVec.getLsbD_shiftLeft]
  simp [hi]

theorem getLsbD_setWidth_high (b : BitVec 8) {i : Nat} (hi : 8 ≤ i) :
    (b.setWidth w).getLsbD i = false := by
  rw [BitVec.getLsbD_setWidth, BitVec.getLsbD_of_ge b i hi, Bool.and_false]

/-- A word has no bits beyond those of its bytes. -/
theorem getLsbD_word (bs : List (BitVec 8)) {i : Nat} (hi : 8 * bs.length ≤ i) :
    (word bs : BitVec w).getLsbD i = false := by
  induction bs generalizing i with
  | nil => exact BitVec.getLsbD_zero
  | cons b bs ih =>
    rw [List.length_cons] at hi
    rw [word, BitVec.getLsbD_xor, getLsbD_setWidth_high b (by omega), BitVec.getLsbD_shiftLeft,
      ih (i := i - 8) (by omega)]
    simp

/-- Down again by the byte it was moved up. -/
theorem word_shift_down (bs : List (BitVec 8)) (hw : 8 * (bs.length + 1) ≤ w) :
    (word bs <<< 8) >>> 8 = (word bs : BitVec w) := by
  apply BitVec.eq_of_getLsbD_eq
  intro i hi
  rw [BitVec.getLsbD_ushiftRight, BitVec.getLsbD_shiftLeft]
  by_cases h : 8 + i < w
  · simp [h]
  · simp [h, getLsbD_word bs (i := i) (by omega)]

/-- Up to `w` bits at once. -/
theorem register_eq_shifts (c : BitVec w) {bs : List (BitVec 8)} (hw : 8 * bs.length ≤ w) :
    register poly c bs = shifts poly (8 * bs.length) (c ^^^ word bs) := by
  induction bs generalizing c with
  | nil =>
    rw [word, BitVec.xor_zero]
    rfl
  | cons b bs ih =>
    rw [List.length_cons] at hw
    have hmoved : shifts poly 8 (word bs <<< 8) = word bs := by
      rw [shifts_clear poly (fun i hi => getLsbD_word_shift _ hi), word_shift_down bs hw]
    have hstep : takeBits poly 8 c (b.setWidth w) = shifts poly 8 (c ^^^ b.setWidth w) :=
      takeBits_eq poly c fun i hi => getLsbD_setWidth_high b hi
    calc register poly c (b :: bs) = register poly (takeBits poly 8 c (b.setWidth w)) bs := rfl
      _ = shifts poly (8 * bs.length) (shifts poly 8 (c ^^^ b.setWidth w) ^^^ word bs) := by
        rw [ih _ (by omega), hstep]
      _ = shifts poly (8 * bs.length) (shifts poly 8 (c ^^^ b.setWidth w ^^^ (word bs <<< 8))) := by
        rw [shifts_xor poly 8 (c ^^^ b.setWidth w), hmoved]
      _ = shifts poly (8 * (bs.length + 1)) (c ^^^ word (b :: bs)) := by
        rw [← shifts_add, word, BitVec.xor_assoc, Nat.mul_succ, Nat.add_comm]

theorem word_inj {as bs : List (BitVec 8)} (hlen : as.length = bs.length) (hw : 8 * as.length ≤ w)
    (h : (word as : BitVec w) = word bs) : as = bs := by
  induction as generalizing bs with
  | nil => exact (List.length_eq_zero_iff.mp hlen.symm).symm
  | cons a as ih =>
    cases bs with
    | nil => cases hlen
    | cons b bs =>
      rw [List.length_cons] at hw
      have hlen : as.length = bs.length := Nat.succ.inj hlen
      have hbits : ∀ i, ((a.setWidth w).getLsbD i ^^ ((word as : BitVec w) <<< 8).getLsbD i) =
          ((b.setWidth w).getLsbD i ^^ ((word bs : BitVec w) <<< 8).getLsbD i) := by
        intro i
        have hbit := congrArg (·.getLsbD i) h
        simp only [word, BitVec.getLsbD_xor] at hbit
        exact hbit
      have hhead : a = b := by
        apply BitVec.eq_of_getLsbD_eq
        intro i hi
        have hbit := hbits i
        rw [getLsbD_word_shift _ hi, getLsbD_word_shift _ hi, BitVec.getLsbD_setWidth,
          BitVec.getLsbD_setWidth] at hbit
        simpa [show i < w by omega] using hbit
      have htail : (word as : BitVec w) = word bs := by
        rw [← word_shift_down as (by omega), ← word_shift_down bs (by omega)]
        apply BitVec.eq_of_getLsbD_eq
        intro i _
        have hbit := hbits (8 + i)
        rw [getLsbD_setWidth_high a (by omega), getLsbD_setWidth_high b (by omega), Bool.false_xor,
          Bool.false_xor] at hbit
        rw [BitVec.getLsbD_ushiftRight, BitVec.getLsbD_ushiftRight]
        exact hbit
      rw [hhead, ih hlen (by omega) htail]

/-- Different registers stay different under one message. -/
theorem register_inj (hpoly : poly.getLsbD (w - 1) = true) (hw : 8 ≤ w) {a b : BitVec w}
    {message : List (BitVec 8)} (h : register poly a message = register poly b message) : a = b := by
  induction message generalizing a b with
  | nil => exact h
  | cons x message ih =>
    have hx : register poly a [x] = register poly b [x] := ih h
    rw [register_eq_shifts poly a (by simpa using hw), register_eq_shifts poly b (by simpa using hw)] at hx
    exact (BitVec.xor_left_inj _).mp (shifts_inj poly hpoly hx)

/-- **Bursts.**  Messages that differ within `w` bits at one place leave different
registers. -/
theorem register_burst (hpoly : poly.getLsbD (w - 1) = true) (hw : 8 ≤ w) (c : BitVec w)
    {before xs ys after : List (BitVec 8)} (hlen : xs.length = ys.length) (hfit : 8 * xs.length ≤ w)
    (h : register poly c (before ++ xs ++ after) = register poly c (before ++ ys ++ after)) : xs = ys := by
  rw [register_append, register_append, register_append poly c _ after, register_append] at h
  have hwindow := register_inj poly hpoly hw h
  have hfit' : 8 * ys.length ≤ w := by omega
  rw [register_eq_shifts poly (register poly c before) hfit,
    register_eq_shifts poly (register poly c before) hfit', hlen] at hwindow
  exact word_inj hlen hfit ((BitVec.xor_right_inj _).mp (shifts_inj poly hpoly hwindow))

/-- The same for messages given by the place where they may differ. -/
theorem register_window (hpoly : poly.getLsbD (w - 1) = true) (hw : 8 ≤ w) (c : BitVec w)
    {xs ys : List (BitVec 8)} {k n : Nat} (hlen : xs.length = ys.length) (hfit : 8 * n ≤ w)
    (hsame : ∀ i, i < k ∨ k + n ≤ i → xs[i]? = ys[i]?) (h : register poly c xs = register poly c ys) :
    xs = ys := by
  have hbefore : xs.take k = ys.take k := by
    apply List.ext_getElem?
    intro i
    rw [List.getElem?_take, List.getElem?_take]
    split
    · next hi => exact hsame i (Or.inl hi)
    · rfl
  have hafter : (xs.drop k).drop n = (ys.drop k).drop n := by
    apply List.ext_getElem?
    intro i
    rw [List.drop_drop, List.drop_drop, List.getElem?_drop, List.getElem?_drop]
    exact hsame _ (Or.inr (by omega))
  have hsplit : ∀ zs : List (BitVec 8), zs = zs.take k ++ (zs.drop k).take n ++ (zs.drop k).drop n := by
    intro zs
    rw [List.append_assoc, List.take_append_drop, List.take_append_drop]
  have hwindow : (xs.drop k).take n = (ys.drop k).take n := by
    rw [hsplit xs, hsplit ys, hbefore, hafter] at h
    refine register_burst poly hpoly hw c ?_ ?_ h
    · rw [List.length_take, List.length_take, List.length_drop, List.length_drop, hlen]
    · have hle := List.length_take_le n (xs.drop k)
      omega
  rw [hsplit xs, hsplit ys, hbefore, hwindow, hafter]

/-- With `w` bits behind it a message leaves the fixed register exactly when they
are the complement of its own. -/
theorem register_trailer (hpoly : poly.getLsbD (w - 1) = true) (c : BitVec w)
    {message trailer : List (BitVec 8)} (hfit : 8 * trailer.length = w) :
    register poly c (message ++ trailer) = shifts poly w (BitVec.allOnes w) ↔
      ~~~(register poly c message) = word trailer := by
  rw [register_append, register_eq_shifts poly _ (Nat.le_of_eq hfit), hfit]
  constructor
  · intro h
    have hones := shifts_inj poly hpoly h
    rw [← BitVec.xor_allOnes, ← hones, ← BitVec.xor_assoc, BitVec.xor_self, BitVec.zero_xor]
  · intro h
    rw [← h, ← BitVec.xor_allOnes, ← BitVec.xor_assoc, BitVec.xor_self, BitVec.zero_xor]

end ReflectedCrc
