import Mathlib.Algebra.Order.Ring.Nat
import Mathlib.Data.List.Basic
import Mathlib.Tactic.Common

/-!
# Integers as bytes

`toBE w x` is the `w`-byte big-endian encoding of `x` (its value modulo
`256 ^ w`), `ofBE` reads bytes back; `toLE`/`ofLE` are the little-endian twins.

    ofBE (toBE w x) = x % 256 ^ w
    toBE bs.length (ofBE bs) = bs
    c.Onto: c.enc (c.dec bs) = bs for every bs of the width of c
    c.Bytewise f: f changes each byte by itself
-/

namespace Bytes

/-- Little-endian bytes of `x`, `w` of them, least significant first. -/
def toLE : Nat → Nat → List UInt8
  | 0, _ => []
  | w + 1, x => x.toUInt8 :: toLE w (x / 256)

/-- The number little-endian bytes spell. -/
def ofLE : List UInt8 → Nat
  | [] => 0
  | b :: bs => b.toNat + 256 * ofLE bs

/-- Big-endian bytes of `x`. -/
def toBE (w x : Nat) : List UInt8 := (toLE w x).reverse

/-- The number big-endian bytes spell. -/
def ofBE (bs : List UInt8) : Nat := ofLE bs.reverse

@[simp] theorem length_toLE (w x : Nat) : (toLE w x).length = w := by
  induction w generalizing x with
  | zero => rfl
  | succ w ih => simp [toLE, ih]

@[simp] theorem length_toBE (w x : Nat) : (toBE w x).length = w := by simp [toBE]

theorem ofLE_toLE (w x : Nat) : ofLE (toLE w x) = x % 256 ^ w := by
  induction w generalizing x with
  | zero => simp [toLE, ofLE, Nat.mod_one]
  | succ w ih =>
    simp only [toLE, ofLE, ih]
    rw [Nat.pow_succ', Nat.mod_mul]
    simp

theorem ofBE_toBE (w x : Nat) : ofBE (toBE w x) = x % 256 ^ w := by
  unfold ofBE toBE
  rw [List.reverse_reverse, ofLE_toLE]

theorem toLE_ofLE (bs : List UInt8) : toLE bs.length (ofLE bs) = bs := by
  induction bs with
  | nil => rfl
  | cons b bs ih =>
    have hb := b.toNat_lt
    have hhead : (b.toNat + 256 * ofLE bs).toUInt8 = b := by
      apply UInt8.toNat_inj.mp
      show (b.toNat + 256 * ofLE bs) % 256 = b.toNat
      omega
    have htail : (b.toNat + 256 * ofLE bs) / 256 = ofLE bs := by omega
    simp only [List.length_cons, ofLE, toLE, hhead, htail, ih]

theorem toBE_ofBE (bs : List UInt8) : toBE bs.length (ofBE bs) = bs := by
  unfold toBE ofBE
  have h := toLE_ofLE bs.reverse
  rw [List.length_reverse] at h
  rw [h, List.reverse_reverse]

theorem ofLE_lt (bs : List UInt8) : ofLE bs < 256 ^ bs.length := by
  induction bs with
  | nil => simp [ofLE]
  | cons b bs ih =>
    have hb := b.toNat_lt
    simp only [ofLE, List.length_cons, Nat.pow_succ]
    omega

theorem ofBE_lt (bs : List UInt8) : ofBE bs < 256 ^ bs.length := by
  have h := ofLE_lt bs.reverse
  rwa [List.length_reverse] at h

theorem toLE_or (w x y : Nat) : toLE w (x ||| y) = List.zipWith (· ||| ·) (toLE w x) (toLE w y) := by
  induction w generalizing x y with
  | zero => rfl
  | succ w ih =>
    have hhead : (x ||| y).toUInt8 = x.toUInt8 ||| y.toUInt8 := by
      apply UInt8.toNat_inj.mp
      rw [UInt8.toNat_or]
      exact Nat.or_mod_two_pow
    have htail : (x ||| y) / 256 = x / 256 ||| y / 256 := Nat.or_div_two_pow (n := 8)
    rw [toLE, toLE, toLE, List.zipWith_cons_cons, hhead, htail, ih]

theorem toBE_or (w x y : Nat) : toBE w (x ||| y) = List.zipWith (· ||| ·) (toBE w x) (toBE w y) := by
  unfold toBE
  rw [toLE_or, List.reverse_zipWith (by rw [length_toLE, length_toLE])]

/-! ## Codecs of fixed width

A `Codec` writes a value as `width` bytes and reads it back from the front of
any byte string.  A header is the `seq` of its fields, carried over to its
structure by `iso`. -/

structure Codec (α : Type) where
  width : Nat
  enc : α → List UInt8
  dec : List UInt8 → α
  length_enc : ∀ a, (enc a).length = width
  dec_enc : ∀ a rest, dec (enc a ++ rest) = a

namespace Codec

attribute [simp] length_enc dec_enc

variable {α β : Type}

theorem take_enc (c : Codec α) (a : α) (rest : List UInt8) :
    (c.enc a ++ rest).take c.width = c.enc a := List.take_left' (c.length_enc a)

theorem drop_enc (c : Codec α) (a : α) (rest : List UInt8) :
    (c.enc a ++ rest).drop c.width = rest := List.drop_left' (c.length_enc a)

theorem dec_enc_self (c : Codec α) (a : α) : c.dec (c.enc a) = a := by
  have h := c.dec_enc a []
  rwa [List.append_nil] at h

/-- One value after the other. -/
def seq (c : Codec α) (d : Codec β) : Codec (α × β) where
  width := c.width + d.width
  enc p := c.enc p.1 ++ d.enc p.2
  dec bs := (c.dec bs, d.dec (bs.drop c.width))
  length_enc p := by simp
  dec_enc p rest := by
    rw [List.append_assoc, drop_enc, dec_enc, dec_enc]

/-- Values in another form. -/
def iso (c : Codec α) (f : α → β) (g : β → α) (h : ∀ b, f (g b) = b) : Codec β where
  width := c.width
  enc b := c.enc (g b)
  dec bs := f (c.dec bs)
  length_enc b := c.length_enc (g b)
  dec_enc b rest := by rw [dec_enc, h]

/-- An integer of `w` bytes, most significant first. -/
def big (w : Nat) (toNat : α → Nat) (ofNat : Nat → α) (h : ∀ a, ofNat (toNat a % 256 ^ w) = a) :
    Codec α where
  width := w
  enc a := toBE w (toNat a)
  dec bs := ofNat (ofBE (bs.take w))
  length_enc a := length_toBE w _
  dec_enc a rest := by rw [List.take_left' (length_toBE w _), ofBE_toBE, h]

/-- An integer of `w` bytes, least significant first. -/
def little (w : Nat) (toNat : α → Nat) (ofNat : Nat → α) (h : ∀ a, ofNat (toNat a % 256 ^ w) = a) :
    Codec α where
  width := w
  enc a := toLE w (toNat a)
  dec bs := ofNat (ofLE (bs.take w))
  length_enc a := length_toLE w _
  dec_enc a rest := by rw [List.take_left' (length_toLE w _), ofLE_toLE, h]

def u8 : Codec UInt8 := big 1 UInt8.toNat UInt8.ofNat (by simp)

def be16 : Codec UInt16 := big 2 UInt16.toNat UInt16.ofNat (by simp)

def be32 : Codec UInt32 := big 4 UInt32.toNat UInt32.ofNat (by simp)

def be64 : Codec UInt64 := big 8 UInt64.toNat UInt64.ofNat (by simp)

def le16 : Codec UInt16 := little 2 UInt16.toNat UInt16.ofNat (by simp)

def le32 : Codec UInt32 := little 4 UInt32.toNat UInt32.ofNat (by simp)

def le64 : Codec UInt64 := little 8 UInt64.toNat UInt64.ofNat (by simp)

/-- An array of `n` bytes. -/
def raw (n : Nat) : Codec (Vector UInt8 n) where
  width := n
  enc v := v.toList
  dec bs := Vector.ofFn fun i => bs.getD i 0
  length_enc v := v.length_toList
  dec_enc v rest := by
    apply Vector.ext
    intro i hi
    have hv : i < v.toList.length := by rwa [v.length_toList]
    rw [Vector.getElem_ofFn, List.getD_eq_getElem?_getD, List.getElem?_append_left hv]
    simp [hi]

/-- Every byte string of the width is the encoding of what it decodes to. -/
def Onto (c : Codec α) : Prop := ∀ bs, bs.length = c.width → c.enc (c.dec bs) = bs

/-- Only the first bytes are read. -/
theorem Onto.dec_take {c : Codec α} (hc : c.Onto) {bs : List UInt8} (h : c.width ≤ bs.length) :
    c.dec (bs.take c.width) = c.dec bs := by
  have henc := hc (bs.take c.width) (List.length_take_of_le h)
  have hdec := c.dec_enc (c.dec (bs.take c.width)) (bs.drop c.width)
  rw [henc, List.take_append_drop] at hdec
  exact hdec.symm

theorem Onto.seq {c : Codec α} {d : Codec β} (hc : c.Onto) (hd : d.Onto) : (c.seq d).Onto := by
  intro bs hlen
  have hlen : bs.length = c.width + d.width := hlen
  show c.enc (c.dec bs) ++ d.enc (d.dec (bs.drop c.width)) = bs
  rw [← hc.dec_take (by omega), hc _ (List.length_take_of_le (by omega)),
    hd _ (by rw [List.length_drop]; omega), List.take_append_drop]

theorem Onto.iso {c : Codec α} (hc : c.Onto) {f : α → β} {g : β → α} {h : ∀ b, f (g b) = b}
    (hg : ∀ a, g (f a) = a) : (c.iso f g h).Onto := by
  intro bs hlen
  show c.enc (g (f (c.dec bs))) = bs
  rw [hg, hc bs hlen]

theorem onto_big {w : Nat} {toNat : α → Nat} {ofNat : Nat → α} {h : ∀ a, ofNat (toNat a % 256 ^ w) = a}
    (hnat : ∀ n, n < 256 ^ w → toNat (ofNat n) = n) : (big w toNat ofNat h).Onto := by
  intro bs hlen
  have hlen : bs.length = w := hlen
  show toBE w (toNat (ofNat (ofBE (bs.take w)))) = bs
  have htake : bs.take w = bs := List.take_of_length_le (by omega)
  have hlt := ofBE_lt bs
  rw [hlen] at hlt
  rw [htake, hnat _ hlt, ← hlen, toBE_ofBE]

theorem onto_little {w : Nat} {toNat : α → Nat} {ofNat : Nat → α} {h : ∀ a, ofNat (toNat a % 256 ^ w) = a}
    (hnat : ∀ n, n < 256 ^ w → toNat (ofNat n) = n) : (little w toNat ofNat h).Onto := by
  intro bs hlen
  have hlen : bs.length = w := hlen
  show toLE w (toNat (ofNat (ofLE (bs.take w)))) = bs
  have htake : bs.take w = bs := List.take_of_length_le (by omega)
  have hlt := ofLE_lt bs
  rw [hlen] at hlt
  rw [htake, hnat _ hlt, ← hlen, toLE_ofLE]

theorem onto_u8 : u8.Onto := onto_big fun _ h => UInt8.toNat_ofNat_of_lt' h

theorem onto_be16 : be16.Onto := onto_big fun _ h => UInt16.toNat_ofNat_of_lt' h

theorem onto_be32 : be32.Onto := onto_big fun _ h => UInt32.toNat_ofNat_of_lt' h

theorem onto_le16 : le16.Onto := onto_little fun _ h => UInt16.toNat_ofNat_of_lt' h

theorem onto_le32 : le32.Onto := onto_little fun _ h => UInt32.toNat_ofNat_of_lt' h

theorem onto_raw (n : Nat) : (raw n).Onto := by
  intro bs hlen
  have hlen : bs.length = n := hlen
  show (Vector.ofFn fun i : Fin n => bs.getD i 0).toList = bs
  apply List.ext_getElem
  · rw [Vector.length_toList, hlen]
  · intro i h1 h2
    rw [Vector.getElem_toList, Vector.getElem_ofFn]
    simp [h2]

/-! ### What works byte by byte -/

/-- A byte of `enc (f a)` depends on the byte of `enc a` in its place. -/
def Bytewise (c : Codec α) (f : α → α) : Prop :=
  ∀ (a b : α) (i : Nat), (c.enc a)[i]? = (c.enc b)[i]? → (c.enc (f a))[i]? = (c.enc (f b))[i]?

theorem bytewise_id (c : Codec α) : c.Bytewise fun a => a := fun _ _ _ h => h

theorem bytewise_const (c : Codec α) (x : α) : c.Bytewise fun _ => x := fun _ _ _ _ => rfl

theorem Bytewise.seq {c : Codec α} {d : Codec β} {f : α → α} {g : β → β} (hf : c.Bytewise f)
    (hg : d.Bytewise g) : (c.seq d).Bytewise fun p => (f p.1, g p.2) := by
  rintro ⟨a1, a2⟩ ⟨b1, b2⟩ i h
  have h : (c.enc a1 ++ d.enc a2)[i]? = (c.enc b1 ++ d.enc b2)[i]? := h
  show (c.enc (f a1) ++ d.enc (g a2))[i]? = (c.enc (f b1) ++ d.enc (g b2))[i]?
  by_cases hi : i < c.width
  · rw [List.getElem?_append_left (by rwa [c.length_enc]),
      List.getElem?_append_left (by rwa [c.length_enc])] at h ⊢
    exact hf a1 b1 i h
  · have hi := Nat.le_of_not_lt hi
    rw [List.getElem?_append_right (by rwa [c.length_enc]),
      List.getElem?_append_right (by rwa [c.length_enc]), c.length_enc, c.length_enc] at h ⊢
    exact hg a2 b2 _ h

theorem Bytewise.iso {c : Codec α} {f : α → β} {g : β → α} {h : ∀ b, f (g b) = b} {k : α → α}
    (hk : c.Bytewise k) {k' : β → β} (hg : ∀ b, g (k' b) = k (g b)) : (c.iso f g h).Bytewise k' := by
  intro a b i hi
  show (c.enc (g (k' a)))[i]? = (c.enc (g (k' b)))[i]?
  rw [hg, hg]
  exact hk (g a) (g b) i hi

/-- Setting bits is bytewise. -/
theorem bytewise_or (m : UInt32) : be32.Bytewise (· ||| m) := by
  intro a b i h
  have henc : ∀ x : UInt32, be32.enc (x ||| m) = List.zipWith (· ||| ·) (be32.enc x) (be32.enc m) :=
    fun x => toBE_or 4 x.toNat m.toNat
  rw [henc, henc, List.getElem?_zipWith, List.getElem?_zipWith, h]

end Codec

end Bytes
