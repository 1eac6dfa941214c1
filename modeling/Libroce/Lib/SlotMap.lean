import Mathlib.Algebra.Order.Ring.Nat
import Mathlib.Tactic.Common

/-!
# Slots

A table of `size` slots, each of them empty or the place of one object: a
partial map from indices that no two indices share a value of.

    (m.insert i a hi hfresh).slot j = if j = i then some a else m.slot j
    (m.erase i).slot j = if j = i then none else m.slot j

`Step` says what allocating and freeing are for.
-/

/-- A partial injective map from the indices below `size`. -/
structure SlotMap (size : Nat) (α : Type) where
  slot : Nat → Option α
  inside : ∀ {i a}, slot i = some a → i < size
  inj : ∀ {i j a}, slot i = some a → slot j = some a → i = j

namespace SlotMap

variable {size : Nat} {α : Type}

def empty (size : Nat) (α : Type) : SlotMap size α where
  slot _ := none
  inside h := by cases h
  inj h _ := by cases h

/-- An index of the table without an object. -/
def Vacant (m : SlotMap size α) (i : Nat) : Prop := i < size ∧ m.slot i = none

/-- The object has no slot. -/
def Fresh (m : SlotMap size α) (a : α) : Prop := ∀ i, m.slot i ≠ some a

/-- The object is put at the index. -/
def insert (m : SlotMap size α) (i : Nat) (a : α) (hi : i < size) (hfresh : m.Fresh a) : SlotMap size α where
  slot j := if j = i then some a else m.slot j
  inside {j b} h := by
    by_cases hj : j = i
    · rw [hj]
      exact hi
    · rw [if_neg hj] at h
      exact m.inside h
  inj {j k b} hj hk := by
    by_cases hji : j = i
    · by_cases hki : k = i
      · rw [hji, hki]
      · rw [if_pos hji] at hj
        rw [if_neg hki] at hk
        obtain rfl := Option.some.inj hj
        exact absurd hk (hfresh k)
    · rw [if_neg hji] at hj
      by_cases hki : k = i
      · rw [if_pos hki] at hk
        obtain rfl := Option.some.inj hk
        exact absurd hj (hfresh j)
      · rw [if_neg hki] at hk
        exact m.inj hj hk

/-- The slot at the index is emptied. -/
def erase (m : SlotMap size α) (i : Nat) : SlotMap size α where
  slot j := if j = i then none else m.slot j
  inside {j b} h := by
    by_cases hj : j = i
    · rw [if_pos hj] at h
      cases h
    · rw [if_neg hj] at h
      exact m.inside h
  inj {j k b} hj hk := by
    by_cases hji : j = i
    · rw [if_pos hji] at hj
      cases hj
    · by_cases hki : k = i
      · rw [if_pos hki] at hk
        cases hk
      · rw [if_neg hji] at hj
        rw [if_neg hki] at hk
        exact m.inj hj hk

/-- What is asked of a table; `none` is a null object. -/
inductive Op (α : Type) where
  | alloc (obj : Option α)
  | allocAt (obj : Option α) (index : Nat)
  | free (index : Nat)

/-- What an operation answers. -/
inductive Answer where
  | done (index : Nat)
  | busy
  | invalid

/-- What the operations of a table are for. -/
inductive Step (m : SlotMap size α) : Op α → Answer → SlotMap size α → Prop
  | alloc {a : α} {i : Nat} (hvacant : m.Vacant i) (hleast : ∀ j, m.Vacant j → i ≤ j) (hfresh : m.Fresh a) :
      Step m (.alloc (some a)) (.done i) (m.insert i a hvacant.1 hfresh)
  | full {a : α} (hfull : ∀ i, ¬ m.Vacant i) : Step m (.alloc (some a)) .busy m
  | allocNull : Step m (.alloc none) .invalid m
  | allocAt {a : α} {i : Nat} (hvacant : m.Vacant i) (hfresh : m.Fresh a) :
      Step m (.allocAt (some a) i) (.done i) (m.insert i a hvacant.1 hfresh)
  | occupied {a b : α} {i : Nat} (hslot : m.slot i = some b) : Step m (.allocAt (some a) i) .busy m
  | allocAtRange {a : α} {i : Nat} (hi : size ≤ i) : Step m (.allocAt (some a) i) .invalid m
  | allocAtNull {i : Nat} : Step m (.allocAt none i) .invalid m
  | free {a : α} {i : Nat} (hslot : m.slot i = some a) : Step m (.free i) (.done i) (m.erase i)
  | freeRange {i : Nat} (hi : size ≤ i) : Step m (.free i) .invalid m
  | freeVacant {i : Nat} (hvacant : m.Vacant i) : Step m (.free i) .invalid m

/-- A run of operations with its answers. -/
inductive Run : SlotMap size α → List (Op α) → List Answer → SlotMap size α → Prop
  | nil {m : SlotMap size α} : Run m [] [] m
  | cons {m m1 m2 : SlotMap size α} {op : Op α} {ops : List (Op α)} {answer : Answer} {answers : List Answer}
      (hstep : Step m op answer m1) (hrun : Run m1 ops answers m2) : Run m (op :: ops) (answer :: answers) m2

end SlotMap
