import Mathlib.Tactic.Common

/-!
# Outcomes

`Ends Q E x` says what a fallible computation ends with: a result that meets
`Q`, or a fault that meets `E`.

    Ends of x, and of f a for each result a of x  →  Ends of x >>= f     (Ends.bind)
-/

namespace Outcome

variable {α β ε : Type}

/-- What `x` returns meets `Q`; what it fails with meets `E`. -/
def Ends (Q : α → Prop) (E : ε → Prop) : Except ε α → Prop
  | .ok a => Q a
  | .error e => E e

variable {Q R : α → Prop} {S : β → Prop} {E F : ε → Prop} {x : Except ε α} {f : α → Except ε β}

theorem Ends.result {a : α} (h : Ends Q E x) (hx : x = .ok a) : Q a := by
  rw [hx] at h
  exact h

theorem Ends.fault {e : ε} (h : Ends Q E x) (hx : x = .error e) : E e := by
  rw [hx] at h
  exact h

theorem Ends.mono (h : Ends Q E x) (hQ : ∀ a, x = .ok a → Q a → R a) (hE : ∀ e, E e → F e) :
    Ends R F x := by
  cases x with
  | ok a => exact hQ a rfl h
  | error e => exact hE e h

/-- **Sequence.**  The second computation starts from a result of the first. -/
theorem Ends.bind (hx : Ends Q E x) (hf : ∀ a, x = .ok a → Q a → Ends S E (f a)) :
    Ends S E (x >>= f) := by
  cases x with
  | ok a => exact hf a rfl hx
  | error e => exact hx

theorem Ends.ite {c : Prop} [Decidable c] {y : Except ε α} (ht : c → Ends Q E x)
    (he : ¬c → Ends Q E y) : Ends Q E (if c then x else y) := by
  by_cases hc : c
  · rw [if_pos hc]
    exact ht hc
  · rw [if_neg hc]
    exact he hc

/-- Faults alone. -/
theorem Ends.weaken (h : Ends Q E x) (hE : ∀ e, E e → F e) : Ends Q F x :=
  h.mono (fun _ _ hq => hq) hE

end Outcome
