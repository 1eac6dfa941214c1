import Mathlib.Algebra.Order.Ring.Nat
import Mathlib.Data.List.Basic
import Mathlib.Tactic.Common

/-!
# Machines that may fault

A machine takes a state and an input and either faults or gives the next
state.  `run` feeds it a list of inputs; `Throughout P` says `P` holds in every
state the run passes through, and `Along G` that every step it takes meets the
guard `G` (a condition on the state before the step and on its input).
`Until E P Q` asks `P` of the states and `Q` of the steps as long as no input of
`E` has come.

    step keeps Inv  →  run keeps Inv                          (run_inv)
    step keeps Inv under G  →  Inv throughout every run along G (throughout_of_along)
-/

namespace Machine

/-- A sequence of two steps succeeds when both do. -/
theorem bind_eq_ok {α β ε : Type} {x : Except ε α} {f : α → Except ε β} {b : β} :
    (x >>= f) = .ok b ↔ ∃ a, x = .ok a ∧ f a = .ok b := by
  cases x with
  | error e => simp [bind, Except.bind]
  | ok a => simp [bind, Except.bind]

/-- A sequence of two steps fails when one of them does. -/
theorem bind_eq_error {α β ε : Type} {x : Except ε α} {f : α → Except ε β} {e : ε} :
    (x >>= f) = .error e ↔ x = .error e ∨ ∃ a, x = .ok a ∧ f a = .error e := by
  cases x with
  | error e => simp [bind, Except.bind]
  | ok a => simp [bind, Except.bind]

variable {σ ι ε : Type} (step : σ → ι → Except ε σ)

/-- Feed the inputs one after the other; the first fault ends the run. -/
def run : σ → List ι → Except ε σ
  | s, [] => .ok s
  | s, i :: is =>
    match step s i with
    | .ok s' => run s' is
    | .error e => .error e

/-- `P` holds at the start and after each step that does not fault. -/
def Throughout (P : σ → Prop) : σ → List ι → Prop
  | s, [] => P s
  | s, i :: is => P s ∧ ∀ s', step s i = .ok s' → Throughout P s' is

/-- Every step of the run meets `G`. -/
def Along (G : σ → ι → Prop) : σ → List ι → Prop
  | _, [] => True
  | s, i :: is => G s i ∧ ∀ s', step s i = .ok s' → Along G s' is

instance existsOk.decidable {α : Type} {P : α → Prop} [∀ r, Decidable (P r)] :
    ∀ e : Except ε α, Decidable (∃ r, e = .ok r ∧ P r)
  | .error _ => .isFalse (by rintro ⟨_, h, -⟩; cases h)
  | .ok r => decidable_of_iff (P r) ⟨fun h => ⟨r, rfl, h⟩, by rintro ⟨_, h, hr⟩; cases h; exact hr⟩

instance forallOk.decidable {α : Type} {P : α → Prop} [∀ r, Decidable (P r)] :
    ∀ e : Except ε α, Decidable (∀ r, e = .ok r → P r)
  | .error _ => .isTrue fun _ h => nomatch h
  | .ok r => decidable_of_iff (P r) ⟨fun hr _ h => Except.ok.inj h ▸ hr, fun h => h r rfl⟩

/-- A condition that can be evaluated can be evaluated along a run. -/
instance Along.decidable {G : σ → ι → Prop} [∀ s i, Decidable (G s i)] :
    ∀ (s : σ) (is : List ι), Decidable (Along step G s is)
  | _, [] => .isTrue trivial
  | s, i :: is =>
    match hs : step s i with
    | .error _ => decidable_of_iff (G s i)
        ⟨fun h => ⟨h, fun _ h' => absurd (hs.symm.trans h') nofun⟩, And.left⟩
    | .ok t =>
      have := Along.decidable (G := G) t is
      decidable_of_iff (G s i ∧ Along step G t is)
        ⟨fun h => ⟨h.1, fun _ h' => Except.ok.inj (hs.symm.trans h') ▸ h.2⟩, fun h => ⟨h.1, h.2 t hs⟩⟩

theorem run_cons_ok {s s' : σ} {i : ι} (is : List ι) (h : step s i = .ok s') :
    run step s (i :: is) = run step s' is := by
  rw [run, h]

/-- A run that succeeds took a step that succeeds and a run that succeeds. -/
theorem run_cons_eq_ok {s t : σ} {i : ι} {is : List ι} (h : run step s (i :: is) = .ok t) :
    ∃ s', step s i = .ok s' ∧ run step s' is = .ok t := by
  rw [run] at h
  split at h
  · next s' hs => exact ⟨s', hs, h⟩
  · cases h

theorem run_append {s t : σ} (is js : List ι) (h : run step s is = .ok t) :
    run step s (is ++ js) = run step t js := by
  induction is generalizing s with
  | nil =>
    cases h
    rfl
  | cons i is ih =>
    obtain ⟨s', hs, hr⟩ := run_cons_eq_ok step h
    rw [List.cons_append, run_cons_ok step _ hs, ih hr]

theorem run_append_eq_ok {s t : σ} {is js : List ι} (h : run step s (is ++ js) = .ok t) :
    ∃ m, run step s is = .ok m ∧ run step m js = .ok t := by
  induction is generalizing s with
  | nil => exact ⟨s, rfl, h⟩
  | cons i is ih =>
    obtain ⟨s', hs, hr⟩ := run_cons_eq_ok step h
    obtain ⟨m, h1, h2⟩ := ih hr
    exact ⟨m, by rw [run_cons_ok step _ hs, h1], h2⟩

variable {step}

/-- What every step keeps, every run keeps. -/
theorem run_inv {Inv : σ → Prop} (hstep : ∀ s i s', Inv s → step s i = .ok s' → Inv s')
    {s t : σ} {is : List ι} (h0 : Inv s) (h : run step s is = .ok t) : Inv t := by
  induction is generalizing s with
  | nil =>
    cases h
    exact h0
  | cons i is ih =>
    obtain ⟨s', hs, hr⟩ := run_cons_eq_ok step h
    exact ih (hstep s i s' h0 hs) hr

theorem throughout_head {P : σ → Prop} {s : σ} {is : List ι} (h : Throughout step P s is) : P s := by
  cases is with
  | nil => exact h
  | cons i is => exact h.1

theorem throughout_imp {P Q : σ → Prop} (hPQ : ∀ s, P s → Q s) {s : σ} {is : List ι}
    (h : Throughout step P s is) : Throughout step Q s is := by
  induction is generalizing s with
  | nil => exact hPQ s h
  | cons i is ih => exact ⟨hPQ s h.1, fun s' hs => ih (h.2 s' hs)⟩

theorem throughout_of_inv {Inv : σ → Prop} (hstep : ∀ s i s', Inv s → step s i = .ok s' → Inv s')
    {s : σ} (is : List ι) (h0 : Inv s) : Throughout step Inv s is := by
  induction is generalizing s with
  | nil => exact h0
  | cons i is ih => exact ⟨h0, fun s' hs => ih (hstep s i s' h0 hs)⟩

/-- A property holds throughout a run exactly when it holds after every part of it. -/
theorem throughout_iff {P : σ → Prop} {s : σ} {is : List ι} :
    Throughout step P s is ↔
      ∀ js ks t, is = js ++ ks → run step s js = .ok t → P t := by
  induction is generalizing s with
  | nil =>
    constructor
    · intro h js ks t hjk hr
      obtain ⟨rfl, -⟩ := List.append_eq_nil_iff.mp hjk.symm
      cases hr
      exact h
    · intro h
      exact h [] [] s rfl rfl
  | cons i is ih =>
    constructor
    · rintro ⟨hP, hrest⟩ js ks t hjk hr
      cases js with
      | nil =>
        cases hr
        exact hP
      | cons j js =>
        simp only [List.cons_append, List.cons.injEq] at hjk
        obtain ⟨rfl, rfl⟩ := hjk
        obtain ⟨s', hs, hr'⟩ := run_cons_eq_ok step hr
        exact ih.mp (hrest s' hs) js ks t rfl hr'
    · intro h
      refine ⟨h [] (i :: is) s rfl rfl, fun s' hs => ih.mpr fun js ks t hjk hr => ?_⟩
      exact h (i :: js) ks t (by rw [hjk, List.cons_append]) (by rw [run_cons_ok step _ hs, hr])

/-- An invariant kept by the steps that meet the guard holds throughout a run along it. -/
theorem throughout_of_along {Inv : σ → Prop} {G : σ → ι → Prop}
    (hstep : ∀ s i s', Inv s → G s i → step s i = .ok s' → Inv s')
    {s : σ} {is : List ι} (h0 : Inv s) (hG : Along step G s is) : Throughout step Inv s is := by
  induction is generalizing s with
  | nil => exact h0
  | cons i is ih => exact ⟨h0, fun s' hs => ih (hstep s i s' h0 hG.1 hs) (hG.2 s' hs)⟩

/-- What the invariant and the guard give of each step holds along such a run. -/
theorem along_of_inv {Inv : σ → Prop} {G Q : σ → ι → Prop}
    (hstep : ∀ s i s', Inv s → G s i → step s i = .ok s' → Inv s')
    (hQ : ∀ s i, Inv s → G s i → Q s i) {s : σ} {is : List ι} (h0 : Inv s)
    (hG : Along step G s is) : Along step Q s is := by
  induction is generalizing s with
  | nil => trivial
  | cons i is ih => exact ⟨hQ s i h0 hG.1, fun s' hs => ih (hstep s i s' h0 hG.1 hs) (hG.2 s' hs)⟩

/-- Inputs that always meet the guard. -/
theorem along_of_forall {G : σ → ι → Prop} {is : List ι} (h : ∀ i ∈ is, ∀ s, G s i) (s : σ) :
    Along step G s is := by
  induction is generalizing s with
  | nil => trivial
  | cons i is ih =>
    refine ⟨h i List.mem_cons_self s, ?_⟩
    intro s' _
    exact ih (fun j hj => h j (List.mem_cons_of_mem i hj)) s'

/-- A run goes along the guard exactly when each of its inputs meets it, in the
state that the inputs before lead to. -/
theorem along_iff {G : σ → ι → Prop} {s : σ} {is : List ι} :
    Along step G s is ↔
      ∀ js i ks t, is = js ++ i :: ks → run step s js = .ok t → G t i := by
  induction is generalizing s with
  | nil =>
    constructor
    · intro _ js i ks t hjk
      cases js with
      | nil => cases hjk
      | cons j js => cases hjk
    · intro _
      trivial
  | cons i is ih =>
    constructor
    · rintro ⟨hG, hrest⟩ js j ks t hjk hr
      cases js with
      | nil =>
        cases hr
        simp only [List.nil_append, List.cons.injEq] at hjk
        rw [← hjk.1]
        exact hG
      | cons j' js =>
        simp only [List.cons_append, List.cons.injEq] at hjk
        obtain ⟨rfl, hjk⟩ := hjk
        obtain ⟨s', hs, hr'⟩ := run_cons_eq_ok step hr
        exact ih.mp (hrest s' hs) js j ks t hjk hr'
    · intro h
      refine ⟨h [] i is s rfl rfl, fun s' hs => ih.mpr fun js j ks t hjk hr => ?_⟩
      apply h (i :: js) j ks t
      · rw [hjk, List.cons_append]
      · rw [run_cons_ok step _ hs, hr]

variable (step) in
/-- Until an input of `E`, `P` holds in each state of the run and `Q` of each step from it. -/
def Until (E : ι → Prop) (P : σ → Prop) (Q : σ → ι → σ → Prop) (s : σ) (is : List ι) : Prop :=
  ∀ js ks t, is = js ++ ks → (∀ j ∈ js, ¬E j) → run step s js = .ok t →
    P t ∧ ∀ i ls u, ks = i :: ls → step t i = .ok u → Q t i u

theorem Until.start {E : ι → Prop} {P : σ → Prop} {Q : σ → ι → σ → Prop} {s : σ} {is : List ι}
    (h : Until step E P Q s is) : P s :=
  (h [] is s rfl (by simp) rfl).1

/-- An invariant that only inputs of `E` end, and that gives both. -/
theorem until_of_inv {Inv P : σ → Prop} {E : ι → Prop} {Q : σ → ι → σ → Prop}
    (hstep : ∀ s i s', Inv s → ¬E i → step s i = .ok s' → Inv s') (hP : ∀ s, Inv s → P s)
    (hQ : ∀ s i s', Inv s → step s i = .ok s' → Q s i s') {s : σ} (is : List ι) (h0 : Inv s) :
    Until step E P Q s is := by
  intro js ks t _ hE hr
  have hG : Along step (fun _ i => ¬E i) s js := along_of_forall (fun j hj _ => hE j hj) s
  have ht : Inv t := by
    have hinv := throughout_of_along hstep h0 hG
    exact throughout_iff.mp hinv js [] t (List.append_nil js).symm hr
  exact ⟨hP t ht, fun i _ u _ hs => hQ t i u ht hs⟩

/-- One run after the other. -/
theorem along_append {G : σ → ι → Prop} {s : σ} {is js : List ι} (h : Along step G s is)
    (hjs : ∀ t, run step s is = .ok t → Along step G t js) : Along step G s (is ++ js) := by
  induction is generalizing s with
  | nil => exact hjs s rfl
  | cons i is ih =>
    refine ⟨h.1, ?_⟩
    intro s' hs
    refine ih (h.2 s' hs) ?_
    intro t ht
    exact hjs t (by rw [run_cons_ok step is hs, ht])

theorem along_and {G H : σ → ι → Prop} {s : σ} {is : List ι} (hG : Along step G s is)
    (hH : Along step H s is) : Along step (fun s i => G s i ∧ H s i) s is := by
  induction is generalizing s with
  | nil => trivial
  | cons i is ih => exact ⟨⟨hG.1, hH.1⟩, fun s' hs => ih (hG.2 s' hs) (hH.2 s' hs)⟩

/-- Where one step keeps a property exactly when it meets the guard, and a step
that does not meet it succeeds, the property holds throughout a run exactly when
the run goes along the guard. -/
theorem throughout_iff_along {Inv P : σ → Prop} {G : σ → ι → Prop}
    (hstep : ∀ s i s', Inv s → P s → step s i = .ok s' → Inv s' ∧ (P s' ↔ G s i))
    (hfail : ∀ s i, Inv s → P s → ¬ G s i → ∃ s', step s i = .ok s')
    {s : σ} {is : List ι} (h0 : Inv s) (hP : P s) : Throughout step P s is ↔ Along step G s is := by
  induction is generalizing s with
  | nil => exact iff_of_true hP trivial
  | cons i is ih =>
    constructor
    · rintro ⟨-, hrest⟩
      have hG : G s i := by
        by_contra hno
        obtain ⟨s', hs⟩ := hfail s i h0 hP hno
        exact hno ((hstep s i s' h0 hP hs).2.mp (throughout_head (hrest s' hs)))
      refine ⟨hG, fun s' hs => ?_⟩
      obtain ⟨hInv', hP'⟩ := hstep s i s' h0 hP hs
      exact (ih hInv' (hP'.mpr hG)).mp (hrest s' hs)
    · rintro ⟨hG, hrest⟩
      refine ⟨hP, fun s' hs => ?_⟩
      obtain ⟨hInv', hP'⟩ := hstep s i s' h0 hP hs
      exact (ih hInv' (hP'.mpr hG)).mpr (hrest s' hs)

/-- A measure that every step along the guard lowers bounds the length of such runs. -/
theorem length_le_of_along {Inv : σ → Prop} {G : σ → ι → Prop} {size : σ → Nat}
    (hstep : ∀ s i s', Inv s → G s i → step s i = .ok s' → Inv s' ∧ size s' < size s)
    {s t : σ} {is : List ι} (h0 : Inv s) (hG : Along step G s is) (h : run step s is = .ok t) :
    is.length ≤ size s := by
  induction is generalizing s with
  | nil => exact Nat.zero_le _
  | cons i is ih =>
    obtain ⟨s', hs, hr⟩ := run_cons_eq_ok step h
    obtain ⟨hInv', hlt⟩ := hstep s i s' h0 hG.1 hs
    have hle := ih hInv' (hG.2 s' hs) hr
    rw [List.length_cons]
    omega

/-- States from which some run leads to such a state again have runs of every length. -/
theorem exists_run_of_loop {Inv : σ → Prop}
    (hloop : ∀ s, Inv s → ∃ is t, is ≠ [] ∧ run step s is = .ok t ∧ Inv t) {s : σ} (h0 : Inv s)
    (n : Nat) : ∃ is t, is.length = n ∧ run step s is = .ok t := by
  have hlong : ∃ is t, n ≤ is.length ∧ run step s is = .ok t := by
    induction n generalizing s with
    | zero => exact ⟨[], s, Nat.le_refl _, rfl⟩
    | succ n ih =>
      obtain ⟨is, t, hne, hr, ht⟩ := hloop s h0
      obtain ⟨js, u, hlen, hr'⟩ := ih ht
      have hpos := List.length_pos_iff.mpr hne
      refine ⟨is ++ js, u, ?_, ?_⟩
      · rw [List.length_append]
        omega
      · rw [run_append step is js hr, hr']
  obtain ⟨is, t, hlen, hr⟩ := hlong
  rw [← List.take_append_drop n is] at hr
  obtain ⟨m, hm, -⟩ := run_append_eq_ok step hr
  exact ⟨is.take n, m, by rw [List.length_take]; omega, hm⟩

/-- A run that changes an observation takes a step that changes it. -/
theorem exists_step_of_ne {α : Type} {f : σ → α} {s t : σ} {is : List ι} (h : run step s is = .ok t)
    (hne : f t ≠ f s) : ∃ js i ks u v, is = js ++ i :: ks ∧ run step s js = .ok u ∧
      step u i = .ok v ∧ f v ≠ f u := by
  induction is generalizing s with
  | nil =>
    obtain rfl := Except.ok.inj h
    exact absurd rfl hne
  | cons i is ih =>
    obtain ⟨s', hs, hr⟩ := run_cons_eq_ok step h
    by_cases hf : f s' = f s
    · obtain ⟨js, j, ks, u, v, rfl, hu, hv, hchange⟩ := ih hr (by rwa [hf])
      exact ⟨i :: js, j, ks, u, v, rfl, by rw [run_cons_ok step _ hs, hu], hv, hchange⟩
    · exact ⟨[], i, is, s, s', rfl, rfl, hs, hf⟩

end Machine
