import Mathlib.Data.List.Cycle
import Mathlib.Logic.Function.Basic

/-!
# Rings

Circular doubly linked lists over any type of nodes.  `Links` is a store of two
links for each node.  A ring is a cycle of different nodes, each of them joined
to the one behind it in both directions.

    Path     from one node over others to a third
    Ring     a cycle, so that it may be read from any of its nodes
    Holds    a store of several rings apart, each known by the node at its head

The links of a store are rewired by `insertBefore`, `unlink` and `splice`.  What
they do to a ring follows from `Path.redirect`: a path whose last node points
elsewhere is a path to there.
-/

namespace Rings

structure Links (α : Type) where
  next : α → α
  prev : α → α

section paths

variable {α : Type} {l m : Links α} {a b c x : α} {xs ys : List α}

def Links.Joined (l : Links α) (a b : α) : Prop := l.next a = b ∧ l.prev b = a

/-- From `a` over `xs` to `b`. -/
def Links.Path (l : Links α) (a : α) (xs : List α) (b : α) : Prop := (a :: (xs ++ [b])).IsChain l.Joined

theorem path_nil : l.Path a [] b ↔ l.Joined a b := List.isChain_pair

theorem path_cons : l.Path a (x :: xs) b ↔ l.Joined a x ∧ l.Path x xs b := List.isChain_cons_cons

theorem path_append : l.Path a (xs ++ x :: ys) b ↔ l.Path a xs x ∧ l.Path x ys b := by
  unfold Links.Path
  rw [List.append_assoc, List.cons_append]
  exact List.isChain_cons_split

/-- A path reads the links between its nodes. -/
theorem Links.Path.congr (h : l.Path a xs b) (hnext : ∀ x ∈ a :: xs, m.next x = l.next x)
    (hprev : ∀ x ∈ xs ++ [b], m.prev x = l.prev x) : m.Path a xs b := by
  induction xs generalizing a with
  | nil =>
    have hj := path_nil.mp h
    apply path_nil.mpr
    exact ⟨(hnext a List.mem_cons_self).trans hj.1, (hprev b (List.mem_singleton.mpr rfl)).trans hj.2⟩
  | cons x xs ih =>
    obtain ⟨hj, hrest⟩ := path_cons.mp h
    apply path_cons.mpr
    refine ⟨⟨(hnext a List.mem_cons_self).trans hj.1, (hprev x List.mem_cons_self).trans hj.2⟩, ?_⟩
    apply ih hrest
    · intro y hy
      exact hnext y (List.mem_cons_of_mem _ hy)
    · intro y hy
      exact hprev y (List.mem_cons_of_mem _ hy)

theorem Links.Path.next (h : l.Path a xs b) : l.next a = (xs ++ [b]).head (by simp) := by
  cases xs with
  | nil => exact (path_nil.mp h).1
  | cons x xs => exact (path_cons.mp h).1.1

theorem Links.Path.prev (h : l.Path a xs b) : l.prev b = (a :: xs).getLast (List.cons_ne_nil _ _) := by
  induction xs generalizing a with
  | nil => exact (path_nil.mp h).2
  | cons x xs ih =>
    rw [List.getLast_cons (List.cons_ne_nil _ _)]
    exact ih (path_cons.mp h).2

/-- The last node of a path to `b` is joined to `c` instead. -/
theorem Links.Path.redirect (h : l.Path a xs b) (hnodup : (a :: xs).Nodup)
    (hnext : ∀ x ∈ a :: xs, x ≠ l.prev b → m.next x = l.next x) (hprev : ∀ x ∈ xs, m.prev x = l.prev x)
    (hlast : m.Joined (l.prev b) c) : m.Path a xs c := by
  rcases List.eq_nil_or_concat xs with rfl | ⟨ys, z, rfl⟩
  · rw [(path_nil.mp h).2] at hlast
    exact path_nil.mpr hlast
  · rw [List.concat_eq_append] at h hnodup hnext hprev ⊢
    obtain ⟨hbefore, hz⟩ := path_append.mp h
    rw [(path_nil.mp hz).2] at hlast hnext
    refine path_append.mpr ⟨hbefore.congr ?_ hprev, path_nil.mpr hlast⟩
    intro x hx
    rw [← List.cons_append] at hnodup
    have hne : x ≠ z := by
      rintro rfl
      exact (List.nodup_append.mp hnodup).2.2 x hx x (List.mem_singleton.mpr rfl) rfl
    refine hnext x ?_ hne
    rw [← List.cons_append]
    exact List.mem_append_left _ hx

end paths

/-! ## Rewiring -/

section rewire

variable {α : Type} [DecidableEq α]

def Links.setNext (l : Links α) (a b : α) : Links α := { l with next := Function.update l.next a b }

def Links.setPrev (l : Links α) (a b : α) : Links α := { l with prev := Function.update l.prev a b }

variable (l : Links α) (a b c : α)

@[simp] theorem Links.setNext_next_self : (l.setNext a b).next a = b := Function.update_self ..

@[simp] theorem Links.setPrev_prev_self : (l.setPrev a b).prev a = b := Function.update_self ..

@[simp] theorem Links.setNext_prev : (l.setNext a b).prev = l.prev := rfl

@[simp] theorem Links.setPrev_next : (l.setPrev a b).next = l.next := rfl

variable {a c}

theorem Links.setNext_next_of_ne (h : c ≠ a) : (l.setNext a b).next c = l.next c :=
  Function.update_of_ne h ..

theorem Links.setPrev_prev_of_ne (h : c ≠ a) : (l.setPrev a b).prev c = l.prev c :=
  Function.update_of_ne h ..

variable (a)

/-- Join `a` to `b`. -/
def Links.join (l : Links α) (a b : α) : Links α := (l.setNext a b).setPrev b a

theorem Links.joined_join : (l.join a b).Joined a b :=
  ⟨l.setNext_next_self a b, (l.setNext a b).setPrev_prev_self b a⟩

variable {a b}

theorem Links.join_next_of_ne (h : c ≠ a) : (l.join a b).next c = l.next c := l.setNext_next_of_ne b h

theorem Links.join_prev_of_ne (h : c ≠ b) : (l.join a b).prev c = l.prev c :=
  (l.setNext a b).setPrev_prev_of_ne a h

theorem Links.Joined.join_of_ne {l : Links α} {x y : α} (h : l.Joined x y) (hx : x ≠ a) (hy : y ≠ b) :
    (l.join a b).Joined x y :=
  ⟨(l.join_next_of_ne hx).trans h.1, (l.join_prev_of_ne hy).trans h.2⟩

/-- Put `n` before `p`. -/
def Links.insertBefore (l : Links α) (p n : α) : Links α := (l.join (l.prev p) n).join n p

/-- Take `n` out of its ring. -/
def Links.unlink (l : Links α) (n : α) : Links α := l.join (l.prev n) (l.next n)

/-- Put the ring of `b` before `a`. -/
def Links.splice (l : Links α) (a b : α) : Links α := (l.join (l.prev a) b).join (l.prev b) a

/-- A ring of `n` alone. -/
def Links.single (l : Links α) (n : α) : Links α := l.join n n

end rewire

/-! ## One ring -/

/-- The nodes of a cycle are joined all around. -/
def Links.Ring {α : Type} (l : Links α) (c : Cycle α) : Prop := c.Chain l.Joined ∧ c.Nodup

section ring

variable {α : Type} {l m : Links α} {h n p : α} {xs ys : List α}

theorem ring_cons : l.Ring ((h :: xs : List α) : Cycle α) ↔ l.Path h xs h ∧ (h :: xs).Nodup :=
  and_congr (Cycle.chain_coe_cons l.Joined h xs) Cycle.nodup_coe_iff

/-- A ring is one from each of its nodes. -/
theorem ring_rotate : l.Ring ((xs ++ ys : List α) : Cycle α) ↔ l.Ring ((ys ++ xs : List α) : Cycle α) := by
  rw [Cycle.coe_eq_coe.mpr (List.isRotated_append : (xs ++ ys) ~r (ys ++ xs))]

theorem Links.Ring.congr (hr : l.Ring ((h :: xs : List α) : Cycle α))
    (hsame : ∀ x ∈ h :: xs, m.next x = l.next x ∧ m.prev x = l.prev x) :
    m.Ring ((h :: xs : List α) : Cycle α) := by
  obtain ⟨hpath, hnodup⟩ := ring_cons.mp hr
  refine ring_cons.mpr ⟨hpath.congr (fun x hx => (hsame x hx).1) ?_, hnodup⟩
  intro x hx
  refine (hsame x ?_).2
  rw [List.mem_append, List.mem_singleton] at hx
  rw [List.mem_cons]
  exact hx.symm

theorem Links.Ring.next (hr : l.Ring ((h :: xs : List α) : Cycle α)) :
    l.next h = (xs ++ [h]).head (by simp) := (ring_cons.mp hr).1.next

theorem Links.Ring.prev (hr : l.Ring ((h :: xs : List α) : Cycle α)) :
    l.prev h = (h :: xs).getLast (List.cons_ne_nil _ _) := (ring_cons.mp hr).1.prev

/-- The links of a ring stay in it. -/
theorem Links.Ring.prev_mem (hr : l.Ring ((h :: xs : List α) : Cycle α)) : l.prev h ∈ h :: xs := by
  rw [hr.prev]
  exact List.getLast_mem _

theorem Links.Ring.next_mem (hr : l.Ring ((h :: xs : List α) : Cycle α)) : l.next h ∈ h :: xs := by
  rw [hr.next]
  have hmem : (xs ++ [h]).head (by simp) ∈ xs ++ [h] := List.head_mem _
  rw [List.mem_append, List.mem_singleton] at hmem
  rw [List.mem_cons]
  exact hmem.symm

variable [DecidableEq α]

theorem ring_single (l : Links α) (n : α) : (l.single n).Ring (([n] : List α) : Cycle α) :=
  ring_cons.mpr ⟨path_nil.mpr (l.joined_join n n), List.nodup_singleton n⟩

/-- **Insertion.** -/
theorem Links.Ring.insert (hr : l.Ring ((p :: xs : List α) : Cycle α)) (hnew : n ∉ p :: xs) :
    (l.insertBefore p n).Ring ((p :: (xs ++ [n]) : List α) : Cycle α) := by
  obtain ⟨hpath, hnodup⟩ := ring_cons.mp hr
  have hlast := hr.prev_mem
  have hne : ∀ x ∈ p :: xs, x ≠ n := by
    rintro x hx rfl
    exact hnew hx
  have hp : p ∉ xs := (List.nodup_cons.mp hnodup).1
  have hjoin : (l.insertBefore p n).Joined (l.prev p) n :=
    (l.joined_join (l.prev p) n).join_of_ne (hne _ hlast) (hne p List.mem_cons_self).symm
  refine ring_cons.mpr ⟨path_append.mpr ⟨?_, path_nil.mpr (Links.joined_join _ n p)⟩, ?_⟩
  · apply hpath.redirect hnodup ?_ ?_ hjoin
    · intro x hx hx'
      exact (Links.join_next_of_ne _ (hne x hx)).trans (l.join_next_of_ne hx')
    · intro x hx
      have hxp : x ≠ p := by
        rintro rfl
        exact hp hx
      exact (Links.join_prev_of_ne _ hxp).trans (l.join_prev_of_ne (hne x (List.mem_cons_of_mem _ hx)))
  · rw [← List.cons_append]
    refine List.nodup_append.mpr ⟨hnodup, List.nodup_singleton n, ?_⟩
    intro x hx y hy
    rw [List.mem_singleton.mp hy]
    exact hne x hx

/-- **Removal.** -/
theorem Links.Ring.remove (hr : l.Ring ((n :: h :: xs : List α) : Cycle α)) :
    (l.unlink n).Ring ((h :: xs : List α) : Cycle α) := by
  obtain ⟨hpath, hnodup⟩ := ring_cons.mp hr
  obtain ⟨hfirst, hrest⟩ := path_cons.mp hpath
  have hnodup' := (List.nodup_cons.mp hnodup).2
  have hh : h ∉ xs := (List.nodup_cons.mp hnodup').1
  refine ring_cons.mpr ⟨?_, hnodup'⟩
  unfold Links.unlink
  rw [hfirst.1]
  apply hrest.redirect hnodup' ?_ ?_ (l.joined_join (l.prev n) h)
  · intro x _ hx
    exact l.join_next_of_ne hx
  · intro x hx
    have hxh : x ≠ h := by
      rintro rfl
      exact hh hx
    exact l.join_prev_of_ne hxh

/-- **Splicing.** -/
theorem Links.Ring.splice {k : α} (hr : l.Ring ((h :: xs : List α) : Cycle α))
    (hs : l.Ring ((k :: ys : List α) : Cycle α)) (hapart : List.Disjoint (h :: xs) (k :: ys)) :
    (l.splice h k).Ring ((h :: (xs ++ k :: ys) : List α) : Cycle α) := by
  obtain ⟨hpath, hnodup⟩ := ring_cons.mp hr
  obtain ⟨kpath, knodup⟩ := ring_cons.mp hs
  have hlast := hr.prev_mem
  have klast := hs.prev_mem
  have hne : ∀ {x y}, x ∈ h :: xs → y ∈ k :: ys → x ≠ y := by
    rintro x y hx hy rfl
    exact hapart hx hy
  have hhead : ∀ x ∈ xs, x ≠ h := by
    rintro x hx rfl
    exact (List.nodup_cons.mp hnodup).1 hx
  have khead : ∀ x ∈ ys, x ≠ k := by
    rintro x hx rfl
    exact (List.nodup_cons.mp knodup).1 hx
  have hmid : (l.splice h k).Joined (l.prev h) k :=
    (l.joined_join (l.prev h) k).join_of_ne (hne hlast klast) (hne List.mem_cons_self List.mem_cons_self).symm
  refine ring_cons.mpr ⟨path_append.mpr ⟨hpath.redirect hnodup ?_ ?_ hmid, kpath.redirect knodup ?_ ?_
    (Links.joined_join _ (l.prev k) h)⟩, ?_⟩
  · intro x hx hx'
    exact (Links.join_next_of_ne _ (hne hx klast)).trans (l.join_next_of_ne hx')
  · intro x hx
    exact (Links.join_prev_of_ne _ (hhead x hx)).trans
      (l.join_prev_of_ne (hne (List.mem_cons_of_mem _ hx) List.mem_cons_self))
  · intro x hx hx'
    exact (Links.join_next_of_ne _ hx').trans (l.join_next_of_ne (hne hlast hx).symm)
  · intro x hx
    exact (Links.join_prev_of_ne _ (hne List.mem_cons_self (List.mem_cons_of_mem _ hx)).symm).trans
      (l.join_prev_of_ne (khead x hx))
  · rw [← List.cons_append]
    exact List.nodup_append.mpr ⟨hnodup, knodup, fun x hx y hy => hne hx hy⟩

end ring

/-! ## Several rings -/

/-- The store holds the rings of `ls`, which gives the nodes behind each head. -/
structure Links.Holds {α : Type} (l : Links α) (ls : α → Option (List α)) : Prop where
  ring : ∀ {h xs}, ls h = some xs → l.Ring ((h :: xs : List α) : Cycle α)
  apart : ∀ {h xs k ys}, ls h = some xs → ls k = some ys → h ≠ k → List.Disjoint (h :: xs) (k :: ys)

/-- A store of no ring. -/
theorem holds_none {α : Type} (l : Links α) : l.Holds fun _ => none where
  ring hh := nomatch hh
  apart hh := nomatch hh

/-- The nodes of a ring are in no other. -/
theorem Links.Holds.own {α : Type} {l : Links α} {ls : α → Option (List α)} {h : α} {xs : List α}
    (hl : l.Holds ls) (hh : ls h = some xs) : ∀ x ∈ h :: xs, ∀ k zs, ls k = some zs → k ≠ h → x ∉ k :: zs :=
  fun _ hx _ _ hk hne hx' => hl.apart hh hk hne.symm hx hx'

/-- `n` is in no ring. -/
def Free {α : Type} (ls : α → Option (List α)) (n : α) : Prop := ∀ h xs, ls h = some xs → n ∉ h :: xs

section several

variable {α : Type} [DecidableEq α] {l m : Links α} {ls : α → Option (List α)} {h k n : α} {xs ys : List α}

theorem Free.update (hfree : Free ls n) (hnot : n ∉ h :: xs) : Free (Function.update ls h (some xs)) n := by
  intro k zs hk
  by_cases hkh : k = h
  · rw [hkh, Function.update_self] at hk
    rw [hkh, ← Option.some.inj hk]
    exact hnot
  · rw [Function.update_of_ne hkh] at hk
    exact hfree k zs hk

/-- Without the head the nodes of its ring are free. -/
theorem Links.Holds.drop (hl : l.Holds ls) (h : α) : l.Holds (Function.update ls h none) := by
  have hkept : ∀ {k ys}, Function.update ls h none k = some ys → ls k = some ys := by
    intro k ys hk
    by_cases hkh : k = h
    · rw [hkh, Function.update_self] at hk
      cases hk
    · rwa [Function.update_of_ne hkh] at hk
  exact ⟨fun hk => hl.ring (hkept hk), fun hk hk' => hl.apart (hkept hk) (hkept hk')⟩

/-- One ring is rebuilt, of nodes of its own or free ones; no other changes. -/
theorem Links.Holds.rebuild (hl : l.Holds ls) (hring : m.Ring ((h :: ys : List α) : Cycle α))
    (hown : ∀ x ∈ h :: ys, ∀ k zs, ls k = some zs → k ≠ h → x ∉ k :: zs)
    (hsame : ∀ k zs, ls k = some zs → k ≠ h → ∀ x ∈ k :: zs, m.next x = l.next x ∧ m.prev x = l.prev x) :
    m.Holds (Function.update ls h (some ys)) := by
  have hcases : ∀ {k zs}, Function.update ls h (some ys) k = some zs →
      k = h ∧ zs = ys ∨ k ≠ h ∧ ls k = some zs := by
    intro k zs hk
    by_cases hkh : k = h
    · rw [hkh, Function.update_self] at hk
      exact Or.inl ⟨hkh, (Option.some.inj hk).symm⟩
    · rw [Function.update_of_ne hkh] at hk
      exact Or.inr ⟨hkh, hk⟩
  constructor
  · intro k zs hk
    rcases hcases hk with ⟨rfl, rfl⟩ | ⟨hkh, hk⟩
    · exact hring
    · exact (hl.ring hk).congr (hsame k zs hk hkh)
  · intro k zs k' zs' hk hk' hne
    rcases hcases hk with ⟨hkh, rfl⟩ | ⟨hkh, hold⟩
    · rcases hcases hk' with ⟨hkh', -⟩ | ⟨hkh', hold'⟩
      · exact absurd (hkh.trans hkh'.symm) hne
      · rw [hkh]
        exact fun x hx => hown x hx k' zs' hold' hkh'
    · rcases hcases hk' with ⟨hkh', rfl⟩ | ⟨hkh', hold'⟩
      · rw [hkh']
        exact fun x hx hx' => hown x hx' k zs hold hkh hx
      · exact hl.apart hold hold' hne

/-- Joining two nodes leaves the rings that neither of them is in. -/
theorem join_same {a b x : α} (ha : x ≠ a) (hb : x ≠ b) :
    (l.join a b).next x = l.next x ∧ (l.join a b).prev x = l.prev x :=
  ⟨l.join_next_of_ne ha, l.join_prev_of_ne hb⟩

theorem Links.Holds.single (hl : l.Holds ls) (hfree : ∀ k zs, ls k = some zs → k ≠ n → n ∉ k :: zs) :
    (l.single n).Holds (Function.update ls n (some [])) := by
  refine hl.rebuild (ring_single l n) ?_ ?_
  · intro x hx
    rw [List.mem_singleton.mp hx]
    exact hfree
  · intro k zs hk hne x hx
    have hxn : x ≠ n := by
      rintro rfl
      exact hfree k zs hk hne hx
    exact join_same hxn hxn

/-- A free node goes to the end of the ring of `h`. -/
theorem Links.Holds.insert (hl : l.Holds ls) (hh : ls h = some xs) (hfree : Free ls n) :
    (l.insertBefore h n).Holds (Function.update ls h (some (xs ++ [n]))) := by
  have hring := hl.ring hh
  refine hl.rebuild (hring.insert (hfree h xs hh)) ?_ ?_
  · intro x hx k zs hk hne
    rw [← List.cons_append, List.mem_append, List.mem_singleton] at hx
    rcases hx with hx | rfl
    · exact hl.own hh x hx k zs hk hne
    · exact hfree k zs hk
  · intro k zs hk hne x hx
    have hother : ∀ y ∈ h :: xs, x ≠ y := by
      rintro y hy rfl
      exact hl.own hh x hy k zs hk hne hx
    have hxn : x ≠ n := by
      rintro rfl
      exact hfree k zs hk hx
    have hlast := join_same (l := l) (hother _ hring.prev_mem) hxn
    have hhead := join_same (l := l.join (l.prev h) n) hxn (hother h List.mem_cons_self)
    exact ⟨hhead.1.trans hlast.1, hhead.2.trans hlast.2⟩

/-- A node leaves its ring. -/
theorem Links.Holds.remove (hl : l.Holds ls) (hh : ls h = some (xs ++ n :: ys)) :
    (l.unlink n).Holds (Function.update ls h (some (xs ++ ys))) := by
  have hring := hl.ring hh
  have hfrom : l.Ring ((n :: (ys ++ h :: xs) : List α) : Cycle α) := by
    have hrotated := ring_rotate.mp (show l.Ring (((h :: xs) ++ n :: ys : List α) : Cycle α) from hring)
    exact hrotated
  have hleft : (l.unlink n).Ring ((h :: (xs ++ ys) : List α) : Cycle α) := by
    have hremoved : (l.unlink n).Ring ((ys ++ h :: xs : List α) : Cycle α) := by
      cases ys with
      | nil => exact hfrom.remove
      | cons y ys => exact hfrom.remove
    exact ring_rotate.mp hremoved
  have hmem : ∀ x, x ∈ n :: (ys ++ h :: xs) → x ∈ h :: (xs ++ n :: ys) := by
    intro x hx
    simp only [List.mem_cons, List.mem_append] at hx ⊢
    tauto
  refine hl.rebuild hleft ?_ ?_
  · intro x hx
    refine hl.own hh x ?_
    simp only [List.mem_cons, List.mem_append] at hx ⊢
    tauto
  · intro k zs hk hne x hx
    have hother : ∀ y ∈ h :: (xs ++ n :: ys), x ≠ y := by
      rintro y hy rfl
      exact hl.own hh x hy k zs hk hne hx
    exact join_same (hother _ (hmem _ hfrom.prev_mem)) (hother _ (hmem _ hfrom.next_mem))

/-- What left a ring is free. -/
theorem Links.Holds.removed (hl : l.Holds ls) (hh : ls h = some (xs ++ n :: ys)) :
    Free (Function.update ls h (some (xs ++ ys))) n := by
  have hnodup := (ring_cons.mp (hl.ring hh)).2
  intro k zs hk hmem
  by_cases hkh : k = h
  · obtain rfl : xs ++ ys = zs := by
      rw [hkh, Function.update_self] at hk
      exact Option.some.inj hk
    have hnot := (List.perm_middle.nodup_iff.mp (show ((h :: xs) ++ n :: ys).Nodup from hnodup))
    rw [hkh] at hmem
    exact (List.nodup_cons.mp hnot).1 hmem
  · rw [Function.update_of_ne hkh] at hk
    exact hl.own hh n (by simp) k zs hk hkh hmem

/-- The ring of `k` goes, head and all, to the end of the ring of `h`. -/
theorem Links.Holds.splice (hl : l.Holds ls) (hh : ls h = some xs) (hk : ls k = some ys) (hne : h ≠ k) :
    (l.splice h k).Holds (Function.update (Function.update ls k none) h (some (xs ++ k :: ys))) := by
  have hring := hl.ring hh
  have kring := hl.ring hk
  have hdrop : ∀ {k' zs}, Function.update ls k none k' = some zs → k' ≠ k ∧ ls k' = some zs := by
    intro k' zs hk'
    by_cases hkk : k' = k
    · rw [hkk, Function.update_self] at hk'
      cases hk'
    · rw [Function.update_of_ne hkk] at hk'
      exact ⟨hkk, hk'⟩
  refine (hl.drop k).rebuild (hring.splice kring (hl.apart hh hk hne)) ?_ ?_
  · intro x hx k' zs hk' hne'
    obtain ⟨hkk, hk'⟩ := hdrop hk'
    rw [← List.cons_append, List.mem_append] at hx
    rcases hx with hx | hx
    · exact hl.own hh x hx k' zs hk' hne'
    · exact hl.own hk x hx k' zs hk' hkk
  · intro k' zs hk' hne' x hx
    obtain ⟨hkk, hk'⟩ := hdrop hk'
    have hother : ∀ y, y ∈ h :: xs ∨ y ∈ k :: ys → x ≠ y := by
      rintro y (hy | hy) rfl
      · exact hl.own hh x hy k' zs hk' hne' hx
      · exact hl.own hk x hy k' zs hk' hkk hx
    have hmid := join_same (l := l) (hother _ (Or.inl hring.prev_mem)) (hother k (Or.inr List.mem_cons_self))
    have hend := join_same (l := l.join (l.prev h) k) (hother _ (Or.inr kring.prev_mem))
      (hother h (Or.inl List.mem_cons_self))
    exact ⟨hend.1.trans hmid.1, hend.2.trans hmid.2⟩

end several

end Rings
