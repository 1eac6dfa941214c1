import Libroce.IntrusiveList
import Libroce.RequesterRetire

/-!
# The requester's queues as linked lists

The model of the requester keeps its send queue and its packets in lists.  The
source keeps them in objects linked by their entries: WRs on `sq.wrs`, packets on
`pending_pkts` and `outgoing_pkts`, which loops walk while they take entries off and
free what they took.  Here the requester is followed with these objects, their
addresses and their links.  Whoever reads or writes the links of a node that is
neither a list head nor in an object that is there has a dangling pointer.

    PtrSt      the scalar state, the links, and the objects by address
    relink     a call on the links of nodes that must be there
    Refines    the three rings hold the objects of the three queues
    ptrStep    a call

Main statement: `ptrRun_refines`.
-/

namespace Libroce

open Machine (run Along bind_eq_ok)
open Rings (Links)

/-! ## Building does not read the queues -/

def RoceQp.withQueues (qp : RoceQp) (sq : List SendWr) (pending outgoing : List RoceNetpkt) : RoceQp :=
  { qp with sq := sq, req.pendingPkts := pending, req.outgoingPkts := outgoing }

/-- The QP without its queues. -/
def RoceQp.blank (qp : RoceQp) : RoceQp := qp.withQueues [] [] []

section build

variable (ctx : RoceCtx) (qp : RoceQp) (wr : SendWr) (calloc : Nat → Bool)

end build

/-! ## The objects -/

/-- The requester with its objects.  `st` is what is not on a list; its queues
stay empty. -/
structure PtrSt where
  st : St
  links : Links Nat
  pkts : Nat → Option RoceNetpkt   -- by the address of the entry
  wrs : Nat → Option SendWr
  sqWrs : Nat                      -- the heads, inside of the QP
  pendingPkts : Nat
  outgoingPkts : Nat
  stack : Option Nat               -- a list head on the stack, while it is used
  allocs : Nat                     -- the objects so far; no list is longer

/-- What the code runs into, or the use of an object that is not there. -/
inductive PtrFault where
  | code (e : Fault)
  | dangling (addr : Nat)

def PtrSt.emit (p : PtrSt) (es : List Event) : PtrSt := { p with st := p.st.emit es }

/-- The nodes that are there: the heads, and the entries of the objects. -/
def PtrSt.isNode (p : PtrSt) (a : Nat) : Bool :=
  a == p.sqWrs || a == p.pendingPkts || a == p.outgoingPkts || p.stack == some a ||
    (p.pkts a).isSome || (p.wrs a).isSome

/-- A link that a loop reads. -/
def PtrSt.nextOf (p : PtrSt) (a : Nat) : Except PtrFault Nat :=
  if p.isNode a then .ok (p.links.next a) else .error (.dangling a)

/-- `list_for_each_safe` over a list of the QP. -/
def PtrSt.forEachSafe (head : Nat) (body : PtrSt → Nat → Except PtrFault (PtrSt × Bool)) (p : PtrSt) :
    Except PtrFault PtrSt :=
  listForEachSafe PtrSt.nextOf head (.code .hang) body (p.allocs + 1) p

/-! ## Transmission -/

/-- A call on an RC QP: `malloc` gives the places of new packets, `list` the one
of the list head on the stack. -/
inductive PtrOp where
  | post (wr : SendWr) (calloc : Nat → Bool) (malloc : Nat → Nat) (list : Nat)
  | acknowledge (syndrome : Syndrome) (val : UInt8) (psn msn : UInt32)

/-- Nothing is at the address. -/
def PtrSt.Vacant (p : PtrSt) (a : Nat) : Prop :=
  p.pkts a = none ∧ p.wrs a = none ∧ a ≠ p.sqWrs ∧ a ≠ p.pendingPkts ∧ a ≠ p.outgoingPkts

/-- New objects are put where nothing is. -/
def PtrOp.Places (p : PtrSt) : PtrOp → Prop
  | .post wr _ malloc list =>
    p.Vacant wr.addr ∧ p.Vacant list ∧ wr.addr ≠ list ∧ Function.Injective malloc ∧
      ∀ i, p.Vacant (malloc i) ∧ malloc i ≠ wr.addr ∧ malloc i ≠ list
  | .acknowledge _ _ _ _ => True

/-! ## Nodes that are there -/

/-- The nodes of the rings are there. -/
def PtrSt.Inhabits (p : PtrSt) (ls : Nat → Option (List Nat)) : Prop :=
  ∀ k xs, ls k = some xs → ∀ a ∈ k :: xs, p.isNode a = true

section nodes

variable {p q : PtrSt} {ls : Nat → Option (List Nat)} {h k n : Nat} {xs ys : List Nat}

theorem PtrSt.isNode_iff {a : Nat} : p.isNode a = true ↔ a = p.sqWrs ∨ a = p.pendingPkts ∨
    a = p.outgoingPkts ∨ p.stack = some a ∨ p.pkts a ≠ none ∨ p.wrs a ≠ none := by
  unfold PtrSt.isNode
  simp only [Bool.or_eq_true, beq_iff_eq, Option.isSome_iff_ne_none, or_assoc]

/-- More objects, and the same heads. -/
structure PtrSt.Extends (p q : PtrSt) : Prop where
  heads : q.sqWrs = p.sqWrs ∧ q.pendingPkts = p.pendingPkts ∧ q.outgoingPkts = p.outgoingPkts
  stack : p.stack = none ∨ q.stack = p.stack
  pkts : ∀ a, p.pkts a ≠ none → q.pkts a ≠ none
  wrs : ∀ a, p.wrs a ≠ none → q.wrs a ≠ none

theorem PtrSt.Extends.isNode (hext : p.Extends q) {a : Nat} (ha : p.isNode a = true) : q.isNode a = true := by
  rw [PtrSt.isNode_iff] at ha ⊢
  obtain ⟨hsq, hpend, hout⟩ := hext.heads
  rw [hsq, hpend, hout]
  rcases ha with ha | ha | ha | ha | ha | ha
  · exact Or.inl ha
  · exact Or.inr (Or.inl ha)
  · exact Or.inr (Or.inr (Or.inl ha))
  · rcases hext.stack with hno | hsame
    · rw [hno] at ha
      cases ha
    · exact Or.inr (Or.inr (Or.inr (Or.inl (hsame.trans ha))))
  · exact Or.inr (Or.inr (Or.inr (Or.inr (Or.inl (hext.pkts a ha)))))
  · exact Or.inr (Or.inr (Or.inr (Or.inr (Or.inr (hext.wrs a ha)))))

theorem PtrSt.Inhabits.extends (hin : p.Inhabits ls) (hext : p.Extends q) : q.Inhabits ls :=
  fun k xs hk a ha => hext.isNode (hin k xs hk a ha)

theorem PtrSt.Inhabits.update (hin : p.Inhabits ls) (hnodes : ∀ a ∈ k :: xs, p.isNode a = true) :
    p.Inhabits (Function.update ls k (some xs)) := by
  intro j ys hj a ha
  by_cases hjk : j = k
  · rw [hjk, Function.update_self] at hj
    obtain rfl := Option.some.inj hj
    rw [hjk] at ha
    exact hnodes a ha
  · rw [Function.update_of_ne hjk] at hj
    exact hin j ys hj a ha

theorem PtrSt.Inhabits.nextOf (hin : p.Inhabits ls) (hh : ls h = some xs) (hn : n ∈ h :: xs) :
    p.nextOf n = .ok (p.links.next n) := if_pos (hin h xs hh n hn)

section loop

variable {body : PtrSt → Nat → Except PtrFault (PtrSt × Bool)}

end loop

end nodes

/-! ## The rings -/

/-- The heads are three. -/
def PtrSt.Heads (p : PtrSt) : Prop :=
  p.sqWrs ≠ p.pendingPkts ∧ p.sqWrs ≠ p.outgoingPkts ∧ p.pendingPkts ≠ p.outgoingPkts

/-- The three lists behind their heads. -/
def PtrSt.lists (p : PtrSt) (sq pend out : List Nat) (k : Nat) : Option (List Nat) :=
  if k = p.sqWrs then some sq
  else if k = p.pendingPkts then some pend
  else if k = p.outgoingPkts then some out
  else none

/-- The objects at `sq`, `pend` and `out` are those of the queues of `s`, linked in
this order; of the packets there is only `held` besides. -/
structure PtrSt.Carries (p : PtrSt) (s : St) (held : Option Nat) (sq pend out : List Nat) : Prop where
  rc : s.qp.qpType = .rc
  st : p.st = ⟨s.ctx, s.qp.blank⟩
  heads : p.Heads
  links : p.links.Holds (p.lists sq pend out)
  wrs : sq.map p.wrs = s.qp.sq.map some
  addrs : s.qp.sq.map (·.addr) = sq
  pending : pend.map p.pkts = s.qp.req.pendingPkts.map some
  outgoing : out.map p.pkts = s.qp.req.outgoingPkts.map some
  live : ∀ a, p.pkts a ≠ none → a ∈ pend ∨ a ∈ out ∨ held = some a
  held : ∀ a, held = some a → a ∉ pend ∧ a ∉ out
  room : sq.length + pend.length + out.length ≤ p.allocs
  stack : p.stack = none

/-- The objects and their links make up the queues. -/
def PtrSt.Refines (p : PtrSt) (s : St) : Prop := ∃ sq pend out, p.Carries s none sq pend out

section carries

variable {p : PtrSt} {s : St} {held : Option Nat} {sq pend out : List Nat}

theorem lists_sqWrs : p.lists sq pend out p.sqWrs = some sq := if_pos rfl

theorem PtrSt.Heads.lists_pending (h : p.Heads) :
    p.lists sq pend out p.pendingPkts = some pend := by
  unfold PtrSt.lists
  rw [if_neg h.1.symm, if_pos rfl]

theorem PtrSt.Heads.lists_outgoing (h : p.Heads) :
    p.lists sq pend out p.outgoingPkts = some out := by
  unfold PtrSt.lists
  rw [if_neg h.2.1.symm, if_neg h.2.2.symm, if_pos rfl]

theorem update_sqWrs (xs : List Nat) :
    Function.update (p.lists sq pend out) p.sqWrs (some xs) = p.lists xs pend out := by
  funext k
  unfold PtrSt.lists
  by_cases hk : k = p.sqWrs
  · rw [hk, Function.update_self, if_pos rfl]
  · rw [Function.update_of_ne hk, if_neg hk, if_neg hk]

theorem PtrSt.Heads.update_outgoing (h : p.Heads) (xs : List Nat) :
    Function.update (p.lists sq pend out) p.outgoingPkts (some xs) = p.lists sq pend xs := by
  funext k
  by_cases hk : k = p.outgoingPkts
  · unfold PtrSt.lists
    rw [hk, Function.update_self, if_neg h.2.1.symm, if_neg h.2.2.symm, if_pos rfl]
  · rw [Function.update_of_ne hk]
    unfold PtrSt.lists
    rw [if_neg hk, if_neg hk]

/-- More events. -/
theorem PtrSt.Carries.emit (h : p.Carries s held sq pend out) (es : List Event) :
    (p.emit es).Carries (s.emit es) held sq pend out := by
  refine { h with st := ?_ }
  show p.st.emit es = _
  rw [h.st]
  rfl

end carries

/-! ## `roce_xmit_pkts` -/

section xmit

variable {p : PtrSt} {s : St} {sq pend out : List Nat}

/-- The outcomes agree: both fault alike, or the objects make up the queues. -/
def Agrees (r : Except PtrFault PtrSt) : Except Fault St → Prop
  | .error e => r = .error (.code e)
  | .ok t => ∃ q, r = .ok q ∧ q.Refines t

end xmit

/-! ## Completion -/

section completion

variable {p q r : PtrSt} {s : St} {held : Option Nat} {sq pend out : List Nat}

/-- The packets and their lists are as they were. -/
structure PtrSt.SamePkts (p q : PtrSt) : Prop where
  pkts : q.pkts = p.pkts
  head : q.outgoingPkts = p.outgoingPkts

theorem PtrSt.SamePkts.refl (p : PtrSt) : p.SamePkts p := ⟨rfl, rfl⟩

theorem PtrSt.SamePkts.trans (h : p.SamePkts q) (k : q.SamePkts r) : p.SamePkts r :=
  ⟨k.pkts.trans h.pkts, k.head.trans h.head⟩

/-- The first WR leaves the send queue. -/
theorem PtrSt.Carries.leaves {a : Nat} {wr : SendWr} {wrs : List SendWr}
    (h : p.Carries s held (a :: sq) pend out)
    (hs : s.qp.sq = wr :: wrs) :
    ({ p with links := listDel p.links a }.emit [.leaveSq wr]).Carries
      (({ s with qp.sq := wrs } : St).emit [.leaveSq wr]) held sq pend out := by
  have hwrs := h.wrs
  have haddrs := h.addrs
  rw [hs, List.map_cons, List.map_cons] at hwrs
  rw [hs, List.map_cons] at haddrs
  have hdel := (holds_delFirst h.links lists_sqWrs).1
  rw [update_sqWrs] at hdel
  refine { h with st := ?_, links := hdel, wrs := (List.cons.inj hwrs).2, addrs := (List.cons.inj haddrs).2,
                  room := ?_ }
  · show p.st.emit _ = _
    rw [h.st]
    rfl
  · have hroom := h.room
    rw [List.length_cons] at hroom
    show _ ≤ p.allocs
    omega

/-- A packet was acknowledged: both fault alike, or its WR is dealt with and the
packets are left. -/
def AgreesBeside (p : PtrSt) (held : Option Nat) (pend out : List Nat) (r : Except PtrFault PtrSt) :
    Except Fault St → Prop
  | .error e => r = .error (.code e)
  | .ok t => ∃ q sq, r = .ok q ∧ q.Carries t held sq pend out ∧ p.SamePkts q

theorem AgreesBeside.after {x : Except Fault St} {r : Except PtrFault PtrSt} (hsame : p.SamePkts q)
    (h : AgreesBeside q held pend out r x) : AgreesBeside p held pend out r x := by
  cases x with
  | error e => exact h
  | ok t =>
    obtain ⟨u, sq, hr, hu, hq⟩ := h
    exact ⟨u, sq, hr, hu, hsame.trans hq⟩

end completion

/-! ## Acknowledgements -/

section ack

variable {p : PtrSt} {s : St} {sq pend out : List Nat}

/-- The first outgoing packet is taken off, and held by the loop. -/
theorem PtrSt.Carries.takes {a : Nat} {pkt : RoceNetpkt} {pkts : List RoceNetpkt}
    (h : p.Carries s none sq pend (a :: out)) (hs : s.qp.req.outgoingPkts = pkt :: pkts) :
    ({ p with links := listDel p.links a }.emit [.acked pkt]).Carries
      (({ s with qp.req.outgoingPkts := pkts } : St).emit [.acked pkt]) (some a) sq pend out := by
  have hout := h.outgoing
  rw [hs, List.map_cons, List.map_cons] at hout
  obtain ⟨hdel, hfree⟩ := holds_delFirst h.links h.heads.lists_outgoing
  rw [h.heads.update_outgoing] at hdel hfree
  refine { h with st := ?_, links := hdel, outgoing := (List.cons.inj hout).2, live := ?_, held := ?_,
                    room := ?_ }
  · show p.st.emit _ = _
    rw [h.st]
    rfl
  · intro b hb
    rcases h.live b hb with hmem | hmem | hno
    · exact Or.inl hmem
    · rcases List.mem_cons.mp hmem with rfl | hmem
      · exact Or.inr (Or.inr rfl)
      · exact Or.inr (Or.inl hmem)
    · cases hno
  · intro b hb
    obtain rfl := Option.some.inj hb
    have hpend : _ ∉ p.pendingPkts :: pend := hfree _ _ h.heads.lists_pending
    have hout : _ ∉ p.outgoingPkts :: out := hfree _ _ h.heads.lists_outgoing
    exact ⟨fun hmem => hpend (List.mem_cons_of_mem _ hmem), fun hmem => hout (List.mem_cons_of_mem _ hmem)⟩
  · have hroom := h.room
    rw [List.length_cons] at hroom
    show _ ≤ p.allocs
    omega

/-- Sequences of agreeing steps agree. -/
theorem Agrees.bind {r : Except PtrFault PtrSt} {x : Except Fault St} {f : PtrSt → Except PtrFault PtrSt}
    {g : St → Except Fault St} (h : Agrees r x) (hf : ∀ q t, q.Refines t → Agrees (f q) (g t)) :
    Agrees (r >>= f) (x >>= g) := by
  cases x with
  | error e =>
    have hr : r = .error (.code e) := h
    rw [hr]
    rfl
  | ok t =>
    obtain ⟨q, hr, hq⟩ := h
    rw [hr]
    exact hf q t hq

end ack

/-! ## Posts -/

section post

variable {p q : PtrSt} {s : St} {sq pend out : List Nat} {ls : Nat → Option (List Nat)} {malloc : Nat → Nat}
  {head : Nat} {xs : List Nat}

theorem PtrSt.Inhabits.alloc (hin : p.Inhabits ls) (a : Nat) (pkt : RoceNetpkt) :
    ({ p with pkts := Function.update p.pkts a (some pkt), allocs := p.allocs + 1 } : PtrSt).Inhabits ls := by
  refine hin.extends ⟨⟨rfl, rfl, rfl⟩, Or.inr rfl, ?_, fun _ hb => hb⟩
  intro b hb
  by_cases hba : b = a
  · rw [hba]
    show Function.update p.pkts a (some pkt) a ≠ none
    rw [Function.update_self]
    exact Option.some_ne_none pkt
  · show Function.update p.pkts a (some pkt) b ≠ none
    rw [Function.update_of_ne hba]
    exact hb

end post

/-! ## A new QP -/

end Libroce
