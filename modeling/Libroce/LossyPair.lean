import Libroce.Quiescence
import Libroce.Segmentation
import Libroce.SendLedger
import Libroce.SendReassembly

/-!
# SENDs over a lossy network

A requester QP and a responder QP, and between them a network that keeps every
packet it was given.  A step hands one of them over, so that packets are lost,
doubled and reordered, but not altered.

    SendWr.data      what a WR sends
    completedSince   what the user of the responder reads at its completions
    pairStep         a post on either side, or a delivery
    Pair.Safe        messages arrive in order, and before they are reported sent
-/

namespace Libroce

/-! ## Messages as the users see them -/

/-- The immediate and the bytes of a SEND. -/
structure SendData where
  imm : Option UInt32
  bytes : List UInt8
  deriving DecidableEq

/-- What a WR sends: its array `sge[]` when it is inline, or what its SGEs denote. -/
def SendWr.data (ctx : RoceCtx) (wr : SendWr) : SendData where
  imm := wr.immdt
  bytes :=
    if roceSendWrIsInline wr then (sgeBytes wr.sge).take wr.len
    else (wr.sge.flatMap (sgeHost ctx)).map ctx.mem

/-- The receive WR that is freed. -/
def Event.freed : Event → Option UInt64
  | .freeRecv p => some p
  | _ => none

def freedPtrs (es : List Event) : List UInt64 := es.filterMap Event.freed

/-- What the user reads when a call that led from `s` to `t` completes the
receive WR at `p`: as many bytes of its SGEs as the completion says. -/
def readRecv (s t : St) (wc : RoceWc) (p : UInt64) : SendData where
  imm := if wc.wcFlags &&& roceWcWithImm != 0 then some wc.immData else none
  bytes := (s.ctx.recvWrs p).elim [] fun wr =>
    ((wr.sge.flatMap (sgeHost s.ctx)).take wc.byteLen.toNat).map t.ctx.mem

/-- The events between two states. -/
def eventsSince (s t : St) : List Event := t.ctx.trace.drop s.ctx.trace.length

/-- What the user reads of the receive WRs completed between two states. -/
def completedSince (s t : St) : List SendData :=
  List.zipWith (readRecv s t) (reportedWcs (eventsSince s t)) (freedPtrs (eventsSince s t))

/-! ## The pair -/

/-- The requester `a`, the responder `b`, and the network: every packet that
was sent.  The rest is a record of what the users have seen. -/
structure Pair where
  a : St
  b : St
  fromA : List RoceNetpkt
  fromB : List RoceNetpkt
  posted : List (SendWr × SendData)   -- the WRs posted at `a`, and what they send
  psns : Nat                          -- the PSNs used for them
  reported : List RoceWc              -- the completions at `a`
  received : List SendData            -- the messages completed at `b`

inductive PairOp where
  | postSend (wr : SendWr) (calloc : Nat → Bool)
  | postRecv (p wrId : UInt64) (sge : List RoceSge)
  | toB (frame : List (List UInt8)) (calloc : Bool)
  | toA (frame : List (List UInt8)) (calloc : Bool)

/-- The requester goes on to `a`. -/
def Pair.movesA (x : Pair) (a : St) : Pair :=
  { x with
    a := a, fromA := x.fromA ++ sentSince x.a a
    reported := x.reported ++ reportedWcs (eventsSince x.a a) }

/-- The responder goes on to `b`. -/
def Pair.movesB (x : Pair) (b : St) : Pair :=
  { x with
    b := b, fromB := x.fromB ++ sentSince x.b b, received := x.received ++ completedSince x.b b }

/-- The requester goes on to `a` with a WR posted. -/
def Pair.posts (x : Pair) (wr : SendWr) (a : St) : Pair :=
  { x.movesA a with
    posted := x.posted ++ [(wr, wr.data x.a.ctx)]
    psns := x.psns + (a.qp.req.queued.length - x.a.qp.req.queued.length) }

/-- `frame` holds the bytes of a packet that was sent, in any pieces. -/
def carries (sent : List RoceNetpkt) (frame : List (List UInt8)) : Bool :=
  sent.any fun pkt => pkt.iovs.flatten == frame.flatten

/-- One step; `none` says that the network has no such packet. -/
def pairStep (x : Pair) : PairOp → Except (Option Fault) Pair
  | .postSend wr calloc =>
    match rocePostSend x.a wr.fresh calloc with
    | .error e => .error (some e)
    | .ok a => .ok (x.posts wr a)
  | .postRecv p wrId sge =>
    match rocePostRecv x.b p (.fresh wrId sge) with
    | .error e => .error (some e)
    | .ok (_, b) => .ok (x.movesB b)
  | .toB frame calloc =>
    if carries x.fromA frame then
      match roceNetRecv x.b frame calloc with
      | .error e => .error (some e)
      | .ok (_, b) => .ok (x.movesB b)
    else .error none
  | .toA frame calloc =>
    if carries x.fromB frame then
      match roceNetRecv x.a frame calloc with
      | .error e => .error (some e)
      | .ok (_, a) => .ok (x.movesA a)
    else .error none

/-- What a step did. -/
inductive PairTurn (x : Pair) : PairOp → Pair → Prop where
  | postSend {wr : SendWr} {calloc : Nat → Bool} {a : St} (h : rocePostSend x.a wr.fresh calloc = .ok a) :
      PairTurn x (.postSend wr calloc) (x.posts wr a)
  | postRecv {p wrId : UInt64} {sge : List RoceSge} {ret : Int} {b : St}
      (h : rocePostRecv x.b p (.fresh wrId sge) = .ok (ret, b)) :
      PairTurn x (.postRecv p wrId sge) (x.movesB b)
  | toB {frame : List (List UInt8)} {calloc : Bool} {pkt : RoceNetpkt} {ret : Int} {b : St}
      (hsent : pkt ∈ x.fromA) (hframe : frame.flatten = pkt.iovs.flatten)
      (h : roceNetRecv x.b frame calloc = .ok (ret, b)) : PairTurn x (.toB frame calloc) (x.movesB b)
  | toA {frame : List (List UInt8)} {calloc : Bool} {pkt : RoceNetpkt} {ret : Int} {a : St}
      (hsent : pkt ∈ x.fromB) (hframe : frame.flatten = pkt.iovs.flatten)
      (h : roceNetRecv x.a frame calloc = .ok (ret, a)) : PairTurn x (.toA frame calloc) (x.movesA a)

/-- A packet that the network carries was sent. -/
theorem carries_mem {sent : List RoceNetpkt} {frame : List (List UInt8)} (h : carries sent frame = true) :
    ∃ pkt ∈ sent, frame.flatten = pkt.iovs.flatten := by
  obtain ⟨pkt, hmem, heq⟩ := List.any_eq_true.mp h
  exact ⟨pkt, hmem, (beq_iff_eq.mp heq).symm⟩

theorem pairStep_turn {x y : Pair} {op : PairOp} (h : pairStep x op = .ok y) : PairTurn x op y := by
  unfold pairStep at h
  cases op with
  | postSend wr calloc =>
    simp only at h
    split at h
    · cases h
    · next hpost =>
      obtain rfl := Except.ok.inj h
      exact .postSend hpost
  | postRecv p wrId sge =>
    simp only at h
    split at h
    · cases h
    · next hpost =>
      obtain rfl := Except.ok.inj h
      exact .postRecv hpost
  | toB frame calloc =>
    simp only at h
    split at h
    · next hcarries =>
      obtain ⟨pkt, hsent, hframe⟩ := carries_mem hcarries
      split at h
      · cases h
      · next hrecv =>
        obtain rfl := Except.ok.inj h
        exact .toB hsent hframe hrecv
    · cases h
  | toA frame calloc =>
    simp only at h
    split at h
    · next hcarries =>
      obtain ⟨pkt, hsent, hframe⟩ := carries_mem hcarries
      split at h
      · cases h
      · next hrecv =>
        obtain rfl := Except.ok.inj h
        exact .toA hsent hframe hrecv
    · cases h

/-! ## What is assumed -/

/-- Two QPs set up for each other, the RQ PSN of one equal to the SQ PSN of the
other; nothing was posted or sent. -/
structure Pair.Fresh (x : Pair) : Prop where
  there : Joined x.a x.b
  back : Joined x.b x.a
  sqPsnSet : SqPsnSet x.a.qp
  psn : x.b.qp.attr.rqPsn = x.a.qp.attr.sqPsn
  sq : x.a.qp.sq = []
  rq : x.b.qp.rq = []
  network : x.fromA = [] ∧ x.fromB = []
  record : x.posted = [] ∧ x.psns = 0 ∧ x.reported = [] ∧ x.received = []

/-- A receive WR for messages of up to `longest` bytes: its SGEs lie in MRs of
pages, denote no byte twice, and can be mapped for any packet. -/
structure RecvRoom (s : St) (longest : Nat) (sge : List RoceSge) : Prop where
  pages : ∀ g ∈ sge, ∃ mr, roceGetMrNoref s.ctx (roceKeyToIndex g.lkey) = some mr ∧
    mr.state = .valid ∧ mr.Paged ∧ InRange g mr
  disjoint : (sge.flatMap (sgeHost s.ctx)).Nodup
  mappable : Mappable s.ctx s.qp sge
  room : longest ≤ sgeTotal sge

/-- SENDs of up to `longest` bytes, and receive WRs that take them.  A receive WR
is a new object. -/
def Allowed (longest : Nat) (x : Pair) : PairOp → Prop
  | .postSend wr _ => (wr.opcode = .send ∨ wr.opcode = .sendWithImm) ∧ wr.len ≤ longest
  | .postRecv p _ sge => p ≠ 0 ∧ x.b.ctx.recvWrs p = none ∧ RecvRoom x.b longest sge
  | .toB _ _ => True
  | .toA _ _ => True

/-- No post gets a local error: an inline WR is short enough, the SGEs of any
other lie in MRs of their keys, and the packet of a request that fits in one is
allocated. -/
def Unfailed (x : Pair) : PairOp → Prop
  | .postSend wr calloc =>
    (roceSendWrIsInline wr = true → inlineLen wr ≤ x.a.qp.attr.cap.maxInlineData) ∧
    (roceSendWrIsInline wr = false → ∀ g ∈ wr.sge, ∃ mr, SgeIn x.a.ctx x.a.qp g mr) ∧
    (calloc 0 = true ∨ x.a.qp.attr.pathMtu.toNat < wr.len)
  | .postRecv _ _ _ => True
  | .toB _ _ => True
  | .toA _ _ => True

/-! ## In order, and completed once received -/

/-- The messages completed at the responder are the first ones posted, and the
WRs that the requester completed are the first posted ones too, no more of them. -/
structure Pair.Safe (x : Pair) : Prop where
  inOrder : x.received <+: x.posted.map (·.2)
  completed : ∃ n ≤ x.received.length, x.reported.map (fun wc => (wc.wrId, wc.status)) =
    ((x.posted.take n).filter fun p => wrSignaled x.a.qp p.1).map fun p => (p.1.wrId, roceWcSuccess)

end Libroce
