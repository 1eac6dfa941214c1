import Mathlib.Data.List.Nodup
import Libroce.ResponderStep

/-!
# The union of a WR pointer and an address

`resp.wr` and `resp.iova` share eight bytes, told apart by two tests for zero.
`held` follows in the trace which receive WRs were popped and not freed.  While
no SEND goes on over the address of a WRITE, and no WRITE stores or clears the
union under a SEND, these are the WR in the union and no other.

Main statement: `respRun_union` — along every such run each WR that
`roce_recv_payload` uses was popped and not freed, and none is lost.
-/

namespace Libroce

open Machine (Along)

/-! ## The responder as a machine -/

/-- A call that reaches the responder. -/
inductive RespOp where
  | recv (pkt : Inbound)
  | postRecv (p : UInt64) (wrId : UInt64) (sge : List RoceSge)

/-- One call. -/
def respStep (s : St) : RespOp → Except Fault St
  | .recv pkt =>
    match roceRecvRc s pkt with
    | .error e => .error e
    | .ok (_, s) => .ok s
  | .postRecv p wrId sge =>
    match rocePostRecv s p (.fresh wrId sge) with
    | .error e => .error e
    | .ok (_, s) => .ok s

/-- The packets are requests in sequence, and a receive WR is an object of its
own when it is posted. -/
def Arrives (s : St) : RespOp → Prop
  | .recv pkt => ibBthGetOpcode pkt.bth ≠ ibOpcodeAcknowledge ∧
      roceComparePsn s.qp.attr.rqPsn (ibBthGetPsn pkt.bth) = 0
  | .postRecv p _ _ => p ≠ 0 ∧ s.ctx.recvWrs p = none

/-! ## The WRs in hand -/

/-- The receive WRs popped and not yet freed. -/
def heldStep (ps : List UInt64) : Event → List UInt64
  | .popRecv p => p :: ps
  | .freeRecv p => ps.erase p
  | _ => ps

def held (trace : List Event) : List UInt64 := trace.foldl heldStep []

theorem held_append (es fs : List Event) : held (es ++ fs) = fs.foldl heldStep (held es) := by
  unfold held
  rw [List.foldl_append]

/-- An event that pops and frees nothing. -/
def Event.Quiet : Event → Prop
  | .popRecv _ => False
  | .freeRecv _ => False
  | _ => True

theorem held_quiet (es fs : List Event) (h : ∀ e ∈ fs, e.Quiet) : held (es ++ fs) = held es := by
  rw [held_append]
  induction fs with
  | nil => rfl
  | cons e fs ih =>
    have he := h e List.mem_cons_self
    have hstep : heldStep (held es) e = held es := by
      cases e <;> first | rfl | exact he.elim
    rw [List.foldl_cons, hstep]
    exact ih fun e he => h e (List.mem_cons_of_mem _ he)

theorem copyEvents_quiet (dsts : List Iovec) (bytes : List UInt8) :
    ∀ e ∈ copyEvents dsts bytes, e.Quiet := by
  induction dsts generalizing bytes with
  | nil =>
    intro e he
    cases he
  | cons d dsts ih =>
    intro e he
    rcases List.mem_cons.mp he with rfl | he
    · trivial
    · exact ih _ e he

theorem unmap_quiet (dmamap : Bool) (dsts : List Iovec) : ∀ e ∈ roceMrUnmapSge dmamap dsts, e.Quiet := by
  intro e he
  unfold roceMrUnmapSge at he
  split at he
  · obtain ⟨iov, -, rfl⟩ := List.mem_map.mp he
    trivial
  · cases he

/-- Placing payload neither pops nor frees. -/
theorem held_place (s : St) (dsts : List Iovec) (bytes : List UInt8) (dmamap : Bool) :
    held (s.place dsts bytes dmamap).ctx.trace = held s.ctx.trace := by
  show held (s.ctx.trace ++ copyEvents dsts bytes ++ roceMrUnmapSge dmamap dsts) = _
  rw [held_quiet _ _ (unmap_quiet dmamap dsts), held_quiet _ _ (copyEvents_quiet dsts bytes)]

/-! ## The invariant -/

/-- The WR in the union, when it holds one. -/
def RespWord.inProgress : RespWord → List UInt64
  | .wr p => if p = 0 then [] else [p]
  | .iova _ => []

/-- The union holds the WR in hand; it and the queued ones are distinct live objects. -/
structure Holds (s : St) : Prop where
  inHand : held s.ctx.trace = s.qp.resp.word.inProgress
  live : ∀ p ∈ s.qp.resp.word.inProgress ++ s.qp.rq, s.ctx.recvWrs p ≠ none
  nodup : (s.qp.resp.word.inProgress ++ s.qp.rq).Nodup
  nonnull : 0 ∉ s.qp.rq

theorem inProgress_of_bits {w : RespWord} (h : w.bits = 0) : w.inProgress = [] := by
  cases w with
  | wr p => exact if_pos h
  | iova va => rfl

theorem inProgress_wr {p : UInt64} (h : p ≠ 0) : (RespWord.wr p).inProgress = [p] := if_neg h

/-- What `Holds` speaks about. -/
theorem Holds.congr {s s' : St} (h : Holds s) (htrace : held s'.ctx.trace = held s.ctx.trace)
    (hword : s'.qp.resp.word.inProgress = s.qp.resp.word.inProgress) (hrq : s'.qp.rq = s.qp.rq)
    (hlive : ∀ p, s.ctx.recvWrs p ≠ none → s'.ctx.recvWrs p ≠ none) : Holds s' := by
  refine ⟨?_, ?_, ?_, ?_⟩
  · rw [htrace, hword, h.inHand]
  · rw [hword, hrq]
    exact fun p hp => hlive p (h.live p hp)
  · rw [hword, hrq]
    exact h.nodup
  · rw [hrq]
    exact h.nonnull

theorem setRecvWr_live (s : St) (p q : UInt64) (wr : RecvWr) (h : s.ctx.recvWrs q ≠ none) :
    (s.setRecvWr p wr).ctx.recvWrs q ≠ none := by
  show (if q = p then some wr else s.ctx.recvWrs q) ≠ none
  split
  · exact Option.some_ne_none wr
  · exact h

/-- Freeing a receive WR. -/
theorem roceFreeRecvWr_ok {ctx ctx' : RoceCtx} {p : UInt64} {wr : RecvWr}
    (h : roceFreeRecvWr ctx p wr = .ok ctx') :
    ctx'.trace = ctx.trace ++ [.freeRecv p] ∧
      ∀ q, ctx'.recvWrs q = if q = p then none else ctx.recvWrs q := by
  unfold roceFreeRecvWr at h
  split at h
  · cases h
  · next ctx1 hput =>
    obtain rfl := Except.ok.inj h
    have hrefs := rocePutMrs_refsOnly hput
    constructor
    · show ctx1.trace ++ _ = _
      rw [hrefs.trace]
    · intro q
      show (if q = p then none else ctx1.recvWrs q) = _
      rw [hrefs]

theorem roceRecvCqComp_quiet {qp : RoceQp} {opcode : UInt8} {wrId : UInt64} {byteLen : UInt32}
    {immdt : Option UInt32} {e : Event} (h : roceRecvCqComp qp opcode wrId byteLen immdt = some e) :
    e.Quiet := by
  obtain ⟨wc, rfl⟩ := roceRecvCqComp_some h
  trivial

/-! ### One request -/

/-- Completing the WR in the union frees it and empties the union. -/
theorem Finish.holds {s s' : St} {p : UInt64} {wr : RecvWr} {byteLen : UInt32}
    {immdt : Option UInt32} {opcode : UInt8} (hf : Finish s p wr byteLen immdt opcode s')
    (h : Holds s) (hword : s.qp.resp.word = .wr p) (hp : p ≠ 0) : Holds s' := by
  cases hf with
  | goesOn _ => exact h
  | @done e ctx he hfree =>
    obtain ⟨htrace, hrecv⟩ := roceFreeRecvWr_ok hfree
    have hheld := h.inHand
    have hlive := h.live
    have hnodup := h.nodup
    rw [hword, inProgress_wr hp] at hheld hlive hnodup
    have hnot : p ∉ s.qp.rq := (List.nodup_cons.mp hnodup).1
    refine ⟨?_, ?_, ?_, h.nonnull⟩
    · show held ctx.trace = []
      have hquiet : held (s.ctx.trace ++ [e]) = [p] := by
        rw [held_quiet, hheld]
        intro f hf
        obtain rfl := List.mem_singleton.mp hf
        exact roceRecvCqComp_quiet he
      rw [htrace, held_append, St.emit_trace, hquiet]
      show [p].erase p = []
      rw [List.erase_cons_head]
    · intro q hq
      show ctx.recvWrs q ≠ none
      have hq' : q ∈ s.qp.rq := hq
      rw [hrecv]
      have hne : q ≠ p := by
        rintro rfl
        exact hnot hq'
      rw [if_neg hne]
      exact hlive q (List.mem_cons_of_mem p hq')
    · show s.qp.rq.Nodup
      exact (List.nodup_cons.mp hnodup).2

theorem PayloadStep.holds {s s' : St} {iovs : List (List UInt8)} {immdt : Option UInt32}
    {opcode : UInt8} {p : UInt64} {wr : RecvWr} {ret : Int}
    (hs : PayloadStep s iovs immdt opcode p wr ret s') (h : Holds s)
    (hword : s.qp.resp.word = .wr p) (hp : p ≠ 0) : Holds s' := by
  cases hs with
  | short _ _ => exact h
  | refused _ _ _ _ _ => exact h.congr rfl rfl rfl fun q => setRecvWr_live s p q _
  | placed _ _ _ _ hfin =>
    refine hfin.holds ?_ hword hp
    exact h.congr (held_place s _ _ _) rfl rfl fun q => setRecvWr_live _ p q _

theorem SendStep.holds {s s' : St} {iovs : List (List UInt8)} {immdt : Option UInt32}
    {inprocess : Bool} {opcode : UInt8} {ret : Int} (hs : SendStep s iovs immdt inprocess opcode ret s')
    (h : Holds s) (hturn : inprocess = true → ∀ va, s.qp.resp.word = .iova va → va = 0) :
    Holds s' := by
  cases hs with
  | outOfOrder _ => exact h
  | noWr _ hbits _ =>
    refine h.congr rfl ?_ rfl fun q hq => hq
    rw [inProgress_of_bits hbits]
    rfl
  | @first p rq wr _ _ _ hbits hrq _ hs =>
    have hheld := h.inHand
    have hlive := h.live
    have hnodup := h.nodup
    have hnull := h.nonnull
    rw [inProgress_of_bits hbits] at hheld hlive hnodup
    rw [hrq] at hlive hnodup hnull
    have hp : p ≠ 0 := fun hzero => hnull (by rw [hzero]; exact List.mem_cons_self)
    refine hs.holds ⟨?_, ?_, ?_, ?_⟩ rfl hp
    · show held (s.ctx.trace ++ [.popRecv p]) = (RespWord.wr p).inProgress
      rw [held_append, hheld, inProgress_wr hp]
      rfl
    · show ∀ q ∈ (RespWord.wr p).inProgress ++ rq, s.ctx.recvWrs q ≠ none
      rw [inProgress_wr hp]
      exact hlive
    · show ((RespWord.wr p).inProgress ++ rq).Nodup
      rw [inProgress_wr hp]
      exact hnodup
    · exact fun hmem => hnull (List.mem_cons_of_mem p hmem)
  | next hin hbits _ hs =>
    cases hword : s.qp.resp.word with
    | wr p =>
      rw [hword] at hs hbits
      exact hs.holds h hword hbits
    | iova va =>
      rw [hword] at hbits
      exact absurd (hturn hin va hword) hbits

theorem PlaceStep.holds {s s' : St} {iovs : List (List UInt8)} {immdt : Option UInt32}
    {opcode : UInt8} {ret : Int} (hs : PlaceStep s iovs immdt opcode ret s') (h : Holds s)
    (hturn : WithImm opcode → s.qp.rq ≠ [] → WriteMapped s (roceIovLen iovs) →
      s.qp.resp.word.inProgress = []) : Holds s' := by
  cases hs with
  | refused _ _ => exact h
  | plain _ _ => exact h.congr (held_place s _ _ _) rfl rfl fun q hq => hq
  | noWr _ _ _ => exact h.congr (held_place s _ _ _) rfl rfl fun q hq => hq
  | @done dsts dmamap p rq wr e ctx hwith hrq hwr hmap he hfree =>
    have hnone := hturn hwith (by rw [hrq]; exact List.cons_ne_nil p rq) ⟨_, hmap.map, rfl⟩
    obtain ⟨htrace, hrecv⟩ := roceFreeRecvWr_ok hfree
    have hheld := h.inHand
    have hlive := h.live
    have hnodup := h.nodup
    have hnull := h.nonnull
    rw [hnone] at hheld hlive hnodup
    rw [hrq] at hlive hnodup hnull
    have hnot : p ∉ rq := (List.nodup_cons.mp hnodup).1
    refine ⟨?_, ?_, (List.nodup_cons.mp hnodup).2, fun hmem => hnull (List.mem_cons_of_mem p hmem)⟩
    · show held ctx.trace = []
      have hwritten : held (s.written dsts iovs dmamap).ctx.trace = [] := by
        rw [← hheld]
        exact held_place s dsts iovs.flatten dmamap
      have hpopped : held ((s.written dsts iovs dmamap).ctx.trace ++ [.popRecv p, e]) = [p] := by
        rw [List.append_cons, held_quiet, held_append, hwritten]
        · rfl
        · intro f hf
          obtain rfl := List.mem_singleton.mp hf
          exact roceRecvCqComp_quiet he
      rw [htrace, held_append, St.emit_trace, hpopped]
      show [p].erase p = []
      rw [List.erase_cons_head]
    · intro q hq
      show ctx.recvWrs q ≠ none
      have hq' : q ∈ rq := hq
      have hne : q ≠ p := by
        rintro rfl
        exact hnot hq'
      rw [hrecv, if_neg hne]
      exact hlive q (List.mem_cons_of_mem p hq')

theorem WriteStep.holds {s s' : St} {iovs : List (List UInt8)} {reth : Option IbReth}
    {immdt : Option UInt32} {inprocess : Bool} {opcode : UInt8} {ret : Int}
    (hs : WriteStep s iovs reth immdt inprocess opcode ret s') (h : Holds s)
    (hfirst : inprocess = false → s.qp.resp.writtenlen = 0 → s.qp.resp.word.inProgress = [])
    (hnext : inprocess = true → WithImm opcode → s.qp.resp.writtenlen ≠ 0 → s.qp.rq ≠ [] →
      WriteMapped s (roceIovLen iovs) → s.qp.resp.word.inProgress = []) : Holds s' := by
  cases hs with
  | outOfOrder _ =>
    refine h.congr (held_quiet _ _ ?_) rfl rfl fun q hq => hq
    intro e he
    obtain rfl := List.mem_singleton.mp he
    trivial
  | first hin hlen _ hs =>
    have hnone := hfirst hin hlen
    refine hs.holds (h.congr rfl ?_ rfl fun q hq => hq) fun _ _ _ => rfl
    rw [hnone]
    rfl
  | next hin hlen hs => exact hs.holds h fun hwith => hnext hin hwith hlen

/-! ## Runs -/

/-- SENDs and WRITEs take turns at the union: no later SEND packet meets the
address of a WRITE, no first WRITE packet stores its own under a SEND, and no
WRITE that ends with an immediate clears the union under one. -/
def TakesTurns (s : St) : RespOp → Prop
  | .postRecv _ _ _ => True
  | .recv pkt =>
    match pkt.request with
    | none => True
    | some (.send inprocess _ _) => inprocess = true → ∀ va, s.qp.resp.word = .iova va → va = 0
    | some (.write false _ _ _) => s.qp.resp.writtenlen = 0 → s.qp.resp.word.inProgress = []
    | some (.write true _ immdt iovs) => immdt.isSome = true → s.qp.resp.writtenlen ≠ 0 →
        s.qp.rq ≠ [] → WriteMapped s (roceIovLen iovs) → s.qp.resp.word.inProgress = []

theorem RequestStep.holds {s s' : St} {pkt : Inbound} {ret : Int} (hs : RequestStep s pkt ret s')
    (h : Holds s) (hturn : TakesTurns s (.recv pkt)) : Holds s' := by
  cases hs with
  | malformed _ => exact h
  | send hreq hs =>
    unfold TakesTurns at hturn
    simp only [hreq] at hturn
    exact hs.holds h hturn
  | @write inprocess reth immdt iovs _ _ hreq hs =>
    obtain ⟨-, himm⟩ := decodeRequest_write hreq
    unfold TakesTurns at hturn
    cases inprocess with
    | false =>
      simp only [hreq] at hturn
      refine hs.holds h (fun _ => hturn) ?_
      intro hfalse
      cases hfalse
    | true =>
      simp only [hreq] at hturn
      refine hs.holds h ?_ fun _ hwith => hturn (himm.mp hwith)
      intro htrue
      cases htrue

theorem recvInSequence_holds {s s' : St} {pkt : Inbound} {ret : Int}
    (hs : recvInSequence s pkt = .ok (ret, s')) (h : Holds s) (hturn : TakesTurns s (.recv pkt)) :
    Holds s' := by
  have hnak : Holds { s with qp.resp.inPsnNak := false } := h.congr rfl rfl rfl fun q hq => hq
  rcases recvInSequence_ok hs with ⟨-, hstep⟩ | ⟨-, s1, s2, hstep, hack, rfl⟩
  · exact hstep.holds hnak hturn
  · have h1 := hstep.holds hnak hturn
    rcases hack with ⟨-, rfl⟩ | ⟨-, hack⟩
    · exact h1.congr rfl rfl rfl fun q hq => hq
    · obtain ⟨q, rfl, -⟩ := roceNetpktAcknowledge_ok hack
      refine h1.congr (held_quiet _ _ ?_) rfl rfl fun q hq => hq
      intro e he
      obtain rfl := List.mem_singleton.mp he
      trivial

/-- Posting a receive WR. -/
theorem rocePostRecv_holds {s s' : St} {p : UInt64} {wr : RecvWr} {ret : Int}
    (hs : rocePostRecv s p wr = .ok (ret, s')) (h : Holds s) (hp : p ≠ 0)
    (hfresh : s.ctx.recvWrs p = none) : Holds s' := by
  have hnot : p ∉ s.qp.resp.word.inProgress ++ s.qp.rq := fun hmem => h.live p hmem hfresh
  unfold rocePostRecv at hs
  split at hs
  · cases hs
  · next ret1 ctx1 hget =>
    have hrefs := roceGetMrs_refsOnly hget
    split at hs
    · split at hs
      · cases hs
      · next ctx2 hfree =>
        obtain ⟨-, rfl⟩ := Prod.mk.inj (Except.ok.inj hs)
        obtain ⟨htrace, hrecv⟩ := roceFreeRecvWr_ok hfree
        refine ⟨?_, ?_, h.nodup, h.nonnull⟩
        · show held ctx2.trace = _
          rw [htrace, held_append, hrefs.trace, h.inHand]
          exact List.erase_of_not_mem fun hmem => hnot (List.mem_append_left _ hmem)
        · intro q hq
          show ctx2.recvWrs q ≠ none
          have hne : q ≠ p := by
            rintro rfl
            exact hnot hq
          rw [hrecv, if_neg hne, hrefs]
          exact h.live q hq
    · obtain ⟨-, rfl⟩ := Prod.mk.inj (Except.ok.inj hs)
      refine ⟨?_, ?_, ?_, ?_⟩
      · show held ctx1.trace = _
        rw [hrefs.trace, h.inHand]
      · intro q hq
        show (if q = p then some wr else ctx1.recvWrs q) ≠ none
        by_cases hne : q = p
        · rw [if_pos hne]
          exact Option.some_ne_none wr
        · rw [if_neg hne, hrefs]
          have hq' : q ∈ s.qp.resp.word.inProgress ++ (s.qp.rq ++ [p]) := hq
          rw [← List.append_assoc] at hq'
          rcases List.mem_append.mp hq' with hmem | hmem
          · exact h.live q hmem
          · exact absurd (List.mem_singleton.mp hmem) hne
      · show (s.qp.resp.word.inProgress ++ (s.qp.rq ++ [p])).Nodup
        rw [← List.append_assoc]
        rw [← List.concat_eq_append]
        exact List.Nodup.concat hnot h.nodup
      · show 0 ∉ s.qp.rq ++ [p]
        rintro hmem
        rcases List.mem_append.mp hmem with hmem | hmem
        · exact h.nonnull hmem
        · exact hp (List.mem_singleton.mp hmem).symm

theorem respStep_holds {s s' : St} {op : RespOp} (h : Holds s) (harr : Arrives s op)
    (hturn : TakesTurns s op) (hs : respStep s op = .ok s') : Holds s' := by
  cases op with
  | recv pkt =>
    obtain ⟨hreq, hseq⟩ := harr
    unfold respStep roceRecvRc at hs
    simp only [if_neg hreq, hseq] at hs
    split at hs
    · cases hs
    · next ret s1 hrecv =>
      obtain rfl := Except.ok.inj hs
      exact recvInSequence_holds hrecv h hturn
  | postRecv p wrId sge =>
    obtain ⟨hp, hfresh⟩ := harr
    unfold respStep at hs
    simp only at hs
    split at hs
    · cases hs
    · next ret s1 hpost =>
      obtain rfl := Except.ok.inj hs
      exact rocePostRecv_holds hpost h hp hfresh

/-- What `roce_recv_payload` takes for a receive WR is one: popped from this
queue, not freed, stored there as a WR.  And the step loses none in hand. -/
structure WrSafe (s : St) (op : RespOp) : Prop where
  used : ∀ pkt inprocess immdt iovs p s1, op = .recv pkt →
    pkt.request = some (.send inprocess immdt iovs) → rocePopRecvWr s inprocess = (some p, s1) →
    p ∈ held s1.ctx.trace ∧ s1.ctx.recvWrs p ≠ none ∧ s1.qp.resp.word = .wr p
  kept : ∀ s', respStep s op = .ok s' → ∀ p ∈ held s'.ctx.trace, s'.qp.resp.word = .wr p

theorem Holds.wr {s : St} (h : Holds s) {p : UInt64} (hp : p ∈ held s.ctx.trace) :
    s.qp.resp.word = .wr p := by
  rw [h.inHand] at hp
  unfold RespWord.inProgress at hp
  split at hp
  · next q hq =>
    split at hp
    · cases hp
    · rw [hq, List.mem_singleton.mp hp]
  · cases hp

theorem Holds.used {s s1 : St} {inprocess : Bool} {p : UInt64} (h : Holds s)
    (hturn : inprocess = true → ∀ va, s.qp.resp.word = .iova va → va = 0)
    (hpop : rocePopRecvWr s inprocess = (some p, s1)) :
    p ∈ held s1.ctx.trace ∧ s1.ctx.recvWrs p ≠ none ∧ s1.qp.resp.word = .wr p := by
  unfold rocePopRecvWr rqPop at hpop
  by_cases hin : inprocess ≠ (s.qp.resp.word.bits != 0)
  · rw [if_pos hin] at hpop
    cases hpop
  rw [if_neg hin] at hpop
  by_cases hbits : s.qp.resp.word.bits = 0
  · rw [if_neg (not_not.mpr hbits)] at hpop
    cases hrq : s.qp.rq with
    | nil =>
      rw [hrq] at hpop
      cases hpop
    | cons q rq =>
      rw [hrq] at hpop
      simp only at hpop
      obtain ⟨hp, rfl⟩ := Prod.mk.inj hpop
      obtain rfl := Option.some.inj hp
      refine ⟨?_, h.live q ?_, rfl⟩
      · show q ∈ held (s.ctx.trace ++ [.popRecv q])
        rw [held_append]
        exact List.mem_cons_self
      · rw [hrq]
        exact List.mem_append_right _ List.mem_cons_self
  · have htrue : inprocess = true := by
      rw [not_not.mp hin]
      exact bne_iff_ne.mpr hbits
    rw [if_pos hbits] at hpop
    obtain ⟨hp, rfl⟩ := Prod.mk.inj hpop
    obtain rfl := Option.some.inj hp
    cases hword : s.qp.resp.word with
    | iova va =>
      rw [hword] at hbits
      exact absurd (hturn htrue va hword) hbits
    | wr p =>
      rw [hword] at hbits
      have hmem : p ∈ s.qp.resp.word.inProgress := by
        have hp0 : p ≠ 0 := hbits
        rw [hword, inProgress_wr hp0]
        exact List.mem_cons_self
      exact ⟨by rw [h.inHand]; exact hmem, h.live p (List.mem_append_left _ hmem), rfl⟩

/-- **The union.**  Along every run in which SENDs and WRITEs take turns at it,
each value that is used as a WR is one that was popped and not freed, and every
such WR stays in the union. -/
theorem respRun_union {s : St} {ops : List RespOp} (h0 : Holds s)
    (harr : Along respStep Arrives s ops) (hturn : Along respStep TakesTurns s ops) :
    Along respStep WrSafe s ops := by
  have hkeep : ∀ s op s', Holds s → Arrives s op ∧ TakesTurns s op → respStep s op = .ok s' →
      Holds s' := by
    rintro s op s' h ⟨harr, hturn⟩ hs
    exact respStep_holds h harr hturn hs
  refine Machine.along_of_inv hkeep ?_ h0 (Machine.along_and harr hturn)
  · rintro s op h ⟨harr, hturn⟩
    refine ⟨?_, fun s' hs p hp => (respStep_holds h harr hturn hs).wr hp⟩
    rintro pkt inprocess immdt iovs p s1 rfl hreq hpop
    unfold TakesTurns at hturn
    simp only [hreq] at hturn
    exact h.used hturn hpop

theorem smallRecv_holds : Holds (smallRecv 16 1) := by
  refine ⟨rfl, ?_, ?_, ?_⟩
  · intro p hp
    obtain rfl := List.mem_singleton.mp (show p ∈ [0x1000] from hp)
    exact Option.some_ne_none _
  · exact List.nodup_singleton (0x1000 : UInt64)
  · intro hmem
    cases List.mem_singleton.mp (show (0 : UInt64) ∈ [0x1000] from hmem)

/-- An RDMA WRITE of four bytes, and a SEND MIDDLE. -/
def writeThenMiddle : List RespOp :=
  [.recv (smallPkt ibOpcodeRdmaWriteOnly 0 [ibRethCodec.enc ⟨0x10000, 0, 4⟩, [1, 2, 3, 4]]),
    .recv (smallPkt ibOpcodeSendMiddle 1 [[5]])]

/-- The address of the RETH is taken for a receive WR. -/
theorem respRun_union_confused :
    Along respStep Arrives (smallRecv 16 1) writeThenMiddle ∧
      ¬ Along respStep WrSafe (smallRecv 16 1) writeThenMiddle := by
  have hstep : ∃ s, respStep (smallRecv 16 1)
      (.recv (smallPkt ibOpcodeRdmaWriteOnly 0 [ibRethCodec.enc ⟨0x10000, 0, 4⟩, [1, 2, 3, 4]])) =
        .ok s ∧ s.qp.attr.rqPsn = 1 ∧ rocePopRecvWr s true = (some 0x10000, s) ∧
          0x10000 ∉ held s.ctx.trace := ⟨_, rfl, rfl, rfl, by decide⟩
  obtain ⟨s, hstep, hpsn, hpop, hheld⟩ := hstep
  refine ⟨⟨⟨by decide, by decide⟩, ?_⟩, ?_⟩
  · intro s' hs
    obtain rfl := Except.ok.inj (hstep.symm.trans hs)
    refine ⟨⟨by decide, ?_⟩, fun _ _ => trivial⟩
    rw [hpsn]
    decide
  · intro h
    have hused := (h.2 s hstep).1.used _ true none [[5]] _ s rfl rfl hpop
    exact hheld hused.1

/-- A SEND of two packets. -/
theorem respRun_union_send : Along respStep WrSafe (smallRecv 16 1)
    [.recv (smallPkt ibOpcodeSendFirst 0 [[1, 2]]), .recv (smallPkt ibOpcodeSendLast 1 [[3]])] := by
  have hstep : ∃ s, respStep (smallRecv 16 1) (.recv (smallPkt ibOpcodeSendFirst 0 [[1, 2]])) =
      .ok s ∧ s.qp.attr.rqPsn = 1 ∧ s.qp.resp.word = .wr 0x1000 := ⟨_, rfl, rfl, rfl⟩
  obtain ⟨s, hstep, hpsn, hword⟩ := hstep
  refine respRun_union smallRecv_holds ⟨⟨by decide, by decide⟩, ?_⟩ ⟨?_, ?_⟩
  · intro s' hs
    obtain rfl := Except.ok.inj (hstep.symm.trans hs)
    refine ⟨⟨by decide, ?_⟩, fun _ _ => trivial⟩
    rw [hpsn]
    decide
  · intro hin
    cases hin
  · intro s' hs
    obtain rfl := Except.ok.inj (hstep.symm.trans hs)
    refine ⟨?_, fun _ _ => trivial⟩
    rintro - va hva
    rw [hword] at hva
    cases hva

end Libroce
