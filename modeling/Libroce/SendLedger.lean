import Libroce.MrOwners
import Libroce.RequesterRetire

/-!
# The send queue as a ledger

A posted WR is on the send queue or has left it.  One that leaves with the last
of its packets is reported and gives its references back; one that
`roce_complete_head` takes off, a local operation or a WR with an error, is
neither reported nor freed.

    posted  =  left ++ queue,    reports  =  those of left that are owed one

Main statement: `reqRun_ledger`.
-/

namespace Libroce

open Machine

/-! ## Departures -/

/-- The events of the send queue and its completions. -/
def isQueueEvent : Event → Bool
  | .leaveSq _ | .cqComp _ _ => true
  | _ => false

/-- What is seen of a WR that leaves: one that `roce_complete_head` takes off is
not reported. -/
def departure (qp : RoceQp) (wr : SendWr) : List Event :=
  .leaveSq wr :: if completesAtHead wr then [] else report qp wr

/-- The WRs `gone` left the queue from its front. -/
structure Departs (s t : St) (gone : List SendWr) : Prop where
  frame : RequesterOnly s.qp t.qp
  queue : s.qp.sq = gone ++ t.qp.sq
  events : ∃ es, t.ctx.trace = s.ctx.trace ++ es ∧ es.filter isQueueEvent = gone.flatMap (departure s.qp)

section departs

variable {s t u : St} {gone late : List SendWr} {es : List Event}

theorem RequesterOnly.departure {qp qp' : RoceQp} (hf : RequesterOnly qp qp') :
    departure qp' = departure qp := by
  funext wr
  unfold Libroce.departure report sendWc
  rw [hf]

/-- Nothing left. -/
theorem Departs.quiet (hf : RequesterOnly s.qp t.qp) (hsq : t.qp.sq = s.qp.sq)
    (htrace : t.ctx.trace = s.ctx.trace ++ es) (hes : es.filter isQueueEvent = []) : Departs s t [] := by
  refine ⟨hf, ?_, es, htrace, hes⟩
  rw [hsq]
  rfl

theorem Departs.trans (h1 : Departs s t gone) (h2 : Departs t u late) : Departs s u (gone ++ late) := by
  obtain ⟨es, hes, hgone⟩ := h1.events
  obtain ⟨fs, hfs, hlate⟩ := h2.events
  rw [h1.frame.departure] at hlate
  refine ⟨h1.frame.trans h2.frame, ?_, es ++ fs, ?_, ?_⟩
  · rw [h1.queue, h2.queue, List.append_assoc]
  · rw [hfs, hes, List.append_assoc]
  · rw [List.filter_append, hgone, hlate, List.flatMap_append]

theorem filter_xmits (pkts : List RoceNetpkt) : (pkts.map Event.netXmit).filter isQueueEvent = [] := by
  rw [List.filter_eq_nil_iff]
  intro e he
  obtain ⟨pkt, -, rfl⟩ := List.mem_map.mp he
  exact Bool.false_ne_true

theorem Xmits.departs (h : Xmits s t) : Departs s t [] := by
  obtain ⟨sent, hctx⟩ := h.ctx
  refine .quiet ?_ ?_ ?_ (filter_xmits sent)
  · have hqp := h.qp
    unfold RequesterOnly
    rw [hqp]
  · rw [h.qp]
  · rw [hctx]

/-- Local operations and WRs with an error. -/
theorem roceCompleteHead_departs (s : St) :
    Departs s (roceCompleteHead s) (s.qp.sq.takeWhile completesAtHead) := by
  refine ⟨rfl, List.takeWhile_append_dropWhile.symm, _, rfl, ?_⟩
  have hall : ∀ wr ∈ s.qp.sq.takeWhile completesAtHead, completesAtHead wr = true :=
    fun wr hwr => List.all_eq_true.mp List.all_takeWhile wr hwr
  generalize s.qp.sq.takeWhile completesAtHead = wrs at hall
  induction wrs with
  | nil => rfl
  | cons wr wrs ih =>
    have hone : departure s.qp wr = [.leaveSq wr] := by
      unfold departure
      rw [if_pos (hall wr List.mem_cons_self)]
    rw [List.map_cons, List.flatMap_cons, hone, ← ih fun w hw => hall w (List.mem_cons_of_mem _ hw)]
    rfl

/-- The WR at the head, with the last of its packets. -/
theorem departs_pop {ctx : RoceCtx} {qp : RoceQp} {wr : SendWr} {sq : List SendWr} {reports : List Event}
    (hsq : s.qp.sq = wr :: sq) (hlive : completesAtHead wr = false)
    (hreports : completionEvents s.qp wr = .ok reports)
    (hfree : roceFreeSendWr (s.emit (.leaveSq wr :: reports)).ctx wr = .ok ctx)
    (hf : RequesterOnly s.qp qp) (hqp : qp.sq = sq) : Departs s ⟨ctx, qp⟩ [wr] := by
  have hself : RequesterOnly s.qp s.qp := rfl
  have hreport : reports = report s.qp wr := completionEvents_eq hself hreports
  refine ⟨hf, ?_, .leaveSq wr :: reports, ?_, ?_⟩
  · rw [hsq, ← hqp]
    rfl
  · show ctx.trace = _
    rw [(roceFreeSendWr_refsOnly hfree).trace]
    rfl
  · have hone : departure s.qp wr = .leaveSq wr :: reports := by
      unfold departure
      rw [hlive, hreport]
      rfl
    have hfilter : reports.filter isQueueEvent = reports := by
      rw [hreport]
      unfold report
      split
      · rfl
      · rfl
    rw [List.flatMap_cons, hone, List.flatMap_nil, List.append_nil, List.filter_cons_of_pos rfl, hfilter]

/-- **One packet.**  It is not the last of its request, or a WR goes with it. -/
theorem roceRcCompleteSendWr_departs {pkt : RoceNetpkt} (h : roceRcCompleteSendWr s pkt = .ok t) :
    ∃ gone, Departs s t gone := by
  have hhead := roceCompleteHead_departs s
  rcases roceRcCompleteSendWr_ok h with ⟨-, rfl⟩ | ⟨wr, sq, reports, ctx, hdrop, -, hreports, hfree, rfl⟩
  · have hpsn : Departs (roceCompleteHead s)
        { roceCompleteHead s with qp.attr.sqPsn := roceQpPsnInc s.qp.attr.sqPsn } [] :=
      .quiet rfl rfl (List.append_nil _).symm rfl
    exact ⟨_, hhead.trans hpsn⟩
  · have hlive : completesAtHead wr = false := by
      have hawait := awaited_of_dropWhile hdrop
      rw [awaited_eq] at hawait
      simpa using hawait
    have hreports' : completionEvents (roceCompleteHead s).qp wr = .ok reports := hreports
    have hframe : RequesterOnly (roceCompleteHead s).qp
        { s.qp with sq := sq, attr.sqPsn := roceQpPsnInc s.qp.attr.sqPsn } := rfl
    have hpop := departs_pop hdrop hlive hreports' hfree hframe rfl
    exact ⟨_, (hhead.trans hpop).trans (roceCompleteHead_departs _)⟩

theorem roceHandleAck_departs {psn : UInt32} (h : roceHandleAck s psn = .ok t) :
    ∃ gone, Departs s t gone := by
  have hrefl : Departs s s [] := .quiet rfl rfl (List.append_nil _).symm rfl
  refine roceHandleAck_inv (P := fun t => ∃ gone, Departs s t gone) ?_ ⟨_, hrefl⟩ h
  rintro v pkt pkts w ⟨gone, hv⟩ hout hc
  have htake : Departs v (v.takeOutgoing pkt pkts) [] := .quiet rfl rfl rfl rfl
  obtain ⟨more, hmore⟩ := roceRcCompleteSendWr_departs hc
  exact ⟨_, (hv.trans htake).trans hmore⟩

/-- **An acknowledgement.** -/
theorem roceHandleAcknowledge_departs {syndrome : Syndrome} {val : UInt8} {psn msn : UInt32}
    (h : roceHandleAcknowledge s syndrome val psn msn = .ok t) : ∃ gone, Departs s t gone := by
  have hrefl : Departs s s [] := .quiet rfl rfl (List.append_nil _).symm rfl
  unfold roceHandleAcknowledge at h
  cases syndrome with
  | ack =>
    obtain ⟨u, hack, h⟩ := bind_eq_ok.mp h
    obtain ⟨gone, hu⟩ := roceHandleAck_departs hack
    exact ⟨_, hu.trans (roceXmitPkts_ok h).departs⟩
  | nak =>
    unfold roceHandleNak at h
    obtain ⟨u, hack, h⟩ := bind_eq_ok.mp h
    obtain ⟨gone, hu⟩ := roceHandleAck_departs hack
    have hagain : Departs u (u.emit (u.qp.req.outgoingPkts.map .netXmit)) [] :=
      .quiet rfl rfl rfl (filter_xmits _)
    exact ⟨_, (hu.trans hagain).trans (roceXmitPkts_ok h).departs⟩
  | rnrNak =>
    obtain rfl := Except.ok.inj h
    exact ⟨_, hrefl⟩
  | reserved =>
    obtain rfl := Except.ok.inj h
    exact ⟨_, hrefl⟩

end departs

/-! ## Leaving and reporting -/

/-- The WR that leaves the send queue. -/
def Event.left : Event → Option SendWr
  | .leaveSq wr => some wr
  | _ => none

/-- The completion that is reported. -/
def Event.reported : Event → Option RoceWc
  | .cqComp wc _ => some wc
  | _ => none

def leftWrs (es : List Event) : List SendWr := es.filterMap Event.left

def reportedWcs (es : List Event) : List RoceWc := es.filterMap Event.reported

@[simp] theorem leftWrs_append (es fs : List Event) : leftWrs (es ++ fs) = leftWrs es ++ leftWrs fs :=
  List.filterMap_append

@[simp] theorem reportedWcs_append (es fs : List Event) :
    reportedWcs (es ++ fs) = reportedWcs es ++ reportedWcs fs := List.filterMap_append

/-- A WR that asked for a completion, or has an error. -/
def owedReport (qp : RoceQp) (wr : SendWr) : Bool := wrSignaled qp wr || wr.error != 0

/-- One completion with its ID and its status for each WR that is owed one. -/
def Reported (qp : RoceQp) (es : List Event) : Prop :=
  (reportedWcs es).map (fun wc => (wc.wrId, wc.status)) =
    ((leftWrs es).filter (owedReport qp)).map fun wr => (wr.wrId, wr.error)

theorem Reported.append {qp : RoceQp} {es fs : List Event} (h1 : Reported qp es) (h2 : Reported qp fs) :
    Reported qp (es ++ fs) := by
  unfold Reported at h1 h2 ⊢
  rw [reportedWcs_append, leftWrs_append, List.map_append, h1, h2, List.filter_append, List.map_append]

theorem RequesterOnly.reported {qp qp' : RoceQp} {es : List Event} (hf : RequesterOnly qp qp')
    (h : Reported qp' es) : Reported qp es := by
  have howed : owedReport qp' = owedReport qp := by
    funext wr
    unfold owedReport wrSignaled
    rw [hf]
  unfold Reported at h ⊢
  rw [← howed]
  exact h

/-! ## One acknowledgement -/

/-- No WR of the queue is for `roce_complete_head`. -/
def AllLive (s : St) : Prop := ∀ wr ∈ s.qp.sq, completesAtHead wr = false

/-- WRs left the queue from its front, and were reported. -/
structure Settles (s t : St) : Prop where
  frame : RequesterOnly s.qp t.qp
  trace : ∃ es, t.ctx.trace = s.ctx.trace ++ es ∧ s.qp.sq = leftWrs es ++ t.qp.sq ∧ Reported s.qp es

section settles

variable {s t u : St}

/-- What is left of a queue without such WRs has none. -/
theorem Settles.allLive (h : Settles s t) (hlive : AllLive s) : AllLive t := by
  obtain ⟨es, -, hsq, -⟩ := h.trace
  intro wr hmem
  apply hlive
  rw [hsq]
  exact List.mem_append_right _ hmem

/-! ### Reported departures -/

/-- Only events of the queue count. -/
theorem leftWrs_filter (es : List Event) : leftWrs (es.filter isQueueEvent) = leftWrs es := by
  unfold leftWrs
  rw [List.filterMap_filter]
  congr 1
  funext e
  cases e <;> rfl

theorem reportedWcs_filter (es : List Event) : reportedWcs (es.filter isQueueEvent) = reportedWcs es := by
  unfold reportedWcs
  rw [List.filterMap_filter]
  congr 1
  funext e
  cases e <;> rfl

/-- A WR without an error is reported if it asked for it. -/
theorem departure_reported {qp : RoceQp} {wr : SendWr} (hlive : completesAtHead wr = false) :
    leftWrs (departure qp wr) = [wr] ∧ Reported qp (departure qp wr) := by
  have herr : wr.error = 0 := by
    unfold completesAtHead at hlive
    simpa using (Bool.or_eq_false_iff.mp hlive).2
  have hgone : departure qp wr = .leaveSq wr :: report qp wr := by
    unfold departure
    rw [hlive]
    rfl
  have howed : owedReport qp wr = wrSignaled qp wr := by
    unfold owedReport
    rw [herr]
    exact Bool.or_false _
  have hsig : wrSignaled qp wr = true ↔ qp.sqSigAll = true ∨ wr.sendFlags &&& roceSendSignaled ≠ 0 := by
    unfold wrSignaled
    simp
  rw [hgone]
  unfold Reported report
  by_cases hs : qp.sqSigAll = true ∨ wr.sendFlags &&& roceSendSignaled ≠ 0
  · rw [if_pos hs]
    refine ⟨rfl, ?_⟩
    show [(wr.wrId, roceWcSuccess)] = ([wr].filter (owedReport qp)).map fun wr => (wr.wrId, wr.error)
    rw [List.filter_cons_of_pos (howed.trans (hsig.mpr hs))]
    show _ = [(wr.wrId, wr.error)]
    rw [herr]
    rfl
  · rw [if_neg hs]
    refine ⟨rfl, ?_⟩
    show [] = ([wr].filter (owedReport qp)).map fun wr => (wr.wrId, wr.error)
    rw [List.filter_cons_of_neg (by rw [howed]; exact fun h => hs (hsig.mp h))]
    rfl

/-- WRs without an error leave, and are reported. -/
theorem Departs.settles {gone : List SendWr} (h : Departs s t gone) (hlive : AllLive s) : Settles s t := by
  obtain ⟨es, hes, hevents⟩ := h.events
  have hall : ∀ wr ∈ gone, completesAtHead wr = false := by
    intro wr hwr
    apply hlive
    rw [h.queue]
    exact List.mem_append_left _ hwr
  have hseen : leftWrs (gone.flatMap (departure s.qp)) = gone ∧
    Reported s.qp (gone.flatMap (departure s.qp)) := by
    have hqueue := h.queue
    clear hevents hqueue h
    induction gone with
    | nil => exact ⟨rfl, rfl⟩
    | cons wr gone ih =>
      have hone : leftWrs (departure s.qp wr) = [wr] ∧ Reported s.qp (departure s.qp wr) :=
        departure_reported (hall wr List.mem_cons_self)
      obtain ⟨hleft, hrep⟩ := hone
      obtain ⟨hleft', hrep'⟩ := ih fun w hw => hall w (List.mem_cons_of_mem _ hw)
      rw [List.flatMap_cons]
      exact ⟨by rw [leftWrs_append, hleft, hleft']; rfl, hrep.append hrep'⟩
  rw [← hevents] at hseen
  obtain ⟨hleft, hrep⟩ := hseen
  rw [leftWrs_filter] at hleft
  refine ⟨h.frame, es, hes, ?_, ?_⟩
  · rw [hleft]
    exact h.queue
  · unfold Reported at hrep ⊢
    rw [leftWrs_filter, reportedWcs_filter] at hrep
    exact hrep

/-! ## One post -/

/-- A post of a WR that is no local operation and gets no error, with room in the
counts of its MRs. -/
def Sendable (s : St) : ReqOp → Prop
  | .post wr calloc => roceSendWrIsLocal wr = false ∧
    (roceSendWrIsInline wr = true → inlineLen wr ≤ s.qp.attr.cap.maxInlineData) ∧
    (roceSendWrIsInline wr = false → RefsFit s.ctx wr.sge ∧
      ∀ sge ∈ wr.sge, roceGetMrNoref s.ctx (roceKeyToIndex sge.lkey) ≠ none) ∧
    (calloc 0 = true ∨ Unimplemented wr.opcode ∨ ∀ len, requestLen wr = .ok len →
      s.qp.attr.pathMtu.toUInt32 < len)
  | .acknowledge _ _ _ _ => True

/-- Without such an error a post builds with the references it took. -/
theorem reqPrepare_unfailed {wr : SendWr} {calloc : Nat → Bool} (hrc : s.qp.qpType = .rc)
    (hinline : roceSendWrIsInline wr = true → inlineLen wr ≤ s.qp.attr.cap.maxInlineData)
    (hkeys : roceSendWrIsInline wr = false →
      ∀ sge ∈ wr.sge, roceGetMrNoref s.ctx (roceKeyToIndex sge.lkey) ≠ none)
    (hcalloc : calloc 0 = true ∨ Unimplemented wr.opcode ∨ ∀ len, requestLen wr = .ok len →
      s.qp.attr.pathMtu.toUInt32 < len)
    (hp : reqPrepare s (.post wr calloc) = .ok (some t)) :
    ∃ wr2 qp, wr2 = { wr with error := 0, mapped := wr2.mapped } ∧
      postGetMrs s wr.fresh = .ok (⟨t.ctx, s.qp⟩, wr2) ∧
      roceRcBuildPkts t.ctx s.qp wr2 calloc = .ok (qp, wr2) ∧ t.qp = { qp with sq := s.qp.sq ++ [wr2] } := by
  obtain ⟨ctx, wr1, qp, wr2, hget, hbuild, rfl⟩ := reqPrepare_post_ok hp
  obtain ⟨-, -, -, herror⟩ := postGetMrs_error hget
  obtain ⟨-, e, m, rfl⟩ := postGetMrs_ok hget
  obtain rfl : e = 0 := by
    apply herror.mpr
    cases hin : roceSendWrIsInline wr with
    | true => exact Or.inl rfl
    | false => exact Or.inr (hkeys hin)
  unfold requestBuild at hbuild
  rw [if_pos rfl] at hbuild
  have hsame := roceRcBuildPkts_unfailed hbuild hinline
    (hcalloc.imp_right fun h => h.imp_right fun hlarge mtu len hmtu hlen => by
      unfold roceGetMtu at hmtu
      rw [if_pos (Or.inl hrc)] at hmtu
      obtain rfl := Except.ok.inj hmtu
      exact hlarge len hlen)
  subst hsame
  exact ⟨_, qp, rfl, hget, hbuild, rfl⟩

/-- Such a WR joins the queue without an error. -/
theorem sendable_prepare {wr : SendWr} {calloc : Nat → Bool} (hrc : s.qp.qpType = .rc)
    (hok : Sendable s (.post wr calloc)) (hp : reqPrepare s (.post wr calloc) = .ok (some t)) :
    ∃ wr2, wr2.fresh = wr.fresh ∧ completesAtHead wr2 = false ∧ t.qp.sq = s.qp.sq ++ [wr2] ∧
      RequesterOnly s.qp t.qp ∧ RefsOnly s.ctx t.ctx := by
  obtain ⟨hlocal, hinline, hkeys, hcalloc⟩ := hok
  have honly := reqPrepare_requesterOnly hp
  obtain ⟨wr2, qp, hwr, hget, -, hqp⟩ :=
    reqPrepare_unfailed hrc hinline (fun hin => (hkeys hin).2) hcalloc hp
  obtain ⟨hrefs, -⟩ := postGetMrs_ok hget
  refine ⟨wr2, by rw [hwr]; rfl, ?_, by rw [hqp], honly, hrefs⟩
  rw [hwr]
  unfold completesAtHead
  rw [Bool.or_eq_false_iff]
  exact ⟨hlocal, rfl⟩

end settles

/-! ## Runs -/

/-- Each posted WR is on the queue or left it, once; each that left and is owed a
completion got one; and the MRs count the WRs on the queue, next to those of
the others, `sends` and `ptrs`: what left has given its references back. -/
structure NoneLost (s t : St) (sends : List SendWr) (ptrs : List UInt64) (posted : List SendWr) :
    Prop where
  queue : ∃ es, t.ctx.trace = s.ctx.trace ++ es ∧ (leftWrs es ++ t.qp.sq).map SendWr.fresh = posted ∧
    Reported s.qp es
  refs : Owned t.ctx (t.qp.sq ++ sends) (t.qp.recvPtrs ++ ptrs)

/-- `NoneLost` with what its proof needs. -/
structure Ledger (s t : St) (sends : List SendWr) (ptrs : List UInt64) (posted : List SendWr) : Prop where
  rc : t.qp.qpType = .rc
  frame : RequesterOnly s.qp t.qp
  live : AllLive t
  queue : ∃ es, t.ctx.trace = s.ctx.trace ++ es ∧ (leftWrs es ++ t.qp.sq).map SendWr.fresh = posted ∧
    Reported s.qp es
  owns : St.Owns sends ptrs t

section ledger

variable {s t u : St} {sends : List SendWr} {ptrs : List UInt64} {posted : List SendWr}

theorem Ledger.noneLost (h : Ledger s t sends ptrs posted) : NoneLost s t sends ptrs posted :=
  ⟨h.queue, h.owns.owned⟩

/-- WRs that leave stay in the ledger. -/
theorem Ledger.settles (h : Ledger s t sends ptrs posted) (hu : Settles t u)
    (howns : St.Owns sends ptrs u) : Ledger s u sends ptrs posted := by
  obtain ⟨es, hes, hqueue, hrep⟩ := h.queue
  obtain ⟨fs, hfs, hsq, hrep'⟩ := hu.trace
  refine ⟨hu.frame.qpType.trans h.rc, h.frame.trans hu.frame, hu.allLive h.live, ?_, howns⟩
  refine ⟨es ++ fs, by rw [hfs, hes, List.append_assoc], ?_, hrep.append (h.frame.reported hrep')⟩
  rw [leftWrs_append, List.append_assoc, ← hsq]
  exact hqueue

/-- A new WR at the end of the queue. -/
theorem Ledger.push (h : Ledger s t sends ptrs posted) {v : St} {wr wr2 : SendWr}
    (hfresh : wr2.fresh = wr.fresh) (hlive : completesAtHead wr2 = false) (hsq : v.qp.sq = t.qp.sq ++ [wr2])
    (hf : RequesterOnly t.qp v.qp) (hrefs : RefsOnly t.ctx v.ctx) (hu : Settles v u)
    (howns : St.Owns sends ptrs u) : Ledger s u sends ptrs (posted ++ [wr.fresh]) := by
  obtain ⟨es, hes, hqueue, hrep⟩ := h.queue
  obtain ⟨fs, hfs, hsq', hrep'⟩ := hu.trace
  have hall : AllLive v := by
    intro w hw
    rw [hsq] at hw
    rcases List.mem_append.mp hw with hw | hw
    · exact h.live w hw
    · obtain rfl := List.mem_singleton.mp hw
      exact hlive
  have hframe := h.frame.trans hf
  refine ⟨hu.frame.qpType.trans (hf.qpType.trans h.rc), hframe.trans hu.frame, hu.allLive hall, ?_, howns⟩
  refine ⟨es ++ fs, ?_, ?_, hrep.append (hframe.reported hrep')⟩
  · rw [hfs, hrefs.trace, hes, List.append_assoc]
  · rw [leftWrs_append, List.append_assoc, ← hsq', hsq, ← List.append_assoc, List.map_append, hqueue,
      ← hfresh]
    rfl

/-- **One step.** -/
theorem Ledger.step {op : ReqOp} (h : Ledger s t sends ptrs posted) (hok : Sendable t op)
    (hs : reqStep t op = .ok u) : Ledger s u sends ptrs (posted ++ postedWrs [op]) := by
  cases op with
  | acknowledge syndrome val psn msn =>
    have hposted : postedWrs [.acknowledge syndrome val psn msn] = [] := rfl
    have hack : roceHandleAcknowledge t syndrome val psn msn = .ok u := hs
    obtain ⟨gone, hgone⟩ := roceHandleAcknowledge_departs hack
    rw [hposted, List.append_nil]
    exact h.settles (hgone.settles h.live) (roceHandleAcknowledge_owns hack h.owns)
  | post wr calloc =>
    have hposted : postedWrs [.post wr calloc] = [wr.fresh] := rfl
    rw [hposted]
    have hkeep : SendKeepsRefs t wr calloc := by
      obtain ⟨hlocal, -, hkeys, hcalloc⟩ := hok
      intro hin
      refine ⟨(hkeys hin).1, fun _ _ _ => ⟨hlocal, hcalloc.imp_right fun h => h.imp_right ?_⟩⟩
      intro hlarge len hlen
      apply hlarge
      unfold requestLen
      rw [hin]
      exact hlen
    have howns : St.Owns sends ptrs u := rocePostSend_owns hs h.owns hkeep
    obtain ⟨v, w, hp, hx, rfl⟩ := reqStep_post_ok h.rc hs
    obtain ⟨wr2, hfresh, hlive, hsq, hf, hrefs⟩ := sendable_prepare h.rc hok hp
    have hall : AllLive v := by
      intro x hx
      rw [hsq] at hx
      rcases List.mem_append.mp hx with hx | hx
      · exact h.live x hx
      · obtain rfl := List.mem_singleton.mp hx
        exact hlive
    have hxmit : Settles v w := (roceXmitPkts_ok hx).departs.settles hall
    have hhead : roceCompleteHead w = w := roceCompleteHead_live (hxmit.allLive hall)
    rw [hhead] at howns ⊢
    exact h.push hfresh hlive hsq hf hrefs hxmit howns

theorem postedWrs_cons (op : ReqOp) (ops : List ReqOp) :
    postedWrs (op :: ops) = postedWrs [op] ++ postedWrs ops := by
  unfold postedWrs
  rw [← List.singleton_append, List.filterMap_append]

/-- A run goes on from where the ledger stands. -/
theorem Ledger.run {ops : List ReqOp} (h : Ledger s t sends ptrs posted)
    (hok : Along reqStep Sendable t ops) (hr : run reqStep t ops = .ok u) :
    Ledger s u sends ptrs (posted ++ postedWrs ops) := by
  induction ops generalizing t posted with
  | nil =>
    obtain rfl := Except.ok.inj hr
    have hnil : postedWrs [] = [] := rfl
    rw [hnil, List.append_nil]
    exact h
  | cons op ops ih =>
    obtain ⟨v, hv, hr⟩ := run_cons_eq_ok reqStep hr
    rw [postedWrs_cons, ← List.append_assoc]
    exact ih (h.step hok.1 hv) (hok.2 v hv) hr

end ledger

/-- **No WR is lost.**  After every run of posts and acknowledgements of an RC QP,
from its first post on, in which no local operation is posted and no WR that
gets an error. -/
theorem reqRun_ledger {s t : St} {sends : List SendWr} {ptrs : List UInt64} (h0 : Idle s)
    (howned : Owned s.ctx sends (s.qp.recvPtrs ++ ptrs)) (ops : List ReqOp)
    (hok : Along reqStep Sendable s ops) (hr : run reqStep s ops = .ok t) :
    NoneLost s t sends ptrs (postedWrs ops) := by
  have hnil : ∀ wr ∈ s.qp.sq, False := by
    intro wr hmem
    rw [h0.sq] at hmem
    cases hmem
  have hstart : Ledger s s sends ptrs [] := by
    refine ⟨h0.rc, rfl, fun wr hmem => (hnil wr hmem).elim, ⟨[], (List.append_nil _).symm, ?_, rfl⟩, ?_,
      fun wr hmem => (hnil wr hmem).elim⟩
    · rw [h0.sq]
      rfl
    · rw [h0.sq]
      exact howned
  exact (hstart.run hok hr).noneLost

theorem smallStart_owned (sqPsn : UInt32) :
    Owned (smallStart sqPsn).ctx [] ((smallStart sqPsn).qp.recvPtrs ++ []) := by
  refine ⟨Refs.Tally.empty 2, List.nodup_nil, ?_⟩
  intro p hp
  cases hp

/-- A SEND with a completion that is posted and acknowledged. -/
theorem reqRun_ledger_send :
    ∃ t, run reqStep (smallStart 0) sendAndAck = .ok t ∧
      NoneLost (smallStart 0) t [] [] [(smallSend 1 .send).fresh] := by
  have hok : Along reqStep Sendable (smallStart 0) sendAndAck := by
    refine ⟨⟨rfl, ?_, ?_, Or.inl rfl⟩, fun _ _ => ⟨trivial, fun _ _ => trivial⟩⟩
    · intro _
      decide
    · intro hin
      cases hin
  refine ⟨_, rfl, ?_⟩
  exact reqRun_ledger (smallStart_idle 0) (smallStart_owned 0) sendAndAck hok rfl

/-- A local operation that asked for a completion leaves the queue without one. -/
theorem reqRun_ledger_lost :
    ¬ ∀ (s t : St) (sends : List SendWr) (ptrs : List UInt64) (ops : List ReqOp), Idle s →
      Owned s.ctx sends (s.qp.recvPtrs ++ ptrs) → run reqStep s ops = .ok t →
        NoneLost s t sends ptrs (postedWrs ops) := by
  intro h
  have hlost := h (smallStart 0) _ [] [] [.post (smallSend 1 .localInv) fun _ => true]
    (smallStart_idle 0) (smallStart_owned 0) rfl
  obtain ⟨es, hes, -, hrep⟩ := hlost.queue
  obtain rfl : [.leaveSq (smallSend 1 .localInv)] = es := hes
  cases hrep

end Libroce
