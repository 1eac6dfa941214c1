import Libroce.RequesterOwners
import Libroce.RequesterWindow

/-!
# How send WRs retire

A job is a posted WR with the packets built for it.  The jobs of a run are in
three parts: those that retired, the one whose first packets are acknowledged,
and those that wait.  Everything the requester reports can be read off them.

    jobs  =  done ++ late,    packets of late  =  gone ++ outgoing ++ pending

Main statement:
* `reqRun_retires` — throughout a run of SEND and RDMA WRITE posts and of
  acknowledgements, each job of `done` retired in posting order, after all its
  packets left the outgoing queue, with one report if it is signaled, and the
  send queue holds the WRs of `late`.
-/

namespace Libroce

open Machine (bind_eq_ok)

/-! ## Jobs -/

/-- A posted WR and its packets. -/
structure Job where
  wr : SendWr
  pkts : List RoceNetpkt
  deriving DecidableEq

/-- What a post adds to the send queue and to the packet queues. -/
def postedJob (s : St) (op : ReqOp) : List Job :=
  match op, reqPrepare s op with
  | .post _ _, .ok (some t) =>
    (t.qp.sq.drop s.qp.sq.length).map fun wr =>
      ⟨wr, t.qp.req.pendingPkts.drop s.qp.req.pendingPkts.length⟩
  | _, _ => []

/-- The jobs of a run, in posting order. -/
def runJobs : St → List ReqOp → List Job
  | _, [] => []
  | s, op :: ops =>
    postedJob s op ++
      match reqStep s op with
      | .ok s' => runJobs s' ops
      | .error _ => []

/-- The WRs a run posts. -/
def postedWrs (ops : List ReqOp) : List SendWr :=
  ops.filterMap fun op =>
    match op with
    | .post wr _ => some wr.fresh
    | .acknowledge _ _ _ _ => none

/-- A SEND or RDMA WRITE, whose packets are built. -/
def Builds (s : St) (op : ReqOp) : Prop :=
  ∀ job ∈ postedJob s op, job.wr.error = 0 ∧
    (job.wr.opcode = .send ∨ job.wr.opcode = .sendWithImm ∨ job.wr.opcode = .sendWithInv ∨
      job.wr.opcode = .rdmaWrite ∨ job.wr.opcode = .rdmaWriteWithImm)

/-- The events of the send queue and of the outgoing queue. -/
def isSendEvent : Event → Bool
  | .acked _ | .leaveSq _ | .cqComp _ _ => true
  | _ => false

def St.sendEvents (s : St) : List Event := s.ctx.trace.filter isSendEvent

/-- The length a completion reports. -/
def reportLen (wr : SendWr) : UInt32 :=
  match roceSgeLen wr.sge 0 0 with
  | .ok len => len
  | .error _ => 0

/-- The report of a WR that retires: one success completion if it is signaled. -/
def report (qp : RoceQp) (wr : SendWr) : List Event :=
  if qp.sqSigAll = true ∨ wr.sendFlags &&& roceSendSignaled ≠ 0 then
    [.cqComp (sendWc qp wr roceWcSuccess (reportLen wr)) qp.scq]
  else []

/-- A job from its first acknowledged packet to its report. -/
def Job.retire (qp : RoceQp) (job : Job) : List Event :=
  job.pkts.map .acked ++ .leaveSq job.wr :: report qp job.wr

/-- Where a run stands: `done` retired, the packets `gone` of the first job of
`late` are acknowledged, and the rest waits. -/
structure Retires (s t : St) (done late : List Job) (gone : List RoceNetpkt) : Prop where
  events : t.sendEvents = s.sendEvents ++ done.flatMap (Job.retire s.qp) ++ gone.map .acked
  sendQueue : t.qp.sq = late.map (·.wr)
  packets : late.flatMap (·.pkts) = gone ++ (t.qp.req.outgoingPkts ++ t.qp.req.pendingPkts)
  unfinished : ∀ job ∈ late.head?, gone.length < job.pkts.length

/-! ## The invariant -/

/-- A job whose WR waits for the last of its packets. -/
structure Job.Sound (job : Job) : Prop where
  live : completesAtHead job.wr = false
  owners : job.pkts.map (·.opaquePtr) =
    List.replicate (job.pkts.length - 1) none ++ [some job.wr.addr]

/-- `Retires` with what its proof needs. -/
structure RunsJobs (s t : St) (done late : List Job) (gone : List RoceNetpkt) : Prop where
  retires : Retires s t done late gone
  sound : ∀ job ∈ late, job.Sound
  frame : RequesterOnly s.qp t.qp

theorem completionEvents_eq {qp qp' : RoceQp} {wr : SendWr} {events : List Event}
    (hf : RequesterOnly qp qp') (h : completionEvents qp' wr = .ok events) : events = report qp wr := by
  have hsig : wrSignaled qp' wr = true ↔ qp.sqSigAll = true ∨ wr.sendFlags &&& roceSendSignaled ≠ 0 := by
    unfold wrSignaled
    rw [hf]
    simp
  unfold report reportLen
  rcases completionEvents_ok h with ⟨hs, len, hlen, rfl⟩ | ⟨hs, rfl⟩
  · rw [if_pos (hsig.mp hs), hlen, hf]
    rfl
  · rw [if_neg fun hc => Bool.eq_false_iff.mp hs (hsig.mpr hc)]

/-- Nothing to complete at the head when every WR waits for packets. -/
theorem roceCompleteHead_live {s : St} (h : ∀ wr ∈ s.qp.sq, completesAtHead wr = false) :
    roceCompleteHead s = s := by
  have hdrop : s.qp.sq.dropWhile completesAtHead = s.qp.sq := by
    cases hsq : s.qp.sq with
    | nil => rfl
    | cons wr sq =>
      rw [List.dropWhile_cons, h wr (by rw [hsq]; exact List.mem_cons_self)]
      rfl
  have htake : s.qp.sq.takeWhile completesAtHead = [] := by
    cases hsq : s.qp.sq with
    | nil => rfl
    | cons wr sq =>
      rw [List.takeWhile_cons, h wr (by rw [hsq]; exact List.mem_cons_self)]
      rfl
  unfold roceCompleteHead
  rw [hdrop, htake]
  show (⟨{ s.ctx with trace := s.ctx.trace ++ [] }, s.qp⟩ : St) = s
  rw [List.append_nil]

theorem RunsJobs.completeHead {s t : St} {done late : List Job} {gone : List RoceNetpkt}
    (h : RunsJobs s t done late gone) : roceCompleteHead t = t := by
  apply roceCompleteHead_live
  intro wr hwr
  rw [h.retires.sendQueue] at hwr
  obtain ⟨job, hjob, rfl⟩ := List.mem_map.mp hwr
  exact (h.sound job hjob).live

@[simp] theorem sendEvents_emit (s : St) (es : List Event) :
    (s.emit es).sendEvents = s.sendEvents ++ es.filter isSendEvent := by
  unfold St.sendEvents
  rw [St.emit_trace, List.filter_append]

theorem filter_report (qp : RoceQp) (wr : SendWr) : (report qp wr).filter isSendEvent = report qp wr := by
  unfold report
  split
  · rfl
  · rfl

theorem filter_netXmit (pkts : List RoceNetpkt) : (pkts.map Event.netXmit).filter isSendEvent = [] := by
  rw [List.filter_eq_nil_iff]
  intro e he
  obtain ⟨pkt, -, rfl⟩ := List.mem_map.mp he
  exact Bool.false_ne_true

/-! ## Acknowledged packets -/

/-- Where the next acknowledged packet stands in its job. -/
theorem Retires.next {s t : St} {done late : List Job} {gone pkts : List RoceNetpkt}
    {pkt : RoceNetpkt} (h : Retires s t done late gone) (hout : t.qp.req.outgoingPkts = pkt :: pkts) :
    ∃ job jobs rest, late = job :: jobs ∧ job.pkts = gone ++ pkt :: rest ∧
      pkts ++ t.qp.req.pendingPkts = rest ++ jobs.flatMap (·.pkts) := by
  have hp := h.packets
  rw [hout, List.cons_append] at hp
  cases late with
  | nil => exact absurd (congrArg List.length hp) (by simp)
  | cons job jobs =>
    have hlt := h.unfinished job rfl
    rw [List.flatMap_cons] at hp
    rcases List.append_eq_append_iff.mp hp with ⟨extra, hg, -⟩ | ⟨extra, hj, hr⟩
    · rw [hg, List.length_append] at hlt
      omega
    · cases extra with
      | nil =>
        rw [hj, List.append_nil] at hlt
        omega
      | cons p rest =>
        rw [List.cons_append] at hr
        obtain ⟨rfl, htail⟩ := List.cons.inj hr
        exact ⟨job, jobs, rest, rfl, hj, htail⟩

/-- Only the last packet of a job points back to its WR. -/
theorem Job.Sound.pointer {job : Job} (h : job.Sound) {gone rest : List RoceNetpkt} {pkt : RoceNetpkt}
    (hp : job.pkts = gone ++ pkt :: rest) :
    pkt.opaquePtr = if rest = [] then some job.wr.addr else none := by
  have hown := h.owners
  have hlen : job.pkts.length = gone.length + (rest.length + 1) := by
    rw [hp, List.length_append, List.length_cons]
  have hat := congrArg (fun l => l[gone.length]?) hown
  simp only [hp, List.map_append, List.map_cons] at hat
  rw [List.getElem?_append_right (by simp), List.length_map, Nat.sub_self,
    List.getElem?_cons_zero, ← hp, hlen] at hat
  split
  · next hnil =>
    subst hnil
    rw [List.getElem?_append_right (by simp)] at hat
    simpa using hat
  · next hne =>
    have hpos : 0 < rest.length := List.length_pos_iff.mpr hne
    rw [List.getElem?_append_left (by rw [List.length_replicate]; omega),
      List.getElem?_replicate_of_lt (by omega)] at hat
    exact Option.some.inj hat

/-- One acknowledged packet: its job goes on or retires. -/
theorem RunsJobs.complete {s t t' : St} {done late : List Job} {gone pkts : List RoceNetpkt}
    {pkt : RoceNetpkt} (h : RunsJobs s t done late gone) (hout : t.qp.req.outgoingPkts = pkt :: pkts)
    (hc : roceRcCompleteSendWr (t.takeOutgoing pkt pkts) pkt = .ok t') :
    ∃ done' late' gone', done' ++ late' = done ++ late ∧ RunsJobs s t' done' late' gone' := by
  obtain ⟨job, jobs, rest, rfl, hjob, hrest⟩ := h.retires.next hout
  have hsound := h.sound job List.mem_cons_self
  have hptr := hsound.pointer hjob
  have hlive : ∀ wr ∈ (job :: jobs).map (·.wr), completesAtHead wr = false := by
    intro wr hwr
    obtain ⟨j, hj, rfl⟩ := List.mem_map.mp hwr
    exact (h.sound j hj).live
  have hhead : roceCompleteHead (t.takeOutgoing pkt pkts) = t.takeOutgoing pkt pkts := by
    apply roceCompleteHead_live
    show ∀ wr ∈ t.qp.sq, _
    rw [h.retires.sendQueue]
    exact hlive
  have hevents : (t.takeOutgoing pkt pkts).sendEvents = t.sendEvents ++ [.acked pkt] :=
    sendEvents_emit { t with qp.req.outgoingPkts := pkts } [.acked pkt]
  rcases roceRcCompleteSendWr_ok hc with
    ⟨hnone, rfl⟩ | ⟨wr, sq, reports, ctx, hsq, hsome, hrep, hfree, rfl⟩
  · -- a packet before the last one
    have hne : rest ≠ [] := by
      rintro rfl
      rw [hnone] at hptr
      cases hptr
    refine ⟨done, job :: jobs, gone ++ [pkt], rfl, ⟨?_, ?_, ?_, ?_⟩, h.sound, ?_⟩
    · rw [hhead]
      show (t.takeOutgoing pkt pkts).sendEvents = _
      rw [hevents, h.retires.events, List.map_append, List.append_assoc _ (gone.map _)]
      rfl
    · rw [hhead]
      exact h.retires.sendQueue
    · rw [hhead]
      show _ = (gone ++ [pkt]) ++ (pkts ++ t.qp.req.pendingPkts)
      rw [hrest, List.flatMap_cons, hjob]
      simp
    · intro j hj
      obtain rfl := Option.some.inj hj
      have hpos := List.length_pos_iff.mpr hne
      rw [hjob]
      simp only [List.length_append, List.length_cons, List.length_nil]
      omega
    · refine h.frame.trans ?_
      rw [hhead]
      rfl
  · -- the last packet: the WR at the head of the send queue is its own
    have hnil : rest = [] := by
      by_contra hne
      rw [if_neg hne, hsome] at hptr
      cases hptr
    subst hnil
    have hqueue : job.wr :: jobs.map (·.wr) = wr :: sq := by
      rw [← hsq]
      show _ = t.qp.sq.dropWhile completesAtHead
      rw [h.retires.sendQueue, List.map_cons, List.dropWhile_cons, hsound.live]
      rfl
    obtain ⟨rfl, rfl⟩ := List.cons.inj hqueue
    have hreport : reports = report s.qp job.wr := by
      refine completionEvents_eq (h.frame.trans ?_) hrep
      rfl
    have hlate : ∀ wr ∈ jobs.map (·.wr), completesAtHead wr = false := fun wr hwr =>
      hlive wr (List.mem_cons_of_mem _ hwr)
    rw [roceCompleteHead_live hlate]
    refine ⟨done ++ [job], jobs, [], by simp, ⟨?_, rfl, ?_, ?_⟩, ?_, ?_⟩
    · have hctx : ctx.trace = ((roceCompleteHead (t.takeOutgoing pkt pkts)).emit
          (.leaveSq job.wr :: reports)).ctx.trace := by
        have hrefs := roceFreeSendWr_refsOnly hfree
        unfold RefsOnly at hrefs
        rw [hrefs]
      have hkeep : (Event.leaveSq job.wr :: reports).filter isSendEvent =
          .leaveSq job.wr :: report s.qp job.wr := by
        rw [List.filter_cons_of_pos rfl, hreport, filter_report]
      have hsend : ctx.trace.filter isSendEvent =
          t.sendEvents ++ [.acked pkt] ++ .leaveSq job.wr :: report s.qp job.wr := by
        rw [hctx, hhead, ← hevents, ← hkeep, ← sendEvents_emit]
        rfl
      show ctx.trace.filter isSendEvent = _
      rw [hsend, h.retires.events, List.flatMap_append]
      simp [Job.retire, hjob]
    · show _ = [] ++ (pkts ++ t.qp.req.pendingPkts)
      rw [hrest]
      rfl
    · intro j hj
      have hj' : j ∈ jobs := List.mem_of_mem_head? hj
      have hown := (h.sound j (List.mem_cons_of_mem _ hj')).owners
      refine List.length_pos_iff.mpr ?_
      intro hempty
      rw [hempty] at hown
      cases hown
    · intro j hj
      exact h.sound j (List.mem_cons_of_mem _ hj)
    · refine h.frame.trans ?_
      rfl

/-! ## The other parts of a step -/

/-- A change of nothing that a run of jobs sees. -/
theorem RunsJobs.congr {s t t' : St} {done late : List Job} {gone : List RoceNetpkt}
    (h : RunsJobs s t done late gone) (hev : t'.sendEvents = t.sendEvents) (hsq : t'.qp.sq = t.qp.sq)
    (hq : t'.qp.req.queued = t.qp.req.queued) (hf : RequesterOnly t.qp t'.qp) :
    RunsJobs s t' done late gone := by
  refine ⟨⟨?_, ?_, ?_, h.retires.unfinished⟩, h.sound, h.frame.trans hf⟩
  · rw [hev, h.retires.events]
  · rw [hsq, h.retires.sendQueue]
  · rw [h.retires.packets]
    show gone ++ t.qp.req.queued = gone ++ t'.qp.req.queued
    rw [hq]

theorem RunsJobs.xmit {s t u : St} {done late : List Job} {gone : List RoceNetpkt}
    (h : RunsJobs s t done late gone) (hx : Xmits t u) : RunsJobs s u done late gone := by
  refine h.congr ?_ (by rw [hx.qp]) hx.queued ?_
  · obtain ⟨sent, hctx⟩ := hx.ctx
    unfold St.sendEvents
    rw [hctx, List.filter_append, filter_netXmit, List.append_nil]
  · rw [hx.qp]
    rfl

/-- An acknowledgement moves jobs from `late` to `done`. -/
theorem RunsJobs.acknowledge {s t t' : St} {done late : List Job} {gone : List RoceNetpkt}
    {syndrome : Syndrome} {val : UInt8} {psn msn : UInt32} (hrc : t.qp.qpType = .rc)
    (h : RunsJobs s t done late gone)
    (hs : reqStep t (.acknowledge syndrome val psn msn) = .ok t') :
    ∃ done' late' gone', done' ++ late' = done ++ late ∧ RunsJobs s t' done' late' gone' := by
  rcases reqStep_ok hrc hs with ⟨-, rfl⟩ | ⟨u, v, hp, hx, rfl⟩
  · exact ⟨done, late, gone, rfl, h⟩
  · obtain ⟨psn', w, again, hw, rfl⟩ := acknowledge_prepare hp
    have hacked : ∃ done' late' gone', done' ++ late' = done ++ late ∧
        RunsJobs s w done' late' gone' := by
      refine roceHandleAck_inv (P := fun x => ∃ done' late' gone',
        done' ++ late' = done ++ late ∧ RunsJobs s x done' late' gone') ?_
        ⟨done, late, gone, rfl, h⟩ hw
      rintro x pkt pkts x' ⟨d, l, g, hdl, hx⟩ hout hc
      obtain ⟨d', l', g', hdl', hx'⟩ := hx.complete hout hc
      exact ⟨d', l', g', hdl'.trans hdl, hx'⟩
    obtain ⟨done', late', gone', hjobs, hw'⟩ := hacked
    refine ⟨done', late', gone', hjobs, RunsJobs.xmit ?_ (roceXmitPkts_ok hx)⟩
    refine hw'.congr ?_ rfl rfl rfl
    rw [sendEvents_emit, filter_netXmit, List.append_nil]

/-- The job of a post: its WR, and the packets that are new. -/
theorem postedJob_post {s t : St} {wr wr2 : SendWr} {calloc : Nat → Bool}
    (hp : reqPrepare s (.post wr calloc) = .ok (some t)) (hsq : t.qp.sq = s.qp.sq ++ [wr2]) :
    postedJob s (.post wr calloc) = [⟨wr2, t.qp.req.pendingPkts.drop s.qp.req.pendingPkts.length⟩] := by
  unfold postedJob
  rw [hp]
  simp only
  rw [hsq, List.drop_left]
  rfl

/-- What a post that builds its packets adds. -/
theorem post_job {s t : St} {wr : SendWr} {calloc : Nat → Bool}
    (hp : reqPrepare s (.post wr calloc) = .ok (some t)) (hb : Builds s (.post wr calloc)) :
    ∃ job : Job, postedJob s (.post wr calloc) = [job] ∧ job.Sound ∧ job.wr.fresh = wr.fresh ∧
      t.qp.sq = s.qp.sq ++ [job.wr] ∧
      t.qp.req.outgoingPkts = s.qp.req.outgoingPkts ∧
      t.qp.req.pendingPkts = s.qp.req.pendingPkts ++ job.pkts ∧ RefsOnly s.ctx t.ctx := by
  obtain ⟨qp, wr2, hposted, hqp, hrefs⟩ := rocePostSend_prepare hp
  have hjob := postedJob_post hp (by rw [hqp])
  obtain ⟨herr, hop⟩ := hb _ (by rw [hjob]; exact List.mem_cons_self)
  cases hposted with
  | failed e he m => exact absurd herr he
  | skipped m hs =>
    have hop' : wr.opcode = .send ∨ wr.opcode = .sendWithImm ∨ wr.opcode = .sendWithInv ∨
      wr.opcode = .rdmaWrite ∨ wr.opcode = .rdmaWriteWithImm := hop
    rcases hs with hs | hs
    · unfold roceSendWrIsLocal at hs
      rcases hop' with ho | ho | ho | ho | ho <;> simp [ho] at hs
    · unfold Unimplemented at hs
      rcases hop' with ho | ho | ho | ho | ho <;> simp [ho] at hs
  | queued m pkts ht hop2 hs =>
    have hpend : t.qp.req.pendingPkts = s.qp.req.pendingPkts ++ pkts := by
      rw [hqp]
      rfl
    have hdrop : t.qp.req.pendingPkts.drop s.qp.req.pendingPkts.length = pkts := by
      rw [hpend, List.drop_left]
    refine ⟨_, hjob, ⟨?_, ?_⟩, rfl, by rw [hqp], by rw [hqp]; rfl, ?_, hrefs⟩
    · have hl : roceSendWrIsLocal { wr with error := 0, mapped := m } = false := hop2.1
      simp [completesAtHead, hl]
    · rw [hdrop]
      exact ht.owners
    · rw [hdrop]
      exact hpend

/-- A post adds its job to `late`. -/
theorem RunsJobs.post {s t t' : St} {done late : List Job} {gone : List RoceNetpkt} {wr : SendWr}
    {calloc : Nat → Bool} (hrc : t.qp.qpType = .rc) (h : RunsJobs s t done late gone)
    (hb : Builds t (.post wr calloc)) (hs : reqStep t (.post wr calloc) = .ok t') :
    ∃ job, postedJob t (.post wr calloc) = [job] ∧ job.wr.fresh = wr.fresh ∧
      RunsJobs s t' done (late ++ [job]) gone := by
  obtain ⟨u, v, hp, hx, rfl⟩ := reqStep_post_ok hrc hs
  obtain ⟨job, hjob, hsound, hwr, hsq, hout, hpend, hrefs⟩ := post_job hp hb
  have hu : RunsJobs s u done (late ++ [job]) gone := by
    refine ⟨⟨?_, ?_, ?_, ?_⟩, ?_, h.frame.trans (reqPrepare_requesterOnly hp)⟩
    · rw [← h.retires.events]
      unfold St.sendEvents
      rw [hrefs]
    · rw [hsq, h.retires.sendQueue, List.map_append]
      rfl
    · rw [List.flatMap_append, h.retires.packets, hout, hpend]
      simp
    · intro j hj
      cases late with
      | nil =>
        obtain rfl := Option.some.inj hj
        have hgone : gone = [] := (List.append_eq_nil_iff.mp h.retires.packets.symm).1
        rw [hgone]
        refine List.length_pos_iff.mpr ?_
        intro hempty
        have hown := hsound.owners
        rw [hempty] at hown
        cases hown
      | cons first late => exact h.retires.unfinished j hj
    · intro j hj
      rcases List.mem_append.mp hj with hj | hj
      · exact h.sound j hj
      · rw [List.mem_singleton.mp hj]
        exact hsound
  refine ⟨job, hjob, hwr, ?_⟩
  have hv := hu.xmit (roceXmitPkts_ok hx)
  rw [hv.completeHead]
  exact hv

/-! ## Runs -/

theorem runJobs_cons_ok {s s' : St} {op : ReqOp} (ops : List ReqOp) (h : reqStep s op = .ok s') :
    runJobs s (op :: ops) = postedJob s op ++ runJobs s' ops := by
  rw [runJobs, h]

/-- A run moves on from where it stands. -/
theorem RunsJobs.run {s t u : St} {done late : List Job} {gone : List RoceNetpkt} {ops : List ReqOp}
    (hrc : t.qp.qpType = .rc) (h : RunsJobs s t done late gone)
    (hb : Machine.Along reqStep Builds t ops) (hr : Machine.run reqStep t ops = .ok u) :
    (runJobs t ops).map (·.wr.fresh) = postedWrs ops ∧
      ∃ done' late' gone', done' ++ late' = done ++ late ++ runJobs t ops ∧
        RunsJobs s u done' late' gone' := by
  induction ops generalizing t done late gone with
  | nil =>
    obtain rfl := Except.ok.inj hr
    exact ⟨rfl, done, late, gone, by rw [runJobs, List.append_nil], h⟩
  | cons op ops ih =>
    obtain ⟨t1, hs, hr1⟩ := Machine.run_cons_eq_ok reqStep hr
    have hrc1 : t1.qp.qpType = .rc := by rw [(reqStep_requesterOnly hrc hs).qpType, hrc]
    rw [runJobs_cons_ok ops hs]
    cases op with
    | post wr calloc =>
      obtain ⟨job, hjob, hwr, h1⟩ := h.post hrc hb.1 hs
      obtain ⟨hposted, done', late', gone', hjobs, hu⟩ := ih hrc1 h1 (hb.2 t1 hs) hr1
      refine ⟨?_, done', late', gone', ?_, hu⟩
      · rw [hjob, List.singleton_append, List.map_cons, hposted, hwr]
        rfl
      · rw [hjobs, hjob, ← List.append_assoc done late [job], List.append_assoc]
    | acknowledge syndrome val psn msn =>
      obtain ⟨d, l, g, hdl, h1⟩ := h.acknowledge hrc hs
      obtain ⟨hposted, done', late', gone', hjobs, hu⟩ := ih hrc1 h1 (hb.2 t1 hs) hr1
      refine ⟨hposted, done', late', gone', ?_, hu⟩
      rw [hjobs, hdl]
      rfl

/-- **Retirement.**  After every run that returns the jobs, which are those of
the posted WRs in order, stand as `Retires` says. -/
theorem reqRun_retires (s t : St) (h0 : Started s) (ops : List ReqOp)
    (hb : Machine.Along reqStep Builds s ops) (hr : Machine.run reqStep s ops = .ok t) :
    (runJobs s ops).map (·.wr.fresh) = postedWrs ops ∧
      ∃ done late gone, runJobs s ops = done ++ late ∧ Retires s t done late gone := by
  obtain ⟨hset, hsq⟩ := h0.sqPsnSet
  have hstart : RunsJobs s s [] [] [] := by
    refine ⟨⟨by simp, hsq, ?_, ?_⟩, ?_, rfl⟩
    · rw [hset.outgoing, hset.pending]
      rfl
    · intro job hjob
      cases hjob
    · intro job hjob
      cases hjob
  obtain ⟨hposted, done, late, gone, hjobs, hu⟩ := hstart.run h0.rc hb hr
  exact ⟨hposted, done, late, gone, hjobs.symm, hu.retires⟩

/-- A SEND is posted and acknowledged. -/
def sendAndAck : List ReqOp := [.post (smallSend 1 .send) fun _ => true, .acknowledge .ack 0 0 0]

theorem reqRun_retires_send :
    ∃ t, Machine.run reqStep (smallStart 0) sendAndAck = .ok t ∧
      ∃ done late gone, runJobs (smallStart 0) sendAndAck = done ++ late ∧
        Retires (smallStart 0) t done late gone := by
  have hb : Machine.Along reqStep Builds (smallStart 0) sendAndAck := by
    refine ⟨?_, fun _ _ => ⟨?_, fun _ _ => trivial⟩⟩
    · intro job hjob
      obtain rfl := List.mem_singleton.mp hjob
      exact ⟨rfl, Or.inl rfl⟩
    · intro job hjob
      cases hjob
  refine ⟨_, rfl, ?_⟩
  exact (reqRun_retires (smallStart 0) _ (smallStart_started (by decide)) sendAndAck hb rfl).2

end Libroce
