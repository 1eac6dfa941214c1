import Libroce.RequesterRun

/-!
# The send queue and the packet queues

The WRs of the send queue that wait for an acknowledgement are, in order, the
WRs the queued packets point back to (`Owners`).  So the assertion
`send_wr == pkt->opaque` of `roce_rc_complete_send_wr` holds.

The builder has no case for RDMA_READ, the atomics and FLUSH, and gives such a
WR neither a packet nor an error.  It then waits in the send queue with no
packet to complete it (`Unbuilt`), and the correspondence is lost.

Main statement:
* `reqRun_owners` — the correspondence, and with it the assertion, holds
  throughout a run exactly when no step of it posts such a WR.
-/

namespace Libroce

open Machine (bind_eq_ok bind_eq_error)

/-! ## The correspondence -/

/-- Neither local nor failed: the WR goes when its last packet is acknowledged. -/
def awaited (wr : SendWr) : Bool := !roceSendWrIsLocal wr && wr.error == 0

theorem awaited_eq (wr : SendWr) : awaited wr = !completesAtHead wr := by
  unfold awaited completesAtHead
  cases roceSendWrIsLocal wr <;> simp [bne]

/-- The WRs that packets point back to. -/
def ownersOf (pkts : List RoceNetpkt) : List Nat := pkts.filterMap (·.opaquePtr)

/-- The awaited WRs of the send queue are those the queued packets point back to. -/
def Owners (qp : RoceQp) : Prop :=
  (qp.sq.filter awaited).map (·.addr) = ownersOf (qp.req.outgoingPkts ++ qp.req.pendingPkts)

theorem ownersOf_append (ps qs : List RoceNetpkt) :
    ownersOf (ps ++ qs) = ownersOf ps ++ ownersOf qs := List.filterMap_append

/-- A train points back to its WR once. -/
theorem Train.ownersOf {wrAddr : Nat} {psn : UInt32} {pkts : List RoceNetpkt}
    (h : Train wrAddr psn pkts) : ownersOf pkts = [wrAddr] := by
  have e : Libroce.ownersOf pkts = (pkts.map (·.opaquePtr)).filterMap id := by
    rw [List.filterMap_map]
    rfl
  rw [e, h.owners, List.filterMap_append]
  have hnone : (List.replicate (pkts.length - 1) (none : Option Nat)).filterMap id = [] := by
    rw [List.filterMap_eq_nil_iff]
    intro a ha
    rw [List.eq_of_mem_replicate ha]
    rfl
  rw [hnone]
  rfl

/-- What stands before the first awaited WR goes unseen. -/
theorem filter_dropWhile_awaited (sq : List SendWr) :
    (sq.dropWhile completesAtHead).filter awaited = sq.filter awaited := by
  induction sq with
  | nil => rfl
  | cons wr sq ih =>
    rw [List.dropWhile_cons]
    split
    · next hc =>
      have ha : awaited wr = false := by rw [awaited_eq, hc]; rfl
      rw [ih, List.filter_cons_of_neg (by rw [ha]; exact Bool.false_ne_true)]
    · rfl

/-- The first WR left is awaited. -/
theorem awaited_of_dropWhile {sq sq' : List SendWr} {wr : SendWr}
    (h : sq.dropWhile completesAtHead = wr :: sq') : awaited wr = true := by
  have hne : sq.dropWhile completesAtHead ≠ [] := by
    rw [h]
    exact List.cons_ne_nil _ _
  have hhead := List.head_dropWhile_not completesAtHead hne
  simp only [h, List.head_cons] at hhead
  rw [awaited_eq, hhead]
  rfl

theorem roceCompleteHead_owners (s : St) : Owners (roceCompleteHead s).qp ↔ Owners s.qp := by
  unfold Owners
  show ((s.qp.sq.dropWhile completesAtHead).filter awaited).map _ = _ ↔ _
  rw [filter_dropWhile_awaited]
  exact Iff.rfl

/-! ## Posts -/

/-- The post of a WR that gets neither a packet nor an error. -/
def Unbuilt (s : St) : ReqOp → Prop
  | .post wr _ => Unimplemented wr.opcode ∧
      if roceSendWrIsInline wr then inlineLen wr ≤ s.qp.attr.cap.maxInlineData
      else ∀ sge ∈ wr.sge, roceGetMrNoref s.ctx (roceKeyToIndex sge.lkey) ≠ none
  | .acknowledge _ _ _ _ => False

theorem unimplemented_not_local {wr : SendWr} (h : Unimplemented wr.opcode) :
    roceSendWrIsLocal wr = false := by
  unfold roceSendWrIsLocal
  rcases h with h | h | h | h | h <;> rw [h]

theorem requestBuild_unimplemented {ctx : RoceCtx} {qp qp' : RoceQp} {wr wr' : SendWr}
    {calloc : Nat → Bool} (hop : Unimplemented wr.opcode)
    (h : requestBuild ctx qp wr calloc = .ok (qp', wr')) :
    qp' = qp ∧ roceSendWrIsLocal wr' = false ∧
      (wr'.error = 0 ↔
        wr.error = 0 ∧ ¬(roceSendWrIsInline wr ∧ inlineLen wr > qp.attr.cap.maxInlineData)) := by
  have hlocal := unimplemented_not_local hop
  unfold requestBuild at h
  split at h
  · next he =>
    unfold roceRcBuildPkts at h
    split at h
    · next hlong =>
      obtain ⟨rfl, rfl⟩ := Prod.mk.inj (Except.ok.inj h)
      have he' : roceWcLocLenErr ≠ 0 := by decide
      exact ⟨rfl, hlocal, iff_of_false he' fun hc => hc.2 hlong⟩
    · next hshort =>
      have hskip : (qp, wr) = (qp', wr') := by
        rcases hop with ho | ho | ho | ho | ho <;> rw [ho] at h <;> exact Except.ok.inj h
      obtain ⟨rfl, rfl⟩ := Prod.mk.inj hskip
      exact ⟨rfl, hlocal, iff_of_true he ⟨he, hshort⟩⟩
  · next he =>
    obtain ⟨rfl, rfl⟩ := Prod.mk.inj (Except.ok.inj h)
    exact ⟨rfl, hlocal, iff_of_false he fun hc => he hc.1⟩

/-- What the references say of the WR's error. -/
theorem postGetMrs_error {s s1 : St} {wr wr1 : SendWr} (h : postGetMrs s wr.fresh = .ok (s1, wr1)) :
    wr1.opcode = wr.opcode ∧ roceSendWrIsInline wr1 = roceSendWrIsInline wr ∧
      inlineLen wr1 = inlineLen wr ∧
      (wr1.error = 0 ↔ (roceSendWrIsInline wr = true ∨
        ∀ sge ∈ wr.sge, roceGetMrNoref s.ctx (roceKeyToIndex sge.lkey) ≠ none)) := by
  unfold postGetMrs at h
  split at h
  · next hin =>
    obtain ⟨rfl, rfl⟩ := Prod.mk.inj (Except.ok.inj h)
    exact ⟨rfl, rfl, rfl, iff_of_true rfl (Or.inl hin)⟩
  · next hin =>
    have hin' : ¬ roceSendWrIsInline wr = true := hin
    obtain ⟨⟨ret, ctx⟩, hg, h⟩ := bind_eq_ok.mp h
    obtain ⟨rfl, rfl⟩ := Prod.mk.inj (Except.ok.inj h)
    refine ⟨rfl, rfl, rfl, ?_⟩
    rw [or_iff_right hin', show wr.sge = wr.fresh.sge from rfl, ← roceGetMrs_eq_zero hg]
    rcases roceGetMrs_ret hg with rfl | rfl
    · exact iff_of_true rfl rfl
    · have he : UInt8.ofInt eACCES ≠ 0 := by decide
      exact iff_of_false he (by decide)

/-- A WR without an opcode case stays without an error exactly when it is `Unbuilt`. -/
theorem unimplemented_prepare {s t : St} {wr : SendWr} {calloc : Nat → Bool}
    (hop : Unimplemented wr.opcode) (h : reqPrepare s (.post wr calloc) = .ok (some t)) :
    ∃ wr2, t.qp = { s.qp with sq := s.qp.sq ++ [wr2] } ∧ roceSendWrIsLocal wr2 = false ∧
      (wr2.error = 0 ↔ Unbuilt s (.post wr calloc)) := by
  obtain ⟨ctx, wr1, qp, wr2, hget, hbuild, rfl⟩ := reqPrepare_post_ok h
  obtain ⟨hopc, hin, hlen, herr⟩ := postGetMrs_error hget
  obtain ⟨rfl, hlocal, hiff⟩ := requestBuild_unimplemented (by rw [hopc]; exact hop) hbuild
  refine ⟨wr2, rfl, hlocal, ?_⟩
  rw [hiff, herr, hin, hlen]
  simp only [Unbuilt, hop, true_and, gt_iff_lt, UInt32.not_lt, not_and]
  by_cases hi : roceSendWrIsInline wr = true
  · simp [hi]
  · simp [hi]

/-- A post keeps the correspondence unless its WR is `Unbuilt`. -/
theorem Owners.post {s t : St} {wr : SendWr} {calloc : Nat → Bool} (h : Owners s.qp)
    (hp : reqPrepare s (.post wr calloc) = .ok (some t)) :
    Owners t.qp ↔ ¬Unbuilt s (.post wr calloc) := by
  have hadd : ∀ (qp : RoceQp) (wr2 : SendWr) (added : List RoceNetpkt),
      (qp.req.outgoingPkts ++ qp.req.pendingPkts) =
        (s.qp.req.outgoingPkts ++ s.qp.req.pendingPkts) ++ added →
      qp.sq = s.qp.sq ++ [wr2] →
      (Owners qp ↔ (([wr2].filter awaited).map (·.addr)) = ownersOf added) := by
    intro qp wr2 added hpkts hsq
    unfold Owners at h ⊢
    rw [hpkts, hsq, List.filter_append, List.map_append, ownersOf_append, h, List.append_cancel_left_eq]
  by_cases hop : Unimplemented wr.opcode
  · obtain ⟨wr2, hqp, hlocal, herr⟩ := unimplemented_prepare hop hp
    rw [hadd t.qp wr2 [] (by rw [hqp, List.append_nil]) (by rw [hqp]), ← herr]
    by_cases he : wr2.error = 0
    · simp [awaited, hlocal, he, ownersOf]
    · simp [awaited, he, ownersOf]
  · have hnot : ¬Unbuilt s (.post wr calloc) := fun hu => hop hu.1
    obtain ⟨qp, wr2, hposted, hqp, -⟩ := rocePostSend_prepare hp
    refine iff_of_true ?_ hnot
    cases hposted with
    | failed e he m =>
      rw [hadd t.qp _ [] (by rw [hqp, List.append_nil]) (by rw [hqp])]
      simp [awaited, he, ownersOf]
    | skipped m hs =>
      have hlocal : roceSendWrIsLocal wr = true := by
        rcases hs with hs | hs
        · exact hs
        · exact absurd hs hop
      rw [hadd t.qp _ [] (by rw [hqp, List.append_nil]) (by rw [hqp])]
      have hl : roceSendWrIsLocal { wr with error := 0, mapped := m } = true := hlocal
      simp [awaited, hl, ownersOf]
    | queued m pkts ht hop2 hs =>
      have hq : t.qp.req.outgoingPkts ++ t.qp.req.pendingPkts =
          (s.qp.req.outgoingPkts ++ s.qp.req.pendingPkts) ++ pkts := by
        rw [hqp, List.append_assoc]
        rfl
      rw [hadd t.qp _ pkts hq (by rw [hqp]), ht.ownersOf]
      have hl : roceSendWrIsLocal { wr with error := 0, mapped := m } = false := hop2.1
      simp [awaited, hl]

/-! ## Acknowledgements -/

/-- When a packet goes, its WR is the one at the head. -/
theorem Owners.takeOutgoing {s : St} {pkt : RoceNetpkt} {pkts : List RoceNetpkt} (h : Owners s.qp)
    (hout : s.qp.req.outgoingPkts = pkt :: pkts) :
    (s.qp.sq.filter awaited).map (·.addr) =
      pkt.opaquePtr.toList ++ ownersOf (pkts ++ s.qp.req.pendingPkts) := by
  unfold Owners at h
  rw [h, hout, List.cons_append]
  unfold ownersOf
  rw [List.filterMap_cons]
  cases pkt.opaquePtr with
  | none => rfl
  | some a => rfl

theorem Owners.complete {s s' : St} {pkt : RoceNetpkt} {pkts : List RoceNetpkt} (h : Owners s.qp)
    (hout : s.qp.req.outgoingPkts = pkt :: pkts)
    (hc : roceRcCompleteSendWr (s.takeOutgoing pkt pkts) pkt = .ok s') : Owners s'.qp := by
  have hown := h.takeOutgoing hout
  rcases roceRcCompleteSendWr_ok hc with
    ⟨hnone, rfl⟩ | ⟨wr, sq, reports, ctx, hsq, hsome, -, -, rfl⟩
  · show ((s.qp.sq.dropWhile completesAtHead).filter awaited).map (·.addr) = _
    rw [filter_dropWhile_awaited, hown, hnone]
    rfl
  · rw [roceCompleteHead_owners]
    have hdrop : s.qp.sq.dropWhile completesAtHead = wr :: sq := hsq
    have hhead := awaited_of_dropWhile hdrop
    rw [← filter_dropWhile_awaited, hdrop, List.filter_cons_of_pos hhead, List.map_cons, hsome,
      Option.toList_some, List.singleton_append] at hown
    exact (List.cons.inj hown).2

/-- The report of a completion fails on other assertions. -/
theorem completionEvents_error {qp : RoceQp} {wr : SendWr} :
    completionEvents qp wr ≠ .error (.abort .completeOpaque) := by
  intro h
  unfold completionEvents at h
  split at h
  · rcases bind_eq_error.mp h with hlen | ⟨len, -, h⟩
    · unfold roceSgeLen at hlen
      split at hlen
      · cases hlen
      · split at hlen
        · split at hlen
          · cases hlen
          · cases hlen
        · cases hlen
    · cases h
  · cases h

/-- So does the release of the WR. -/
theorem roceFreeSendWr_error {ctx : RoceCtx} {wr : SendWr} :
    roceFreeSendWr ctx wr ≠ .error (.abort .completeOpaque) := by
  intro h
  unfold roceFreeSendWr at h
  split at h
  · cases rocePutMrs_error h
  · cases h

/-- The assertion of `roce_rc_complete_send_wr` holds. -/
theorem Owners.complete_noAbort {s : St} {pkt : RoceNetpkt} {pkts : List RoceNetpkt}
    (h : Owners s.qp) (hout : s.qp.req.outgoingPkts = pkt :: pkts) :
    roceRcCompleteSendWr (s.takeOutgoing pkt pkts) pkt ≠ .error (.abort .completeOpaque) := by
  have hown := h.takeOutgoing hout
  intro hc
  unfold roceRcCompleteSendWr at hc
  simp only at hc
  split at hc
  · cases hc
  · next wrAddr hsome =>
    rw [← filter_dropWhile_awaited, hsome, Option.toList_some, List.singleton_append] at hown
    split at hc
    · next hnil =>
      have hdrop : s.qp.sq.dropWhile completesAtHead = [] := hnil
      rw [hdrop] at hown
      cases hown
    · next wr sq hsq =>
      have hdrop : s.qp.sq.dropWhile completesAtHead = wr :: sq := hsq
      rw [hdrop, List.filter_cons_of_pos (awaited_of_dropWhile hdrop), List.map_cons] at hown
      rw [if_pos (List.cons.inj hown).1] at hc
      rcases bind_eq_error.mp hc with hrep | ⟨reports, -, hc⟩
      · exact completionEvents_error hrep
      · rcases bind_eq_error.mp hc with hfree | ⟨ctx, -, hc⟩
        · exact roceFreeSendWr_error hfree
        · cases hc

theorem Owners.handleAck_noAbort {s : St} (h : Owners s.qp) (psn : UInt32) :
    roceHandleAck s psn ≠ .error (.abort .completeOpaque) := by
  have hloop : ∀ (pkts : List RoceNetpkt) (v : St), Owners v.qp → v.qp.req.outgoingPkts = pkts →
      ackLoop psn pkts v ≠ .error (.abort .completeOpaque) := by
    intro pkts
    induction pkts with
    | nil =>
      intro v hv hout hc
      cases hc
    | cons pkt pkts ih =>
      intro v hv hout hc
      rw [ackLoop] at hc
      split at hc
      · cases hc
      · split at hc
        · next e he =>
          obtain rfl := Except.error.inj hc
          exact hv.complete_noAbort hout he
        · next v1 h1 =>
          refine ih v1 (hv.complete hout h1) ?_ hc
          rcases roceRcCompleteSendWr_ok h1 with ⟨-, rfl⟩ | ⟨wr, sq, reports, ctx, -, -, -, -, rfl⟩
          · rfl
          · rfl
  unfold roceHandleAck
  split
  · intro hc
    cases hc
  · split
    · intro hc
      cases hc
    · exact hloop _ s h rfl

/-! ## Runs -/

/-- An RC QP on which nothing was posted yet. -/
structure Idle (s : St) : Prop where
  rc : s.qp.qpType = .rc
  sq : s.qp.sq = []
  outgoing : s.qp.req.outgoingPkts = []
  pending : s.qp.req.pendingPkts = []

theorem Idle.owners {s : St} (h : Idle s) : Owners s.qp := by
  unfold Owners
  rw [h.sq, h.outgoing, h.pending]
  rfl

theorem Xmits.owners {s s' : St} (h : Xmits s s') : Owners s'.qp ↔ Owners s.qp := by
  have hsq : s'.qp.sq = s.qp.sq := by rw [h.qp]
  have hq := h.queued
  unfold RoceRequester.queued at hq
  unfold Owners
  rw [hsq, hq]

/-- A step keeps the correspondence exactly when it posts no `Unbuilt` WR. -/
theorem reqStep_owners {s s' : St} {op : ReqOp} (hrc : s.qp.qpType = .rc) (h : Owners s.qp)
    (hs : reqStep s op = .ok s') : Owners s'.qp ↔ ¬Unbuilt s op := by
  cases op with
  | post wr calloc =>
    obtain ⟨t, u, hp, hx, rfl⟩ := reqStep_post_ok hrc hs
    rw [roceCompleteHead_owners, (roceXmitPkts_ok hx).owners, h.post hp]
  | acknowledge syndrome val psn msn =>
    refine iff_of_true ?_ not_false
    rcases reqStep_ok hrc hs with ⟨-, rfl⟩ | ⟨t, u, hp, hx, rfl⟩
    · exact h
    · rw [(roceXmitPkts_ok hx).owners]
      obtain ⟨psn', v, again, hv, rfl⟩ := acknowledge_prepare hp
      show Owners v.qp
      exact roceHandleAck_inv (P := fun w => Owners w.qp)
        (fun _ _ _ _ hw hout hc => hw.complete hout hc) h hv

/-- The correspondence holds and no acknowledgement meets the assertion. -/
def OwnersHold (s : St) : Prop :=
  Owners s.qp ∧ ∀ psn, roceHandleAck s psn ≠ .error (.abort .completeOpaque)

/-- **The correspondence.**  It holds throughout a run in which no step posts
an `Unbuilt` WR, and in a run that returns only then. -/
theorem reqRun_owners (s : St) (h0 : Idle s) (ops : List ReqOp) :
    (Machine.Along reqStep (fun t op => ¬Unbuilt t op) s ops →
      Machine.Throughout reqStep OwnersHold s ops) ∧
    ((∃ t, Machine.run reqStep s ops = .ok t) → Machine.Throughout reqStep OwnersHold s ops →
      Machine.Along reqStep (fun t op => ¬Unbuilt t op) s ops) := by
  have hstart : s.qp.qpType = .rc ∧ Owners s.qp := ⟨h0.rc, h0.owners⟩
  clear h0
  constructor
  · intro hall
    have hinv : Machine.Throughout reqStep (fun t => t.qp.qpType = .rc ∧ Owners t.qp) s ops := by
      refine Machine.throughout_of_along ?_ hstart hall
      rintro t op t' ⟨hrc, hown⟩ hop hs
      refine ⟨?_, (reqStep_owners hrc hown hs).mpr hop⟩
      rw [(reqStep_requesterOnly hrc hs).qpType, hrc]
    exact Machine.throughout_imp (fun t ht => ⟨ht.2, ht.2.handleAck_noAbort⟩) hinv
  · rintro ⟨t, hrun⟩ hall
    induction ops generalizing s with
    | nil => trivial
    | cons op ops ih =>
      obtain ⟨hrc, hown⟩ := hstart
      obtain ⟨s1, hs, hrun⟩ := Machine.run_cons_eq_ok reqStep hrun
      have hrest := hall.2 s1 hs
      have hown1 : Owners s1.qp := (Machine.throughout_head hrest).1
      have hrc1 : s1.qp.qpType = .rc := by rw [(reqStep_requesterOnly hrc hs).qpType, hrc]
      refine ⟨(reqStep_owners hrc hown hs).mp hown1, fun s2 hs2 => ?_⟩
      obtain rfl := Except.ok.inj (hs.symm.trans hs2)
      exact ih s1 ⟨hrc1, hown1⟩ hrun hrest

theorem smallStart_idle (sqPsn : UInt32) : Idle (smallStart sqPsn) := ⟨rfl, rfl, rfl, rfl⟩

/-- A posted RDMA_READ stays at the head of the send queue, and the
acknowledgement of the SEND behind it meets the assertion. -/
theorem reqRun_owners_read :
    Idle (smallStart 0) ∧
      ¬Machine.Throughout reqStep OwnersHold (smallStart 0)
        [.post (smallSend 1 .rdmaRead) fun _ => true, .post (smallSend 2 .send) fun _ => true] ∧
      Machine.run reqStep (smallStart 0)
        [.post (smallSend 1 .rdmaRead) fun _ => true, .post (smallSend 2 .send) fun _ => true,
          .acknowledge .ack 0 0 0] = .error (.abort .completeOpaque) := by
  refine ⟨smallStart_idle 0, ?_, rfl⟩
  rintro ⟨-, h⟩
  have hown : Owners _ := (Machine.throughout_head (h _ rfl)).1
  exact absurd (congrArg List.length hown) (by decide)

/-- A SEND posted, acknowledged and posted again. -/
theorem reqRun_owners_send :
    Machine.Throughout reqStep OwnersHold (smallStart 0)
      [.post (smallSend 1 .send) fun _ => true, .acknowledge .ack 0 0 0,
        .post (smallSend 1 .send) fun _ => true] := by
  have hsend : ∀ s, ¬Unbuilt s (.post (smallSend 1 .send) fun _ => true) := by
    rintro s ⟨hop, -⟩
    rcases hop with h | h | h | h | h <;> cases h
  exact (reqRun_owners (smallStart 0) (smallStart_idle 0) _).1
    ⟨hsend _, fun _ _ => ⟨not_false, fun _ _ => ⟨hsend _, fun _ _ => trivial⟩⟩⟩

end Libroce
