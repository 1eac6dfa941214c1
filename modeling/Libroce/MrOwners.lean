import Libroce.MrRefs

/-!
# The WRs that leave a QP

`St.Owns` says that the MRs count the WRs of one QP and those of all others.
Every call on the QP keeps it, except where a WR leaves the QP with its
references:

    roce_complete_head takes a send WR off           (SendKeepsRefs)
    the receive WR in progress loses its place       (RecvKeepsRefs)

    qpStep s call = .ok t  →  St.Owns sends ptrs s  →  St.Owns sends ptrs t   (qpStep_owns)
-/

namespace Libroce

open Machine (bind_eq_ok)

/-! ## One QP among others -/

/-- The receive WRs of a QP: the one in progress and the queued ones. -/
def RoceQp.recvPtrs (qp : RoceQp) : List UInt64 := qp.resp.word.inProgress ++ qp.rq

/-- The WRs of the QP and those of the others, `sends` and `ptrs`, are what the
MRs count, and `roce_complete_head` finds none that holds references. -/
structure St.Owns (sends : List SendWr) (ptrs : List UInt64) (s : St) : Prop where
  owned : Owned s.ctx (s.qp.sq ++ sends) (s.qp.recvPtrs ++ ptrs)
  head : ∀ wr ∈ s.qp.sq, completesAtHead wr = true → wr.mrUses = []

/-- Nothing that the counts depend on changed. -/
structure SameRefs (s t : St) : Prop where
  mrs : t.ctx.mrs = s.ctx.mrs
  recvWrs : t.ctx.recvWrs = s.ctx.recvWrs
  sq : t.qp.sq = s.qp.sq
  ptrs : t.qp.recvPtrs = s.qp.recvPtrs

theorem SameRefs.refl (s : St) : SameRefs s s := ⟨rfl, rfl, rfl, rfl⟩

theorem SameRefs.trans {s t u : St} (h1 : SameRefs s t) (h2 : SameRefs t u) : SameRefs s u :=
  ⟨h2.mrs.trans h1.mrs, h2.recvWrs.trans h1.recvWrs, h2.sq.trans h1.sq, h2.ptrs.trans h1.ptrs⟩

section requester

variable {s t : St} {sends : List SendWr} {ptrs : List UInt64} {wr wr' : SendWr}
  {calloc : Nat → Bool}

theorem SameRefs.owns (hsame : SameRefs s t) (h : St.Owns sends ptrs s) : St.Owns sends ptrs t := by
  refine ⟨?_, by rw [hsame.sq]; exact h.head⟩
  rw [hsame.sq, hsame.ptrs]
  exact h.owned.congr hsame.mrs hsame.recvWrs rfl

/-! ### The requester -/

theorem flatMap_dropWhile {sq : List SendWr}
    (h : ∀ wr ∈ sq, completesAtHead wr = true → wr.mrUses = []) :
    (sq.dropWhile completesAtHead).flatMap SendWr.mrUses = sq.flatMap SendWr.mrUses := by
  induction sq with
  | nil => rfl
  | cons wr sq ih =>
    rw [List.dropWhile_cons]
    split
    · next hwr =>
      rw [ih fun wr' hwr' => h wr' (List.mem_cons_of_mem wr hwr'), List.flatMap_cons,
        h wr List.mem_cons_self hwr, List.nil_append]
    · rfl

theorem roceCompleteHead_owns (h : St.Owns sends ptrs s) :
    St.Owns sends ptrs (roceCompleteHead s) := by
  constructor
  · refine h.owned.congr rfl rfl ?_
    show ((s.qp.sq.dropWhile completesAtHead) ++ sends).flatMap SendWr.mrUses = _
    rw [List.flatMap_append, flatMap_dropWhile h.head, List.flatMap_append]
  · intro wr hwr
    exact h.head wr ((List.dropWhile_sublist _).subset hwr)

/-- The WR that a packet completes gives its references back. -/
theorem roceRcCompleteSendWr_owns {pkt : RoceNetpkt} (hc : roceRcCompleteSendWr s pkt = .ok t)
    (h : St.Owns sends ptrs s) : St.Owns sends ptrs t := by
  have hhead := roceCompleteHead_owns h
  rcases roceRcCompleteSendWr_ok hc with ⟨-, rfl⟩ | ⟨wr, sq, reports, ctx, hsq, -, -, hfree, rfl⟩
  · refine SameRefs.owns ?_ hhead
    exact ⟨rfl, rfl, rfl, rfl⟩
  · have hsq' : (roceCompleteHead s).qp.sq = wr :: sq := hsq
    have howned := hhead.owned
    have hrest := hhead.head
    rw [hsq'] at howned hrest
    refine roceCompleteHead_owns ⟨?_, ?_⟩
    · refine roceFreeSendWr_owned hfree ?_
      exact howned.congr rfl rfl rfl
    · intro wr' hwr'
      exact hrest wr' (List.mem_cons_of_mem wr hwr')

theorem roceHandleAck_owns {psn : UInt32} (hc : roceHandleAck s psn = .ok t)
    (h : St.Owns sends ptrs s) : St.Owns sends ptrs t := by
  refine roceHandleAck_inv (P := St.Owns sends ptrs) ?_ h hc
  intro s1 pkt pkts s2 h1 _ hc1
  have htake : SameRefs s1 (s1.takeOutgoing pkt pkts) := ⟨rfl, rfl, rfl, rfl⟩
  exact roceRcCompleteSendWr_owns hc1 (htake.owns h1)

theorem roceXmitPkts_same (hc : roceXmitPkts s = .ok t) : SameRefs s t := by
  have hx := roceXmitPkts_ok hc
  obtain ⟨sent, hctx⟩ := hx.ctx
  refine ⟨by rw [hctx], by rw [hctx], by rw [hx.qp], by rw [hx.qp]; rfl⟩

theorem roceHandleAcknowledge_owns {syndrome : Syndrome} {val : UInt8} {psn msn : UInt32}
    (hc : roceHandleAcknowledge s syndrome val psn msn = .ok t) (h : St.Owns sends ptrs s) :
    St.Owns sends ptrs t := by
  cases syndrome with
  | ack =>
    obtain ⟨s1, hack, hc⟩ := bind_eq_ok.mp hc
    exact (roceXmitPkts_same hc).owns (roceHandleAck_owns hack h)
  | nak =>
    obtain ⟨s1, hack, hc⟩ := bind_eq_ok.mp hc
    have hemit : SameRefs s1 (s1.emit (s1.qp.req.outgoingPkts.map .netXmit)) := ⟨rfl, rfl, rfl, rfl⟩
    exact (roceXmitPkts_same hc).owns (hemit.owns (roceHandleAck_owns hack h))
  | rnrNak =>
    obtain rfl := Except.ok.inj hc
    exact h
  | reserved =>
    obtain rfl := Except.ok.inj hc
    exact h

/-! ### Posting a send -/

/-- A WR that is posted holds its references before it is queued. -/
theorem postGetMrs_owns (hc : postGetMrs s wr.fresh = .ok (t, wr')) (h : St.Owns sends ptrs s)
    (hfit : roceSendWrIsInline wr = false → RefsFit s.ctx wr.sge) :
    St.Owns (wr' :: sends) ptrs t ∧ t.qp = s.qp ∧
      (wr'.mrUses ≠ [] → wr' = { wr with error := 0, mapped := true } ∧
        roceSendWrIsInline wr = false ∧ wr.sge ≠ [] ∧
        ∀ sge ∈ wr.sge, roceGetMrNoref s.ctx (roceKeyToIndex sge.lkey) ≠ none) := by
  have hin : roceSendWrIsInline wr.fresh = roceSendWrIsInline wr := rfl
  have hunused : ∀ {wr0 : SendWr} {ctx : RoceCtx}, wr0.mapped = false →
      Owned ctx (s.qp.sq ++ sends) (s.qp.recvPtrs ++ ptrs) →
      Owned ctx (s.qp.sq ++ wr0 :: sends) (s.qp.recvPtrs ++ ptrs) := by
    intro wr0 ctx hunmapped ho
    refine ho.congr rfl rfl ?_
    rw [List.flatMap_append, List.flatMap_append, List.flatMap_cons, mrUses_unmapped hunmapped,
      List.nil_append]
  unfold postGetMrs at hc
  rw [hin] at hc
  split at hc
  · obtain ⟨rfl, rfl⟩ := Prod.mk.inj (Except.ok.inj hc)
    exact ⟨⟨hunused rfl h.owned, h.head⟩, rfl, fun hne => absurd (mrUses_unmapped rfl) hne⟩
  · next hinline =>
    have hinline : roceSendWrIsInline wr = false := Bool.not_eq_true _ ▸ hinline
    obtain ⟨⟨ret, ctx⟩, hget, hc⟩ := bind_eq_ok.mp hc
    obtain ⟨rfl, rfl⟩ := Prod.mk.inj (Except.ok.inj hc)
    have hget : roceGetMrs s.ctx wr.sge = .ok (ret, ctx) := hget
    have hrefs := roceGetMrs_refsOnly hget
    obtain ⟨hall, hnone⟩ := roceGetMrs_mrTally hget h.owned.tally (hfit hinline)
    rcases roceGetMrs_ret hget with rfl | rfl
    · refine ⟨⟨?_, h.head⟩, rfl, fun hne => ⟨rfl, hinline, ?_, (roceGetMrs_eq_zero hget).mp rfl⟩⟩
      · refine h.owned.refs hrefs ((hall rfl).perm ?_)
        rw [List.flatMap_append, List.flatMap_append, List.flatMap_cons, ← List.append_assoc]
        refine List.Perm.append_right _ ?_
        rw [← List.append_assoc, ← List.append_assoc]
        exact List.perm_append_comm.append_right _
      · rintro hsge
        apply hne
        show sgeMrs wr.sge = []
        rw [hsge]
        rfl
    · refine ⟨⟨hunused rfl (h.owned.refs hrefs (hnone (by decide))), h.head⟩, rfl, ?_⟩
      exact fun hne => absurd (mrUses_unmapped rfl) hne

/-- A post after which `roce_complete_head` takes no WR off with its references:
an RC WR that holds some is not a local operation, and its single packet is
allocated. -/
def SendKeepsRefs (s : St) (wr : SendWr) (calloc : Nat → Bool) : Prop :=
  roceSendWrIsInline wr = false → RefsFit s.ctx wr.sge ∧
    (s.qp.qpType = .rc → wr.sge ≠ [] →
      (∀ sge ∈ wr.sge, roceGetMrNoref s.ctx (roceKeyToIndex sge.lkey) ≠ none) →
      roceSendWrIsLocal wr = false ∧ (calloc 0 = true ∨ Unimplemented wr.opcode ∨
        ∀ len, roceSgeLen wr.sge 0 0 = .ok len → s.qp.attr.pathMtu.toUInt32 < len))

/-- What building leaves of the WR and the QP. -/
theorem requestBuild_same {ctx : RoceCtx} {qp qp' : RoceQp}
    (hc : requestBuild ctx qp wr calloc = .ok (qp', wr')) :
    wr'.mrUses = wr.mrUses ∧ qp'.recvPtrs = qp.recvPtrs := by
  unfold requestBuild at hc
  split at hc
  · cases roceRcBuildPkts_ok hc with
    | failed e he => exact ⟨rfl, rfl⟩
    | skipped hop => exact ⟨rfl, rfl⟩
    | queued pkts htrain hop hshape => exact ⟨rfl, rfl⟩
  · obtain ⟨rfl, rfl⟩ := Prod.mk.inj (Except.ok.inj hc)
    exact ⟨rfl, rfl⟩

/-- An RC WR joins the send queue with its references. -/
theorem roceRequestRc_owns (hc : roceRequestRc s wr calloc = .ok t)
    (h : St.Owns (wr :: sends) ptrs s)
    (hkeep : ∀ qp wr', requestBuild s.ctx s.qp wr calloc = .ok (qp, wr') →
      completesAtHead wr' = true → wr'.mrUses = []) : St.Owns sends ptrs t := by
  unfold roceRequestRc requestQueue at hc
  obtain ⟨s1, hq, hc⟩ := bind_eq_ok.mp hc
  obtain ⟨s2, hx, hc⟩ := bind_eq_ok.mp hc
  obtain rfl := Except.ok.inj hc
  obtain ⟨⟨qp, wr'⟩, hbuild, hq⟩ := bind_eq_ok.mp hq
  obtain rfl := Except.ok.inj hq
  obtain ⟨huses, hptrs⟩ := requestBuild_same hbuild
  refine roceCompleteHead_owns ((roceXmitPkts_same hx).owns ⟨?_, ?_⟩)
  · show Owned s.ctx ((s.qp.sq ++ [wr']) ++ sends) (qp.recvPtrs ++ ptrs)
    rw [hptrs]
    refine h.owned.congr rfl rfl ?_
    rw [List.append_assoc, List.singleton_append, List.flatMap_append, List.flatMap_append,
      List.flatMap_cons, List.flatMap_cons, huses]
  · intro wr0 hwr0
    rcases List.mem_append.mp hwr0 with hold | hnew
    · exact h.head wr0 hold
    · obtain rfl := List.mem_singleton.mp hnew
      exact hkeep qp wr0 hbuild

theorem rocePutAh_same (s : St) (ah : Nat) : SameRefs s { s with ctx := rocePutAh s.ctx ah } := by
  obtain ⟨ahs, h⟩ := rocePutAh_withAhs s.ctx ah
  rw [h]
  exact ⟨rfl, rfl, rfl, rfl⟩

theorem roceUdSendPkt_same {c imm : Bool} {payload : UInt32}
    (hc : roceUdSendPkt s wr c imm payload = .ok (t, wr')) :
    SameRefs s t ∧ wr'.mrUses = wr.mrUses := by
  unfold roceUdSendPkt at hc
  split at hc
  · obtain ⟨rfl, rfl⟩ := Prod.mk.inj (Except.ok.inj hc)
    exact ⟨.refl _, rfl⟩
  · next ah ctx hget =>
    have hah : SameRefs s { s with ctx := ctx } := by
      obtain ⟨-, rfl⟩ := roceGetAh_ok hget
      exact ⟨rfl, rfl, rfl, rfl⟩
    obtain ⟨o, -, hc⟩ := bind_eq_ok.mp hc
    cases o with
    | none =>
      obtain ⟨rfl, rfl⟩ := Prod.mk.inj (Except.ok.inj hc)
      exact ⟨hah.trans (rocePutAh_same _ _), rfl⟩
    | some r =>
      obtain ⟨pkt, unmaps⟩ := r
      obtain ⟨rfl, rfl⟩ := Prod.mk.inj (Except.ok.inj hc)
      refine ⟨hah.trans (SameRefs.trans ?_ (rocePutAh_same _ _)), rfl⟩
      exact ⟨rfl, rfl, rfl, rfl⟩

theorem udRequest_same {c : Bool} {len : UInt32} (hc : udRequest s wr c = .ok (t, wr', len)) :
    SameRefs s t ∧ wr'.mrUses = wr.mrUses := by
  unfold udRequest at hc
  split at hc
  · unfold udSwitch at hc
    obtain ⟨mtu, -, hc⟩ := bind_eq_ok.mp hc
    obtain ⟨payload, -, hc⟩ := bind_eq_ok.mp hc
    split at hc
    · obtain ⟨rfl, hwr⟩ := Prod.mk.inj (Except.ok.inj hc)
      obtain ⟨rfl, -⟩ := Prod.mk.inj hwr
      exact ⟨.refl _, rfl⟩
    · split at hc
      · obtain ⟨⟨s1, wr1⟩, hsend, hc⟩ := bind_eq_ok.mp hc
        obtain ⟨rfl, hwr⟩ := Prod.mk.inj (Except.ok.inj hc)
        obtain ⟨rfl, -⟩ := Prod.mk.inj hwr
        exact roceUdSendPkt_same hsend
      · obtain ⟨⟨s1, wr1⟩, hsend, hc⟩ := bind_eq_ok.mp hc
        obtain ⟨rfl, hwr⟩ := Prod.mk.inj (Except.ok.inj hc)
        obtain ⟨rfl, -⟩ := Prod.mk.inj hwr
        exact roceUdSendPkt_same hsend
      · obtain ⟨rfl, hwr⟩ := Prod.mk.inj (Except.ok.inj hc)
        obtain ⟨rfl, -⟩ := Prod.mk.inj hwr
        exact ⟨.refl _, rfl⟩
  · obtain ⟨rfl, hwr⟩ := Prod.mk.inj (Except.ok.inj hc)
    obtain ⟨rfl, -⟩ := Prod.mk.inj hwr
    exact ⟨.refl _, rfl⟩

/-- A UD WR gives its references back before the call returns. -/
theorem roceRequestUd_owns {c : Bool} (hc : roceRequestUd s wr c = .ok t)
    (h : St.Owns (wr :: sends) ptrs s) : St.Owns sends ptrs t := by
  unfold roceRequestUd at hc
  obtain ⟨⟨s1, wr1, len⟩, hreq, hc⟩ := bind_eq_ok.mp hc
  obtain ⟨ctx, hfree, hc⟩ := bind_eq_ok.mp hc
  obtain rfl := Except.ok.inj hc
  obtain ⟨hsame, huses⟩ := udRequest_same hreq
  have hdrop : ∀ {s2 : St}, SameRefs s1 s2 → roceFreeSendWr s2.ctx wr1 = .ok ctx →
      St.Owns sends ptrs { s2 with ctx := ctx } := by
    intro s2 hsame2 hfree2
    have h2 := hsame2.owns (hsame.owns h)
    refine ⟨roceFreeSendWr_owned hfree2 ?_, h2.head⟩
    refine (h2.owned.perm List.perm_middle (List.Perm.refl _)).congr rfl rfl ?_
    rw [List.flatMap_cons, List.flatMap_cons, huses]
  split at hfree
  · next hsig =>
    rw [if_pos hsig]
    refine hdrop ?_ hfree
    exact ⟨rfl, rfl, rfl, rfl⟩
  · next hsig =>
    rw [if_neg hsig]
    exact hdrop (.refl s1) hfree

/-- **Posting a send.** -/
theorem rocePostSend_owns (hc : rocePostSend s wr.fresh calloc = .ok t) (h : St.Owns sends ptrs s)
    (hkeep : SendKeepsRefs s wr calloc) : St.Owns sends ptrs t := by
  unfold rocePostSend at hc
  obtain ⟨⟨s1, wr1⟩, hget, hc⟩ := bind_eq_ok.mp hc
  obtain ⟨h1, hqp, huses⟩ := postGetMrs_owns hget h fun hin => (hkeep hin).1
  simp only at hc
  split at hc
  · next hrc =>
    refine roceRequestRc_owns hc h1 ?_
    intro qp wr' hbuild hhead
    by_contra hne
    rw [(requestBuild_same hbuild).1] at hne
    obtain ⟨rfl, hin, hsge, hfound⟩ := huses hne
    rw [hqp] at hrc
    obtain ⟨hlocal, halloc⟩ := (hkeep hin).2 hrc hsge hfound
    unfold requestBuild at hbuild
    rw [if_pos rfl] at hbuild
    have hwr' : wr' = { wr with error := 0, mapped := true } := by
      refine roceRcBuildPkts_unfailed hbuild ?_ (halloc.imp_right fun h => h.imp_right ?_)
      · intro hyes
        exact absurd (hin.symm.trans hyes) (by decide)
      · intro hlarge mtu len hmtu hlen
        unfold roceGetMtu at hmtu
        rw [hqp, if_pos (Or.inl hrc)] at hmtu
        obtain rfl := Except.ok.inj hmtu
        have hnot : roceSendWrIsInline { wr with error := 0, mapped := true } = false := hin
        unfold requestLen at hlen
        rw [hnot] at hlen
        exact hlarge len hlen
    rw [hwr'] at hhead
    unfold completesAtHead at hhead
    have hlocal' : roceSendWrIsLocal { wr with error := 0, mapped := true } = false := hlocal
    rw [hlocal'] at hhead
    cases hhead
  · exact roceRequestUd_owns hc h1
  · exact roceRequestUd_owns hc h1
  · cases hc

end requester

/-! ### The responder -/

section responder

variable {s s' : St} {sends : List SendWr} {ptrs : List UInt64} {p : UInt64} {wr : RecvWr}
  {iovs : List (List UInt8)} {immdt : Option UInt32} {inprocess : Bool} {opcode : UInt8} {ret : Int}

/-- A receive WR whose SGEs are those of the object at `p`. -/
def StoredAt (s : St) (p : UInt64) (wr : RecvWr) : Prop :=
  ∃ wr0, s.ctx.recvWrs p = some wr0 ∧ wr.sge = wr0.sge

/-- Updating a receive WR, not its SGEs. -/
theorem setRecvWr_owns (h : St.Owns sends ptrs s) (hwr : StoredAt s p wr) :
    St.Owns sends ptrs (s.setRecvWr p wr) := by
  obtain ⟨wr0, hwr0, hsge⟩ := hwr
  have hget : ∀ q, (s.setRecvWr p wr).ctx.recvWrs q = if q = p then some wr else s.ctx.recvWrs q :=
    fun _ => rfl
  refine ⟨⟨?_, h.owned.nodup, ?_⟩, h.head⟩
  · rw [recvUses_congr]
    · exact h.owned.tally
    · intro q _
      rw [hget]
      by_cases hq : q = p
      · rw [if_pos hq, hq, hwr0]
        exact congrArg sgeMrs hsge
      · rw [if_neg hq]
  · intro q hq
    refine ⟨(h.owned.live q hq).1, ?_⟩
    rw [hget]
    by_cases hqp : q = p
    · rw [if_pos hqp]
      exact Option.some_ne_none wr
    · rw [if_neg hqp]
      exact (h.owned.live q hq).2

/-- The WR in progress is completed and freed. -/
theorem Finish.owns {byteLen : UInt32} (hf : Finish s p wr byteLen immdt opcode s')
    (h : St.Owns sends ptrs s) (hword : s.qp.resp.word = .wr p) (hp : p ≠ 0)
    (hwr : StoredAt s p wr) : St.Owns sends ptrs s' := by
  cases hf with
  | goesOn _ => exact h
  | @done e ctx _ hfree =>
    obtain ⟨wr0, hwr0, hsge⟩ := hwr
    have hptrs : s.qp.recvPtrs = p :: s.qp.rq := by
      unfold RoceQp.recvPtrs
      rw [hword, inProgress_wr hp]
      rfl
    have howned := h.owned
    rw [hptrs] at howned
    refine ⟨?_, h.head⟩
    show Owned ctx (s.qp.sq ++ sends) (s.qp.rq ++ ptrs)
    refine roceFreeRecvWr_owned hfree hwr0 hsge ?_
    exact howned.congr rfl rfl rfl

theorem PayloadStep.owns (hs : PayloadStep s iovs immdt opcode p wr ret s')
    (h : St.Owns sends ptrs s) (hword : s.qp.resp.word = .wr p) (hp : p ≠ 0)
    (hwr : s.ctx.recvWrs p = some wr) : St.Owns sends ptrs s' := by
  cases hs with
  | short _ _ => exact h
  | refused _ _ _ _ _ => exact setRecvWr_owns h ⟨wr, hwr, rfl⟩
  | @placed _ _ _ _ dsts dmamap _ _ _ _ _ hfin =>
    have hplace : SameRefs s (s.place dsts iovs.flatten dmamap) := ⟨rfl, rfl, rfl, rfl⟩
    refine hfin.owns (setRecvWr_owns (hplace.owns h) ⟨wr, hwr, rfl⟩) hword hp ⟨_, ?_, rfl⟩
    exact if_pos rfl

theorem SendStep.owns (hs : SendStep s iovs immdt inprocess opcode ret s')
    (h : St.Owns sends ptrs s)
    (hturn : inprocess = true → ∀ va, s.qp.resp.word = .iova va → va = 0) :
    St.Owns sends ptrs s' := by
  cases hs with
  | outOfOrder _ => exact h
  | noWr _ hbits _ =>
    refine SameRefs.owns (s := s) ⟨rfl, rfl, rfl, ?_⟩ h
    show (RespWord.wr 0).inProgress ++ s.qp.rq = s.qp.resp.word.inProgress ++ s.qp.rq
    rw [inProgress_of_bits hbits]
    rfl
  | @first p rq wr _ _ _ hbits hrq hwr hs =>
    have hptrs : s.qp.recvPtrs = p :: rq := by
      unfold RoceQp.recvPtrs
      rw [inProgress_of_bits hbits, hrq]
      rfl
    have hp : p ≠ 0 := by
      refine (h.owned.live p ?_).1
      rw [hptrs]
      exact List.mem_append_left _ List.mem_cons_self
    refine hs.owns ?_ rfl hp hwr
    refine SameRefs.owns (s := s) ⟨rfl, rfl, rfl, ?_⟩ h
    rw [hptrs]
    show (RespWord.wr p).inProgress ++ rq = p :: rq
    rw [inProgress_wr hp]
    rfl
  | next hin hbits hwr hs =>
    cases hword : s.qp.resp.word with
    | wr p =>
      rw [hword] at hs hbits hwr
      exact hs.owns h hword hbits hwr
    | iova va =>
      rw [hword] at hbits
      exact absurd (hturn hin va hword) hbits

/-- The WR in progress leaves the QP: it held no reference. -/
theorem Owned.drop {ctx : RoceCtx} {qs : List UInt64} (h : Owned ctx sends (qs ++ ptrs))
    (hnone : recvUses ctx qs = []) : Owned ctx sends ptrs := by
  refine ⟨?_, (List.nodup_append.mp h.nodup).2.1, fun p hp => h.live p (List.mem_append_right qs hp)⟩
  have huses : recvUses ctx (qs ++ ptrs) = recvUses ctx ptrs := by
    show recvUses ctx (qs ++ ptrs) = [] ++ recvUses ctx ptrs
    rw [← hnone]
    exact List.flatMap_append
  rw [← huses]
  exact h.tally

theorem PlaceStep.owns (hs : PlaceStep s iovs immdt opcode ret s') (h : St.Owns sends ptrs s)
    (hturn : WithImm opcode → s.qp.rq ≠ [] → WriteMapped s (roceIovLen iovs) →
      recvUses s.ctx s.qp.resp.word.inProgress = []) : St.Owns sends ptrs s' := by
  cases hs with
  | refused _ _ => exact h
  | plain _ _ =>
    refine SameRefs.owns ?_ h
    exact ⟨rfl, rfl, rfl, rfl⟩
  | noWr _ _ _ =>
    refine SameRefs.owns ?_ h
    exact ⟨rfl, rfl, rfl, rfl⟩
  | @done dsts dmamap p rq wr e ctx hwith hrq hwr hmap _ hfree =>
    have hnone := hturn hwith (by rw [hrq]; exact List.cons_ne_nil p rq) ⟨_, hmap.map, rfl⟩
    have howned : Owned s.ctx (s.qp.sq ++ sends) (p :: (rq ++ ptrs)) := by
      have hall := h.owned
      unfold RoceQp.recvPtrs at hall
      rw [hrq, List.append_assoc] at hall
      exact hall.drop hnone
    refine ⟨?_, h.head⟩
    show Owned ctx (s.qp.sq ++ sends) (rq ++ ptrs)
    refine roceFreeRecvWr_owned hfree ?_ rfl (howned.congr ?_ ?_ rfl)
    · exact hwr
    · rfl
    · rfl

theorem WriteStep.owns {reth : Option IbReth}
    (hs : WriteStep s iovs reth immdt inprocess opcode ret s') (h : St.Owns sends ptrs s)
    (hfirst : inprocess = false → s.qp.resp.writtenlen = 0 →
      recvUses s.ctx s.qp.resp.word.inProgress = [])
    (hnext : inprocess = true → WithImm opcode → s.qp.resp.writtenlen ≠ 0 → s.qp.rq ≠ [] →
      WriteMapped s (roceIovLen iovs) → recvUses s.ctx s.qp.resp.word.inProgress = []) :
    St.Owns sends ptrs s' := by
  cases hs with
  | outOfOrder _ =>
    refine SameRefs.owns ?_ h
    exact ⟨rfl, rfl, rfl, rfl⟩
  | @first r _ _ hin hlen _ hs =>
    refine hs.owns ⟨?_, h.head⟩ fun _ _ _ => rfl
    have hall := h.owned
    unfold RoceQp.recvPtrs at hall
    rw [List.append_assoc] at hall
    exact hall.drop (hfirst hin hlen)
  | next hin hlen hs => exact hs.owns h fun hwith => hnext hin hwith hlen

/-- A request that does not put the receive WR in progress out of the union with
its references: no later SEND packet meets the address of a WRITE, no first
WRITE packet stores its own and no immediate clears the union over such a WR. -/
def KeepsInProgress (s : St) (pkt : Inbound) : Prop :=
  match pkt.request with
  | none => True
  | some (.send inprocess _ _) => inprocess = true → ∀ va, s.qp.resp.word = .iova va → va = 0
  | some (.write false _ _ _) => s.qp.resp.writtenlen = 0 →
      recvUses s.ctx s.qp.resp.word.inProgress = []
  | some (.write true _ immdt iovs) => immdt.isSome = true → s.qp.resp.writtenlen ≠ 0 →
      s.qp.rq ≠ [] → WriteMapped s (roceIovLen iovs) →
      recvUses s.ctx s.qp.resp.word.inProgress = []

theorem RequestStep.owns {pkt : Inbound} (hs : RequestStep s pkt ret s') (h : St.Owns sends ptrs s)
    (hturn : KeepsInProgress s pkt) : St.Owns sends ptrs s' := by
  cases hs with
  | malformed _ => exact h
  | send hreq hs =>
    unfold KeepsInProgress at hturn
    simp only [hreq] at hturn
    exact hs.owns h hturn
  | @write inprocess reth immdt iovs _ _ hreq hs =>
    obtain ⟨-, himm⟩ := decodeRequest_write hreq
    unfold KeepsInProgress at hturn
    cases inprocess with
    | false =>
      simp only [hreq] at hturn
      refine hs.owns h (fun _ => hturn) ?_
      intro hfalse
      cases hfalse
    | true =>
      simp only [hreq] at hturn
      refine hs.owns h ?_ fun _ hwith => hturn (himm.mp hwith)
      intro htrue
      cases htrue

theorem roceNetpktAcknowledge_same {syndrome : Syndrome} {val : UInt8} {psn : UInt32} {c : Bool}
    (hc : roceNetpktAcknowledge s syndrome val psn c = .ok s') : SameRefs s s' := by
  obtain ⟨pkt, rfl, -⟩ := roceNetpktAcknowledge_ok hc
  exact ⟨rfl, rfl, rfl, rfl⟩

theorem recvInSequence_owns {pkt : Inbound} (hc : recvInSequence s pkt = .ok (ret, s'))
    (h : St.Owns sends ptrs s) (hturn : KeepsInProgress s pkt) : St.Owns sends ptrs s' := by
  have hnak : St.Owns sends ptrs { s with qp.resp.inPsnNak := false } := ⟨h.owned, h.head⟩
  rcases recvInSequence_ok hc with ⟨-, hstep⟩ | ⟨-, s1, s2, hstep, hack, rfl⟩
  · exact hstep.owns hnak hturn
  · have h1 := hstep.owns hnak hturn
    have h2 : St.Owns sends ptrs s2 := by
      rcases hack with ⟨-, rfl⟩ | ⟨-, hack⟩
      · exact h1
      · exact (roceNetpktAcknowledge_same hack).owns h1
    exact ⟨h2.owned, h2.head⟩

theorem roceRecvRc_owns {pkt : Inbound} (hc : roceRecvRc s pkt = .ok (ret, s'))
    (h : St.Owns sends ptrs s)
    (hturn : ibBthGetOpcode pkt.bth ≠ ibOpcodeAcknowledge →
      roceComparePsn s.qp.attr.rqPsn (ibBthGetPsn pkt.bth) = 0 → KeepsInProgress s pkt) :
    St.Owns sends ptrs s' := by
  unfold roceRecvRc at hc
  split at hc
  · unfold recvAcknowledge at hc
    split at hc
    · obtain ⟨-, rfl⟩ := Prod.mk.inj (Except.ok.inj hc)
      exact h
    · obtain ⟨t, hack, hc⟩ := bind_eq_ok.mp hc
      obtain ⟨-, rfl⟩ := Prod.mk.inj (Except.ok.inj hc)
      exact roceHandleAcknowledge_owns hack h
  next hreq =>
  simp only at hc
  split at hc
  · obtain ⟨-, rfl⟩ := Prod.mk.inj (Except.ok.inj hc)
    exact h
  next hpos =>
  split at hc
  · obtain ⟨t, hseq, hc⟩ := bind_eq_ok.mp hc
    obtain ⟨-, rfl⟩ := Prod.mk.inj (Except.ok.inj hc)
    unfold roceOutOfSeq at hseq
    split at hseq
    · obtain rfl := Except.ok.inj hseq
      exact h
    · split at hseq
      · cases hseq
      · next u hack =>
        obtain rfl := Except.ok.inj hseq
        have hu := (roceNetpktAcknowledge_same hack).owns h
        exact ⟨hu.owned, hu.head⟩
  next hneg =>
  have hzero : roceComparePsn s.qp.attr.rqPsn (ibBthGetPsn pkt.bth) = 0 :=
    Int32.le_antisymm (Int32.not_lt.mp hpos) (Int32.not_lt.mp hneg)
  exact recvInSequence_owns hc h (hturn hreq hzero)

theorem roceRecvUd_owns {pkt : Inbound} {ip : NetHdr} (hc : roceRecvUd s pkt ip = .ok (ret, s'))
    (h : St.Owns sends ptrs s) : St.Owns sends ptrs s' := by
  have hfinish : ∀ (x : Except Fault (Int × St)) (deth : IbDeth) (r : Int × St),
      (∀ y, x = .ok y → St.Owns sends ptrs y.2) →
      (do let y ← x
          return (if y.1 ≠ 0 then (y.1, { y.2 with qp.attr.destQpNum := deth.u32_1 &&& ibDethSrcqpMask })
            else (0, { ({ y.2 with qp.attr.destQpNum := deth.u32_1 &&& ibDethSrcqpMask } : St) with
              qp.attr.rqPsn := roceQpPsnInc y.2.qp.attr.rqPsn }))) = Except.ok r →
      St.Owns sends ptrs r.2 := by
    intro x deth r hx hr
    obtain ⟨y, hy, hr⟩ := bind_eq_ok.mp hr
    obtain rfl := Except.ok.inj hr
    have hown := hx y hy
    split
    · exact ⟨hown.owned, hown.head⟩
    · exact ⟨hown.owned, hown.head⟩
  have hfirst : ∀ {immdt : Option UInt32} {iovs : List (List UInt8)} {opcode : UInt8} (y : Int × St),
      roceRecvPayload s iovs immdt false opcode = .ok y → St.Owns sends ptrs y.2 := by
    intro immdt iovs opcode y hy
    refine (roceRecvPayload_ok hy).owns h ?_
    intro hno
    cases hno
  unfold roceRecvUd at hc
  simp only at hc
  split at hc
  · obtain ⟨-, rfl⟩ := Prod.mk.inj (Except.ok.inj hc)
    exact h
  · next deth iovs _ =>
    split at hc
    · split at hc
      · refine hfinish (.ok (ePROTO, s)) deth (ret, s') ?_ hc
        intro y hy
        obtain rfl := Except.ok.inj hy
        exact h
      · exact hfinish _ deth (ret, s') hfirst hc
    · split at hc
      · exact hfinish _ deth (ret, s') hfirst hc
      · obtain ⟨-, rfl⟩ := Prod.mk.inj (Except.ok.inj hc)
        exact h

/-- Such a request, when the packet is one in sequence for an RC QP. -/
def RecvKeepsRefs (s : St) (d : Decap) (calloc : Bool) : Prop :=
  recvBthCheck s.qp d.bth = 0 → s.qp.qpType = .rc → ibBthGetOpcode d.bth ≠ ibOpcodeAcknowledge →
    roceComparePsn s.qp.attr.rqPsn (ibBthGetPsn d.bth) = 0 →
    ∀ iovs, dropPad (ibBthGetPadcnt d.bth) d.iovs = some iovs → KeepsInProgress s ⟨d.bth, iovs, calloc⟩

/-- **Receiving.** -/
theorem roceRecvBth_owns {d : Decap} {c : Bool} (hc : roceRecvBth s d c = .ok (ret, s'))
    (h : St.Owns sends ptrs s) (hkeep : RecvKeepsRefs s d c) : St.Owns sends ptrs s' := by
  unfold roceRecvBth at hc
  simp only at hc
  split at hc
  · obtain ⟨-, rfl⟩ := Prod.mk.inj (Except.ok.inj hc)
    exact h
  split at hc
  · obtain ⟨-, rfl⟩ := Prod.mk.inj (Except.ok.inj hc)
    exact h
  split at hc
  · obtain ⟨-, rfl⟩ := Prod.mk.inj (Except.ok.inj hc)
    exact h
  split at hc
  · obtain ⟨-, rfl⟩ := Prod.mk.inj (Except.ok.inj hc)
    exact h
  next hcheck =>
  split at hc
  · obtain ⟨-, rfl⟩ := Prod.mk.inj (Except.ok.inj hc)
    exact h
  next iovs hpad =>
  split at hc
  · next hrc =>
    exact roceRecvRc_owns hc h fun hreq hseq => hkeep (not_not.mp hcheck) hrc hreq hseq iovs hpad
  · exact roceRecvUd_owns hc h
  · exact roceRecvUd_owns hc h
  · cases hc

/-- **Posting a receive**, successfully and of an object of its own. -/
theorem rocePostRecv_owns (hc : rocePostRecv s p wr = .ok (ret, s')) (h : St.Owns sends ptrs s)
    (hp : p ≠ 0) (hfresh : s.ctx.recvWrs p = none) (hfit : RefsFit s.ctx wr.sge)
    (hfound : ∀ sge ∈ wr.sge, roceGetMrNoref s.ctx (roceKeyToIndex sge.lkey) ≠ none) :
    St.Owns sends ptrs s' := by
  unfold rocePostRecv at hc
  split at hc
  · cases hc
  next ret1 ctx hget =>
  have hret : ret1 = 0 := (roceGetMrs_eq_zero hget).mpr hfound
  have hrefs := roceGetMrs_refsOnly hget
  have hrecv : ctx.recvWrs = s.ctx.recvWrs := by rw [hrefs]
  have htally := (roceGetMrs_mrTally hget h.owned.tally hfit).1 hret
  rw [if_neg (not_not.mpr hret)] at hc
  obtain ⟨-, rfl⟩ := Prod.mk.inj (Except.ok.inj hc)
  have hnot : p ∉ s.qp.recvPtrs ++ ptrs := fun hmem => (h.owned.live p hmem).2 hfresh
  have hptrs : (p :: (s.qp.recvPtrs ++ ptrs)).Perm
      ((s.qp.resp.word.inProgress ++ (s.qp.rq ++ [p])) ++ ptrs) := by
    unfold RoceQp.recvPtrs
    rw [← List.append_assoc, List.append_assoc _ [p] ptrs, List.singleton_append]
    exact List.perm_middle.symm
  refine ⟨Owned.perm (Owned.addRecv h.owned hp hnot ?_ ?_ htally) (List.Perm.refl _) hptrs, h.head⟩
  · exact if_pos rfl
  · intro q hq
    show (if q = p then some wr else ctx.recvWrs q) = s.ctx.recvWrs q
    rw [if_neg, hrecv]
    rintro rfl
    exact hnot hq

end responder

/-! ### Every call -/

/-- A receive WR that is posted is an object of its own, and the call succeeds. -/
def PostsRecv (s : St) : QpCall → Prop
  | .postRecv p _ sge => p ≠ 0 ∧ s.ctx.recvWrs p = none ∧
      ∀ e ∈ sge, roceGetMrNoref s.ctx (roceKeyToIndex e.lkey) ≠ none
  | _ => True

/-- No WR leaves the QP with its references, and no count wraps around. -/
def CallKeepsRefs (s : St) : QpCall → Prop
  | .modify _ _ => True
  | .postRecv _ _ sge => RefsFit s.ctx sge
  | .postSend wr calloc => SendKeepsRefs s wr calloc
  | .recv d calloc => RecvKeepsRefs s d calloc

theorem qpStep_owns {s t : St} {call : QpCall} {sends : List SendWr} {ptrs : List UInt64}
    (hc : qpStep s call = .ok t) (h : St.Owns sends ptrs s) (hpost : PostsRecv s call)
    (hkeep : CallKeepsRefs s call) : St.Owns sends ptrs t := by
  cases call with
  | modify attr attrMask =>
    obtain ⟨⟨ret, qp⟩, hm, hc⟩ := bind_eq_ok.mp hc
    obtain rfl := Except.ok.inj hc
    have hattrs := roceModifyQp_attrsOnly hm
    refine SameRefs.owns (s := s) ⟨rfl, rfl, ?_, ?_⟩ h
    · show qp.sq = s.qp.sq
      rw [hattrs]
    · show qp.recvPtrs = s.qp.recvPtrs
      rw [hattrs]
      rfl
  | postRecv p wrId sge =>
    obtain ⟨⟨ret, t'⟩, hp, hc⟩ := bind_eq_ok.mp hc
    obtain rfl := Except.ok.inj hc
    exact rocePostRecv_owns hp h hpost.1 hpost.2.1 hkeep hpost.2.2
  | postSend wr calloc => exact rocePostSend_owns hc h hkeep
  | recv d calloc =>
    obtain ⟨⟨ret, t'⟩, hr, hc⟩ := bind_eq_ok.mp hc
    obtain rfl := Except.ok.inj hc
    exact roceRecvBth_owns hr h hkeep

end Libroce
