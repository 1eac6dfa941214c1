import Libroce.Device
import Libroce.RequesterRun
import Libroce.ResponderStep

/-!
# What calls on a QP leave alone

Whatever is posted or received, a QP keeps its number, its type and its links
to PD and CQs, and the PDs keep counting the MRs and AHs on them: a call takes
and gives back references to MRs, and a deferred MR destruction that it
completes gives back one reference to a PD.

    qpStep s call = .ok t  →  Keeps s t                        (qpStep_keeps)
-/

namespace Libroce

open Machine (bind_eq_ok)
open Refs (Tally)

/-! ## The users of PDs -/

/-- One PD handle for each AH and each MR. -/
def pdUses (ctx : RoceCtx) : List Nat :=
  ctx.ahs.reduceOption.map (·.pd) ++ ctx.mrs.reduceOption.map (·.pd)

/-- Whoever else uses them, the PDs go on counting AHs and MRs. -/
structure PdsKept (a b : RoceCtx) : Prop where
  tally : ∀ others, Tally RocePd.ref a.pds (others ++ pdUses a) →
    Tally RocePd.ref b.pds (others ++ pdUses b)
  mrs : b.mrs.length = a.mrs.length
  ahs : b.ahs.length = a.ahs.length

theorem PdsKept.refl (a : RoceCtx) : PdsKept a a := ⟨fun _ h => h, rfl, rfl⟩

theorem PdsKept.trans {a b c : RoceCtx} (h1 : PdsKept a b) (h2 : PdsKept b c) : PdsKept a c :=
  ⟨fun others h => h2.tally others (h1.tally others h), h2.mrs.trans h1.mrs, h2.ahs.trans h1.ahs⟩

theorem pdsKept_of_eq {a b : RoceCtx} (hpds : b.pds = a.pds) (hmrs : b.mrs = a.mrs)
    (hahs : b.ahs = a.ahs) : PdsKept a b := by
  refine ⟨?_, by rw [hmrs], by rw [hahs]⟩
  unfold pdUses
  rw [hpds, hmrs, hahs]
  exact fun _ h => h

theorem pdsKept_setMr {ctx : RoceCtx} {i : Nat} {mr mr' : RoceMr}
    (h : roceGetMrNoref ctx i = some mr) (hpd : mr'.pd = mr.pd) : PdsKept ctx (setMr ctx i mr') := by
  refine ⟨fun others ht => ht.perm ?_, List.length_set, rfl⟩
  have hmr : Refs.get ctx.mrs i = some mr := h
  exact ((Refs.entries_map_update (·.pd) hmr hpd).symm.append_left _).append_left _

theorem pdsKept_setAh {ctx : RoceCtx} {i : Nat} {ah ah' : RoceAh}
    (h : roceResourceGet ctx.ahs i = some ah) (hpd : ah'.pd = ah.pd) :
    PdsKept ctx { ctx with ahs := ctx.ahs.set i (some ah') } := by
  refine ⟨fun others ht => ht.perm ?_, rfl, List.length_set⟩
  have hah : Refs.get ctx.ahs i = some ah := h
  exact ((Refs.entries_map_update (·.pd) hah hpd).symm.append_right _).append_left _

/-- Giving a PD reference back, with whom it was for. -/
theorem assertPutPd_tally {ctx ctx' : RoceCtx} {pd : Nat} {uses : List Nat}
    (h : assertPutPd ctx pd = .ok ctx') (ht : Tally RocePd.ref ctx.pds (pd :: uses)) :
    Tally RocePd.ref ctx'.pds uses ∧ ctx' = { ctx with pds := ctx'.pds } := by
  obtain ⟨x, hget, rfl⟩ := assertPutPd_ok h
  exact ⟨ht.decr hget rfl, rfl⟩

theorem roceDestroyMr_pdsKept {ctx ctx' : RoceCtx} {i : Nat} {ret : Int}
    (h : roceDestroyMr ctx i = .ok (ret, ctx')) : PdsKept ctx ctx' := by
  unfold roceDestroyMr at h
  split at h
  · obtain ⟨-, rfl⟩ := Prod.mk.inj (Except.ok.inj h)
    exact .refl ctx
  · next mr hmr =>
    split at h
    · obtain ⟨-, rfl⟩ := Prod.mk.inj (Except.ok.inj h)
      exact pdsKept_setMr hmr rfl
    · split at h
      · cases h
      · next ctx1 hput =>
        obtain ⟨-, rfl⟩ := Prod.mk.inj (Except.ok.inj h)
        have hmr' : Refs.get ctx.mrs i = some mr := hmr
        have hframe : ctx1 = { ctx with mrs := ctx.mrs.set i none, pds := ctx1.pds } := by
          obtain ⟨x, -, rfl⟩ := assertPutPd_ok hput
          rfl
        have hperm := (Refs.entries_free hmr').map (·.pd)
        refine ⟨fun others ht => ?_, by rw [hframe]; exact List.length_set, by rw [hframe]⟩
        have huses : pdUses ctx1 = ctx.ahs.reduceOption.map (·.pd) ++
            (ctx.mrs.set i none).reduceOption.map (·.pd) := by
          rw [hframe]
          rfl
        rw [huses]
        refine (assertPutPd_tally hput (ht.perm ?_)).1
        refine ((hperm.append_left _).append_left others).trans ?_
        rw [List.map_cons, ← List.append_assoc, ← List.append_assoc]
        exact List.perm_middle

theorem roceGetMr_pdsKept {ctx ctx' : RoceCtx} {i : Nat} (h : roceGetMr ctx i = some ctx') :
    PdsKept ctx ctx' := by
  unfold roceGetMr at h
  split at h
  · cases h
  · next mr hmr =>
    obtain rfl := Option.some.inj h
    exact pdsKept_setMr hmr rfl

theorem rocePutMr_pdsKept {ctx ctx' : RoceCtx} {i : Nat} (h : rocePutMr ctx i = .ok ctx') :
    PdsKept ctx ctx' := by
  unfold rocePutMr at h
  split at h
  · obtain rfl := Except.ok.inj h
    exact .refl _
  · next mr hmr =>
    have hset : PdsKept ctx (setMr ctx i { mr with ref := mr.ref - 1 }) := pdsKept_setMr hmr rfl
    split at h
    · split at h
      · cases h
      · next hd =>
        obtain rfl := Except.ok.inj h
        exact hset.trans (roceDestroyMr_pdsKept hd)
    · obtain rfl := Except.ok.inj h
      exact hset

theorem rocePutMrs_pdsKept {ctx ctx' : RoceCtx} {sges : List RoceSge}
    (h : rocePutMrs ctx sges = .ok ctx') : PdsKept ctx ctx' := by
  induction sges generalizing ctx with
  | nil =>
    obtain rfl := Except.ok.inj h
    exact .refl ctx
  | cons sge sges ih =>
    rw [rocePutMrs] at h
    split at h
    · cases h
    · next hput => exact (rocePutMr_pdsKept hput).trans (ih h)

theorem getMrsLoop_pdsKept (ctx : RoceCtx) (taken sges : List RoceSge) :
    PdsKept ctx (getMrsLoop ctx taken sges).2.2 := by
  induction sges generalizing ctx taken with
  | nil => exact .refl ctx
  | cons sge sges ih =>
    rw [getMrsLoop]
    split
    · exact .refl ctx
    · next hget => exact (roceGetMr_pdsKept hget).trans (ih _ _)

theorem roceGetMrs_pdsKept {ctx ctx' : RoceCtx} {sges : List RoceSge} {ret : Int}
    (h : roceGetMrs ctx sges = .ok (ret, ctx')) : PdsKept ctx ctx' := by
  have hloop := getMrsLoop_pdsKept ctx [] sges
  unfold roceGetMrs at h
  split at h
  · next heq =>
    rw [heq] at hloop
    obtain ⟨-, rfl⟩ := Prod.mk.inj (Except.ok.inj h)
    exact hloop
  · next heq =>
    rw [heq] at hloop
    split at h
    · cases h
    · next hput =>
      obtain ⟨-, rfl⟩ := Prod.mk.inj (Except.ok.inj h)
      exact hloop.trans (rocePutMrs_pdsKept hput)

theorem roceFreeRecvWr_pdsKept {ctx ctx' : RoceCtx} {p : UInt64} {wr : RecvWr}
    (h : roceFreeRecvWr ctx p wr = .ok ctx') : PdsKept ctx ctx' := by
  unfold roceFreeRecvWr at h
  split at h
  · cases h
  · next hput =>
    obtain rfl := Except.ok.inj h
    exact (rocePutMrs_pdsKept hput).trans (pdsKept_of_eq rfl rfl rfl)

theorem roceFreeSendWr_pdsKept {ctx ctx' : RoceCtx} {wr : SendWr}
    (h : roceFreeSendWr ctx wr = .ok ctx') : PdsKept ctx ctx' := by
  unfold roceFreeSendWr at h
  split at h
  · exact rocePutMrs_pdsKept h
  · obtain rfl := Except.ok.inj h
    exact .refl ctx

/-! ## One call -/

/-- What says where a QP belongs. -/
def RoceQp.links (qp : RoceQp) : UInt32 × QpType × Nat × Nat × Nat :=
  (qp.handle, qp.qpType, qp.pd, qp.scq, qp.rcq)

/-- A call that leaves the links of its QP, and the PDs counting. -/
structure Keeps (s t : St) : Prop where
  links : t.qp.links = s.qp.links
  pds : PdsKept s.ctx t.ctx

theorem Keeps.refl (s : St) : Keeps s s := ⟨rfl, .refl s.ctx⟩

theorem Keeps.trans {s t u : St} (h1 : Keeps s t) (h2 : Keeps t u) : Keeps s u :=
  ⟨h2.links.trans h1.links, h1.pds.trans h2.pds⟩

theorem Keeps.emit (s : St) (es : List Event) : Keeps s (s.emit es) :=
  ⟨rfl, pdsKept_of_eq rfl rfl rfl⟩

/-! ### The requester -/

theorem Built.links {ctx : RoceCtx} {qp qp' : RoceQp} {wr wr' : SendWr} (h : Built ctx qp wr qp' wr') :
    qp'.links = qp.links := by
  cases h with
  | failed e he => rfl
  | skipped h => rfl
  | queued pkts h hop hs => rfl

theorem roceCompleteHead_keeps (s : St) : Keeps s (roceCompleteHead s) :=
  ⟨rfl, pdsKept_of_eq rfl rfl rfl⟩

theorem roceRcCompleteSendWr_keeps {s s' : St} {pkt : RoceNetpkt}
    (h : roceRcCompleteSendWr s pkt = .ok s') : Keeps s s' := by
  rcases roceRcCompleteSendWr_ok h with ⟨-, rfl⟩ | ⟨wr, sq, reports, ctx, -, -, -, hfree, rfl⟩
  · exact ⟨rfl, pdsKept_of_eq rfl rfl rfl⟩
  · refine ⟨rfl, ?_⟩
    have h1 : PdsKept s.ctx ((roceCompleteHead s).emit (.leaveSq wr :: reports)).ctx :=
      pdsKept_of_eq rfl rfl rfl
    exact (h1.trans (roceFreeSendWr_pdsKept hfree)).trans (pdsKept_of_eq rfl rfl rfl)

theorem roceHandleAck_keeps {s s' : St} {psn : UInt32} (h : roceHandleAck s psn = .ok s') :
    Keeps s s' := by
  revert h
  apply roceHandleAck_inv (P := fun t => Keeps s t)
  · rintro t pkt pkts t' ht - hc
    have htake : Keeps t (t.takeOutgoing pkt pkts) := ⟨rfl, pdsKept_of_eq rfl rfl rfl⟩
    exact (ht.trans htake).trans (roceRcCompleteSendWr_keeps hc)
  · exact .refl s

theorem roceXmitPkts_keeps {s s' : St} (h : roceXmitPkts s = .ok s') : Keeps s s' := by
  have hx := roceXmitPkts_ok h
  obtain ⟨sent, hctx⟩ := hx.ctx
  refine ⟨by rw [hx.qp]; rfl, ?_⟩
  rw [hctx]
  exact pdsKept_of_eq rfl rfl rfl

theorem roceHandleAcknowledge_keeps {s s' : St} {syndrome : Syndrome} {val : UInt8} {psn msn : UInt32}
    (h : roceHandleAcknowledge s syndrome val psn msn = .ok s') : Keeps s s' := by
  cases syndrome with
  | ack =>
    obtain ⟨t, ht, h⟩ := bind_eq_ok.mp h
    exact (roceHandleAck_keeps ht).trans (roceXmitPkts_keeps h)
  | nak =>
    obtain ⟨t, ht, h⟩ := bind_eq_ok.mp h
    exact ((roceHandleAck_keeps ht).trans (.emit t _)).trans (roceXmitPkts_keeps h)
  | rnrNak =>
    obtain rfl := Except.ok.inj h
    exact .refl _
  | reserved =>
    obtain rfl := Except.ok.inj h
    exact .refl _

theorem postGetMrs_keeps {s s' : St} {wr wr' : SendWr} (h : postGetMrs s wr = .ok (s', wr')) :
    Keeps s s' := by
  unfold postGetMrs at h
  split at h
  · obtain ⟨rfl, -⟩ := Prod.mk.inj (Except.ok.inj h)
    exact .refl _
  · obtain ⟨⟨ret, ctx⟩, hget, h⟩ := bind_eq_ok.mp h
    obtain ⟨rfl, -⟩ := Prod.mk.inj (Except.ok.inj h)
    exact ⟨rfl, roceGetMrs_pdsKept hget⟩

theorem roceRequestRc_keeps {s s' : St} {wr : SendWr} {calloc : Nat → Bool}
    (h : roceRequestRc s wr calloc = .ok s') : Keeps s s' := by
  unfold roceRequestRc requestQueue at h
  obtain ⟨t, hq, h⟩ := bind_eq_ok.mp h
  obtain ⟨u, hx, h⟩ := bind_eq_ok.mp h
  obtain rfl := Except.ok.inj h
  obtain ⟨⟨qp, wr'⟩, hbuild, hq⟩ := bind_eq_ok.mp hq
  obtain rfl := Except.ok.inj hq
  have hlinks : qp.links = s.qp.links := by
    unfold requestBuild at hbuild
    split at hbuild
    · exact (roceRcBuildPkts_ok hbuild).links
    · obtain ⟨rfl, -⟩ := Prod.mk.inj (Except.ok.inj hbuild)
      rfl
  have hqueue : Keeps s { s with qp := { qp with sq := s.qp.sq ++ [wr'] } } := ⟨hlinks, .refl _⟩
  exact (hqueue.trans (roceXmitPkts_keeps hx)).trans (roceCompleteHead_keeps u)

theorem roceGetAh_pdsKept {ctx ctx' : RoceCtx} {i : Nat} {ah : RoceAh}
    (h : roceGetAh ctx i = some (ah, ctx')) : PdsKept ctx ctx' := by
  obtain ⟨hget, rfl⟩ := roceGetAh_ok h
  exact pdsKept_setAh hget rfl

theorem rocePutAh_pdsKept (ctx : RoceCtx) (i : Nat) : PdsKept ctx (rocePutAh ctx i) := by
  unfold rocePutAh
  split
  · exact .refl ctx
  · next a hget => exact pdsKept_setAh hget rfl

theorem roceUdSendPkt_keeps {s s' : St} {wr wr' : SendWr} {calloc imm : Bool} {payload : UInt32}
    (h : roceUdSendPkt s wr calloc imm payload = .ok (s', wr')) : Keeps s s' := by
  unfold roceUdSendPkt at h
  split at h
  · obtain ⟨rfl, -⟩ := Prod.mk.inj (Except.ok.inj h)
    exact .refl _
  · next ah ctx hget =>
    have hah : Keeps s { s with ctx := ctx } := ⟨rfl, roceGetAh_pdsKept hget⟩
    obtain ⟨o, -, h⟩ := bind_eq_ok.mp h
    cases o with
    | none =>
      obtain ⟨rfl, -⟩ := Prod.mk.inj (Except.ok.inj h)
      exact hah.trans ⟨rfl, rocePutAh_pdsKept ctx _⟩
    | some r =>
      obtain ⟨pkt, unmaps⟩ := r
      obtain ⟨rfl, -⟩ := Prod.mk.inj (Except.ok.inj h)
      have hsend : Keeps ⟨ctx, s.qp⟩
          (({ ctx := ctx, qp := { s.qp with req.psn := roceQpPsnInc s.qp.req.psn } } : St).emit
            (.netXmit pkt :: unmaps)) := ⟨rfl, pdsKept_of_eq rfl rfl rfl⟩
      exact (hah.trans hsend).trans ⟨rfl, rocePutAh_pdsKept _ _⟩

theorem udSwitch_keeps {s s' : St} {wr wr' : SendWr} {calloc : Bool} {len : UInt32}
    (h : udSwitch s wr calloc = .ok (s', wr', len)) : Keeps s s' := by
  unfold udSwitch at h
  obtain ⟨mtu, -, h⟩ := bind_eq_ok.mp h
  obtain ⟨payload, -, h⟩ := bind_eq_ok.mp h
  split at h
  · obtain ⟨rfl, -⟩ := Prod.mk.inj (Except.ok.inj h)
    exact .refl _
  · split at h
    · obtain ⟨⟨t, wr1⟩, hsend, h⟩ := bind_eq_ok.mp h
      obtain ⟨rfl, -⟩ := Prod.mk.inj (Except.ok.inj h)
      exact roceUdSendPkt_keeps hsend
    · obtain ⟨⟨t, wr1⟩, hsend, h⟩ := bind_eq_ok.mp h
      obtain ⟨rfl, -⟩ := Prod.mk.inj (Except.ok.inj h)
      exact roceUdSendPkt_keeps hsend
    · obtain ⟨rfl, -⟩ := Prod.mk.inj (Except.ok.inj h)
      exact .refl _

theorem roceRequestUd_keeps {s s' : St} {wr : SendWr} {calloc : Bool}
    (h : roceRequestUd s wr calloc = .ok s') : Keeps s s' := by
  unfold roceRequestUd at h
  obtain ⟨⟨t, wr1, len⟩, hreq, h⟩ := bind_eq_ok.mp h
  obtain ⟨ctx, hfree, h⟩ := bind_eq_ok.mp h
  obtain rfl := Except.ok.inj h
  have hreq' : Keeps s t := by
    unfold udRequest at hreq
    split at hreq
    · exact udSwitch_keeps hreq
    · obtain ⟨rfl, -⟩ := Prod.mk.inj (Except.ok.inj hreq)
      exact .refl _
  refine hreq'.trans ?_
  split at hfree
  · next hsig =>
    rw [if_pos hsig]
    exact (Keeps.emit t _).trans ⟨rfl, roceFreeSendWr_pdsKept hfree⟩
  · next hsig =>
    rw [if_neg hsig]
    exact ⟨rfl, roceFreeSendWr_pdsKept hfree⟩

theorem rocePostSend_keeps {s s' : St} {wr : SendWr} {calloc : Nat → Bool}
    (h : rocePostSend s wr calloc = .ok s') : Keeps s s' := by
  unfold rocePostSend at h
  obtain ⟨⟨t, wr1⟩, hget, h⟩ := bind_eq_ok.mp h
  refine (postGetMrs_keeps hget).trans ?_
  simp only at h
  split at h
  · exact roceRequestRc_keeps h
  · exact roceRequestUd_keeps h
  · exact roceRequestUd_keeps h
  · cases h

theorem rocePostRecv_keeps {s s' : St} {p : UInt64} {wr : RecvWr} {ret : Int}
    (h : rocePostRecv s p wr = .ok (ret, s')) : Keeps s s' := by
  unfold rocePostRecv at h
  split at h
  · cases h
  · next hget =>
    have hmrs := roceGetMrs_pdsKept hget
    split at h
    · split at h
      · cases h
      · next hfree =>
        obtain ⟨-, rfl⟩ := Prod.mk.inj (Except.ok.inj h)
        exact ⟨rfl, hmrs.trans (roceFreeRecvWr_pdsKept hfree)⟩
    · obtain ⟨-, rfl⟩ := Prod.mk.inj (Except.ok.inj h)
      exact ⟨rfl, hmrs.trans (pdsKept_of_eq rfl rfl rfl)⟩

/-! ### The responder -/

theorem Keeps.place (s : St) (dsts : List Iovec) (bytes : List UInt8) (dmamap : Bool) :
    Keeps s (s.place dsts bytes dmamap) := ⟨rfl, pdsKept_of_eq rfl rfl rfl⟩

theorem Keeps.setRecvWr (s : St) (p : UInt64) (wr : RecvWr) : Keeps s (s.setRecvWr p wr) :=
  ⟨rfl, pdsKept_of_eq rfl rfl rfl⟩

theorem Finish.keeps {s s' : St} {p : UInt64} {wr : RecvWr} {byteLen : UInt32}
    {immdt : Option UInt32} {opcode : UInt8} (h : Finish s p wr byteLen immdt opcode s') :
    Keeps s s' := by
  cases h with
  | goesOn _ => exact .refl s
  | done _ hfree => exact (Keeps.emit s _).trans ⟨rfl, roceFreeRecvWr_pdsKept hfree⟩

theorem PayloadStep.keeps {s s' : St} {iovs : List (List UInt8)} {immdt : Option UInt32}
    {opcode : UInt8} {p : UInt64} {wr : RecvWr} {ret : Int}
    (h : PayloadStep s iovs immdt opcode p wr ret s') : Keeps s s' := by
  cases h with
  | short _ _ => exact .refl s
  | refused _ _ _ _ _ => exact .setRecvWr s p _
  | placed _ _ _ _ hfin => exact ((Keeps.place s _ _ _).trans (.setRecvWr _ p _)).trans hfin.keeps

theorem SendStep.keeps {s s' : St} {iovs : List (List UInt8)} {immdt : Option UInt32}
    {inprocess : Bool} {opcode : UInt8} {ret : Int}
    (h : SendStep s iovs immdt inprocess opcode ret s') : Keeps s s' := by
  cases h with
  | outOfOrder _ => exact .refl s
  | noWr _ _ _ => exact ⟨rfl, .refl _⟩
  | @first p rq wr _ _ _ _ _ _ hs =>
    have hpop : Keeps s ((({ s with qp.rq := rq } : St).emit [.popRecv p]).setWord (.wr p)) :=
      ⟨rfl, pdsKept_of_eq rfl rfl rfl⟩
    exact hpop.trans hs.keeps
  | next _ _ _ hs => exact hs.keeps

theorem PlaceStep.keeps {s s' : St} {iovs : List (List UInt8)} {immdt : Option UInt32}
    {opcode : UInt8} {ret : Int} (h : PlaceStep s iovs immdt opcode ret s') : Keeps s s' := by
  cases h with
  | refused _ _ => exact .refl s
  | plain _ _ => exact ⟨rfl, pdsKept_of_eq rfl rfl rfl⟩
  | noWr _ _ _ => exact ⟨rfl, pdsKept_of_eq rfl rfl rfl⟩
  | done _ _ _ _ _ hfree =>
    refine ⟨rfl, PdsKept.trans (pdsKept_of_eq ?_ ?_ ?_) (roceFreeRecvWr_pdsKept hfree)⟩
    · rfl
    · rfl
    · rfl

theorem WriteStep.keeps {s s' : St} {iovs : List (List UInt8)} {reth : Option IbReth}
    {immdt : Option UInt32} {inprocess : Bool} {opcode : UInt8} {ret : Int}
    (h : WriteStep s iovs reth immdt inprocess opcode ret s') : Keeps s s' := by
  cases h with
  | outOfOrder _ => exact ⟨rfl, pdsKept_of_eq rfl rfl rfl⟩
  | @first r _ _ _ _ _ hs =>
    have hstart : Keeps s (writeStart s r) := ⟨rfl, .refl _⟩
    exact hstart.trans hs.keeps
  | next _ _ hs => exact hs.keeps

theorem RequestStep.keeps {s s' : St} {pkt : Inbound} {ret : Int} (h : RequestStep s pkt ret s') :
    Keeps s s' := by
  cases h with
  | malformed _ => exact .refl s
  | send _ hs => exact hs.keeps
  | write _ hs => exact hs.keeps

theorem roceNetpktAcknowledge_keeps {s s' : St} {syndrome : Syndrome} {val : UInt8} {psn : UInt32}
    {calloc : Bool} (h : roceNetpktAcknowledge s syndrome val psn calloc = .ok s') : Keeps s s' := by
  obtain ⟨pkt, rfl, -⟩ := roceNetpktAcknowledge_ok h
  exact ⟨rfl, pdsKept_of_eq rfl rfl rfl⟩

theorem roceRecvRc_keeps {s s' : St} {pkt : Inbound} {ret : Int}
    (h : roceRecvRc s pkt = .ok (ret, s')) : Keeps s s' := by
  unfold roceRecvRc at h
  split at h
  · unfold recvAcknowledge at h
    split at h
    · obtain ⟨-, rfl⟩ := Prod.mk.inj (Except.ok.inj h)
      exact .refl _
    · obtain ⟨t, hack, h⟩ := bind_eq_ok.mp h
      obtain ⟨-, rfl⟩ := Prod.mk.inj (Except.ok.inj h)
      exact roceHandleAcknowledge_keeps hack
  · simp only at h
    split at h
    · obtain ⟨-, rfl⟩ := Prod.mk.inj (Except.ok.inj h)
      exact .refl _
    · split at h
      · obtain ⟨t, hseq, h⟩ := bind_eq_ok.mp h
        obtain ⟨-, rfl⟩ := Prod.mk.inj (Except.ok.inj h)
        unfold roceOutOfSeq at hseq
        split at hseq
        · obtain rfl := Except.ok.inj hseq
          exact .refl _
        · split at hseq
          · cases hseq
          · next u hack =>
            obtain rfl := Except.ok.inj hseq
            exact (roceNetpktAcknowledge_keeps hack).trans ⟨rfl, .refl _⟩
      · have hnak : Keeps s { s with qp.resp.inPsnNak := false } := ⟨rfl, .refl _⟩
        rcases recvInSequence_ok h with ⟨-, hstep⟩ | ⟨-, s1, s2, hstep, hack, rfl⟩
        · exact hnak.trans hstep.keeps
        · refine (hnak.trans hstep.keeps).trans ?_
          rcases hack with ⟨-, rfl⟩ | ⟨-, hack⟩
          · exact ⟨rfl, .refl _⟩
          · exact (roceNetpktAcknowledge_keeps hack).trans ⟨rfl, .refl _⟩

theorem roceRecvUd_keeps {s s' : St} {pkt : Inbound} {ip : NetHdr} {ret : Int}
    (h : roceRecvUd s pkt ip = .ok (ret, s')) : Keeps s s' := by
  have hfinish : ∀ (x : Except Fault (Int × St)) (deth : IbDeth) (r : Int × St),
      (∀ y, x = .ok y → Keeps s y.2) →
      (do let y ← x
          return (if y.1 ≠ 0 then (y.1, { y.2 with qp.attr.destQpNum := deth.u32_1 &&& ibDethSrcqpMask })
            else (0, { ({ y.2 with qp.attr.destQpNum := deth.u32_1 &&& ibDethSrcqpMask } : St) with
              qp.attr.rqPsn := roceQpPsnInc y.2.qp.attr.rqPsn }))) = Except.ok r → Keeps s r.2 := by
    intro x deth r hx hr
    obtain ⟨y, hy, hr⟩ := bind_eq_ok.mp hr
    obtain rfl := Except.ok.inj hr
    refine (hx y hy).trans ?_
    split
    · exact ⟨rfl, .refl _⟩
    · exact ⟨rfl, .refl _⟩
  unfold roceRecvUd at h
  simp only at h
  split at h
  · obtain ⟨-, rfl⟩ := Prod.mk.inj (Except.ok.inj h)
    exact .refl _
  · next deth iovs _ =>
    split at h
    · split at h
      · refine hfinish (.ok (ePROTO, s)) deth (ret, s') ?_ h
        intro y hy
        obtain rfl := Except.ok.inj hy
        exact .refl _
      · exact hfinish _ deth (ret, s') (fun y hy => (roceRecvPayload_ok hy).keeps) h
    · split at h
      · exact hfinish _ deth (ret, s') (fun y hy => (roceRecvPayload_ok hy).keeps) h
      · obtain ⟨-, rfl⟩ := Prod.mk.inj (Except.ok.inj h)
        exact .refl _

theorem roceRecvBth_keeps {s s' : St} {d : Decap} {calloc : Bool} {ret : Int}
    (h : roceRecvBth s d calloc = .ok (ret, s')) : Keeps s s' := by
  unfold roceRecvBth at h
  simp only at h
  split at h
  · obtain ⟨-, rfl⟩ := Prod.mk.inj (Except.ok.inj h)
    exact .refl _
  split at h
  · obtain ⟨-, rfl⟩ := Prod.mk.inj (Except.ok.inj h)
    exact .refl _
  split at h
  · obtain ⟨-, rfl⟩ := Prod.mk.inj (Except.ok.inj h)
    exact .refl _
  split at h
  · obtain ⟨-, rfl⟩ := Prod.mk.inj (Except.ok.inj h)
    exact .refl _
  split at h
  · obtain ⟨-, rfl⟩ := Prod.mk.inj (Except.ok.inj h)
    exact .refl _
  split at h
  · exact roceRecvRc_keeps h
  · exact roceRecvUd_keeps h
  · exact roceRecvUd_keeps h
  · cases h

/-! ### Attributes -/

/-- Only the attributes changed, and the next PSN with the SQ PSN. -/
def AttrsOnly (qp qp' : RoceQp) : Prop := qp' = { qp with attr := qp'.attr, req.psn := qp'.req.psn }

def Clause.AttrsOnly (clause : Clause) : Prop :=
  ∀ qp ret qp', clause qp = .ok (ret, qp') → Libroce.AttrsOnly qp qp'

theorem store_attrsOnly (f : RoceQpAttr → RoceQpAttr) : Clause.AttrsOnly (store f) := by
  intro qp ret qp' h
  obtain ⟨-, rfl⟩ := Prod.mk.inj (Except.ok.inj h)
  rfl

theorem refuse_attrsOnly (c : Prop) [Decidable c] (ret : Int) {clause : Clause}
    (hc : clause.AttrsOnly) : Clause.AttrsOnly fun qp => if c then .ok (ret, qp) else clause qp := by
  intro qp ret' qp' h
  simp only at h
  split at h
  · obtain ⟨-, rfl⟩ := Prod.mk.inj (Except.ok.inj h)
    rfl
  · exact hc qp ret' qp' h

theorem modifyAh_attrsOnly (ctx : RoceCtx) (ahAttr : RoceAhAttr) :
    Clause.AttrsOnly (roceModifyQpAh ctx ahAttr) := by
  intro qp ret qp' h
  unfold roceModifyQpAh at h
  split at h
  · obtain ⟨-, rfl⟩ := Prod.mk.inj (Except.ok.inj h)
    rfl
  · split at h
    · cases h
    · split at h
      · cases h
      · exact refuse_attrsOnly _ _ (store_attrsOnly _) qp ret qp' h

theorem modifyPathMtu_attrsOnly (ctx : RoceCtx) (attr : RoceQpAttr) :
    Clause.AttrsOnly (modifyPathMtu ctx attr) := by
  intro qp ret qp' h
  unfold modifyPathMtu at h
  split at h
  · split at h
    · cases h
    · exact refuse_attrsOnly _ _ (store_attrsOnly _) qp ret qp' h
  · obtain ⟨-, rfl⟩ := Prod.mk.inj (Except.ok.inj h)
    rfl

theorem modifySqPsn_attrsOnly (attr : RoceQpAttr) : Clause.AttrsOnly (modifySqPsn attr) := by
  intro qp ret qp' h
  unfold modifySqPsn at h
  split at h
  · obtain ⟨-, rfl⟩ := Prod.mk.inj (Except.ok.inj h)
    rfl
  · obtain ⟨-, rfl⟩ := Prod.mk.inj (Except.ok.inj h)
    rfl

theorem modifyClauses_attrsOnly {attrMask : UInt32} {clauses : List (UInt32 × Clause)}
    (hk : ∀ c ∈ clauses, c.2.AttrsOnly) {qp qp' : RoceQp} {ret : Int}
    (h : modifyClauses attrMask clauses qp = .ok (ret, qp')) : AttrsOnly qp qp' := by
  induction clauses generalizing qp with
  | nil =>
    obtain ⟨-, rfl⟩ := Prod.mk.inj (Except.ok.inj h)
    rfl
  | cons c clauses ih =>
    obtain ⟨bit, clause⟩ := c
    have hk' : ∀ c ∈ clauses, c.2.AttrsOnly := fun c hc => hk c (List.mem_cons_of_mem _ hc)
    rw [modifyClauses] at h
    split at h
    · exact ih hk' h
    · split at h
      · cases h
      · next ret1 qp1 h1 =>
        have e1 : AttrsOnly qp qp1 := hk _ List.mem_cons_self qp ret1 qp1 h1
        split at h
        · obtain ⟨-, rfl⟩ := Prod.mk.inj (Except.ok.inj h)
          exact e1
        · have e2 := ih hk' h
          unfold AttrsOnly at e1 e2 ⊢
          rw [e2, e1]

theorem roceModifyQp_attrsOnly {ctx : RoceCtx} {qp qp' : RoceQp} {attr : RoceQpAttr}
    {attrMask : UInt32} {ret : Int} (h : roceModifyQp ctx qp attr attrMask = .ok (ret, qp')) :
    AttrsOnly qp qp' := by
  unfold roceModifyQp at h
  split at h
  · obtain ⟨-, rfl⟩ := Prod.mk.inj (Except.ok.inj h)
    rfl
  · refine modifyClauses_attrsOnly ?_ h
    unfold modifyBefore modifyAfter
    simp only [List.forall_mem_append, List.forall_mem_cons, List.not_mem_nil, false_implies,
      implies_true, and_true]
    refine ⟨⟨store_attrsOnly _, store_attrsOnly _, ?_, ?_, modifyAh_attrsOnly ctx _, store_attrsOnly _,
      modifyPathMtu_attrsOnly ctx attr⟩, modifySqPsn_attrsOnly attr, store_attrsOnly _,
      store_attrsOnly _, store_attrsOnly _, ?_, store_attrsOnly _⟩
    · exact refuse_attrsOnly _ _ (store_attrsOnly _)
    · exact refuse_attrsOnly _ _ (store_attrsOnly _)
    · exact refuse_attrsOnly _ _ (store_attrsOnly _)

theorem AttrsOnly.links {qp qp' : RoceQp} (h : AttrsOnly qp qp') : qp'.links = qp.links := by
  rw [h]
  rfl

/-- Every call on a QP. -/
theorem qpStep_keeps {s t : St} {call : QpCall} (h : qpStep s call = .ok t) : Keeps s t := by
  cases call with
  | modify attr attrMask =>
    obtain ⟨⟨ret, qp⟩, hm, h⟩ := bind_eq_ok.mp h
    obtain rfl := Except.ok.inj h
    exact ⟨(roceModifyQp_attrsOnly hm).links, .refl _⟩
  | postRecv p wrId sge =>
    obtain ⟨⟨ret, t'⟩, hp, h⟩ := bind_eq_ok.mp h
    obtain rfl := Except.ok.inj h
    exact rocePostRecv_keeps hp
  | postSend wr calloc => exact rocePostSend_keeps h
  | recv d calloc =>
    obtain ⟨⟨ret, t'⟩, hr, h⟩ := bind_eq_ok.mp h
    obtain rfl := Except.ok.inj h
    exact roceRecvBth_keeps hr

end Libroce
