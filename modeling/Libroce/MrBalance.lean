import Libroce.DeviceLifetime
import Libroce.MrOwners

/-!
# MRs are in use as long as WRs name them

`Device.Balanced` says that each MR counts the SGEs that name it, in the send
WRs that took references and in the receive WRs that a live QP still owns.  It
survives every step that lets no WR go with its references (`Device.KeepsRefs`):

    devStep_balanced  →  devRun_mrs : every such run keeps the MRs balanced.

Once no QP is left no MR is in use, `roce_destroy_mr` frees each of them, and
then `roce_dealloc_pd` their PD.
-/

namespace Libroce

open Machine (bind_eq_ok)
open Refs (Tally)

/-! ## The WRs of a device -/

/-- The send WRs that live QPs own. -/
def Device.sendWrs (d : Device) : List SendWr := d.liveQps.flatMap (·.qp.sq)

/-- The receive WRs that live QPs own. -/
def Device.recvPtrs (d : Device) : List UInt64 := d.liveQps.flatMap (·.qp.recvPtrs)

/-- One MR handle for each SGE of them that holds a reference. -/
def Device.mrUsers (d : Device) : List Nat :=
  d.sendWrs.flatMap SendWr.mrUses ++ recvUses d.ctx d.recvPtrs

/-- The MRs count the WRs, and the PDs their users. -/
structure Device.Balanced (d : Device) : Prop where
  owned : Owned d.ctx d.sendWrs d.recvPtrs
  head : ∀ o ∈ d.liveQps, ∀ wr ∈ o.qp.sq, completesAtHead wr = true → wr.mrUses = []
  pds : PdTally (d.liveQps.map (·.qp.pd)) d.ctx
  placed : d.Placed
  qps : d.qps.length ≤ 2 ^ 24

theorem Device.Balanced.fewQps {d : Device} (h : d.Balanced) :
    (d.liveQps.map (·.qp.pd)).length ≤ 2 ^ 25 := by
  have hlive := d.length_liveQps_le
  have hqps := h.qps
  rw [List.length_map]
  omega

section step

variable {d d' : Device}

/-- A call that stays within the context. -/
theorem Device.Balanced.withCtx (h : d.Balanced) {r : Int × RoceCtx}
    (howned : Owned r.2 d.sendWrs d.recvPtrs) (hpds : PdTally (d.liveQps.map (·.qp.pd)) r.2) :
    (d.withCtx r).Balanced :=
  ⟨howned, h.head, hpds, h.placed.congr rfl rfl rfl, h.qps⟩

/-- Only CQs changed. -/
theorem Device.Balanced.setCqs (h : d.Balanced) (cqs : List (Option RoceCq)) :
    Device.Balanced { d with cqs := cqs } :=
  ⟨h.owned, h.head, h.pds, h.placed.congr rfl rfl rfl, h.qps⟩

theorem roceCreateCq_balanced (h : d.Balanced) (cqe : UInt32) (calloc : Bool) :
    (roceCreateCq d cqe calloc).2.Balanced := by
  unfold roceCreateCq
  split
  · exact h
  · split
    · split
      · exact h
      · exact h.setCqs _
    · exact h

theorem roceDestroyCq_balanced (h : d.Balanced) (cqHandle : Nat) :
    (roceDestroyCq d cqHandle).2.Balanced := by
  unfold roceDestroyCq
  split
  · exact h
  · split
    · exact h
    · exact h.setCqs _

/-! ### Contexts -/

/-- MRs and receive WRs stay. -/
structure MrsUntouched (ctx ctx' : RoceCtx) : Prop where
  mrs : ctx'.mrs = ctx.mrs
  recvWrs : ctx'.recvWrs = ctx.recvWrs

theorem MrsUntouched.trans {a b c : RoceCtx} (h1 : MrsUntouched a b) (h2 : MrsUntouched b c) :
    MrsUntouched a c :=
  ⟨h2.mrs.trans h1.mrs, h2.recvWrs.trans h1.recvWrs⟩

theorem MrsUntouched.owned {ctx ctx' : RoceCtx} {sends : List SendWr} {ptrs : List UInt64}
    (hsame : MrsUntouched ctx ctx') (h : Owned ctx sends ptrs) : Owned ctx' sends ptrs :=
  h.congr hsame.mrs hsame.recvWrs rfl

theorem roceGetPd_mrsUntouched {ctx ctx' : RoceCtx} {pd : Nat} (h : roceGetPd ctx pd = some ctx') :
    MrsUntouched ctx ctx' := by
  unfold roceGetPd at h
  split at h
  · cases h
  · obtain rfl := Option.some.inj h
    exact ⟨rfl, rfl⟩

theorem assertPutPd_mrsUntouched {ctx ctx' : RoceCtx} {pd : Nat} (h : assertPutPd ctx pd = .ok ctx') :
    MrsUntouched ctx ctx' := by
  obtain ⟨x, -, rfl⟩ := assertPutPd_ok h
  exact ⟨rfl, rfl⟩

theorem roceAllocPd_mrsUntouched (ctx : RoceCtx) (calloc : Bool) :
    MrsUntouched ctx (roceAllocPd ctx calloc).2 := by
  unfold roceAllocPd
  split
  · split
    · exact ⟨rfl, rfl⟩
    · exact ⟨rfl, rfl⟩
  · exact ⟨rfl, rfl⟩

theorem roceDeallocPd_mrsUntouched (ctx : RoceCtx) (pd : Nat) :
    MrsUntouched ctx (roceDeallocPd ctx pd).2 := by
  unfold roceDeallocPd
  split
  · exact ⟨rfl, rfl⟩
  · split
    · exact ⟨rfl, rfl⟩
    · exact ⟨rfl, rfl⟩

theorem roceCreateAh_mrsUntouched {ctx ctx' : RoceCtx} {pd : Nat} {attr : RoceAhAttr} {calloc : Bool}
    {ret : Int} (h : roceCreateAh ctx pd attr calloc = .ok (ret, ctx')) : MrsUntouched ctx ctx' := by
  unfold roceCreateAh at h
  split at h
  · obtain ⟨-, rfl⟩ := Prod.mk.inj (Except.ok.inj h)
    exact ⟨rfl, rfl⟩
  next ctx1 hget =>
  have hget := roceGetPd_mrsUntouched hget
  split at h
  · split at h
    · obtain ⟨ctx2, hput, h⟩ := bind_eq_ok.mp h
      obtain ⟨-, rfl⟩ := Prod.mk.inj (Except.ok.inj h)
      exact hget.trans (assertPutPd_mrsUntouched hput)
    · obtain ⟨-, rfl⟩ := Prod.mk.inj (Except.ok.inj h)
      exact ⟨hget.mrs, hget.recvWrs⟩
  · obtain ⟨ctx2, hput, h⟩ := bind_eq_ok.mp h
    obtain ⟨-, rfl⟩ := Prod.mk.inj (Except.ok.inj h)
    exact hget.trans (assertPutPd_mrsUntouched hput)

theorem roceDestroyAh_mrsUntouched {ctx ctx' : RoceCtx} {i : Nat} {ret : Int}
    (h : roceDestroyAh ctx i = .ok (ret, ctx')) : MrsUntouched ctx ctx' := by
  unfold roceDestroyAh at h
  split at h
  · obtain ⟨-, rfl⟩ := Prod.mk.inj (Except.ok.inj h)
    exact ⟨rfl, rfl⟩
  · split at h
    · obtain ⟨-, rfl⟩ := Prod.mk.inj (Except.ok.inj h)
      exact ⟨rfl, rfl⟩
    · obtain ⟨ctx1, hput, h⟩ := bind_eq_ok.mp h
      obtain ⟨-, rfl⟩ := Prod.mk.inj (Except.ok.inj h)
      have hsame := assertPutPd_mrsUntouched hput
      exact ⟨hsame.mrs, hsame.recvWrs⟩

/-- A new MR is in nobody's use. -/
theorem roceCreateMr_owned {ctx ctx' : RoceCtx} {a : MrArgs} {calloc : Bool}
    {random0 random1 : UInt32} {ret : Int} {sends : List SendWr} {ptrs : List UInt64}
    (hc : roceCreateMr ctx a calloc random0 random1 = .ok (ret, ctx')) (h : Owned ctx sends ptrs) :
    Owned ctx' sends ptrs := by
  cases roceCreateMr_makes hc with
  | refused _ hsame =>
    rw [hsame]
    exact h
  | released ctx1 _ hget hput =>
    exact (assertPutPd_mrsUntouched hput).owned ((roceGetPd_mrsUntouched hget).owned h)
  | created ctx1 i state iovs _ hget _ hempty _ hnew =>
    have h1 : Owned ctx1 sends ptrs := (roceGetPd_mrsUntouched hget).owned h
    rw [hnew]
    exact ⟨h1.tally.alloc hempty rfl, h1.nodup, h1.live⟩

/-! ### QPs -/

/-- The WRs of one live QP, and those of the `rest`. -/
theorem Device.Balanced.owns {o : QpObj} {rest : List QpObj} (h : d.Balanced)
    (hold : d.liveQps.Perm (o :: rest)) :
    St.Owns (rest.flatMap (·.qp.sq)) (rest.flatMap (·.qp.recvPtrs)) ⟨d.ctx, o.qp⟩ := by
  refine ⟨h.owned.perm ?_ ?_, h.head o (hold.mem_iff.mpr List.mem_cons_self)⟩
  · exact hold.flatMap_right fun o => o.qp.sq
  · exact hold.flatMap_right fun o => o.qp.recvPtrs

theorem Device.Balanced.createQp {a : QpArgs} {calloc : Bool} {random0 random1 : UInt32} {ret : Int}
    (h : d.Balanced) (hc : d.createQp a calloc random0 random1 = .ok (ret, d')) : d'.Balanced := by
  rcases Device.createQp_makes hc with ⟨-, rfl | ⟨ctx, ctx', hpd, hput, rfl⟩⟩ |
    ⟨rcq, ctx, cqs, ⟨hpd, -⟩, hm, -⟩
  · exact h
  · obtain ⟨hpds, hctx⟩ := roceGetPd_tally hpd h.pds.tally (h.pds.few h.fewQps)
    have hsame := (roceGetPd_mrsUntouched hpd).trans (assertPutPd_mrsUntouched hput)
    exact ⟨hsame.owned h.owned, h.head, h.pds.unwind hpds hctx hput, h.placed.congr rfl rfl rfl, h.qps⟩
  obtain ⟨hpds, hctx⟩ := roceGetPd_tally hpd h.pds.tally (h.pds.few h.fewQps)
  have hget := roceGetPd_mrsUntouched hpd
  rcases hm.live (h.placed.congr rfl rfl rfl) h.qps with
    hput | ⟨o, ⟨port, r0, r1, qpn, rfl⟩, hlive, hplaced, hqps, hctx', -⟩
  · obtain ⟨-, ctx', cqs', hback, rfl⟩ := Device.putResource_same hput
    have hsame := hget.trans (assertPutPd_mrsUntouched hback)
    exact ⟨hsame.owned h.owned, h.head, h.pds.unwind hpds hctx hback, h.placed.congr rfl rfl rfl, h.qps⟩
  · have hctx' : d'.ctx = ctx := hctx'
    refine ⟨?_, ?_, h.pds.joins hpds hctx rfl hlive hctx', hplaced, by rw [hqps]; exact h.qps⟩
    · have hnew : Owned d'.ctx d.sendWrs d.recvPtrs := by
        rw [hctx']
        exact hget.owned h.owned
      refine hnew.perm ?_ ?_
      · exact (hlive.flatMap_right fun o => o.qp.sq).symm
      · exact (hlive.flatMap_right fun o => o.qp.recvPtrs).symm
    · intro o ho
      rcases List.mem_cons.mp (hlive.mem_iff.mp ho) with rfl | ho
      · intro wr hwr
        cases hwr
      · exact h.head o ho

/-- The WRs of a QP that is destroyed give their references back, except the one
in progress. -/
theorem Device.Balanced.destroyQp {i : Nat} {ret : Int} (h : d.Balanced)
    (hnone : ∀ o, d.getQp i = some o → recvUses d.ctx o.qp.resp.word.inProgress = [])
    (hc : d.destroyQp i = .ok (ret, d')) : d'.Balanced := by
  obtain ⟨o, hd⟩ := h.placed.destroyQp hc
  have hpds := hd.pds h.pds
  have howns := (h.owns hd.live).owned
  obtain ⟨hget, -, ⟨ctx1, ctx2, cqs1, hpd, -, -, hsend, hrecv⟩, hlive, hplaced, hqps⟩ := hd
  refine ⟨?_, ?_, hpds, hplaced, by rw [hqps]; exact h.qps⟩
  · have hqueued : Owned d.ctx (o.qp.sq ++ d'.sendWrs) (o.qp.rq ++ d'.recvPtrs) := by
      unfold RoceQp.recvPtrs at howns
      rw [List.append_assoc] at howns
      exact howns.drop (hnone o hget)
    exact freeRecvWrs_owned hrecv (freeSendWrs_owned hsend ((assertPutPd_mrsUntouched hpd).owned hqueued))
  · intro q hq
    exact h.head q (hlive.mem_iff.mpr (List.mem_cons_of_mem o hq))

theorem Device.Balanced.onQp {i : Nat} {call : QpCall} (h : d.Balanced)
    (hpost : ∀ o, d.getQp i = some o → PostsRecv ⟨d.ctx, o.qp⟩ call)
    (hkeep : ∀ o, d.getQp i = some o → CallKeepsRefs ⟨d.ctx, o.qp⟩ call)
    (hc : d.onQp i call = .ok d') : d'.Balanced := by
  obtain ⟨o, s, rest, hr⟩ := h.placed.onQp hc
  have hpds := hr.pds h.pds
  obtain ⟨hget, hs, hold, hnew, hctx, -, hplaced, hqps⟩ := hr
  have howns := qpStep_owns hs (h.owns hold) (hpost o hget) (hkeep o hget)
  refine ⟨?_, ?_, hpds, hplaced, by rw [hqps]; exact h.qps⟩
  · rw [hctx]
    refine howns.owned.perm ?_ ?_
    · exact (hnew.flatMap_right fun o => o.qp.sq).symm
    · exact (hnew.flatMap_right fun o => o.qp.recvPtrs).symm
  · intro q hq
    rcases List.mem_cons.mp (hnew.mem_iff.mp hq) with rfl | hq
    · exact howns.head
    · exact h.head q (hold.mem_iff.mpr (List.mem_cons_of_mem o hq))

end step

/-! ## Runs -/

/-- The receive WR of a `roce_post_recv` is an object of its own, and the call
succeeds. -/
def Device.PostsRecv (d : Device) : DevOp → Prop
  | .onQp i call => ∀ o, d.getQp i = some o → Libroce.PostsRecv ⟨d.ctx, o.qp⟩ call
  | _ => True

/-- No WR leaves its QP with references to MRs: none is in progress with some
when the QP is destroyed, and each call keeps them. -/
def Device.KeepsRefs (d : Device) : DevOp → Prop
  | .destroyQp i => ∀ o, d.getQp i = some o → recvUses d.ctx o.qp.resp.word.inProgress = []
  | .onQp i call => ∀ o, d.getQp i = some o → CallKeepsRefs ⟨d.ctx, o.qp⟩ call
  | .netRecv iovs calloc => ∀ o pkt, roceNetDecap d.ctx iovs = .ok (some pkt) →
      d.getQp (ibBthGetDestqp pkt.bth).toNat = some o → RecvKeepsRefs ⟨d.ctx, o.qp⟩ pkt calloc
  | _ => True

/-- One step of the device. -/
theorem devStep_balanced (d : Device) (op : DevOp) (d' : Device) (h : d.Balanced)
    (hok : d.PostsRecv op ∧ d.KeepsRefs op) (hs : devStep d op = .ok d') : d'.Balanced := by
  obtain ⟨hpost, hkeep⟩ := hok
  cases op with
  | allocPd calloc =>
    obtain rfl := Except.ok.inj hs
    exact h.withCtx ((roceAllocPd_mrsUntouched d.ctx calloc).owned h.owned) (roceAllocPd_tally h.pds calloc)
  | deallocPd pdHandle =>
    obtain rfl := Except.ok.inj hs
    exact h.withCtx ((roceDeallocPd_mrsUntouched d.ctx pdHandle).owned h.owned)
      (roceDeallocPd_tally h.pds pdHandle)
  | createCq cqe calloc =>
    obtain rfl := Except.ok.inj hs
    exact roceCreateCq_balanced h cqe calloc
  | destroyCq cqHandle =>
    obtain rfl := Except.ok.inj hs
    exact roceDestroyCq_balanced h cqHandle
  | createAh pdHandle attr calloc =>
    obtain ⟨⟨ret, ctx⟩, hr, hs⟩ := bind_eq_ok.mp hs
    obtain rfl := Except.ok.inj hs
    exact h.withCtx ((roceCreateAh_mrsUntouched hr).owned h.owned) (roceCreateAh_tally h.pds h.fewQps hr)
  | destroyAh ahHandle =>
    obtain ⟨⟨ret, ctx⟩, hr, hs⟩ := bind_eq_ok.mp hs
    obtain rfl := Except.ok.inj hs
    exact h.withCtx ((roceDestroyAh_mrsUntouched hr).owned h.owned) (roceDestroyAh_tally h.pds hr)
  | createMr a calloc random0 random1 =>
    obtain ⟨⟨ret, ctx⟩, hr, hs⟩ := bind_eq_ok.mp hs
    obtain rfl := Except.ok.inj hs
    exact h.withCtx (roceCreateMr_owned hr h.owned) (roceCreateMr_tally h.pds h.fewQps hr)
  | destroyMr mrHandle =>
    obtain ⟨⟨ret, ctx⟩, hr, hs⟩ := bind_eq_ok.mp hs
    obtain rfl := Except.ok.inj hs
    refine h.withCtx ?_ ((roceDestroyMr_pdsKept hr).pdTally h.pds)
    exact h.owned.refs (roceDestroyMr_refsOnly hr) (roceDestroyMr_mrTally hr h.owned.tally)
  | createQp a calloc random0 random1 =>
    obtain ⟨⟨ret, d1⟩, hr, hs⟩ := bind_eq_ok.mp hs
    obtain rfl := Except.ok.inj hs
    exact h.createQp hr
  | destroyQp qpHandle =>
    obtain ⟨⟨ret, d1⟩, hr, hs⟩ := bind_eq_ok.mp hs
    obtain rfl := Except.ok.inj hs
    exact h.destroyQp hkeep hr
  | onQp qpHandle call => exact h.onQp hpost hkeep hs
  | netRecv iovs calloc =>
    have hs : d.netRecv iovs calloc = .ok d' := hs
    unfold Device.netRecv at hs
    obtain ⟨pkt, hdecap, hs⟩ := bind_eq_ok.mp hs
    cases pkt with
    | none =>
      obtain rfl := Except.ok.inj hs
      exact h
    | some pkt =>
      dsimp only at hs
      split at hs
      · obtain rfl := Except.ok.inj hs
        exact h
      · have hturn : ∀ o, d.getQp (ibBthGetDestqp pkt.bth).toNat = some o →
            CallKeepsRefs ⟨d.ctx, o.qp⟩ (.recv pkt calloc) := fun o ho => hkeep o pkt hdecap ho
        refine h.onQp ?_ hturn hs
        exact fun _ _ => trivial

/-- Before any MR or QP. -/
theorem roceInitDevice_balanced {ctx : RoceCtx} {para : RoceDevicePara} {calloc callocQp : Nat → Bool}
    {d : Device} (h : roceInitDevice ctx para calloc callocQp = .ok d) :
    d.Balanced := by
  have hfresh := roceInitDevice_fresh h
  have hlinked := hfresh.linked
  have hsends : d.sendWrs = [] := by
    unfold Device.sendWrs
    rw [hfresh.live]
    rfl
  have hptrs : d.recvPtrs = [] := by
    unfold Device.recvPtrs
    rw [hfresh.live]
    rfl
  refine ⟨⟨?_, ?_, ?_⟩, ?_, hlinked.pds, hlinked.placed, hlinked.qps⟩
  · rw [hsends, hptrs]
    obtain ⟨n, hn⟩ := hfresh.mrs
    rw [hn]
    exact Tally.empty n
  · rw [hptrs]
    exact List.nodup_nil
  · rw [hptrs]
    intro p hp
    cases hp
  · rw [hfresh.live]
    intro o ho
    cases ho

/-- Each MR counts the SGEs of the WRs that live QPs own; once there is no QP
no MR is in use, each can be freed, and then their PD. -/
structure Device.MrsBalanced (d : Device) : Prop where
  ref : ∀ i mr, roceGetMrNoref d.ctx i = some mr → mr.ref.toNat = d.mrUsers.count i
  unused : d.liveQps = [] → ∀ i mr, roceGetMrNoref d.ctx i = some mr → mr.ref = 0 ∧
    ∃ ctx, roceDestroyMr d.ctx i = .ok (0, ctx) ∧ roceGetMrNoref ctx i = none
  pd : d.liveQps = [] → ∀ i, roceResourceGet d.ctx.pds i ≠ none →
    (∀ ah ∈ d.ctx.ahs.reduceOption, ah.pd ≠ i) → (∀ mr ∈ d.ctx.mrs.reduceOption, mr.pd ≠ i) →
    (roceDeallocPd d.ctx i).1 = 0

theorem Device.Balanced.mrsBalanced {d : Device} (h : d.Balanced) : d.MrsBalanced := by
  refine ⟨fun i mr hmr => h.owned.tally.count i mr hmr, ?_, ?_⟩
  · intro hnone i mr hmr
    have husers : d.mrUsers = [] := by
      unfold Device.mrUsers Device.sendWrs Device.recvPtrs
      rw [hnone]
      rfl
    have hzero : mr.ref = 0 := by
      refine (h.owned.tally.ref_eq_zero hmr).mpr ?_
      show i ∉ d.mrUsers
      rw [husers]
      exact List.not_mem_nil
    refine ⟨hzero, ?_⟩
    have hpd : roceResourceGet d.ctx.pds mr.pd ≠ none := by
      refine h.pds.tally.live _ (List.mem_append_right _ (List.mem_append_right _ ?_))
      exact List.mem_map_of_mem (Refs.mem_entries.mpr ⟨i, hmr⟩)
    obtain ⟨pd, hpd⟩ := Option.ne_none_iff_exists'.mp hpd
    obtain ⟨ctx, hput, hmrs⟩ : ∃ ctx,
        assertPutPd { d.ctx with mrs := d.ctx.mrs.set i none } mr.pd = .ok ctx ∧
          ctx.mrs = d.ctx.mrs.set i none := by
      unfold assertPutPd rocePutPd
      simp only [hpd]
      exact ⟨_, rfl, rfl⟩
    refine ⟨ctx, ?_, ?_⟩
    · unfold roceDestroyMr
      simp only [hmr, hzero, ne_eq, not_true_eq_false, if_false, hput]
    · show Refs.get ctx.mrs i = none
      rw [hmrs, Refs.get_set (Refs.lt_of_get hmr), if_pos rfl]
  · intro hnone i hi hahs hmrs
    obtain ⟨pd, hpd⟩ := Option.ne_none_iff_exists'.mp hi
    have hzero : pd.ref = 0 := by
      refine (h.pds.tally.ref_eq_zero hpd).mpr ?_
      rw [hnone]
      unfold pdUses
      simp only [List.map_nil, List.nil_append, List.mem_append, List.mem_map, not_or, not_exists,
        not_and]
      exact ⟨fun ah hah hp => hahs ah hah hp, fun mr hmr hp => hmrs mr hmr hp⟩
    unfold roceDeallocPd
    simp only [hpd, hzero, ne_eq, not_true_eq_false, if_false]

/-- **MRs are balanced** throughout every run from `roce_init_device` in which
receives are posted successfully and no WR leaves its QP with references. -/
theorem devRun_mrs {ctx : RoceCtx} {para : RoceDevicePara} {calloc callocQp : Nat → Bool} {d : Device}
    (h0 : roceInitDevice ctx para calloc callocQp = .ok d) (ops : List DevOp)
    (hpost : Machine.Along devStep Device.PostsRecv d ops)
    (hkeep : Machine.Along devStep Device.KeepsRefs d ops) :
    Machine.Throughout devStep Device.MrsBalanced d ops :=
  Machine.throughout_imp (fun _ h => h.mrsBalanced)
    (Machine.throughout_of_along devStep_balanced (roceInitDevice_balanced h0)
      (Machine.along_and hpost hkeep))

/-- An MR and an RC QP that may receive. -/
def receiverOps : List DevOp :=
  [.allocPd true, .createCq 16 true,
    .createMr ⟨0, .mem, 0x10000, 0x1000, roceAccessLocalWrite, [⟨0x10000, 0x1000⟩], 0⟩ true 0 0,
    .createQp (smallQpArgs .rc 0) true 0 0,
    .onQp 2 (.modify { smallQp.attr with qpState := .rtr } roceQpState)]

/-- A receive WR of sixteen bytes. -/
def postRecvOp : DevOp := .onQp 2 (.postRecv 0x1000 1 [⟨0x10000, 16, 0⟩])

/-- The first packet of a SEND, of two bytes. -/
def sendFirst : Decap :=
  ⟨⟨ibOpcodeSendFirst, 0, rocePkey, 2, 0⟩, .ip4 ⟨0x45, 0, 0, 0, 0, 64, 17, 0, 0, 0⟩, [[1, 2]]⟩

/-- Where that WR is posted its object is new and its MR there, with no user. -/
theorem receiver_ready {d t : Device}
    (h0 : roceInitDevice smallCtx smallPara (fun _ => true) (fun _ => true) = .ok d)
    (ht : Machine.run devStep d receiverOps = .ok t) :
    t.ctx.recvWrs 0x1000 = none ∧ (∃ mr, roceGetMrNoref t.ctx 0 = some mr ∧ mr.ref = 0) ∧
      ∀ i, i ≠ 0 → roceGetMrNoref t.ctx i = none := by
  have hrun : (Machine.run devStep d receiverOps).toOption.map (fun t =>
      ((t.ctx.recvWrs 0x1000).isNone, t.ctx.mrs.map (·.map (·.ref)))) =
        some (true, [some 0, none]) := by
    obtain rfl := Except.ok.inj h0
    decide +kernel
  rw [ht] at hrun
  obtain ⟨hnone, hmrs⟩ := Prod.mk.inj (Option.some.inj hrun)
  have hget : ∀ i, (roceGetMrNoref t.ctx i).map (·.ref) =
    (([some 0, none] : List (Option UInt32))[i]?).join := by
    intro i
    rw [← hmrs, List.getElem?_map]
    unfold roceGetMrNoref roceResourceGet
    cases t.ctx.mrs[i]? with
    | none => rfl
    | some mr => rfl
  refine ⟨Option.isNone_iff_eq_none.mp hnone, Option.map_eq_some_iff.mp (hget 0), ?_⟩
  intro i hi
  refine Option.map_eq_none_iff.mp ((hget i).trans ?_)
  rcases i with _ | _ | i
  · exact absurd rfl hi
  · rfl
  · rfl

theorem receiver_postsRecv {d : Device}
    (h0 : roceInitDevice smallCtx smallPara (fun _ => true) (fun _ => true) = .ok d)
    (ops : List DevOp) (hops : ∀ op ∈ ops, ∀ t : Device, t.PostsRecv op) :
    Machine.Along devStep Device.PostsRecv d (receiverOps ++ postRecvOp :: ops) := by
  refine Machine.along_append (Machine.along_of_forall ?_ d) ?_
  · unfold receiverOps
    simp only [List.forall_mem_cons, List.not_mem_nil, false_implies, implies_true, and_true]
    exact ⟨fun _ => trivial, fun _ => trivial, fun _ => trivial, fun _ => trivial,
      fun _ _ _ => trivial⟩
  · intro t ht
    obtain ⟨hnew, ⟨mr, hmr, -⟩, -⟩ := receiver_ready h0 ht
    refine ⟨fun o _ => ⟨by decide, hnew, ?_⟩, fun t' _ => Machine.along_of_forall hops t'⟩
    intro e he
    obtain rfl := List.mem_singleton.mp he
    have hkey : roceGetMrNoref t.ctx (roceKeyToIndex 0) = some mr := hmr
    rw [hkey]
    exact Option.some_ne_none mr

/-- The WR in progress of a QP that is destroyed keeps its MR in use. -/
theorem devRun_mrs_inProgress :
    ¬ ∀ (ctx : RoceCtx) (para : RoceDevicePara) (calloc callocQp : Nat → Bool) (d : Device)
      (ops : List DevOp), roceInitDevice ctx para calloc callocQp = .ok d →
        Machine.Along devStep Device.PostsRecv d ops →
        Machine.Throughout devStep Device.MrsBalanced d ops := by
  intro h
  obtain ⟨d, hd⟩ : ∃ d, roceInitDevice smallCtx smallPara (fun _ => true) (fun _ => true) = .ok d :=
    ⟨_, rfl⟩
  have hposts := receiver_postsRecv hd [.onQp 2 (.recv sendFirst true), .destroyQp 2] (by
    simp only [List.forall_mem_cons, List.not_mem_nil, false_implies, implies_true, and_true]
    exact ⟨fun _ _ _ => trivial, fun _ => trivial⟩)
  have hall := h _ _ _ _ d _ hd hposts
  have hrun : (Machine.run devStep d
      (receiverOps ++ [postRecvOp, .onQp 2 (.recv sendFirst true), .destroyQp 2])).toOption.map
      (fun t => (t.liveQps.length, (roceGetMrNoref t.ctx 0).map (·.ref))) = some (0, some 1) := by
    obtain rfl := Except.ok.inj hd
    decide +kernel
  cases ht : Machine.run devStep d
      (receiverOps ++ [postRecvOp, .onQp 2 (.recv sendFirst true), .destroyQp 2]) with
  | error e =>
    rw [ht] at hrun
    cases hrun
  | ok t =>
    rw [ht] at hrun
    obtain ⟨hnone, hone⟩ := Prod.mk.inj (Option.some.inj hrun)
    have hbal := Machine.throughout_iff.mp hall _ [] t (List.append_nil _).symm ht
    obtain ⟨mr, hmr, href⟩ := Option.map_eq_some_iff.mp hone
    have hzero := (hbal.unused (List.length_eq_zero_iff.mp hnone) 0 mr hmr).1
    rw [href] at hzero
    cases hzero

/-- A queued WR gives its reference back when the QP goes. -/
theorem devRun_mrs_queued :
    ∃ d, roceInitDevice smallCtx smallPara (fun _ => true) (fun _ => true) = .ok d ∧
      Machine.Throughout devStep Device.MrsBalanced d (receiverOps ++ [postRecvOp, .destroyQp 2]) := by
  obtain ⟨d, hd⟩ : ∃ d, roceInitDevice smallCtx smallPara (fun _ => true) (fun _ => true) = .ok d :=
    ⟨_, rfl⟩
  refine ⟨d, hd, devRun_mrs hd _ (receiver_postsRecv hd [.destroyQp 2] ?_) ?_⟩
  · intro op hop t
    obtain rfl := List.mem_singleton.mp hop
    trivial
  refine Machine.along_append (Machine.along_of_forall ?_ d) ?_
  · unfold receiverOps
    simp only [List.forall_mem_cons, List.not_mem_nil, false_implies, implies_true, and_true]
    exact ⟨fun _ => trivial, fun _ => trivial, fun _ => trivial, fun _ => trivial,
      fun _ _ _ => trivial⟩
  intro t ht
  obtain ⟨-, ⟨mr0, hmr0, hzero⟩, hothers⟩ := receiver_ready hd ht
  refine ⟨?_, fun t' ht' => ⟨?_, fun _ _ => trivial⟩⟩
  · rintro o - i mr hmr
    have hi : i = 0 := by
      by_contra hne
      rw [hothers i hne] at hmr
      cases hmr
    subst hi
    rw [hmr0] at hmr
    obtain rfl := Option.some.inj hmr
    have hcount : (sgeMrs [⟨0x10000, 16, 0⟩]).count 0 ≤ 1 := List.count_le_length
    rw [hzero]
    show 0 + _ < 2 ^ 32
    omega
  · intro o ho
    have hrun : (Machine.run devStep d (receiverOps ++ [postRecvOp])).toOption.map (fun t =>
        (t.getQp 2).map fun o => o.qp.resp.word) = some (some (.wr 0)) := by
      obtain rfl := Except.ok.inj hd
      decide +kernel
    rw [Machine.run_append devStep receiverOps [postRecvOp] ht, Machine.run_cons_ok devStep [] ht'] at hrun
    have hword : (t'.getQp 2).map (fun o => o.qp.resp.word) = some (.wr 0) := Option.some.inj hrun
    rw [ho] at hword
    have hword : o.qp.resp.word = .wr 0 := Option.some.inj hword
    rw [hword]
    rfl

end Libroce
