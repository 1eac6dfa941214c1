import Libroce.DeviceTable

/-!
# PDs and CQs outlive their users

Every QP, AH and MR holds a reference to its PD, every QP one to its send CQ
and one to its receive CQ.  `Device.Linked` says that the counts are the
numbers of these and that none of them points to an empty slot; it survives
every call but one: `roce_create_qp` with an invalid receive CQ succeeds and
leaves a QP without one.

    h.createQp : d.Linked → d'.Linked      where the receive CQ is found
-/

namespace Libroce

open Machine (bind_eq_ok)
open Refs (Tally)

/-! ## Who uses them -/

/-- The CQs a QP points to. -/
def QpObj.cqs (o : QpObj) : List Nat := o.qp.scq :: if o.hasRcq then [o.qp.rcq] else []

/-- One PD handle for each QP, AH and MR. -/
def Device.pdUsers (d : Device) : List Nat := d.liveQps.map (·.qp.pd) ++ pdUses d.ctx

/-- One CQ handle for each role. -/
def Device.cqUsers (d : Device) : List Nat := d.liveQps.flatMap QpObj.cqs

theorem length_cqs_le (o : QpObj) : o.cqs.length ≤ 2 := by
  unfold QpObj.cqs
  split <;> simp

theorem length_flatMap_cqs_le (os : List QpObj) : (os.flatMap QpObj.cqs).length ≤ 2 * os.length := by
  induction os with
  | nil => exact Nat.zero_le 0
  | cons o os ih =>
    rw [List.flatMap_cons, List.length_append, List.length_cons]
    have := length_cqs_le o
    omega

/-! ## References to PDs -/

/-- The PDs of a context count its AHs, its MRs and `others`. -/
structure PdTally (others : List Nat) (ctx : RoceCtx) : Prop where
  tally : Tally RocePd.ref ctx.pds (others ++ pdUses ctx)
  mrs : ctx.mrs.length ≤ 2 ^ 24
  ahs : ctx.ahs.length ≤ 2 ^ 24

theorem PdsKept.pdTally {a b : RoceCtx} {others : List Nat} (hk : PdsKept a b)
    (h : PdTally others a) : PdTally others b :=
  ⟨hk.tally others h.tally, by rw [hk.mrs]; exact h.mrs, by rw [hk.ahs]; exact h.ahs⟩

theorem PdTally.few {others : List Nat} {ctx : RoceCtx} (h : PdTally others ctx)
    (hfew : others.length ≤ 2 ^ 25) : (others ++ pdUses ctx).length + 1 < 2 ^ 32 := by
  have h1 := Refs.length_entries_le ctx.ahs
  have h2 := Refs.length_entries_le ctx.mrs
  have hm := h.mrs
  have ha := h.ahs
  unfold pdUses
  simp only [List.length_append, List.length_map]
  omega

/-- Taking a PD reference. -/
theorem roceGetPd_tally {ctx ctx' : RoceCtx} {pd : Nat} {uses : List Nat}
    (h : roceGetPd ctx pd = some ctx') (ht : Tally RocePd.ref ctx.pds uses)
    (hfew : uses.length + 1 < 2 ^ 32) :
    Tally RocePd.ref ctx'.pds (pd :: uses) ∧ ctx' = { ctx with pds := ctx'.pds } := by
  unfold roceGetPd at h
  split at h
  · cases h
  · next x hx =>
    obtain rfl := Option.some.inj h
    exact ⟨ht.incr hx rfl hfew, rfl⟩

/-- Taking one for an object that is then not made. -/
theorem PdTally.unwind {others : List Nat} {ctx ctx1 ctx2 : RoceCtx} {pd : Nat}
    (h : PdTally others ctx) (ht : Tally RocePd.ref ctx1.pds (pd :: (others ++ pdUses ctx)))
    (he : ctx1 = { ctx with pds := ctx1.pds }) (hput : assertPutPd ctx1 pd = .ok ctx2) :
    PdTally others ctx2 := by
  obtain ⟨ht2, he2⟩ := assertPutPd_tally hput ht
  have hmrs : ctx2.mrs = ctx.mrs := by rw [he2, he]
  have hahs : ctx2.ahs = ctx.ahs := by rw [he2, he]
  refine ⟨?_, by rw [hmrs]; exact h.mrs, by rw [hahs]; exact h.ahs⟩
  unfold pdUses at ht2 ⊢
  rw [hmrs, hahs]
  exact ht2

theorem roceAllocPd_tally {others : List Nat} {ctx : RoceCtx} (h : PdTally others ctx)
    (calloc : Bool) : PdTally others (roceAllocPd ctx calloc).2 := by
  unfold roceAllocPd
  split
  · split
    · exact h
    · next i pds halloc =>
      obtain ⟨hempty, rfl⟩ := roceResourceAlloc_ok halloc
      exact ⟨h.tally.alloc hempty rfl, h.mrs, h.ahs⟩
  · exact h

theorem roceDeallocPd_tally {others : List Nat} {ctx : RoceCtx} (h : PdTally others ctx)
    (pdHandle : Nat) : PdTally others (roceDeallocPd ctx pdHandle).2 := by
  unfold roceDeallocPd
  split
  · exact h
  · next pd hpd =>
    split
    · exact h
    · next hzero => exact ⟨h.tally.free hpd (not_not.mp hzero), h.mrs, h.ahs⟩

theorem roceCreateAh_tally {others : List Nat} {ctx ctx' : RoceCtx} {pd : Nat} {attr : RoceAhAttr}
    {calloc : Bool} {ret : Int} (h : PdTally others ctx) (hfew : others.length ≤ 2 ^ 25)
    (hc : roceCreateAh ctx pd attr calloc = .ok (ret, ctx')) : PdTally others ctx' := by
  unfold roceCreateAh at hc
  split at hc
  · obtain ⟨-, rfl⟩ := Prod.mk.inj (Except.ok.inj hc)
    exact h
  · next ctx1 hget =>
    obtain ⟨ht, he⟩ := roceGetPd_tally hget h.tally (h.few hfew)
    split at hc
    · split at hc
      · obtain ⟨ctx2, hput, hc⟩ := bind_eq_ok.mp hc
        obtain ⟨-, rfl⟩ := Prod.mk.inj (Except.ok.inj hc)
        exact h.unwind ht he hput
      · next i ahs halloc =>
        obtain ⟨-, rfl⟩ := Prod.mk.inj (Except.ok.inj hc)
        obtain ⟨hempty, rfl⟩ := roceResourceAlloc_ok halloc
        have hahs : ctx1.ahs = ctx.ahs := by rw [he]
        have hmrs : ctx1.mrs = ctx.mrs := by rw [he]
        refine ⟨ht.perm ?_, by show ctx1.mrs.length ≤ _; rw [hmrs]; exact h.mrs, ?_⟩
        · show (pd :: (others ++ (ctx.ahs.reduceOption.map (·.pd) ++ _))).Perm
            (others ++ ((ctx1.ahs.set i _).reduceOption.map (·.pd) ++ ctx1.mrs.reduceOption.map (·.pd)))
          have hp := (Refs.entries_alloc (⟨0, pd, attr⟩ : RoceAh) hempty).map (·.pd)
          rw [hmrs]
          rw [hahs] at hp ⊢
          refine List.Perm.trans ?_ ((hp.symm.append_right _).append_left others)
          exact List.perm_middle.symm
        · show (ctx1.ahs.set i _).length ≤ _
          rw [List.length_set, hahs]
          exact h.ahs
    · obtain ⟨ctx2, hput, hc⟩ := bind_eq_ok.mp hc
      obtain ⟨-, rfl⟩ := Prod.mk.inj (Except.ok.inj hc)
      exact h.unwind ht he hput

theorem roceDestroyAh_tally {others : List Nat} {ctx ctx' : RoceCtx} {i : Nat} {ret : Int}
    (h : PdTally others ctx) (hd : roceDestroyAh ctx i = .ok (ret, ctx')) : PdTally others ctx' := by
  unfold roceDestroyAh at hd
  split at hd
  · obtain ⟨-, rfl⟩ := Prod.mk.inj (Except.ok.inj hd)
    exact h
  · next ah hah =>
    split at hd
    · obtain ⟨-, rfl⟩ := Prod.mk.inj (Except.ok.inj hd)
      exact h
    · obtain ⟨ctx1, hput, hd⟩ := bind_eq_ok.mp hd
      obtain ⟨-, rfl⟩ := Prod.mk.inj (Except.ok.inj hd)
      have hp := (Refs.entries_free hah).map (·.pd)
      have ht : Tally RocePd.ref ctx.pds (ah.pd :: (others ++
          ((ctx.ahs.set i none).reduceOption.map (·.pd) ++ ctx.mrs.reduceOption.map (·.pd)))) := by
        refine h.tally.perm ?_
        refine ((hp.append_right _).append_left others).trans ?_
        exact List.perm_middle
      obtain ⟨ht', he⟩ := assertPutPd_tally hput ht
      have hmrs : ctx1.mrs = ctx.mrs := by rw [he]
      have hahs : ctx1.ahs = ctx.ahs.set i none := by rw [he]
      refine ⟨?_, by rw [hmrs]; exact h.mrs, by rw [hahs, List.length_set]; exact h.ahs⟩
      unfold pdUses
      rw [hmrs, hahs]
      exact ht'

theorem roceCreateMr_tally {others : List Nat} {ctx ctx' : RoceCtx} {a : MrArgs} {calloc : Bool}
    {random0 random1 : UInt32} {ret : Int} (h : PdTally others ctx) (hfew : others.length ≤ 2 ^ 25)
    (hc : roceCreateMr ctx a calloc random0 random1 = .ok (ret, ctx')) : PdTally others ctx' := by
  cases roceCreateMr_makes hc with
  | refused _ hsame =>
    rw [hsame]
    exact h
  | released ctx1 _ hget hput =>
    obtain ⟨ht, he⟩ := roceGetPd_tally hget h.tally (h.few hfew)
    exact h.unwind ht he hput
  | created ctx1 i state iovs _ hget _ hempty _ hnew =>
    obtain ⟨ht, he⟩ := roceGetPd_tally hget h.tally (h.few hfew)
    have hahs : ctx1.ahs = ctx.ahs := by rw [he]
    have hmrs : ctx1.mrs = ctx.mrs := by rw [he]
    rw [hnew]
    refine ⟨ht.perm ?_, ?_, by show ctx1.ahs.length ≤ _; rw [hahs]; exact h.ahs⟩
    · show (a.pd :: (others ++ (ctx.ahs.reduceOption.map (·.pd) ++
        ctx.mrs.reduceOption.map (·.pd)))).Perm (others ++
        (ctx1.ahs.reduceOption.map (·.pd) ++ (ctx1.mrs.set i _).reduceOption.map (·.pd)))
      rw [hmrs] at hempty
      rw [hahs, hmrs]
      refine List.Perm.trans ?_
        (((((Refs.entries_alloc _ hempty).map (·.pd)).symm.append_left _).append_left others))
      rw [List.map_cons, ← List.append_assoc, ← List.append_assoc]
      exact List.perm_middle.symm
    · show (ctx1.mrs.set i _).length ≤ _
      rw [List.length_set, hmrs]
      exact h.mrs

/-! ## References to CQs -/

theorem roceGetCq_tally {cqs cqs' : List (Option RoceCq)} {i : Nat} {uses : List Nat}
    (h : roceGetCq cqs i = some cqs') (ht : Tally RoceCq.ref cqs uses)
    (hfew : uses.length + 1 < 2 ^ 32) : Tally RoceCq.ref cqs' (i :: uses) := by
  unfold roceGetCq at h
  split at h
  · cases h
  · next cq hcq =>
    obtain rfl := Option.some.inj h
    exact ht.incr hcq rfl hfew

theorem assertPutCq_tally {cqs cqs' : List (Option RoceCq)} {i : Nat} {uses : List Nat}
    (h : assertPutCq cqs i = .ok cqs') (ht : Tally RoceCq.ref cqs (i :: uses)) :
    Tally RoceCq.ref cqs' uses := by
  unfold assertPutCq at h
  split at h
  · cases h
  · next cq hcq =>
    obtain rfl := Except.ok.inj h
    exact ht.decr hcq rfl

/-! ## The invariant -/

/-- References and users agree. -/
structure Device.Linked (d : Device) : Prop where
  pds : PdTally (d.liveQps.map (·.qp.pd)) d.ctx
  cqs : Tally RoceCq.ref d.cqs d.cqUsers
  rcq : ∀ o ∈ d.liveQps, o.hasRcq = true
  placed : d.Placed
  qps : d.qps.length ≤ 2 ^ 24

theorem Device.Linked.fewQps {d : Device} (h : d.Linked) : (d.liveQps.map (·.qp.pd)).length ≤ 2 ^ 25 := by
  have := d.length_liveQps_le
  have := h.qps
  rw [List.length_map]
  omega

theorem Device.Linked.fewCqs {d : Device} (h : d.Linked) : d.cqUsers.length + 2 < 2 ^ 32 := by
  have := length_flatMap_cqs_le d.liveQps
  have := d.length_liveQps_le
  have := h.qps
  unfold Device.cqUsers
  omega

/-- A call that stays within the context. -/
theorem Device.Linked.withCtx {d : Device} (h : d.Linked) {r : Int × RoceCtx}
    (hr : PdTally (d.liveQps.map (·.qp.pd)) r.2) : (d.withCtx r).Linked :=
  ⟨hr, h.cqs, h.rcq, h.placed.congr rfl rfl rfl, h.qps⟩

theorem Device.Linked.setCqs {d : Device} (h : d.Linked) {cqs : List (Option RoceCq)}
    (hcqs : Tally RoceCq.ref cqs d.cqUsers) : Device.Linked { d with cqs := cqs } :=
  ⟨h.pds, hcqs, h.rcq, h.placed.congr rfl rfl rfl, h.qps⟩

theorem roceCreateCq_linked {d : Device} (h : d.Linked) (cqe : UInt32) (calloc : Bool) :
    (roceCreateCq d cqe calloc).2.Linked := by
  unfold roceCreateCq
  split
  · exact h
  · split
    · split
      · exact h
      · next i cqs halloc =>
        obtain ⟨hempty, rfl⟩ := roceResourceAlloc_ok halloc
        exact h.setCqs (h.cqs.alloc hempty rfl)
    · exact h

theorem roceDestroyCq_linked {d : Device} (h : d.Linked) (cqHandle : Nat) :
    (roceDestroyCq d cqHandle).2.Linked := by
  unfold roceDestroyCq
  split
  · exact h
  · next cq hcq =>
    split
    · exact h
    · next hzero => exact h.setCqs (h.cqs.free hcq (not_not.mp hzero))

/-! ## Creating a QP -/

/-- The references of `roce_create_qp` are taken; `rcq` tells whether the
receive CQ is one of them. -/
structure Device.Taken (d : Device) (a : QpArgs) (rcq : Bool) (ctx : RoceCtx)
    (cqs : List (Option RoceCq)) : Prop where
  frame : ctx = { d.ctx with pds := ctx.pds }
  pds : Tally RocePd.ref ctx.pds (a.pd :: d.pdUsers)
  cqs : Tally RoceCq.ref cqs ((a.sendCq :: if rcq then [a.recvCq] else []) ++ d.cqUsers)

section create

variable {d d' : Device} {a : QpArgs} {rcq calloc : Bool} {ctx : RoceCtx}
  {cqs : List (Option RoceCq)} {random0 random1 : UInt32} {ret : Int}

/-- They are given back. -/
theorem Device.Taken.putResource (ht : d.Taken a rcq ctx cqs) (h : d.Linked)
    (hput : Device.putResource { d with ctx := ctx, cqs := cqs } a rcq = .ok (ret, d')) :
    d'.Linked := by
  unfold Device.putResource at hput
  obtain ⟨ctx1, hpd, hput⟩ := bind_eq_ok.mp hput
  obtain ⟨cqs1, hscq, hput⟩ := bind_eq_ok.mp hput
  have hpds := h.pds.unwind ht.pds ht.frame hpd
  have hcqs1 := assertPutCq_tally hscq ht.cqs
  cases rcq with
  | false =>
    obtain ⟨-, rfl⟩ := Prod.mk.inj (Except.ok.inj hput)
    exact ⟨hpds, hcqs1, h.rcq, h.placed.congr rfl rfl rfl, h.qps⟩
  | true =>
    obtain ⟨cqs2, hrcq, hput⟩ := bind_eq_ok.mp hput
    obtain ⟨-, rfl⟩ := Prod.mk.inj (Except.ok.inj hput)
    exact ⟨hpds, assertPutCq_tally hrcq hcqs1, h.rcq, h.placed.congr rfl rfl rfl, h.qps⟩

/-- The reference to the PD goes to a QP that is new among the live ones. -/
theorem PdTally.joins {o : QpObj} (h : PdTally (d.liveQps.map (·.qp.pd)) d.ctx)
    (ht : Tally RocePd.ref ctx.pds (a.pd :: d.pdUsers)) (hframe : ctx = { d.ctx with pds := ctx.pds })
    (hpd : o.qp.pd = a.pd) (hlive : d'.liveQps.Perm (o :: d.liveQps)) (hctx : d'.ctx = ctx) :
    PdTally (d'.liveQps.map (·.qp.pd)) d'.ctx := by
  have hmrs : ctx.mrs = d.ctx.mrs := by rw [hframe]
  have hahs : ctx.ahs = d.ctx.ahs := by rw [hframe]
  refine ⟨?_, by rw [hctx, hmrs]; exact h.mrs, by rw [hctx, hahs]; exact h.ahs⟩
  have huses : pdUses d'.ctx = pdUses d.ctx := by
    unfold pdUses
    rw [hctx, hmrs, hahs]
  have hp := (hlive.map (·.qp.pd)).symm
  rw [List.map_cons, hpd] at hp
  rw [huses, hctx]
  exact ht.perm (hp.append_right (pdUses d.ctx))

/-- They go to a QP that is new among the live ones. -/
theorem Device.Taken.linked {o : QpObj} (ht : d.Taken a true ctx cqs) (h : d.Linked)
    (hnew : o.NewFor a true) (hlive : d'.liveQps.Perm (o :: d.liveQps)) (hplaced : d'.Placed)
    (hqps : d'.qps.length = d.qps.length) (hctx : d'.ctx = ctx) (hcqs : d'.cqs = cqs) :
    d'.Linked := by
  obtain ⟨port, random0, random1, qpn, rfl⟩ := hnew
  refine ⟨h.pds.joins ht.pds ht.frame rfl hlive hctx, ?_, ?_, hplaced, by rw [hqps]; exact h.qps⟩
  · rw [hcqs]
    exact ht.cqs.perm (hlive.flatMap_right QpObj.cqs).symm
  · intro q hq
    rcases List.mem_cons.mp (hlive.mem_iff.mp hq) with rfl | hq
    · rfl
    · exact h.rcq q hq

/-- Why `roce_create_qp` refuses to make a QP, apart from its receive CQ. -/
def Device.refuses (d : Device) (a : QpArgs) (calloc : Bool) : Prop :=
  (a.qpType ≠ .gsi ∧ a.qpType ≠ .rc ∧ a.qpType ≠ .ud) ∨ roceVerifyQpCap d.ctx a.cap ≠ 0 ∨
    roceResourceGet d.ctx.pds a.pd = none ∨ roceResourceGet d.cqs a.sendCq = none ∨
    (a.qpType = .gsi ∧ d.gsiQp.isSome = true) ∨
    (a.qpType ≠ .gsi ∧ (calloc = false ∨ d.qps.findIdx? Option.isNone = none))

theorem Device.Taken.makes (ht : d.Taken a rcq ctx cqs) (h : d.Linked)
    (hok : rcq = true ∨ (a.qpType = .gsi ∧ d.gsiQp.isSome = true) ∨
      (a.qpType ≠ .gsi ∧ (calloc = false ∨ d.qps.findIdx? Option.isNone = none)))
    (hm : Device.Makes { d with ctx := ctx, cqs := cqs } a rcq calloc ret d') : d'.Linked := by
  have hrcq : Device.putResource { d with ctx := ctx, cqs := cqs } a rcq = .ok (ret, d') ∨
      rcq = true := by
    cases hm with
    | refused hput => exact Or.inl hput
    | gsi o htype hfree hnew hhandle =>
      right
      rcases hok with hok | ⟨-, hused⟩ | ⟨hne, -⟩
      · exact hok
      · have hfree : d.gsi = some ⟨1, none⟩ := hfree
        unfold Device.gsiQp at hused
        rw [hfree] at hused
        cases hused
      · exact absurd htype hne
    | heap i o htype hcalloc hempty hnew hhandle =>
      right
      rcases hok with hok | ⟨hyes, -⟩ | ⟨-, hno | hno⟩
      · exact hok
      · exact absurd hyes htype
      · rw [hcalloc] at hno
        cases hno
      · have hfull := List.findIdx?_eq_none_iff.mp hno none (List.mem_of_getElem? hempty)
        cases hfull
  rcases hrcq with hput | rfl
  · exact ht.putResource h hput
  rcases hm.live (h.placed.congr rfl rfl rfl) h.qps with
    hput | ⟨o, hnew, hlive, hplaced, hqps, hctx, hcqs⟩
  · exact ht.putResource h hput
  · exact ht.linked h hnew hlive hplaced hqps hctx hcqs

/-- **Creating a QP.**  A receive CQ is found, or the call is refused anyway. -/
theorem Device.Linked.createQp (h : d.Linked)
    (hok : roceResourceGet d.cqs a.recvCq ≠ none ∨ d.refuses a calloc)
    (hc : d.createQp a calloc random0 random1 = .ok (ret, d')) : d'.Linked := by
  rcases Device.createQp_makes hc with ⟨-, rfl | ⟨ctx, ctx', hpd, hput, rfl⟩⟩ |
    ⟨rcq, ctx, cqs, ⟨hpd, cqs1, hscq, hrcq⟩, hm, htype, hcap⟩
  · exact h
  · obtain ⟨hpds, hctx⟩ := roceGetPd_tally hpd h.pds.tally (h.pds.few h.fewQps)
    exact ⟨h.pds.unwind hpds hctx hput, h.cqs, h.rcq, h.placed.congr rfl rfl rfl, h.qps⟩
  obtain ⟨hpds, hctx⟩ := roceGetPd_tally hpd h.pds.tally (h.pds.few h.fewQps)
  have hfew := h.fewCqs
  have hcqs1 := roceGetCq_tally hscq h.cqs (by omega)
  cases rcq with
  | true =>
    have hcqs2 := roceGetCq_tally hrcq hcqs1 (by rw [List.length_cons]; omega)
    exact Device.Taken.makes ⟨hctx, hpds, hcqs2.perm (List.Perm.swap _ _ _)⟩ h (Or.inl rfl) hm
  | false =>
    obtain ⟨hnone, rfl⟩ := hrcq
    have hr : roceResourceGet d.cqs a.recvCq = none := by
      unfold roceGetCq at hscq hnone
      split at hscq
      · cases hscq
      · next cq hcq =>
        obtain rfl := Option.some.inj hscq
        split at hnone
        · next hget =>
          rw [roceResourceGet_set _ _ _ _ _ hcq] at hget
          split at hget
          · cases hget
          · exact hget
        · cases hnone
    refine Device.Taken.makes ⟨hctx, hpds, hcqs1⟩ h (Or.inr ?_) hm
    rcases hok with hyes | hno | hno | hno | hno | hno
    · exact absurd hr hyes
    · rcases htype with hk | hk | hk
      · exact absurd hk hno.1
      · exact absurd hk hno.2.1
      · exact absurd hk hno.2.2
    · exact absurd hcap hno
    · unfold roceGetPd at hpd
      rw [hno] at hpd
      cases hpd
    · unfold roceGetCq at hscq
      rw [hno] at hscq
      cases hscq
    · exact hno

end create

end Libroce
