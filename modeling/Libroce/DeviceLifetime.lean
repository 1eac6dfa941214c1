import Libroce.DeviceRefs

/-!
# The lifetime of PDs and CQs

`Device.Linked` along runs: destroying a QP gives its three references back,
and a call on a QP keeps its links (`qpStep_keeps`).

    devRun_linked — along every run in which no QP is created without its
    receive CQ, PDs and CQs are in use exactly as live objects use them.
-/

namespace Libroce

open Machine (bind_eq_ok)
open Refs (Tally)

/-! ## Destroying a QP -/

theorem freeSendWrs_pdsKept {ctx ctx' : RoceCtx} {wrs : List SendWr}
    (h : freeSendWrs ctx wrs = .ok ctx') : PdsKept ctx ctx' := by
  induction wrs generalizing ctx with
  | nil =>
    obtain rfl := Except.ok.inj h
    exact .refl ctx
  | cons wr wrs ih =>
    rw [freeSendWrs] at h
    split at h
    · cases h
    · next hfree => exact (roceFreeSendWr_pdsKept hfree).trans (ih h)

theorem freeRecvWrs_pdsKept {ctx ctx' : RoceCtx} {ps : List UInt64}
    (h : freeRecvWrs ctx ps = .ok ctx') : PdsKept ctx ctx' := by
  induction ps generalizing ctx with
  | nil =>
    obtain rfl := Except.ok.inj h
    exact .refl ctx
  | cons p ps ih =>
    rw [freeRecvWrs] at h
    split at h
    · cases h
    · split at h
      · cases h
      · next hfree => exact (roceFreeRecvWr_pdsKept hfree).trans (ih h)

section destroy

variable {d d' : Device}

/-- The PD of a QP that leaves gets its reference back. -/
theorem Device.Destroys.pds {i : Nat} {o : QpObj} (hd : d.Destroys i o d')
    (h : PdTally (d.liveQps.map (·.qp.pd)) d.ctx) : PdTally (d'.liveQps.map (·.qp.pd)) d'.ctx := by
  obtain ⟨ctx1, ctx2, cqs1, hpd, -, -, hsend, hrecv⟩ := hd.refs
  have hp := (hd.live.map (·.qp.pd)).append_right (pdUses d.ctx)
  obtain ⟨ht, he⟩ := assertPutPd_tally hpd (h.tally.perm hp)
  have huses : pdUses ctx1 = pdUses d.ctx := by
    unfold pdUses
    rw [he]
  refine ((freeSendWrs_pdsKept hsend).trans (freeRecvWrs_pdsKept hrecv)).pdTally ⟨?_, ?_, ?_⟩
  · rw [huses]
    exact ht
  · rw [he]
    exact h.mrs
  · rw [he]
    exact h.ahs

/-- A QP leaves the live ones and its references are given back. -/
theorem Device.Linked.destroyQp {i : Nat} {ret : Int} (h : d.Linked)
    (hc : d.destroyQp i = .ok (ret, d')) : d'.Linked := by
  obtain ⟨o, hd⟩ := h.placed.destroyQp hc
  have hpds := hd.pds h.pds
  obtain ⟨-, hhas, ⟨ctx1, ctx2, cqs1, -, hscq, hrcq, -⟩, hlive, hplaced, hqps⟩ := hd
  refine ⟨hpds, ?_, ?_, hplaced, by rw [hqps]; exact h.qps⟩
  · refine assertPutCq_tally hrcq (assertPutCq_tally hscq (h.cqs.perm ?_))
    have ho : o.cqs = [o.qp.scq, o.qp.rcq] := by
      unfold QpObj.cqs
      rw [hhas]
      rfl
    have hp := hlive.flatMap_right QpObj.cqs
    rw [List.flatMap_cons, ho] at hp
    exact hp
  · intro q hq
    exact h.rcq q (hlive.mem_iff.mpr (List.mem_cons_of_mem o hq))

end destroy

/-! ## Calls on a QP -/

section onQp

variable {d d' : Device}

/-- Its PD stays that of a QP that changes. -/
theorem Device.Replaces.pds {i : Nat} {call : QpCall} {o : QpObj} {s : St} {rest : List QpObj}
    (hr : d.Replaces i call o s rest d') (h : PdTally (d.liveQps.map (·.qp.pd)) d.ctx) :
    PdTally (d'.liveQps.map (·.qp.pd)) d'.ctx := by
  obtain ⟨hlinks, hpds⟩ := qpStep_keeps hr.step
  simp only [RoceQp.links, Prod.mk.injEq] at hlinks
  have hp : (d.liveQps.map (·.qp.pd)).Perm (d'.liveQps.map (·.qp.pd)) := by
    refine (hr.old.map _).trans (List.Perm.trans ?_ (hr.new.map _).symm)
    rw [List.map_cons, List.map_cons, hlinks.2.2.1]
  rw [hr.ctx]
  exact hpds.pdTally ⟨h.tally.perm (hp.append_right _), h.mrs, h.ahs⟩

/-- A live QP changes, not its links. -/
theorem Device.Linked.onQp {i : Nat} {call : QpCall} (h : d.Linked) (hc : d.onQp i call = .ok d') :
    d'.Linked := by
  obtain ⟨o, s, rest, hr⟩ := h.placed.onQp hc
  have hpds := hr.pds h.pds
  obtain ⟨-, hs, hold, hnew, -, hcqs, hplaced, hqps⟩ := hr
  obtain ⟨hlinks, -⟩ := qpStep_keeps hs
  simp only [RoceQp.links, Prod.mk.injEq] at hlinks
  obtain ⟨-, -, -, hscq, hrcq⟩ := hlinks
  have hocqs : QpObj.cqs { o with qp := s.qp } = o.cqs := by
    unfold QpObj.cqs
    rw [hscq, hrcq]
  refine ⟨hpds, ?_, ?_, hplaced, by rw [hqps]; exact h.qps⟩
  · rw [hcqs]
    refine h.cqs.perm ((hold.flatMap_right _).trans (List.Perm.trans ?_ (hnew.flatMap_right _).symm))
    rw [List.flatMap_cons, List.flatMap_cons, hocqs]
  · intro q hq
    rcases List.mem_cons.mp (hnew.mem_iff.mp hq) with rfl | hq
    · exact h.rcq o (hold.mem_iff.mpr List.mem_cons_self)
    · exact h.rcq q (hold.mem_iff.mpr (List.mem_cons_of_mem o hq))

theorem Device.Linked.netRecv {iovs : List (List UInt8)} {calloc : Bool} (h : d.Linked)
    (hc : d.netRecv iovs calloc = .ok d') : d'.Linked := by
  unfold Device.netRecv at hc
  obtain ⟨pkt, -, hc⟩ := bind_eq_ok.mp hc
  cases pkt with
  | none =>
    obtain rfl := Except.ok.inj hc
    exact h
  | some pkt =>
    dsimp only at hc
    split at hc
    · obtain rfl := Except.ok.inj hc
      exact h
    · exact h.onQp hc

end onQp

/-! ## Runs -/

/-- A `roce_create_qp` that succeeds finds its receive CQ. -/
def Device.GivesRcq (d : Device) : DevOp → Prop
  | .createQp a calloc _ _ => roceResourceGet d.cqs a.recvCq ≠ none ∨ d.refuses a calloc
  | _ => True

/-- One step of the device. -/
theorem devStep_linked (d : Device) (op : DevOp) (d' : Device) (h : d.Linked) (hok : d.GivesRcq op)
    (hs : devStep d op = .ok d') : d'.Linked := by
  cases op with
  | allocPd calloc =>
    obtain rfl := Except.ok.inj hs
    exact h.withCtx (roceAllocPd_tally h.pds calloc)
  | deallocPd pdHandle =>
    obtain rfl := Except.ok.inj hs
    exact h.withCtx (roceDeallocPd_tally h.pds pdHandle)
  | createCq cqe calloc =>
    obtain rfl := Except.ok.inj hs
    exact roceCreateCq_linked h cqe calloc
  | destroyCq cqHandle =>
    obtain rfl := Except.ok.inj hs
    exact roceDestroyCq_linked h cqHandle
  | createAh pdHandle attr calloc =>
    obtain ⟨⟨ret, ctx⟩, hr, hs⟩ := bind_eq_ok.mp hs
    obtain rfl := Except.ok.inj hs
    exact h.withCtx (roceCreateAh_tally h.pds h.fewQps hr)
  | destroyAh ahHandle =>
    obtain ⟨⟨ret, ctx⟩, hr, hs⟩ := bind_eq_ok.mp hs
    obtain rfl := Except.ok.inj hs
    exact h.withCtx (roceDestroyAh_tally h.pds hr)
  | createMr a calloc random0 random1 =>
    obtain ⟨⟨ret, ctx⟩, hr, hs⟩ := bind_eq_ok.mp hs
    obtain rfl := Except.ok.inj hs
    exact h.withCtx (roceCreateMr_tally h.pds h.fewQps hr)
  | destroyMr mrHandle =>
    obtain ⟨⟨ret, ctx⟩, hr, hs⟩ := bind_eq_ok.mp hs
    obtain rfl := Except.ok.inj hs
    exact h.withCtx ((roceDestroyMr_pdsKept hr).pdTally h.pds)
  | createQp a calloc random0 random1 =>
    obtain ⟨⟨ret, d1⟩, hr, hs⟩ := bind_eq_ok.mp hs
    obtain rfl := Except.ok.inj hs
    exact h.createQp hok hr
  | destroyQp qpHandle =>
    obtain ⟨⟨ret, d1⟩, hr, hs⟩ := bind_eq_ok.mp hs
    obtain rfl := Except.ok.inj hs
    exact h.destroyQp hr
  | onQp qpHandle call => exact h.onQp hs
  | netRecv iovs calloc => exact h.netRecv hs

/-! ## Initialisation -/

/-- The device of `roce_init_device` before SMI and GSI. -/
def RoceDevicePara.device (para : RoceDevicePara) (ctx : RoceCtx) : Device :=
  { ctx := { ctx with
      devAttr := para.toRoceDeviceAttr
      pds := List.replicate para.maxPd.toNat none
      mrs := List.replicate para.maxMr.toNat none
      ahs := List.replicate para.maxAh.toNat none }
    maxCqe := para.maxCqe
    cqs := List.replicate para.maxCq.toNat none
    qps := List.replicate para.maxQp.toNat none
    smi := none
    gsi := none }

theorem initResource_ok {size min max : UInt32} {calloc : Bool}
    (h : initResource size min max calloc = true) : min.toNat ≤ size.toNat ∧ size.toNat ≤ max.toNat := by
  unfold initResource at h
  rw [Bool.and_eq_true, Bool.not_eq_true', Bool.or_eq_false_iff, decide_eq_false_iff_not,
    decide_eq_false_iff_not, UInt32.not_lt, UInt32.not_lt] at h
  exact ⟨UInt32.le_iff_toNat_le.mp h.1.1, UInt32.le_iff_toNat_le.mp h.1.2⟩

/-- What a successful `roce_init_device` gives. -/
theorem roceInitDevice_ok {ctx : RoceCtx} {para : RoceDevicePara} {calloc callocQp : Nat → Bool}
    {d : Device} (h : roceInitDevice ctx para calloc callocQp = .ok d) :
    d = (para.device ctx).allocSpecialQps callocQp ∧ para.maxMr.toNat ≤ 2 ^ 24 ∧
      para.maxAh.toNat ≤ 2 ^ 24 ∧ 3 ≤ para.maxQp.toNat ∧ para.maxQp.toNat ≤ 2 ^ 24 := by
  unfold roceInitDevice at h
  repeat (split at h; · cases h)
  split at h
  swap
  · cases h
  next hres =>
  obtain rfl := Except.ok.inj h
  unfold devResources at hres
  simp only [initResources, Bool.and_eq_true] at hres
  obtain ⟨-, -, hmr, -, hqp, -, hah, -⟩ := hres
  refine ⟨rfl, (initResource_ok hmr).2, (initResource_ok hah).2, (initResource_ok hqp).1,
    (initResource_ok hqp).2⟩

/-- Both special QPs, or none. -/
theorem Device.allocSpecialQps_eq {d : Device} {n : Nat} (hqps : d.qps = List.replicate (n + 2) none)
    (calloc : Nat → Bool) :
    d.allocSpecialQps calloc =
      if calloc 0 = true ∧ calloc 1 = true then
        { d with
          qps := some .smi :: some .gsi :: List.replicate n none
          smi := some ⟨0, none⟩
          gsi := some ⟨1, none⟩ }
      else d := by
  have hnone : { d with qps := none :: none :: List.replicate n none } = d := by
    rw [← List.replicate_succ, ← List.replicate_succ, ← hqps]
  unfold Device.allocSpecialQps
  rw [hqps, List.replicate_succ, List.replicate_succ]
  by_cases h0 : calloc 0 = true
  · by_cases h1 : calloc 1 = true
    · rw [if_pos h0, if_pos ⟨h0, h1⟩]
      simp only [roceResourceAllocAt, List.getElem?_cons_zero, List.set_cons_zero, h1, if_true,
        List.getElem?_cons_succ, List.set_cons_succ]
    · rw [if_pos h0, if_neg fun h => h1 h.2]
      simp only [roceResourceAllocAt, List.getElem?_cons_zero, List.set_cons_zero, if_neg h1]
      exact hnone
  · rw [if_neg h0, if_neg fun h => h0 h.1]

/-- A device without objects but the special QPs. -/
structure Device.Fresh (d : Device) : Prop where
  heap : ∀ i o, Refs.get d.qps i ≠ some (.heap o)
  live : d.liveQps = []
  pds : PdTally [] d.ctx
  cqs : Tally RoceCq.ref d.cqs []
  mrs : ∃ n, d.ctx.mrs = List.replicate n none
  smi : ∀ g, d.smi = some g → g.used = none
  gsi : ∀ g, d.gsi = some g → g.used = none ∧ Refs.get d.qps 1 = some .gsi
  qps : d.qps.length ≤ 2 ^ 24

theorem Device.Fresh.linked {d : Device} (h : d.Fresh) : d.Linked := by
  refine ⟨?_, ?_, ?_, ⟨?_, h.smi, ?_, ?_⟩, h.qps⟩
  · rw [h.live]
    exact h.pds
  · unfold Device.cqUsers
    rw [h.live]
    exact h.cqs
  · rw [h.live]
    intro o ho
    cases ho
  · intro i o hi
    exact absurd hi (h.heap i o)
  · intro g hg _
    exact (h.gsi g hg).2
  · intro g o hg ho
    rw [(h.gsi g hg).1] at ho
    cases ho

theorem roceInitDevice_fresh {ctx : RoceCtx} {para : RoceDevicePara} {calloc callocQp : Nat → Bool}
    {d : Device} (h : roceInitDevice ctx para calloc callocQp = .ok d) : d.Fresh := by
  obtain ⟨rfl, hmr, hah, hqp3, hqp⟩ := roceInitDevice_ok h
  obtain ⟨n, hn⟩ : ∃ n, para.maxQp.toNat = n + 2 := ⟨para.maxQp.toNat - 2, by omega⟩
  have hpds : PdTally [] (para.device ctx).ctx := by
    refine ⟨?_, ?_, ?_⟩
    · show Tally RocePd.ref (List.replicate _ none) ([] ++ ((List.replicate _ none).reduceOption.map _ ++
        (List.replicate _ none).reduceOption.map _))
      rw [List.reduceOption_replicate_none, List.reduceOption_replicate_none]
      exact Tally.empty _
    · show (List.replicate para.maxMr.toNat none).length ≤ _
      rw [List.length_replicate]
      exact hmr
    · show (List.replicate para.maxAh.toNat none).length ≤ _
      rw [List.length_replicate]
      exact hah
  rw [Device.allocSpecialQps_eq (d := para.device ctx) (n := n) (by unfold RoceDevicePara.device; rw [hn])]
  split
  · refine ⟨?_, ?_, hpds, Tally.empty _, ⟨_, rfl⟩, ?_, ?_, ?_⟩
    · intro i o hi
      rcases i with _ | _ | i
      · cases hi
      · cases hi
      · have hi' : Refs.get (List.replicate n (none : Option QpPtr)) i = some (.heap o) := hi
        rw [Refs.get_replicate_none] at hi'
        cases hi'
    · unfold Device.liveQps Device.gsiQp
      simp only [Option.bind_some, Option.toList_none, List.nil_append,
        List.reduceOption_cons_of_some, List.reduceOption_replicate_none]
      rfl
    · intro g hg
      obtain rfl := Option.some.inj hg
      rfl
    · intro g hg
      obtain rfl := Option.some.inj hg
      exact ⟨rfl, rfl⟩
    · simp only [List.length_cons, List.length_replicate]
      omega
  · refine ⟨?_, ?_, hpds, Tally.empty _, ⟨_, rfl⟩, ?_, ?_, ?_⟩
    · intro i o hi
      have hi' : Refs.get (List.replicate para.maxQp.toNat (none : Option QpPtr)) i = some (.heap o) := hi
      rw [Refs.get_replicate_none] at hi'
      cases hi'
    · show [] ++ (List.replicate para.maxQp.toNat none).reduceOption.filterMap QpPtr.heapObj = []
      rw [List.reduceOption_replicate_none]
      rfl
    · intro g hg
      cases hg
    · intro g hg
      cases hg
    · show (List.replicate para.maxQp.toNat none).length ≤ _
      rw [List.length_replicate]
      exact hqp

theorem roceInitDevice_linked {ctx : RoceCtx} {para : RoceDevicePara} {calloc callocQp : Nat → Bool}
    {d : Device} (h : roceInitDevice ctx para calloc callocQp = .ok d) : d.Linked :=
  (roceInitDevice_fresh h).linked

/-! ## What it is for -/

/-- Somebody uses the PD. -/
def Device.PdInUse (d : Device) (i : Nat) : Prop :=
  (∃ o ∈ d.liveQps, o.qp.pd = i) ∨ (∃ ah ∈ d.ctx.ahs.reduceOption, ah.pd = i) ∨
    ∃ mr ∈ d.ctx.mrs.reduceOption, mr.pd = i

/-- A live QP uses the CQ. -/
def Device.CqInUse (d : Device) (i : Nat) : Prop :=
  ∃ o ∈ d.liveQps, o.qp.scq = i ∨ o.hasRcq = true ∧ o.qp.rcq = i

/-- Nobody points to an empty slot or to `NULL`, PDs and CQs count their users,
and they are refused exactly while they have some. -/
structure Device.Sound (d : Device) : Prop where
  qp : ∀ i o, d.getQp i = some o → o.hasRcq = true ∧ roceResourceGet d.ctx.pds o.qp.pd ≠ none ∧
    roceResourceGet d.cqs o.qp.scq ≠ none ∧ roceResourceGet d.cqs o.qp.rcq ≠ none
  ah : ∀ i ah, roceResourceGet d.ctx.ahs i = some ah → roceResourceGet d.ctx.pds ah.pd ≠ none
  mr : ∀ i mr, roceResourceGet d.ctx.mrs i = some mr → roceResourceGet d.ctx.pds mr.pd ≠ none
  pdRef : ∀ i pd, roceResourceGet d.ctx.pds i = some pd → pd.ref.toNat =
    (d.liveQps.map (·.qp.pd)).count i + (d.ctx.ahs.reduceOption.map (·.pd)).count i +
      (d.ctx.mrs.reduceOption.map (·.pd)).count i
  cqRef : ∀ i cq, roceResourceGet d.cqs i = some cq → cq.ref.toNat =
    (d.liveQps.map (·.qp.scq)).count i + (d.liveQps.map (·.qp.rcq)).count i
  deallocPd : ∀ i, roceResourceGet d.ctx.pds i ≠ none →
    ((roceDeallocPd d.ctx i).1 = eBUSY ↔ d.PdInUse i) ∧
      ((roceDeallocPd d.ctx i).1 = 0 ↔ ¬ d.PdInUse i)
  destroyCq : ∀ i, roceResourceGet d.cqs i ≠ none →
    ((roceDestroyCq d i).1 = eBUSY ↔ d.CqInUse i) ∧ ((roceDestroyCq d i).1 = 0 ↔ ¬ d.CqInUse i)

theorem Device.mem_pdUsers {d : Device} {i : Nat} : i ∈ d.pdUsers ↔ d.PdInUse i := by
  unfold Device.pdUsers pdUses Device.PdInUse
  simp only [List.mem_append, List.mem_map]

theorem Device.mem_cqUsers {d : Device} {i : Nat} : i ∈ d.cqUsers ↔ d.CqInUse i := by
  unfold Device.cqUsers Device.CqInUse QpObj.cqs
  rw [List.mem_flatMap]
  constructor
  · rintro ⟨o, ho, hi⟩
    refine ⟨o, ho, ?_⟩
    split at hi
    · next hhas =>
      rcases List.mem_cons.mp hi with rfl | hi
      · exact Or.inl rfl
      · exact Or.inr ⟨hhas, (List.mem_singleton.mp hi).symm⟩
    · exact Or.inl (List.mem_singleton.mp hi).symm
  · rintro ⟨o, ho, hi⟩
    refine ⟨o, ho, ?_⟩
    rcases hi with rfl | ⟨hhas, rfl⟩
    · exact List.mem_cons_self
    · rw [if_pos hhas]
      exact List.mem_cons_of_mem _ List.mem_cons_self

theorem count_cqUsers {os : List QpObj} (h : ∀ o ∈ os, o.hasRcq = true) (i : Nat) :
    (os.flatMap QpObj.cqs).count i = (os.map (·.qp.scq)).count i + (os.map (·.qp.rcq)).count i := by
  induction os with
  | nil => rfl
  | cons o os ih =>
    have ho : o.cqs = [o.qp.scq] ++ [o.qp.rcq] := by
      unfold QpObj.cqs
      rw [h o List.mem_cons_self]
      rfl
    rw [List.flatMap_cons, List.count_append, ih fun q hq => h q (List.mem_cons_of_mem o hq), ho,
      List.count_append, List.map_cons, List.map_cons, ← List.singleton_append (l := List.map _ os),
      List.count_append, ← List.singleton_append (l := List.map (·.qp.rcq) os), List.count_append]
    omega

theorem Device.Linked.sound {d : Device} (h : d.Linked) : d.Sound := by
  have hpds := h.pds.tally
  refine ⟨?_, ?_, ?_, ?_, ?_, ?_, ?_⟩
  · intro i o hi
    have ho := h.placed.mem_liveQps.mpr ⟨i, hi⟩
    refine ⟨h.rcq o ho, ?_, ?_, ?_⟩
    · exact hpds.live _ (Device.mem_pdUsers.mpr (Or.inl ⟨o, ho, rfl⟩))
    · exact h.cqs.live _ (Device.mem_cqUsers.mpr ⟨o, ho, Or.inl rfl⟩)
    · exact h.cqs.live _ (Device.mem_cqUsers.mpr ⟨o, ho, Or.inr ⟨h.rcq o ho, rfl⟩⟩)
  · intro i ah hi
    have hah := Refs.mem_entries.mpr ⟨i, hi⟩
    exact hpds.live _ (Device.mem_pdUsers.mpr (Or.inr (Or.inl ⟨ah, hah, rfl⟩)))
  · intro i mr hi
    have hmr := Refs.mem_entries.mpr ⟨i, hi⟩
    exact hpds.live _ (Device.mem_pdUsers.mpr (Or.inr (Or.inr ⟨mr, hmr, rfl⟩)))
  · intro i pd hi
    rw [hpds.count i pd hi, pdUses, List.count_append, List.count_append, Nat.add_assoc]
  · intro i cq hi
    rw [h.cqs.count i cq hi]
    exact count_cqUsers h.rcq i
  · intro i hi
    obtain ⟨pd, hpd⟩ := Option.ne_none_iff_exists'.mp hi
    have hzero : pd.ref = 0 ↔ i ∉ d.pdUsers := hpds.ref_eq_zero hpd
    rw [Device.mem_pdUsers] at hzero
    unfold roceDeallocPd
    simp only [hpd]
    by_cases hr : pd.ref = 0
    · rw [if_neg (not_not.mpr hr)]
      exact ⟨iff_of_false (by decide : (0 : Int) ≠ eBUSY) (hzero.mp hr), iff_of_true rfl (hzero.mp hr)⟩
    · rw [if_pos hr]
      have huse := not_not.mp fun hno => hr (hzero.mpr hno)
      exact ⟨iff_of_true rfl huse, iff_of_false (by decide : eBUSY ≠ 0) (not_not.mpr huse)⟩
  · intro i hi
    obtain ⟨cq, hcq⟩ := Option.ne_none_iff_exists'.mp hi
    have hzero : cq.ref = 0 ↔ i ∉ d.cqUsers := h.cqs.ref_eq_zero hcq
    rw [Device.mem_cqUsers] at hzero
    unfold roceDestroyCq
    simp only [hcq]
    by_cases hr : cq.ref = 0
    · rw [if_neg (not_not.mpr hr)]
      exact ⟨iff_of_false (by decide : (0 : Int) ≠ eBUSY) (hzero.mp hr), iff_of_true rfl (hzero.mp hr)⟩
    · rw [if_pos hr]
      have huse := not_not.mp fun hno => hr (hzero.mpr hno)
      exact ⟨iff_of_true rfl huse, iff_of_false (by decide : eBUSY ≠ 0) (not_not.mpr huse)⟩

/-- **PDs and CQs outlive their users** throughout every run from
`roce_init_device` in which no QP is created without its receive CQ. -/
theorem devRun_linked {ctx : RoceCtx} {para : RoceDevicePara} {calloc callocQp : Nat → Bool}
    {d : Device} (h0 : roceInitDevice ctx para calloc callocQp = .ok d) (ops : List DevOp)
    (hrcq : Machine.Along devStep Device.GivesRcq d ops) :
    Machine.Throughout devStep Device.Sound d ops :=
  Machine.throughout_imp (fun _ h => h.sound)
    (Machine.throughout_of_along devStep_linked (roceInitDevice_linked h0) hrcq)

/-- A PD, a CQ and a QP with that CQ twice. -/
theorem devRun_linked_one : ∃ d, roceInitDevice smallCtx smallPara (fun _ => true) (fun _ => true) = .ok d ∧
    Machine.Throughout devStep Device.Sound d
      [.allocPd true, .createCq 16 true, .createQp (smallQpArgs .rc 0) true 0 0] := by
  have hinit : roceInitDevice smallCtx smallPara (fun _ => true) (fun _ => true) = .ok _ := rfl
  refine ⟨_, hinit, devRun_linked hinit _ ⟨trivial, ?_⟩⟩
  rintro d1 h1
  obtain rfl := Except.ok.inj h1
  refine ⟨trivial, ?_⟩
  rintro d2 h2
  obtain rfl := Except.ok.inj h2
  exact ⟨Or.inl (Option.some_ne_none (⟨0⟩ : RoceCq)), fun _ _ => trivial⟩

/-- Without a receive CQ of that handle the QP is created all the same. -/
theorem devRun_linked_noRcq :
    ¬ ∀ (ctx : RoceCtx) (para : RoceDevicePara) (calloc callocQp : Nat → Bool) (d : Device)
      (ops : List DevOp), roceInitDevice ctx para calloc callocQp = .ok d →
        Machine.Throughout devStep Device.Sound d ops := by
  intro h
  obtain ⟨d, hd, t, ht, hno⟩ : ∃ d, roceInitDevice smallCtx smallPara (fun _ => true) (fun _ => true) =
      .ok d ∧ ∃ t, Machine.run devStep d
        [.allocPd true, .createCq 16 true, .createQp (smallQpArgs .rc 99) true 0 0] = .ok t ∧
        (t.getQp 2).map (·.hasRcq) = some false := ⟨_, rfl, _, rfl, rfl⟩
  have hsound := Machine.throughout_iff.mp (h _ _ _ _ d _ hd) _ [] t (List.append_nil _).symm ht
  obtain ⟨o, ho, hfalse⟩ := Option.map_eq_some_iff.mp hno
  rw [(hsound.qp 2 o ho).1] at hfalse
  cases hfalse

end Libroce
