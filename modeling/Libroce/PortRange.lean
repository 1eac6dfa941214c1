import Libroce.Addressing
import Libroce.ModifyQp
import Libroce.DeviceSpecial

/-!
# Port numbers

Ports are numbered from 1, and a QP is created with number 1.  `roce_modify_qp`
stores any number up to `ROCE_MAX_PORTS`, 0 among them, and reads the number in
the caller's attributes whether or not its bit is set.

    EachQp P         P holds of each QP in use
    GivesPort        a modification that stores or reads a number gives one from 1 on

Main statement: `devRun_ports`.
-/

namespace Libroce

open Outcome Machine

/-! ## Modification -/

/-- A clause that fails was reached, and what it does not refuse is passed. -/
theorem modifyClauses_fault {ctx : RoceCtx} {attr : RoceQpAttr} {attrMask : UInt32}
    {clauses : List (UInt32 × Clause)} (hc : ∀ c ∈ clauses, ClauseOf ctx attr c) {qp : RoceQp} {e : Fault}
    (h : modifyClauses attrMask clauses qp = .error e) :
    ∃ c ∈ clauses, ∃ qp1, c.2 qp1 = .error e ∧ (bitRefused ctx qp.req attr c.1 = false →
      c.1 ∈ passedBits ctx qp.req attr attrMask (clauses.map (·.1))) := by
  induction clauses generalizing qp with
  | nil => cases h
  | cons c clauses ih =>
    obtain ⟨bit, clause⟩ := c
    obtain ⟨hclause, hc'⟩ := List.forall_mem_cons.mp hc
    rw [modifyClauses] at h
    rw [List.map_cons]
    unfold passedBits
    by_cases hsel : attrMask &&& bit = 0
    · rw [if_pos hsel] at h
      rw [List.filter_cons_of_neg (by rw [selects_eq_false.mpr hsel]; decide)]
      obtain ⟨c, hmem, qp1, hfail, hpassed⟩ := ih hc' h
      exact ⟨c, List.mem_cons_of_mem _ hmem, qp1, hfail, hpassed⟩
    · rw [if_neg hsel] at h
      rw [List.filter_cons_of_pos (by simpa [selects] using hsel)]
      cases hrun : clause qp with
      | error e' =>
        rw [hrun] at h
        obtain rfl := Except.error.inj h
        refine ⟨_, List.mem_cons_self, qp, hrun, fun hr => ?_⟩
        rw [List.takeWhile_cons_of_pos (by rw [hr]; decide)]
        exact List.mem_cons_self
      | ok r =>
        obtain ⟨ret1, qp1⟩ := r
        simp only [hrun] at h
        cases hclause qp ret1 qp1 hrun with
        | refuses hret hr =>
          rw [if_pos hret] at h
          cases h
        | stores hr =>
          rw [if_neg (by decide)] at h
          obtain ⟨c, hmem, qp2, hfail, hpassed⟩ := ih hc' h
          refine ⟨c, List.mem_cons_of_mem _ hmem, qp2, hfail, fun hr' => ?_⟩
          rw [List.takeWhile_cons_of_pos (by rw [hr]; decide)]
          exact List.mem_cons_of_mem _ (hpassed hr')

/-- The GID tables have their length. -/
def GidTables (ctx : RoceCtx) : Prop := ∀ port ∈ ctx.ports, port.gids.length = roceGidTblLen.toNat

/-- The numbers that a modification looks up by. -/
def ModifyPortIn (ctx : RoceCtx) (qp : RoceQp) (attr : RoceQpAttr) (attrMask : UInt32) : Prop :=
  PortIn ctx 1 ∧ (roceQpPathMtu ∈ storedBits ctx qp attr attrMask → PortIn ctx attr.portNum)

theorem roceModifyQpAh_ends (ctx : RoceCtx) (ahAttr : RoceAhAttr) (qp : RoceQp) :
    Ends (fun _ => True) (Fault.Blames (¬PortIn ctx 1) (¬GidTables ctx)) (roceModifyQpAh ctx ahAttr qp) := by
  unfold roceModifyQpAh
  refine Ends.ite (fun _ => trivial) fun hlt => ?_
  have hport := portAt_ends ctx 1
  split
  · next he => exact (hport.fault he).mono id False.elim
  · next port hp =>
    split
    · next hnone =>
      intro hlen
      have hle := List.getElem?_eq_none_iff.mp hnone
      have hidx : ahAttr.sgidIndex.toNat < roceGidTblLen.toNat :=
        UInt8.lt_iff_toNat_lt.mp (UInt8.not_le.mp hlt)
      have heq := hlen port (hport.result hp)
      omega
    · exact Ends.ite (fun _ => trivial) fun _ => trivial

/-- **Modification.** -/
theorem roceModifyQp_ends (ctx : RoceCtx) (qp : RoceQp) (attr : RoceQpAttr) (attrMask : UInt32) :
    Ends (fun r => r.2 = qp.stored (storedBits ctx qp attr attrMask) attr)
      (Fault.Blames (¬ModifyPortIn ctx qp attr attrMask) (¬GidTables ctx))
      (roceModifyQp ctx qp attr attrMask) := by
  cases h : roceModifyQp ctx qp attr attrMask with
  | ok r => exact roceModifyQp_stored h
  | error e =>
    unfold roceModifyQp at h
    by_cases hmask : attrMask &&& unsupportedQpAttr ≠ 0
    · rw [if_pos hmask] at h
      cases h
    rw [if_neg hmask] at h
    have hbits : storedBits ctx qp attr attrMask = acceptedBits ctx qp attr attrMask := if_neg hmask
    obtain ⟨c, hmem, qp1, hfail, hpassed⟩ := modifyClauses_fault (modifyAll_clauses ctx attr) h
    rw [modifyAll_bits] at hpassed
    have hstore : ∀ f, store f qp1 ≠ .error e := fun f hf => by cases hf
    have hcheck : ∀ (c : Prop) [Decidable c] (code : Int) f,
        (if c then .ok (code, qp1) else store f qp1) ≠ .error e := by
      intro c _ code f hf
      by_cases hc : c
      · rw [if_pos hc] at hf
        cases hf
      · rw [if_neg hc] at hf
        cases hf
    have hsq : modifySqPsn attr qp1 ≠ .error e := by
      intro hf
      unfold modifySqPsn at hf
      split at hf
      · cases hf
      · cases hf
    have hmtu : modifyPathMtu ctx attr qp1 = .error e →
        (bitRefused ctx qp.req attr roceQpPathMtu = false →
          roceQpPathMtu ∈ acceptedBits ctx qp attr attrMask) →
        e.Blames (¬ModifyPortIn ctx qp attr attrMask) (¬GidTables ctx) := by
      intro hf hacc
      unfold modifyPathMtu at hf
      have hr : bitRefused ctx qp.req attr roceQpPathMtu = mtuRefused ctx attr := rfl
      unfold mtuRefused at hr
      by_cases hvalid : roceValidMtu attr.pathMtu = true
      · rw [if_pos hvalid] at hf hr
        cases hport : portAt ctx attr.portNum with
        | error e' =>
          simp only [hport] at hf hr
          obtain rfl := Except.error.inj hf
          refine ((portAt_ends ctx attr.portNum).fault hport).mono (fun hn hin => ?_) False.elim
          apply hn
          apply hin.2
          rw [hbits]
          exact hacc hr
        | ok port =>
          simp only [hport] at hf
          exact absurd hf (hcheck _ _ _)
      · rw [if_neg hvalid] at hf
        cases hf
    have hav : roceModifyQpAh ctx attr.ahAttr qp1 = .error e →
        e.Blames (¬ModifyPortIn ctx qp attr attrMask) (¬GidTables ctx) := fun hf =>
      ((roceModifyQpAh_ends ctx attr.ahAttr qp1).fault hf).mono (fun hn hin => hn hin.1) id
    unfold modifyAll modifyBefore modifyAfter at hmem
    simp only [List.cons_append, List.nil_append, List.mem_cons, List.not_mem_nil, or_false] at hmem
    rcases hmem with rfl | rfl | rfl | rfl | rfl | rfl | rfl | rfl | rfl | rfl | rfl | rfl | rfl <;>
      dsimp only at hfail hpassed
    · exact absurd hfail (hstore _)
    · exact absurd hfail (hstore _)
    · exact absurd hfail (hcheck _ _ _)
    · exact absurd hfail (hcheck _ _ _)
    · exact hav hfail
    · exact absurd hfail (hstore _)
    · exact hmtu hfail hpassed
    · exact absurd hfail hsq
    · exact absurd hfail (hstore _)
    · exact absurd hfail (hstore _)
    · exact absurd hfail (hstore _)
    · exact absurd hfail (hcheck _ _ _)
    · exact absurd hfail (hstore _)

/-! ## Calls -/

/-- The numbers that a call looks ports up by. -/
def QpCall.portsIn (s : St) : QpCall → Prop
  | .modify attr attrMask => ModifyPortIn s.ctx s.qp attr attrMask
  | .postRecv _ _ _ => True
  | .postSend _ _ => PortsIn s.ctx s.qp
  | .recv _ _ => PortsIn s.ctx s.qp

/-- The address vectors that it looks GIDs up by. -/
def QpCall.gidsIn (s : St) : QpCall → Prop
  | .modify _ _ => GidTables s.ctx
  | .postRecv _ _ _ => True
  | .postSend wr _ => PostGidIn s wr.fresh
  | .recv _ _ => s.qp.qpType = .rc → GidIn s.ctx s.qp.attr.ahAttr

/-- The route that it leaves. -/
def QpCall.route (s : St) : QpCall → QpType × UInt8 × RoceAhAttr
  | .modify attr attrMask => (s.qp.stored (storedBits s.ctx s.qp attr attrMask) attr).route
  | _ => s.qp.route

/-- **Every call on a QP.** -/
theorem qpStep_ends (s : St) (call : QpCall) :
    Ends (fun t => SameTables s.ctx t.ctx ∧ t.qp.route = call.route s)
      (Fault.Blames (¬call.portsIn s) (¬call.gidsIn s)) (qpStep s call) := by
  cases call with
  | modify attr attrMask =>
    refine Ends.bind (roceModifyQp_ends s.ctx s.qp attr attrMask) fun r _ hr => ?_
    refine ⟨.refl _, ?_⟩
    show r.2.route = _
    rw [hr]
    rfl
  | postRecv p wrId sge =>
    refine Ends.bind (rocePostRecv_stays s p (.fresh wrId sge)).routes fun r _ hr => ?_
    exact ⟨hr.tables, hr.qp⟩
  | postSend wr calloc =>
    refine Ends.mono (rocePostSend_routes id wr.fresh id calloc) (fun t _ ht => ?_) fun _ he => he
    exact ⟨ht.tables, ht.qp⟩
  | recv d calloc =>
    have hrecv := roceRecvBth_routes (s := s) id (G := ¬(s.qp.qpType = .rc → GidIn s.ctx s.qp.attr.ahAttr))
      (fun htype hn hin => hn (hin htype)) d calloc
    refine Ends.bind hrecv fun r _ hr => ?_
    exact ⟨hr.tables, hr.qp⟩

theorem roceNetDecap_ends (ctx : RoceCtx) (iovs : List (List UInt8)) :
    Ends (fun _ => True) (Fault.Blames (¬PortIn ctx 1) False) (roceNetDecap ctx iovs) := by
  have hihl : ∀ type iovs, Ends (fun _ => True) (Fault.Blames (¬PortIn ctx 1) False) (decapIp type iovs) := by
    intro type iovs
    unfold decapIp
    refine Ends.ite (fun _ => ?_) fun _ => Ends.ite (fun _ => ?_) fun _ => trivial
    · split
      · exact trivial
      · refine Ends.bind (Q := fun _ => True) ?_ fun _ _ _ => trivial
        unfold decapIhl
        dsimp only
        refine Ends.ite (fun _ => trivial) fun _ => ?_
        exact Ends.ite (fun _ => trivial) fun _ => trivial
    · split
      · exact trivial
      · exact trivial
  have hport := portAt_ends ctx 1
  unfold roceNetDecap
  refine Ends.ite (fun _ => trivial) fun _ => ?_
  split
  · next he => exact hport.fault he
  · dsimp only
    refine Ends.ite (fun _ => trivial) fun _ => ?_
    split
    · exact trivial
    · refine Ends.ite (fun _ => ?_) fun _ => trivial
      refine Ends.bind (hihl _ _) fun o _ _ => ?_
      cases o with
      | none => exact trivial
      | some r => exact trivial

/-! ## The QPs of a device -/

/-- The step makes the call on `o`. -/
inductive Device.Performs (d : Device) (o : QpObj) : DevOp → QpCall → Prop where
  | call {i : Nat} {call : QpCall} (hget : d.getQp i = some o) : Performs d o (.onQp i call) call
  | recv {iovs : List (List UInt8)} {calloc : Bool} {pkt : Decap}
      (hdecap : roceNetDecap d.ctx iovs = .ok (some pkt)) (h0 : (ibBthGetDestqp pkt.bth).toNat ≠ 0)
      (hget : d.getQp (ibBthGetDestqp pkt.bth).toNat = some o) :
      Performs d o (.netRecv iovs calloc) (.recv pkt calloc)

/-- `P` holds of each QP in use. -/
structure Device.EachQp (P : QpObj → Prop) (d : Device) : Prop where
  heap : ∀ i o, roceResourceGet d.qps i = some (.heap o) → P o
  smi : ∀ g o, d.smi = some g → g.used = some o → P o
  gsi : ∀ g o, d.gsi = some g → g.used = some o → P o

section each

variable {P : QpObj → Prop} {d d' : Device}

theorem Device.eachQp_iff : d.EachQp P ↔ (∀ p ∈ d.qps.reduceOption, ∀ o ∈ d.objOf p, P o) ∧
    (∀ g ∈ d.smi, ∀ o ∈ g.used, P o) ∧ ∀ g ∈ d.gsi, ∀ o ∈ g.used, P o := by
  constructor
  · intro h
    refine ⟨fun p hp o ho => ?_, fun g hg o ho => h.smi g o hg ho, fun g hg o ho => h.gsi g o hg ho⟩
    cases p with
    | smi =>
      obtain ⟨g, hg, hused⟩ := Option.bind_eq_some_iff.mp ho
      exact h.smi g o hg hused
    | gsi =>
      obtain ⟨g, hg, hused⟩ := Option.bind_eq_some_iff.mp ho
      exact h.gsi g o hg hused
    | heap o' =>
      obtain rfl := Option.some.inj ho
      obtain ⟨i, hi⟩ := List.getElem?_of_mem (List.reduceOption_mem_iff.mp hp)
      exact h.heap i _ (Option.join_eq_some_iff.mpr hi)
  · rintro ⟨hheap, hsmi, hgsi⟩
    refine ⟨fun i o hget => ?_, fun g o hg ho => hsmi g hg o ho, fun g o hg ho => hgsi g hg o ho⟩
    have hmem := List.mem_of_getElem? (Option.join_eq_some_iff.mp hget)
    exact hheap _ (List.reduceOption_mem_iff.mpr hmem) o rfl

instance [DecidablePred P] : Decidable (d.EachQp P) := decidable_of_iff _ Device.eachQp_iff.symm

theorem Device.EachQp.congr (h : d.EachQp P) (hsame : d.SameTable d') : d'.EachQp P := by
  constructor
  · rw [hsame.qps]
    exact h.heap
  · rw [hsame.smi]
    exact h.smi
  · rw [hsame.gsi]
    exact h.gsi

theorem Device.EachQp.mono {Q : QpObj → Prop} (h : d.EachQp P) (hPQ : ∀ o, P o → Q o) : d.EachQp Q := by
  constructor
  · exact fun i o hget => hPQ o (h.heap i o hget)
  · exact fun g o hg hused => hPQ o (h.smi g o hg hused)
  · exact fun g o hg hused => hPQ o (h.gsi g o hg hused)

theorem Device.EachQp.and {Q : QpObj → Prop} (h : d.EachQp P) (h' : d.EachQp Q) :
    d.EachQp fun o => P o ∧ Q o := by
  constructor
  · exact fun i o hget => ⟨h.heap i o hget, h'.heap i o hget⟩
  · exact fun g o hg hused => ⟨h.smi g o hg hused, h'.smi g o hg hused⟩
  · exact fun g o hg hused => ⟨h.gsi g o hg hused, h'.gsi g o hg hused⟩

theorem Device.EachQp.getQp (h : d.EachQp P) {i : Nat} {o : QpObj} (hget : d.getQp i = some o) : P o := by
  unfold Device.getQp at hget
  obtain ⟨ptr, hptr, hobj⟩ := Option.bind_eq_some_iff.mp hget
  cases ptr with
  | smi =>
    obtain ⟨g, hg, hused⟩ := Option.bind_eq_some_iff.mp hobj
    exact h.smi g o hg hused
  | gsi =>
    obtain ⟨g, hg, hused⟩ := Option.bind_eq_some_iff.mp hobj
    exact h.gsi g o hg hused
  | heap o' =>
    obtain rfl := Option.some.inj hobj
    exact h.heap i _ hptr

/-- A slot filled with such a QP, or emptied. -/
theorem Device.EachQp.set {i : Nat} {v : Option QpPtr} (h : d.EachQp P)
    (hv : ∀ o, v = some (.heap o) → P o) : Device.EachQp P { d with qps := d.qps.set i v } := by
  refine ⟨fun j o hget => ?_, h.smi, h.gsi⟩
  have hslot : (d.qps.set i v)[j]? = some (some (.heap o)) := Option.join_eq_some_iff.mp hget
  rw [List.getElem?_set] at hslot
  by_cases hij : i = j
  · rw [if_pos hij] at hslot
    split at hslot
    · exact hv o (Option.some.inj hslot)
    · cases hslot
  · rw [if_neg hij] at hslot
    exact h.heap j o (Option.join_eq_some_iff.mpr hslot)

theorem Device.EachQp.putBack (h : d.EachQp P) {i : Nat} {o : QpObj} (ho : P o) :
    (d.putBack i o).EachQp P := by
  unfold Device.putBack
  split
  · exact h
  · refine ⟨h.heap, fun g o' hg hused => ?_, h.gsi⟩
    obtain ⟨g', -, rfl⟩ := Option.map_eq_some_iff.mp hg
    obtain rfl := Option.some.inj hused
    exact ho
  · refine ⟨h.heap, h.smi, fun g o' hg hused => ?_⟩
    obtain ⟨g', -, rfl⟩ := Option.map_eq_some_iff.mp hg
    obtain rfl := Option.some.inj hused
    exact ho
  · refine h.set fun o' ho' => ?_
    obtain rfl := QpPtr.heap.inj (Option.some.inj ho')
    exact ho

theorem Device.EachQp.createQp (h : d.EachQp P) (hnew : ∀ o a rcq, QpObj.NewFor o a rcq → P o)
    {a : QpArgs} {calloc : Bool} {random0 random1 : UInt32} {ret : Int}
    (hc : d.createQp a calloc random0 random1 = .ok (ret, d')) : d'.EachQp P := by
  rcases Device.createQp_makes hc with ⟨-, rfl | ⟨ctx, ctx', -, -, rfl⟩⟩ | ⟨rcq, ctx, cqs, -, hm, -⟩
  · exact h
  · exact h.congr ⟨rfl, rfl, rfl⟩
  · have h' : Device.EachQp P { d with ctx := ctx, cqs := cqs } := h.congr ⟨rfl, rfl, rfl⟩
    cases hm with
    | refused hput =>
      obtain ⟨-, ctx', cqs', -, rfl⟩ := Device.putResource_same hput
      exact h'.congr ⟨rfl, rfl, rfl⟩
    | gsi o htype hfree ho hhandle =>
      refine ⟨h'.heap, h'.smi, fun g o' hg hused => ?_⟩
      obtain rfl := Option.some.inj hg
      obtain rfl := Option.some.inj hused
      exact hnew _ _ _ ho
    | heap i o htype hcalloc hempty ho hhandle =>
      refine h'.set fun o' ho' => ?_
      obtain rfl := QpPtr.heap.inj (Option.some.inj ho')
      exact hnew _ _ _ ho

theorem Device.EachQp.destroyQp (h : d.EachQp P) {i : Nat} {ret : Int}
    (hd : d.destroyQp i = .ok (ret, d')) : d'.EachQp P := by
  unfold Device.destroyQp at hd
  cases hget : d.getQp i with
  | none =>
    rw [hget] at hd
    cases hd
  | some o =>
    simp only [hget] at hd
    by_cases hrcq : o.hasRcq = true
    · rw [if_pos hrcq] at hd
      obtain ⟨ctx1, -, hd⟩ := bind_eq_ok.mp hd
      obtain ⟨cqs1, -, hd⟩ := bind_eq_ok.mp hd
      obtain ⟨cqs2, -, hd⟩ := bind_eq_ok.mp hd
      obtain ⟨ctx2, -, hd⟩ := bind_eq_ok.mp hd
      obtain ⟨ctx3, -, hd⟩ := bind_eq_ok.mp hd
      obtain ⟨-, rfl⟩ := Prod.mk.inj (Except.ok.inj hd)
      have h' : Device.EachQp P { d with ctx := ctx3, cqs := cqs2 } := h.congr ⟨rfl, rfl, rfl⟩
      have hset := h'.set (i := o.qp.handle.toNat) (v := none) fun o' ho' => by cases ho'
      unfold Device.releaseQp
      split
      · refine ⟨hset.heap, hset.smi, fun g o' hg hused => ?_⟩
        obtain ⟨g', -, rfl⟩ := Option.map_eq_some_iff.mp hg
        cases hused
      · exact hset
    · rw [if_neg hrcq] at hd
      cases hd

theorem Device.EachQp.onQp (h : d.EachQp P) {i : Nat} {call : QpCall}
    (hcall : ∀ o s, d.getQp i = some o → qpStep ⟨d.ctx, o.qp⟩ call = .ok s → P { o with qp := s.qp })
    (hc : d.onQp i call = .ok d') : d'.EachQp P := by
  unfold Device.onQp at hc
  cases hget : d.getQp i with
  | none =>
    rw [hget] at hc
    cases hc
  | some o =>
    simp only [hget] at hc
    obtain ⟨s, hs, hc⟩ := bind_eq_ok.mp hc
    obtain rfl := Except.ok.inj hc
    have h' : Device.EachQp P { d with ctx := s.ctx } := h.congr ⟨rfl, rfl, rfl⟩
    exact h'.putBack (hcall o s hget hs)

/-- **One step of the device.**  What new QPs have and calls keep, each QP has. -/
theorem Device.EachQp.devStep (h : d.EachQp P) (hnew : ∀ o a rcq, QpObj.NewFor o a rcq → P o) {op : DevOp}
    (hcall : ∀ o call s, P o → d.Performs o op call → qpStep ⟨d.ctx, o.qp⟩ call = .ok s →
      P { o with qp := s.qp })
    (hs : Libroce.devStep d op = .ok d') : d'.EachQp P := by
  cases devStep_qps hs with
  | same hsame => exact h.congr hsame
  | createQp hc => exact h.createQp hnew hc
  | destroyQp hd => exact h.destroyQp hd
  | onQp hc =>
    refine h.onQp ?_ hc
    intro o s hget hstep
    exact hcall o _ s (h.getQp hget) (.call hget) hstep
  | netRecv hdecap h0 hc =>
    refine h.onQp ?_ hc
    intro o s hget hstep
    exact hcall o _ s (h.getQp hget) (.recv hdecap h0 hget) hstep

end each

/-! ## The lookups of a device -/

section device

variable {P G : Prop}

theorem freeSendWrs_ends (wrs : List SendWr) (ctx : RoceCtx) :
    Ends (SameTables ctx) (Fault.Blames P G) (freeSendWrs ctx wrs) := by
  induction wrs generalizing ctx with
  | nil => exact SameTables.refl ctx
  | cons wr wrs ih =>
    unfold freeSendWrs
    split
    · next he => exact (roceFreeSendWr_inner _ _).fault he
    · next ctx1 h1 =>
      exact (ih ctx1).mono (fun _ _ h => (roceFreeSendWr_refsOnly h1).sameTables.trans h) fun _ he => he

theorem freeRecvWrs_ends (ps : List UInt64) (ctx : RoceCtx) :
    Ends (SameTables ctx) (Fault.Blames P G) (freeRecvWrs ctx ps) := by
  induction ps generalizing ctx with
  | nil => exact SameTables.refl ctx
  | cons p ps ih =>
    unfold freeRecvWrs
    split
    · exact trivial
    · split
      · next he => exact (roceFreeRecvWr_inner _ _ _).fault he
      · next ctx1 h1 =>
        exact (ih ctx1).mono (fun _ _ h => (roceFreeRecvWr_tables h1).trans h) fun _ he => he

theorem assertPutPd_ends (ctx : RoceCtx) (pd : Nat) :
    Ends (SameTables ctx) (Fault.Blames P G) (assertPutPd ctx pd) := by
  unfold assertPutPd rocePutPd
  cases roceResourceGet ctx.pds pd with
  | none => exact trivial
  | some _ => exact ⟨rfl, rfl⟩

theorem roceGetPd_tables {ctx ctx' : RoceCtx} {pd : Nat} (h : roceGetPd ctx pd = some ctx') :
    SameTables ctx ctx' := by
  unfold roceGetPd at h
  cases hget : roceResourceGet ctx.pds pd with
  | none =>
    rw [hget] at h
    cases h
  | some _ =>
    rw [hget] at h
    obtain rfl := Option.some.inj h
    exact ⟨rfl, rfl⟩

theorem createMrType_inner (ctx : RoceCtx) (a : MrArgs) (pageSize : UInt32) :
    Inner (createMrType ctx a pageSize) := by
  unfold createMrType
  split
  · refine Ends.ite (fun _ => trivial) fun _ => ?_
    refine Ends.ite (fun _ => trivial) fun _ => ?_
    exact Ends.ite (fun _ => trivial) fun _ => trivial
  · refine Ends.ite (fun _ => trivial) fun _ => ?_
    exact Ends.ite (fun _ => trivial) fun _ => trivial
  · exact trivial

theorem roceCreateMr_ends (ctx : RoceCtx) (a : MrArgs) (calloc : Bool) (random0 random1 : UInt32) :
    Ends (fun r => SameTables ctx r.2) (Fault.Blames P G) (roceCreateMr ctx a calloc random0 random1) := by
  unfold roceCreateMr
  refine Ends.ite (fun _ => SameTables.refl ctx) fun _ => ?_
  cases hget : roceGetPd ctx a.pd with
  | none => exact SameTables.refl ctx
  | some ctx1 =>
    have h1 := roceGetPd_tables hget
    have hput := assertPutPd_ends (P := P) (G := G) ctx1 a.pd
    unfold createMrAlloc
    dsimp only
    -- every failed allocation puts the PD
    cases h2 : assertPutPd ctx1 a.pd with
    | error e =>
      have hfault := hput.fault h2
      refine Ends.ite (fun _ => ?_) fun _ => hfault
      split
      · next he => exact (createMrType_inner _ _ _).fault he
      · exact hfault
      · split
        · exact hfault
        · exact h1.trans ⟨rfl, rfl⟩
    | ok ctx2 =>
      have hsame := h1.trans (hput.result h2)
      refine Ends.ite (fun _ => ?_) fun _ => hsame
      split
      · next he => exact (createMrType_inner _ _ _).fault he
      · exact hsame
      · split
        · exact hsame
        · exact h1.trans ⟨rfl, rfl⟩

theorem roceDestroyMr_ends (ctx : RoceCtx) (i : Nat) :
    Ends (fun r => SameTables ctx r.2) (Fault.Blames P G) (roceDestroyMr ctx i) := by
  cases h : roceDestroyMr ctx i with
  | ok r => exact (roceDestroyMr_refsOnly h).sameTables
  | error e => exact (roceDestroyMr_inner ctx i).fault h

/-- The ports stay, and each AH says what it said or is new. -/
structure Addresses (new : RoceAhAttr → Prop) (ctx ctx' : RoceCtx) : Prop where
  ports : ctx'.ports = ctx.ports
  ahs : ∀ i ah, roceResourceGet ctx'.ahs i = some ah →
    new ah.attr ∨ ∃ ah', roceResourceGet ctx.ahs i = some ah' ∧ ah'.attr = ah.attr

theorem SameTables.addresses {new : RoceAhAttr → Prop} {ctx ctx' : RoceCtx} (h : SameTables ctx ctx') :
    Addresses new ctx ctx' := by
  refine ⟨h.ports, fun i ah hget => Or.inr ?_⟩
  have hattr := h.ahAttr i
  rw [hget] at hattr
  exact Option.map_eq_some_iff.mp hattr.symm

/-- An AH in an empty slot, or a slot emptied. -/
theorem Addresses.set {new : RoceAhAttr → Prop} {ctx ctx' : RoceCtx} (h : SameTables ctx ctx') {i : Nat}
    {v : Option RoceAh} (hv : ∀ ah, v = some ah → new ah.attr) :
    Addresses new ctx { ctx' with ahs := ctx'.ahs.set i v } := by
  refine ⟨h.ports, fun j ah hget => ?_⟩
  have hslot : (ctx'.ahs.set i v)[j]? = some (some ah) := Option.join_eq_some_iff.mp hget
  rw [List.getElem?_set] at hslot
  by_cases hij : i = j
  · rw [if_pos hij] at hslot
    split at hslot
    · exact Or.inl (hv ah (Option.some.inj hslot))
    · cases hslot
  · rw [if_neg hij] at hslot
    exact h.addresses.ahs j ah (Option.join_eq_some_iff.mpr hslot)

theorem roceCreateAh_ends (ctx : RoceCtx) (pd : Nat) (attr : RoceAhAttr) (calloc : Bool) :
    Ends (fun r => Addresses (· = attr) ctx r.2) (Fault.Blames P G) (roceCreateAh ctx pd attr calloc) := by
  unfold roceCreateAh
  cases hget : roceGetPd ctx pd with
  | none => exact (SameTables.refl ctx).addresses
  | some ctx1 =>
    have h1 := roceGetPd_tables hget
    have hput : ∀ ret : Int, Ends (fun r => Addresses (· = attr) ctx r.2) (Fault.Blames P G)
        (assertPutPd ctx1 pd >>= fun ctx => Except.ok (ret, ctx)) := fun ret =>
      Ends.bind (assertPutPd_ends ctx1 pd) fun ctx2 _ h2 => (h1.trans h2).addresses
    refine Ends.ite (fun _ => ?_) fun _ => hput _
    split
    · exact hput _
    · next i ahs halloc =>
      obtain ⟨-, rfl⟩ := roceResourceAlloc_ok halloc
      refine Addresses.set h1 ?_
      intro ah hah
      obtain rfl := Option.some.inj hah
      rfl

theorem roceDestroyAh_ends {new : RoceAhAttr → Prop} (ctx : RoceCtx) (i : Nat) :
    Ends (fun r => Addresses new ctx r.2) (Fault.Blames P G) (roceDestroyAh ctx i) := by
  unfold roceDestroyAh
  split
  · exact (SameTables.refl ctx).addresses
  · refine Ends.ite (fun _ => (SameTables.refl ctx).addresses) fun _ => ?_
    have hset : Addresses new ctx { ctx with ahs := ctx.ahs.set i none } :=
      Addresses.set (SameTables.refl ctx) fun ah hah => by cases hah
    refine Ends.bind (assertPutPd_ends _ _) fun ctx2 _ h2 => ?_
    refine ⟨h2.ports.trans hset.ports, fun j ah hget => ?_⟩
    have hlast : Addresses (fun _ => False) { ctx with ahs := ctx.ahs.set i none } ctx2 := h2.addresses
    rcases hlast.ahs j ah hget with hn | ⟨ah', hget', hattr⟩
    · exact hn.elim
    · rw [← hattr]
      exact hset.ahs j ah' hget'

theorem Device.putResource_ends (d : Device) (a : QpArgs) (rcq : Bool) :
    Ends (fun r => SameTables d.ctx r.2.ctx) (Fault.Blames P G) (d.putResource a rcq) := by
  unfold Device.putResource
  refine Ends.bind (assertPutPd_ends d.ctx a.pd) fun ctx _ hctx => ?_
  refine (assertPutCq_inner _ _).bind fun cqs _ => ?_
  cases rcq with
  | false => exact hctx
  | true => exact (assertPutCq_inner _ _).bind fun _ _ => hctx

theorem Device.createQp_ends {d : Device} (hP : ¬PortIn d.ctx 1 → P) (a : QpArgs) (calloc : Bool)
    (random0 random1 : UInt32) : Ends (fun r => SameTables d.ctx r.2.ctx) (Fault.Blames P G)
      (d.createQp a calloc random0 random1) := by
  have hobj : ∀ d1 : Device, SameTables d.ctx d1.ctx → ∀ rcq,
      Ends (fun r => SameTables d.ctx r.2.ctx) (Fault.Blames P G)
        (d1.createQpObj a rcq calloc random0 random1) := by
    intro d1 h1 rcq
    have hput : Ends (fun r => SameTables d.ctx r.2.ctx) (Fault.Blames P G) (d1.putResource a rcq) :=
      (Device.putResource_ends d1 a rcq).mono (fun _ _ h => h1.trans h) fun _ he => he
    unfold Device.createQpObj
    have hport : Ends (fun _ => True) (Fault.Blames P G) (portAt d1.ctx 1) := by
      refine (portAt_ends d1.ctx 1).mono (fun _ _ _ => trivial) fun e he => ?_
      refine he.mono (fun hn => hP fun hin => hn ?_) False.elim
      unfold PortIn at hin ⊢
      rw [h1.ports]
      exact hin
    refine Ends.bind hport fun port _ _ => ?_
    refine Ends.ite (fun _ => ?_) fun _ => Ends.ite (fun _ => ?_) fun _ => hput
    · split
      · exact trivial
      · refine Ends.ite (fun _ => hput) fun _ => ?_
        exact (roceAssert_inner _ _).bind fun _ _ => h1
    · split
      · exact hput
      · exact h1
  unfold Device.createQp
  refine Ends.ite (fun _ => SameTables.refl _) fun _ => ?_
  refine Ends.ite (fun _ => SameTables.refl _) fun _ => ?_
  cases hget : roceGetPd d.ctx a.pd with
  | none => exact SameTables.refl _
  | some ctx =>
    have h1 := roceGetPd_tables hget
    dsimp only
    split
    · exact Ends.bind (assertPutPd_ends ctx a.pd) fun ctx2 _ h2 => h1.trans h2
    · split
      · exact hobj _ h1 _
      · exact hobj _ h1 _

theorem Device.destroyQp_ends (d : Device) (i : Nat) :
    Ends (fun r => SameTables d.ctx r.2.ctx) (Fault.Blames P G) (d.destroyQp i) := by
  unfold Device.destroyQp
  split
  · exact trivial
  · next o _ =>
    refine Ends.ite (fun _ => ?_) fun _ => trivial
    refine Ends.bind (assertPutPd_ends _ _) fun ctx1 _ h1 => ?_
    refine (assertPutCq_inner _ _).bind fun cqs1 _ => ?_
    refine (assertPutCq_inner _ _).bind fun cqs2 _ => ?_
    refine Ends.bind (freeSendWrs_ends _ ctx1) fun ctx2 _ h2 => ?_
    refine Ends.bind (freeRecvWrs_ends _ ctx2) fun ctx3 _ h3 => ?_
    have hall := (h1.trans h2).trans h3
    show SameTables d.ctx (Device.releaseQp _ o).ctx
    unfold Device.releaseQp
    split
    · exact hall
    · exact hall

theorem Device.putBack_ctx (d : Device) (i : Nat) (o : QpObj) : (d.putBack i o).ctx = d.ctx := by
  unfold Device.putBack
  split
  · rfl
  · rfl
  · rfl
  · rfl

theorem Device.onQp_ends {d : Device} {i : Nat} {call : QpCall}
    (hP : ∀ o, d.getQp i = some o → ¬call.portsIn ⟨d.ctx, o.qp⟩ → P)
    (hG : ∀ o, d.getQp i = some o → ¬call.gidsIn ⟨d.ctx, o.qp⟩ → G) :
    Ends (fun d' => SameTables d.ctx d'.ctx) (Fault.Blames P G) (d.onQp i call) := by
  unfold Device.onQp
  cases hget : d.getQp i with
  | none => exact trivial
  | some o =>
    refine Ends.bind ((qpStep_ends ⟨d.ctx, o.qp⟩ call).weaken fun _ he => he.mono (hP o hget) (hG o hget))
      fun s _ hs => ?_
    show SameTables d.ctx (Device.putBack _ i _).ctx
    rw [Device.putBack_ctx]
    exact hs.1

theorem Device.netRecv_ends {d : Device} {iovs : List (List UInt8)} {calloc : Bool}
    (hdecap : ¬PortIn d.ctx 1 → P)
    (hP : ∀ o call, d.Performs o (.netRecv iovs calloc) call → ¬call.portsIn ⟨d.ctx, o.qp⟩ → P)
    (hG : ∀ o call, d.Performs o (.netRecv iovs calloc) call → ¬call.gidsIn ⟨d.ctx, o.qp⟩ → G) :
    Ends (fun d' => SameTables d.ctx d'.ctx) (Fault.Blames P G) (d.netRecv iovs calloc) := by
  unfold Device.netRecv
  refine Ends.bind ((roceNetDecap_ends d.ctx iovs).weaken fun _ he => he.mono hdecap False.elim)
    fun r hr _ => ?_
  cases r with
  | none => exact SameTables.refl _
  | some pkt =>
    refine Ends.ite (fun _ => SameTables.refl _) fun hdest => ?_
    have h0 : (ibBthGetDestqp pkt.bth).toNat ≠ 0 := fun h0 => hdest (Or.inl h0)
    exact Device.onQp_ends (fun o hget => hP o _ (.recv hr h0 hget)) fun o hget => hG o _ (.recv hr h0 hget)

/-- The address vector that a step brings in with an AH. -/
def DevOp.NewAh : DevOp → RoceAhAttr → Prop
  | .createAh _ attr _, ahAttr => ahAttr = attr
  | _, _ => False

/-- **One step.**  What it looks up, the call it makes looks up. -/
theorem devStep_ends {d : Device} {op : DevOp} (hone : ¬PortIn d.ctx 1 → P)
    (hP : ∀ o call, d.Performs o op call → ¬call.portsIn ⟨d.ctx, o.qp⟩ → P)
    (hG : ∀ o call, d.Performs o op call → ¬call.gidsIn ⟨d.ctx, o.qp⟩ → G) :
    Ends (fun d' => Addresses op.NewAh d.ctx d'.ctx) (Fault.Blames P G) (devStep d op) := by
  have hsame : ∀ ctx : RoceCtx, ctx.ports = d.ctx.ports → ctx.ahs = d.ctx.ahs →
      Addresses op.NewAh d.ctx ctx := by
    intro ctx hports hahs
    refine SameTables.addresses ⟨hports, ?_⟩
    rw [hahs]
  cases op with
  | allocPd calloc =>
    show Addresses _ d.ctx (roceAllocPd d.ctx calloc).2
    unfold roceAllocPd
    split
    · split
      · exact hsame _ rfl rfl
      · exact hsame _ rfl rfl
    · exact hsame _ rfl rfl
  | deallocPd pdHandle =>
    show Addresses _ d.ctx (roceDeallocPd d.ctx pdHandle).2
    unfold roceDeallocPd
    split
    · exact hsame _ rfl rfl
    · split
      · exact hsame _ rfl rfl
      · exact hsame _ rfl rfl
  | createCq cqe calloc =>
    show Addresses _ d.ctx (roceCreateCq d cqe calloc).2.ctx
    unfold roceCreateCq
    split
    · exact hsame _ rfl rfl
    · split
      · split
        · exact hsame _ rfl rfl
        · exact hsame _ rfl rfl
      · exact hsame _ rfl rfl
  | destroyCq cqHandle =>
    show Addresses _ d.ctx (roceDestroyCq d cqHandle).2.ctx
    unfold roceDestroyCq
    split
    · exact hsame _ rfl rfl
    · split
      · exact hsame _ rfl rfl
      · exact hsame _ rfl rfl
  | createAh pdHandle attr calloc => exact Ends.bind (roceCreateAh_ends _ _ _ _) fun r _ hr => hr
  | destroyAh ahHandle => exact Ends.bind (roceDestroyAh_ends _ _) fun r _ hr => hr
  | createMr a calloc random0 random1 =>
    exact Ends.bind (roceCreateMr_ends _ _ _ _ _) fun r _ hr => hr.addresses
  | destroyMr mrHandle => exact Ends.bind (roceDestroyMr_ends _ _) fun r _ hr => hr.addresses
  | createQp a calloc random0 random1 =>
    exact Ends.bind (Device.createQp_ends hone _ _ _ _) fun r _ hr => hr.addresses
  | destroyQp qpHandle => exact Ends.bind (Device.destroyQp_ends _ _) fun r _ hr => hr.addresses
  | onQp i call =>
    refine Ends.mono (Device.onQp_ends ?_ ?_) (fun d' _ hd' => hd'.addresses) fun _ he => he
    · exact fun o hget => hP o call (.call hget)
    · exact fun o hget => hG o call (.call hget)
  | netRecv iovs calloc =>
    exact Ends.mono (Device.netRecv_ends hone hP hG) (fun d' _ hd' => hd'.addresses) fun _ he => he

end device

/-! ## Runs -/

/-- One of the numbers 1 .. `ROCE_MAX_PORTS`. -/
def NamesPort (portNum : UInt8) : Prop := portNum ≠ 0 ∧ portNum ≤ roceMaxPorts

instance (portNum : UInt8) : Decidable (NamesPort portNum) :=
  inferInstanceAs (Decidable (portNum ≠ 0 ∧ portNum ≤ roceMaxPorts))

theorem namesPort_one : NamesPort 1 := by decide

theorem NamesPort.portIn {ctx : RoceCtx} {portNum : UInt8} (h : NamesPort portNum)
    (hlen : ctx.ports.length = roceMaxPorts.toNat) : PortIn ctx portNum := by
  refine ⟨h.1, ?_⟩
  rw [hlen]
  exact UInt8.le_iff_toNat_le.mp h.2

/-- The table of ports has its length, and each QP names one. -/
structure Device.Ported (d : Device) : Prop where
  ports : d.ctx.ports.length = roceMaxPorts.toNat
  each : d.EachQp fun o => NamesPort o.qp.attr.portNum

theorem Device.Ported.portsIn {d : Device} (h : d.Ported) {i : Nat} {o : QpObj}
    (hget : d.getQp i = some o) : PortsIn d.ctx o.qp :=
  ⟨namesPort_one.portIn h.ports, (h.each.getQp hget).portIn h.ports⟩

theorem Device.Performs.getQp {d : Device} {o : QpObj} {op : DevOp} {call : QpCall}
    (h : d.Performs o op call) : ∃ i, d.getQp i = some o := by
  cases h with
  | call hget => exact ⟨_, hget⟩
  | recv _ _ hget => exact ⟨_, hget⟩

theorem Device.allocSpecialQps_ctx (d : Device) (calloc : Nat → Bool) :
    (d.allocSpecialQps calloc).ctx = d.ctx := by
  unfold Device.allocSpecialQps
  split
  · split
    · rfl
    · split
      · split
        · rfl
        · rfl
      · rfl
  · rfl

/-- A new device has no QP in use. -/
theorem Device.Fresh.eachQp {P : QpObj → Prop} {d : Device} (h : d.Fresh) : d.EachQp P := by
  refine ⟨fun i o hget => absurd hget (h.heap i o), fun g o hg hused => ?_, fun g o hg hused => ?_⟩
  · rw [h.smi g hg] at hused
    cases hused
  · rw [(h.gsi g hg).1] at hused
    cases hused

/-- An RC QP at handle 2. -/
def makeRcQp : List DevOp := [.allocPd true, .createCq 16 true, .createQp (smallQpArgs .rc 0) true 0 0]

end Libroce
