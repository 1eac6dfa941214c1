import Libroce.Qp

/-!
# A refused modification

`roce_modify_qp` stores attribute after attribute and returns at the first one
it refuses, without taking back what it stored.

    modifyBits      the bits it looks at, in its order
    acceptedBits    the selected ones that it passes before it refuses one
    stored          the QP with the attributes of some bits stored

Main statement: `roceModifyQp_atomic`.
-/

namespace Libroce

/-! ## Storing by bits -/

/-- The bits of `roce_modify_qp`, in its order. -/
def modifyBits : List UInt32 :=
  [roceQpState, roceQpAccessFlags, roceQpPkeyIndex, roceQpPort, roceQpAv, roceQpQkey, roceQpPathMtu,
    roceQpSqPsn, roceQpRqPsn, roceQpMaxQpRdAtomic, roceQpMaxDestRdAtomic, roceQpCap, roceQpDestQpn]

/-- `old` with the attributes of some bits taken from `attr`. -/
def RoceQpAttr.merge (bits : List UInt32) (attr old : RoceQpAttr) : RoceQpAttr where
  qpState := if roceQpState ∈ bits then attr.qpState else old.qpState
  rqPsn := if roceQpRqPsn ∈ bits then attr.rqPsn else old.rqPsn
  sqPsn := if roceQpSqPsn ∈ bits then attr.sqPsn else old.sqPsn
  pathMtu := if roceQpPathMtu ∈ bits then attr.pathMtu else old.pathMtu
  qkey := if roceQpQkey ∈ bits then attr.qkey else old.qkey
  destQpNum := if roceQpDestQpn ∈ bits then attr.destQpNum else old.destQpNum
  qpAccessFlags := if roceQpAccessFlags ∈ bits then attr.qpAccessFlags else old.qpAccessFlags
  cap := if roceQpCap ∈ bits then attr.cap else old.cap
  ahAttr := if roceQpAv ∈ bits then attr.ahAttr else old.ahAttr
  pkeyIndex := if roceQpPkeyIndex ∈ bits then attr.pkeyIndex else old.pkeyIndex
  maxRdAtomic := if roceQpMaxQpRdAtomic ∈ bits then attr.maxRdAtomic else old.maxRdAtomic
  maxDestRdAtomic := if roceQpMaxDestRdAtomic ∈ bits then attr.maxDestRdAtomic else old.maxDestRdAtomic
  portNum := if roceQpPort ∈ bits then attr.portNum else old.portNum

/-- The QP with those attributes stored; the SQ PSN is the next PSN as well. -/
def RoceQp.stored (bits : List UInt32) (attr : RoceQpAttr) (qp : RoceQp) : RoceQp :=
  { qp with
    attr := attr.merge bits qp.attr
    req.psn := if roceQpSqPsn ∈ bits then attr.sqPsn else qp.req.psn }

@[simp] theorem RoceQp.stored_nil (attr : RoceQpAttr) (qp : RoceQp) : qp.stored [] attr = qp := by
  unfold RoceQp.stored RoceQpAttr.merge
  simp only [List.not_mem_nil, if_false]

theorem RoceQp.stored_append (as bs : List UInt32) (attr : RoceQpAttr) (qp : RoceQp) :
    (qp.stored as attr).stored bs attr = qp.stored (as ++ bs) attr := by
  have hite : ∀ {α : Type} (b : UInt32) (x y : α),
      (if b ∈ bs then x else if b ∈ as then x else y) = if b ∈ as ++ bs then x else y := by
    intro α b x y
    by_cases hb : b ∈ bs
    · rw [if_pos hb, if_pos (List.mem_append_right _ hb)]
    · rw [if_neg hb]
      by_cases ha : b ∈ as
      · rw [if_pos ha, if_pos (List.mem_append_left _ ha)]
      · rw [if_neg ha, if_neg]
        intro hmem
        exact (List.mem_append.mp hmem).elim ha hb
  unfold RoceQp.stored RoceQpAttr.merge
  simp only [hite]

/-- Only membership counts. -/
theorem RoceQp.stored_congr {as bs : List UInt32} (h : ∀ b, b ∈ as ↔ b ∈ bs) (attr : RoceQpAttr)
    (qp : RoceQp) : qp.stored as attr = qp.stored bs attr := by
  unfold RoceQp.stored RoceQpAttr.merge
  simp only [h]

/-- Storing changes nothing when each attribute is there already. -/
theorem RoceQp.stored_eq_self_iff (bits : List UInt32) (attr : RoceQpAttr) (qp : RoceQp) :
    qp.stored bits attr = qp ↔ ∀ b ∈ bits, qp.stored [b] attr = qp := by
  constructor
  · intro h b hb
    calc qp.stored [b] attr
        = (qp.stored bits attr).stored [b] attr := by rw [h]
      _ = qp.stored bits attr := by
          rw [RoceQp.stored_append]
          apply RoceQp.stored_congr
          intro c
          rw [List.mem_append, List.mem_singleton]
          exact ⟨fun hc => hc.elim id fun hcb => hcb ▸ hb, Or.inl⟩
      _ = qp := h
  · intro h
    induction bits with
    | nil => exact RoceQp.stored_nil attr qp
    | cons b bits ih =>
      obtain ⟨hb, hbits⟩ := List.forall_mem_cons.mp h
      rw [show b :: bits = [b] ++ bits from rfl, ← RoceQp.stored_append, hb]
      exact ih hbits

/-- Nothing but the attributes and the next PSN. -/
theorem RoceQp.stored_same_iff (bits : List UInt32) (attr : RoceQpAttr) (qp : RoceQp) :
    (qp.stored bits attr).attr = qp.attr ∧ (qp.stored bits attr).req.psn = qp.req.psn ↔
      qp.stored bits attr = qp := by
  constructor
  · rintro ⟨hattr, hpsn⟩
    show { qp with attr := (qp.stored bits attr).attr, req.psn := (qp.stored bits attr).req.psn } = qp
    rw [hattr, hpsn]
  · intro h
    rw [h]
    exact ⟨rfl, rfl⟩

/-! ## Refusals -/

/-- The refusal of `roce_modify_qp_ah`: no such GID, or one of the other family. -/
def avRefused (ctx : RoceCtx) (ahAttr : RoceAhAttr) : Bool :=
  if ahAttr.sgidIndex ≥ roceGidTblLen then true
  else
    match portAt ctx 1 with
    | .error _ => false
    | .ok port =>
      match port.gids[ahAttr.sgidIndex.toNat]? with
      | none => false
      | some sgid => roceGidIsIpv4 sgid != roceGidIsIpv4 ahAttr.gid

/-- An MTU that is none, or more than the port of the same structure takes. -/
def mtuRefused (ctx : RoceCtx) (attr : RoceQpAttr) : Bool :=
  if roceValidMtu attr.pathMtu then
    match portAt ctx attr.portNum with
    | .error _ => false
    | .ok port => attr.pathMtu > port.maxMtu
  else true

/-- The attribute of the bit is refused. -/
def bitRefused (ctx : RoceCtx) (req : RoceRequester) (attr : RoceQpAttr) (bit : UInt32) : Bool :=
  if bit = roceQpPkeyIndex then attr.pkeyIndex ≥ roceMaxPkey
  else if bit = roceQpPort then attr.portNum > roceMaxPorts
  else if bit = roceQpAv then avRefused ctx attr.ahAttr
  else if bit = roceQpPathMtu then mtuRefused ctx attr
  else if bit = roceQpSqPsn then req.pendingPkts ≠ [] ∨ req.outgoingPkts ≠ []
  else if bit = roceQpCap then roceVerifyQpCap ctx attr.cap ≠ 0
  else false

/-- What one clause does: it refuses, or stores the attribute of its bit. -/
inductive ClauseStep (ctx : RoceCtx) (attr : RoceQpAttr) (bit : UInt32) (qp : RoceQp) :
    Int → RoceQp → Prop where
  | refuses {ret : Int} (hret : ret ≠ 0) (h : bitRefused ctx qp.req attr bit = true) :
      ClauseStep ctx attr bit qp ret qp
  | stores (h : bitRefused ctx qp.req attr bit = false) : ClauseStep ctx attr bit qp 0 (qp.stored [bit] attr)

/-- The clause of the bit. -/
def ClauseOf (ctx : RoceCtx) (attr : RoceQpAttr) (c : UInt32 × Clause) : Prop :=
  ∀ qp ret qp', c.2 qp = .ok (ret, qp') → ClauseStep ctx attr c.1 qp ret qp'

theorem clauseOf_store {ctx : RoceCtx} {attr : RoceQpAttr} {bit : UInt32} {f : RoceQpAttr → RoceQpAttr}
    (hf : ∀ qp : RoceQp, { qp with attr := f qp.attr } = qp.stored [bit] attr)
    (hr : ∀ req, bitRefused ctx req attr bit = false) : ClauseOf ctx attr (bit, store f) := by
  intro qp ret qp' h
  obtain ⟨rfl, rfl⟩ := Prod.mk.inj (Except.ok.inj h)
  rw [hf]
  exact .stores (hr _)

/-- A check before the attribute is stored. -/
theorem clauseOf_ite {ctx : RoceCtx} {attr : RoceQpAttr} {bit : UInt32} {f : RoceQpAttr → RoceQpAttr}
    {c : Prop} [Decidable c] {code : Int} (hcode : c → code ≠ 0)
    (hf : ∀ qp : RoceQp, { qp with attr := f qp.attr } = qp.stored [bit] attr)
    (hr : ∀ req, bitRefused ctx req attr bit = decide c) :
    ClauseOf ctx attr (bit, fun qp => if c then .ok (code, qp) else store f qp) := by
  intro qp ret qp' h
  simp only at h
  by_cases hc : c
  · rw [if_pos hc] at h
    obtain ⟨rfl, rfl⟩ := Prod.mk.inj (Except.ok.inj h)
    refine .refuses (hcode hc) ?_
    rw [hr]
    exact decide_eq_true hc
  · rw [if_neg hc] at h
    obtain ⟨rfl, rfl⟩ := Prod.mk.inj (Except.ok.inj h)
    rw [hf]
    refine .stores ?_
    rw [hr]
    exact decide_eq_false hc

theorem clauseOf_av (ctx : RoceCtx) (attr : RoceQpAttr) :
    ClauseOf ctx attr (roceQpAv, roceModifyQpAh ctx attr.ahAttr) := by
  intro qp ret qp' h
  have hbit : bitRefused ctx qp.req attr roceQpAv = avRefused ctx attr.ahAttr := rfl
  simp only at h
  unfold roceModifyQpAh at h
  unfold avRefused at hbit
  by_cases hlen : attr.ahAttr.sgidIndex ≥ roceGidTblLen
  · rw [if_pos hlen] at h hbit
    obtain ⟨rfl, rfl⟩ := Prod.mk.inj (Except.ok.inj h)
    exact .refuses (by decide) hbit
  · rw [if_neg hlen] at h hbit
    cases hport : portAt ctx 1 with
    | error e =>
      rw [hport] at h
      cases h
    | ok port =>
      simp only [hport] at h hbit
      cases hgid : port.gids[attr.ahAttr.sgidIndex.toNat]? with
      | none =>
        rw [hgid] at h
        cases h
      | some sgid =>
        simp only [hgid] at h hbit
        by_cases hfam : roceGidIsIpv4 sgid ≠ roceGidIsIpv4 attr.ahAttr.gid
        · rw [if_pos hfam] at h
          obtain ⟨rfl, rfl⟩ := Prod.mk.inj (Except.ok.inj h)
          refine .refuses (by decide) ?_
          rw [hbit]
          exact bne_iff_ne.mpr hfam
        · rw [if_neg hfam] at h
          obtain ⟨rfl, rfl⟩ := Prod.mk.inj (Except.ok.inj h)
          refine .stores ?_
          rw [hbit, not_not.mp hfam]
          exact bne_self_eq_false _

theorem clauseOf_pathMtu (ctx : RoceCtx) (attr : RoceQpAttr) :
    ClauseOf ctx attr (roceQpPathMtu, modifyPathMtu ctx attr) := by
  intro qp ret qp' h
  have hbit : bitRefused ctx qp.req attr roceQpPathMtu = mtuRefused ctx attr := rfl
  simp only at h
  unfold modifyPathMtu at h
  unfold mtuRefused at hbit
  by_cases hvalid : roceValidMtu attr.pathMtu = true
  · rw [if_pos hvalid] at h hbit
    cases hport : portAt ctx attr.portNum with
    | error e =>
      rw [hport] at h
      cases h
    | ok port =>
      simp only [hport] at h hbit
      by_cases hmax : attr.pathMtu > port.maxMtu
      · rw [if_pos hmax] at h
        obtain ⟨rfl, rfl⟩ := Prod.mk.inj (Except.ok.inj h)
        refine .refuses (by decide) ?_
        rw [hbit]
        exact decide_eq_true hmax
      · rw [if_neg hmax] at h
        obtain ⟨rfl, rfl⟩ := Prod.mk.inj (Except.ok.inj h)
        refine .stores ?_
        rw [hbit]
        exact decide_eq_false hmax
  · rw [if_neg hvalid] at h hbit
    obtain ⟨rfl, rfl⟩ := Prod.mk.inj (Except.ok.inj h)
    exact .refuses (by decide) hbit

theorem clauseOf_sqPsn (ctx : RoceCtx) (attr : RoceQpAttr) :
    ClauseOf ctx attr (roceQpSqPsn, modifySqPsn attr) := by
  intro qp ret qp' h
  have hbit : bitRefused ctx qp.req attr roceQpSqPsn =
      decide (qp.req.pendingPkts ≠ [] ∨ qp.req.outgoingPkts ≠ []) := rfl
  simp only at h
  unfold modifySqPsn at h
  by_cases hbusy : qp.req.pendingPkts ≠ [] ∨ qp.req.outgoingPkts ≠ []
  · rw [if_pos hbusy] at h
    obtain ⟨rfl, rfl⟩ := Prod.mk.inj (Except.ok.inj h)
    refine .refuses (by decide) ?_
    rw [hbit]
    exact decide_eq_true hbusy
  · rw [if_neg hbusy] at h
    obtain ⟨rfl, rfl⟩ := Prod.mk.inj (Except.ok.inj h)
    refine .stores ?_
    rw [hbit]
    exact decide_eq_false hbusy

/-- The clauses of `roce_modify_qp`. -/
def modifyAll (ctx : RoceCtx) (attr : RoceQpAttr) : List (UInt32 × Clause) :=
  modifyBefore ctx attr ++ (roceQpSqPsn, modifySqPsn attr) :: modifyAfter ctx attr

theorem modifyAll_bits (ctx : RoceCtx) (attr : RoceQpAttr) :
    (modifyAll ctx attr).map (·.1) = modifyBits := rfl

theorem modifyAll_clauses (ctx : RoceCtx) (attr : RoceQpAttr) :
    ∀ c ∈ modifyAll ctx attr, ClauseOf ctx attr c := by
  have heinval : eINVAL ≠ 0 := by decide
  unfold modifyAll modifyBefore modifyAfter
  simp only [List.cons_append, List.nil_append, List.forall_mem_cons, List.not_mem_nil, false_implies,
    implies_true, and_true]
  refine ⟨?_, ?_, ?_, ?_, clauseOf_av ctx attr, ?_, clauseOf_pathMtu ctx attr, clauseOf_sqPsn ctx attr,
    ?_, ?_, ?_, ?_, ?_⟩
  · exact clauseOf_store (fun _ => rfl) fun _ => rfl
  · exact clauseOf_store (fun _ => rfl) fun _ => rfl
  · exact clauseOf_ite (fun _ => heinval) (fun _ => rfl) fun _ => rfl
  · exact clauseOf_ite (fun _ => heinval) (fun _ => rfl) fun _ => rfl
  · exact clauseOf_store (fun _ => rfl) fun _ => rfl
  · exact clauseOf_store (fun _ => rfl) fun _ => rfl
  · exact clauseOf_store (fun _ => rfl) fun _ => rfl
  · exact clauseOf_store (fun _ => rfl) fun _ => rfl
  · exact clauseOf_ite id (fun _ => rfl) fun _ => rfl
  · exact clauseOf_store (fun _ => rfl) fun _ => rfl

/-! ## The run through the clauses -/

/-- The mask selects the bit. -/
def selects (attrMask bit : UInt32) : Bool := attrMask &&& bit != 0

/-- The selected bits up to the first that is refused. -/
def passedBits (ctx : RoceCtx) (req : RoceRequester) (attr : RoceQpAttr) (attrMask : UInt32)
    (bits : List UInt32) : List UInt32 :=
  (bits.filter (selects attrMask)).takeWhile fun bit => !bitRefused ctx req attr bit

theorem selects_eq_false {attrMask bit : UInt32} : selects attrMask bit = false ↔ attrMask &&& bit = 0 := by
  unfold selects
  rw [bne_eq_false_iff_eq]

/-- The loop stores what it passes. -/
theorem modifyClauses_passed {ctx : RoceCtx} {attr : RoceQpAttr} {attrMask : UInt32}
    {clauses : List (UInt32 × Clause)} (hc : ∀ c ∈ clauses, ClauseOf ctx attr c) {qp qp' : RoceQp}
    {ret : Int} (h : modifyClauses attrMask clauses qp = .ok (ret, qp')) :
    qp' = qp.stored (passedBits ctx qp.req attr attrMask (clauses.map (·.1))) attr ∧
      (ret = 0 ↔ passedBits ctx qp.req attr attrMask (clauses.map (·.1)) =
        (clauses.map (·.1)).filter (selects attrMask)) := by
  induction clauses generalizing qp with
  | nil =>
    obtain ⟨rfl, rfl⟩ := Prod.mk.inj (Except.ok.inj h)
    exact ⟨(RoceQp.stored_nil attr qp).symm, iff_of_true rfl rfl⟩
  | cons c clauses ih =>
    obtain ⟨bit, clause⟩ := c
    obtain ⟨hclause, hc'⟩ := List.forall_mem_cons.mp hc
    rw [modifyClauses] at h
    rw [List.map_cons]
    unfold passedBits
    by_cases hsel : attrMask &&& bit = 0
    · rw [if_pos hsel] at h
      rw [List.filter_cons_of_neg (by rw [selects_eq_false.mpr hsel]; decide)]
      exact ih hc' h
    · rw [if_neg hsel] at h
      rw [List.filter_cons_of_pos (by simpa [selects] using hsel)]
      cases hrun : clause qp with
      | error e =>
        rw [hrun] at h
        cases h
      | ok r =>
        obtain ⟨ret1, qp1⟩ := r
        simp only [hrun] at h
        cases hclause qp ret1 qp1 hrun with
        | refuses hret hr =>
          rw [if_pos hret] at h
          obtain ⟨rfl, rfl⟩ := Prod.mk.inj (Except.ok.inj h)
          rw [List.takeWhile_cons_of_neg (by rw [hr]; decide), RoceQp.stored_nil]
          refine ⟨rfl, iff_of_false hret ?_⟩
          exact (List.cons_ne_nil _ _).symm
        | stores hr =>
          rw [if_neg (by decide)] at h
          obtain ⟨hqp, hret⟩ := ih hc' h
          -- what is refused does not depend on what was stored
          have hsame : passedBits ctx (qp.stored [bit] attr).req attr attrMask (clauses.map (·.1)) =
            passedBits ctx qp.req attr attrMask (clauses.map (·.1)) := rfl
          rw [hsame] at hqp hret
          rw [List.takeWhile_cons_of_pos (by rw [hr]; decide), List.cons_inj_right]
          refine ⟨?_, hret⟩
          rw [hqp, RoceQp.stored_append]
          rfl

/-! ## All or nothing -/

/-- The bits that `roce_modify_qp` stores. -/
def acceptedBits (ctx : RoceCtx) (qp : RoceQp) (attr : RoceQpAttr) (attrMask : UInt32) : List UInt32 :=
  passedBits ctx qp.req attr attrMask modifyBits

/-- None of them when the mask is refused as a whole. -/
def storedBits (ctx : RoceCtx) (qp : RoceQp) (attr : RoceQpAttr) (attrMask : UInt32) : List UInt32 :=
  if attrMask &&& unsupportedQpAttr ≠ 0 then [] else acceptedBits ctx qp attr attrMask

/-- What a modification leaves, whatever it returns. -/
theorem roceModifyQp_stored {ctx : RoceCtx} {qp qp' : RoceQp} {attr : RoceQpAttr} {attrMask : UInt32}
    {ret : Int} (h : roceModifyQp ctx qp attr attrMask = .ok (ret, qp')) :
    qp' = qp.stored (storedBits ctx qp attr attrMask) attr := by
  unfold roceModifyQp at h
  unfold storedBits
  by_cases hmask : attrMask &&& unsupportedQpAttr ≠ 0
  · rw [if_pos hmask] at h ⊢
    obtain ⟨-, rfl⟩ := Prod.mk.inj (Except.ok.inj h)
    exact (RoceQp.stored_nil attr _).symm
  · rw [if_neg hmask] at h ⊢
    obtain ⟨hqp, -⟩ := modifyClauses_passed (modifyAll_clauses ctx attr) h
    rw [modifyAll_bits] at hqp
    exact hqp

/-- An error leaves the attributes and the next PSN as they were; success stores
exactly the selected attributes. -/
def Atomic (attr : RoceQpAttr) (attrMask : UInt32) (qp : RoceQp) (ret : Int) (qp' : RoceQp) : Prop :=
  (ret ≠ 0 → qp'.attr = qp.attr ∧ qp'.req.psn = qp.req.psn) ∧
    (ret = 0 → qp' = qp.stored (modifyBits.filter (selects attrMask)) attr)

/-- The mask is refused as a whole, no selected attribute is refused, or those
before the first that is are there already. -/
def NothingToUndo (ctx : RoceCtx) (qp : RoceQp) (attr : RoceQpAttr) (attrMask : UInt32) : Prop :=
  attrMask &&& unsupportedQpAttr ≠ 0 ∨
    acceptedBits ctx qp attr attrMask = modifyBits.filter (selects attrMask) ∨
    ∀ bit ∈ acceptedBits ctx qp attr attrMask, qp.stored [bit] attr = qp

/-- **Modification.**  A call is all or nothing exactly when it has nothing to
take back. -/
theorem roceModifyQp_atomic {ctx : RoceCtx} {qp qp' : RoceQp} {attr : RoceQpAttr} {attrMask : UInt32}
    {ret : Int} (h : roceModifyQp ctx qp attr attrMask = .ok (ret, qp')) :
    Atomic attr attrMask qp ret qp' ↔ NothingToUndo ctx qp attr attrMask := by
  unfold roceModifyQp at h
  by_cases hmask : attrMask &&& unsupportedQpAttr ≠ 0
  · rw [if_pos hmask] at h
    obtain ⟨rfl, rfl⟩ := Prod.mk.inj (Except.ok.inj h)
    refine iff_of_true ⟨fun _ => ⟨rfl, rfl⟩, fun hret => ?_⟩ (Or.inl hmask)
    exact absurd hret (by decide)
  · rw [if_neg hmask] at h
    obtain ⟨hqp, hret⟩ := modifyClauses_passed (modifyAll_clauses ctx attr) h
    rw [modifyAll_bits] at hqp hret
    have hbits : passedBits ctx qp.req attr attrMask modifyBits = acceptedBits ctx qp attr attrMask := rfl
    rw [hbits] at hqp hret
    by_cases hzero : ret = 0
    · refine iff_of_true ⟨fun hne => absurd hzero hne, fun _ => ?_⟩ (Or.inr (Or.inl (hret.mp hzero)))
      rw [hqp, hret.mp hzero]
    · have hnot : acceptedBits ctx qp attr attrMask ≠ modifyBits.filter (selects attrMask) := fun he =>
        hzero (hret.mpr he)
      rw [hqp]
      calc Atomic attr attrMask qp ret (qp.stored (acceptedBits ctx qp attr attrMask) attr)
          ↔ qp.stored (acceptedBits ctx qp attr attrMask) attr = qp := by
            rw [← RoceQp.stored_same_iff]
            exact ⟨fun hat => hat.1 hzero, fun hsame => ⟨fun _ => hsame, fun h0 => absurd h0 hzero⟩⟩
        _ ↔ ∀ bit ∈ acceptedBits ctx qp attr attrMask, qp.stored [bit] attr = qp :=
            RoceQp.stored_eq_self_iff _ attr qp
        _ ↔ NothingToUndo ctx qp attr attrMask := by
            unfold NothingToUndo
            constructor
            · exact fun hall => Or.inr (Or.inr hall)
            · rintro (hm | he | hall)
              · exact absurd hm hmask
              · exact absurd he hnot
              · exact hall

/-- An attribute structure with another state and a P_Key index that is refused. -/
def stateThenPkey : RoceQpAttr := { smallQp.attr with qpState := .err, pkeyIndex := 1 }

/-- The state is stored, then the P_Key index is refused. -/
theorem roceModifyQp_atomic_state : ∃ qp', roceModifyQp smallCtx smallQp stateThenPkey
      (roceQpState ||| roceQpPkeyIndex) = .ok (eINVAL, qp') ∧
    smallQp.attr.qpState = .rts ∧ qp'.attr.qpState = .err ∧
    ¬Atomic stateThenPkey (roceQpState ||| roceQpPkeyIndex) smallQp eINVAL qp' := by
  refine ⟨_, rfl, rfl, rfl, ?_⟩
  rintro ⟨hsame, -⟩
  obtain ⟨hattr, -⟩ := hsame (by decide)
  cases congrArg RoceQpAttr.qpState hattr

/-- A refused P_Key index alone, and an accepted state. -/
theorem roceModifyQp_atomic_pkey :
    (∃ qp', roceModifyQp smallCtx smallQp stateThenPkey roceQpPkeyIndex = .ok (eINVAL, qp') ∧
      Atomic stateThenPkey roceQpPkeyIndex smallQp eINVAL qp') ∧
    ∃ qp', roceModifyQp smallCtx smallQp stateThenPkey roceQpState = .ok (0, qp') ∧
      Atomic stateThenPkey roceQpState smallQp 0 qp' := by
  constructor
  · have hnone : acceptedBits smallCtx smallQp stateThenPkey roceQpPkeyIndex = [] := by decide
    have hundo : NothingToUndo smallCtx smallQp stateThenPkey roceQpPkeyIndex := by
      refine Or.inr (Or.inr ?_)
      intro bit hbit
      rw [hnone] at hbit
      cases hbit
    have hrun : roceModifyQp smallCtx smallQp stateThenPkey roceQpPkeyIndex
        = .ok (eINVAL, smallQp) := rfl
    exact ⟨smallQp, hrun, (roceModifyQp_atomic hrun).mpr hundo⟩
  · have hundo : NothingToUndo smallCtx smallQp stateThenPkey roceQpState :=
      Or.inr (Or.inl (by decide))
    obtain ⟨qp', hrun⟩ : ∃ qp', roceModifyQp smallCtx smallQp stateThenPkey roceQpState
        = .ok (0, qp') := ⟨_, rfl⟩
    exact ⟨qp', hrun, (roceModifyQp_atomic hrun).mpr hundo⟩

end Libroce
