import Libroce.Mr
import Libroce.Netpkt

/-!
# Queue pairs

`qp.c`: attributes and the life of work requests.  `roce_modify_qp` runs
through the attributes in a fixed order and stops at the first one it refuses;
what it stored before stays stored.

    roceModifyQp .. = .ok (0, qp) with the SQ PSN bit  →  SqPsnSet qp     (roceModifyQp_sqPsn)
-/

namespace Libroce

/-! ## Attributes -/

def roceQpState : UInt32 := 0x1
def roceQpAccessFlags : UInt32 := 0x8
def roceQpPkeyIndex : UInt32 := 0x10
def roceQpPort : UInt32 := 0x20
def roceQpQkey : UInt32 := 0x40
def roceQpAv : UInt32 := 0x80
def roceQpPathMtu : UInt32 := 0x100
def roceQpRqPsn : UInt32 := 0x1000
def roceQpMaxQpRdAtomic : UInt32 := 0x2000
def roceQpAltPath : UInt32 := 0x4000
def roceQpSqPsn : UInt32 := 0x10000
def roceQpMaxDestRdAtomic : UInt32 := 0x20000
def roceQpPathMigState : UInt32 := 0x40000
def roceQpCap : UInt32 := 0x80000
def roceQpDestQpn : UInt32 := 0x100000

def unsupportedQpAttr : UInt32 := roceQpAltPath ||| roceQpPathMigState

def roceGidTblLen : UInt8 := 8
def roceMaxPkey : UInt16 := 1
def roceMaxPorts : UInt8 := 1

/-- `roce_valid_mtu` -/
def roceValidMtu (mtu : UInt16) : Bool := mtu == 1024 || mtu == 2048 || mtu == 4096

/-- `roce_verify_qp_cap` -/
def roceVerifyQpCap (ctx : RoceCtx) (cap : RoceQpCap) : Int :=
  let dev := ctx.devAttr
  if cap.maxSendWr = 0 ∨ cap.maxSendWr > dev.maxQpWr then eINVAL
  else if cap.maxRecvWr = 0 ∨ cap.maxRecvWr > dev.maxQpWr then eINVAL
  else if cap.maxSendSge = 0 ∨ cap.maxSendSge > dev.maxSge then eINVAL
  else if cap.maxRecvSge = 0 ∨ cap.maxRecvSge > dev.maxSge then eINVAL
  else if cap.maxInlineData > dev.maxInlineData then eINVAL
  else 0

/-- One clause of `roce_modify_qp`: the value to return when it is not `0`, and the QP. -/
abbrev Clause := RoceQp → Except Fault (Int × RoceQp)

/-- A clause that only stores. -/
def store (f : RoceQpAttr → RoceQpAttr) : Clause := fun qp => .ok (0, { qp with attr := f qp.attr })

/-- `roce_modify_qp_ah` -/
def roceModifyQpAh (ctx : RoceCtx) (ahAttr : RoceAhAttr) : Clause := fun qp =>
  if ahAttr.sgidIndex ≥ roceGidTblLen then .ok (eINVAL, qp)
  else
    match portAt ctx 1 with
    | .error e => .error e
    | .ok port =>
      match port.gids[ahAttr.sgidIndex.toNat]? with
      | none => .error (.undefined .gid)
      | some sgid =>
        if roceGidIsIpv4 sgid ≠ roceGidIsIpv4 ahAttr.gid then .ok (eINVAL, qp)
        else store (fun a => { a with ahAttr := ahAttr }) qp

def modifyPathMtu (ctx : RoceCtx) (attr : RoceQpAttr) : Clause := fun qp =>
  if roceValidMtu attr.pathMtu then
    match portAt ctx attr.portNum with
    | .error e => .error e
    | .ok port =>
      if attr.pathMtu > port.maxMtu then .ok (eINVAL, qp)
      else store (fun a => { a with pathMtu := attr.pathMtu }) qp
  else .ok (eINVAL, qp)

def modifySqPsn (attr : RoceQpAttr) : Clause := fun qp =>
  if qp.req.pendingPkts ≠ [] ∨ qp.req.outgoingPkts ≠ [] then .ok (eBUSY, qp)
  else .ok (0, { qp with attr.sqPsn := attr.sqPsn, req.psn := attr.sqPsn })

/-- The clauses before the one of the SQ PSN. -/
def modifyBefore (ctx : RoceCtx) (attr : RoceQpAttr) : List (UInt32 × Clause) :=
  [ (roceQpState, store fun a => { a with qpState := attr.qpState }),
    (roceQpAccessFlags, store fun a => { a with qpAccessFlags := attr.qpAccessFlags }),
    (roceQpPkeyIndex, fun qp =>
      if attr.pkeyIndex ≥ roceMaxPkey then .ok (eINVAL, qp)
      else store (fun a => { a with pkeyIndex := attr.pkeyIndex }) qp),
    (roceQpPort, fun qp =>
      if attr.portNum > roceMaxPorts then .ok (eINVAL, qp)
      else store (fun a => { a with portNum := attr.portNum }) qp),
    (roceQpAv, roceModifyQpAh ctx attr.ahAttr),
    (roceQpQkey, store fun a => { a with qkey := attr.qkey }),
    (roceQpPathMtu, modifyPathMtu ctx attr) ]

/-- The clauses after it. -/
def modifyAfter (ctx : RoceCtx) (attr : RoceQpAttr) : List (UInt32 × Clause) :=
  [ (roceQpRqPsn, store fun a => { a with rqPsn := attr.rqPsn }),
    (roceQpMaxQpRdAtomic, store fun a => { a with maxRdAtomic := attr.maxRdAtomic }),
    (roceQpMaxDestRdAtomic, store fun a => { a with maxDestRdAtomic := attr.maxDestRdAtomic }),
    (roceQpCap, fun qp =>
      if roceVerifyQpCap ctx attr.cap ≠ 0 then .ok (roceVerifyQpCap ctx attr.cap, qp)
      else store (fun a => { a with cap := attr.cap }) qp),
    (roceQpDestQpn, store fun a => { a with destQpNum := attr.destQpNum }) ]

/-- Run the clauses whose bit is set, up to the first refusal. -/
def modifyClauses (attrMask : UInt32) : List (UInt32 × Clause) → RoceQp → Except Fault (Int × RoceQp)
  | [], qp => .ok (0, qp)
  | (bit, clause) :: clauses, qp =>
    if attrMask &&& bit = 0 then modifyClauses attrMask clauses qp
    else
      match clause qp with
      | .error e => .error e
      | .ok (ret, qp) => if ret ≠ 0 then .ok (ret, qp) else modifyClauses attrMask clauses qp

/-- `roce_modify_qp` -/
def roceModifyQp (ctx : RoceCtx) (qp : RoceQp) (attr : RoceQpAttr) (attrMask : UInt32) :
    Except Fault (Int × RoceQp) :=
  if attrMask &&& unsupportedQpAttr ≠ 0 then .ok (eNOTSUP, qp)
  else
    modifyClauses attrMask
      (modifyBefore ctx attr ++ (roceQpSqPsn, modifySqPsn attr) :: modifyAfter ctx attr) qp

/-! ## What setting the SQ PSN leaves -/

/-- The part of a QP the requester numbers packets by. -/
def RoceQp.sqPart (qp : RoceQp) : UInt32 × RoceRequester × List SendWr := (qp.attr.sqPsn, qp.req, qp.sq)

/-- A clause that leaves that part alone. -/
def KeepsSq (clause : Clause) : Prop := ∀ qp ret qp', clause qp = .ok (ret, qp') → qp'.sqPart = qp.sqPart

theorem keepsSq_store (f : RoceQpAttr → RoceQpAttr) (h : ∀ a, (f a).sqPsn = a.sqPsn) :
    KeepsSq (store f) := by
  intro qp ret qp' hc
  obtain ⟨-, rfl⟩ := Prod.mk.inj (Except.ok.inj hc)
  show ((f qp.attr).sqPsn, qp.req, qp.sq) = _
  rw [h]
  rfl

/-- A clause that refuses or stores. -/
theorem keepsSq_ite (c : RoceQp → Prop) [DecidablePred c] (ret : Int) (clause : Clause)
    (h : KeepsSq clause) : KeepsSq fun qp => if c qp then .ok (ret, qp) else clause qp := by
  intro qp ret' qp' hc
  simp only at hc
  split at hc
  · obtain ⟨-, rfl⟩ := Prod.mk.inj (Except.ok.inj hc)
    rfl
  · exact h qp ret' qp' hc

theorem keepsSq_ah (ctx : RoceCtx) (ahAttr : RoceAhAttr) : KeepsSq (roceModifyQpAh ctx ahAttr) := by
  intro qp ret qp' h
  unfold roceModifyQpAh at h
  split at h
  · obtain ⟨-, rfl⟩ := Prod.mk.inj (Except.ok.inj h)
    rfl
  · split at h
    · cases h
    · split at h
      · cases h
      · split at h
        · obtain ⟨-, rfl⟩ := Prod.mk.inj (Except.ok.inj h)
          rfl
        · refine keepsSq_store _ ?_ qp ret qp' h
          exact fun _ => rfl

theorem keepsSq_pathMtu (ctx : RoceCtx) (attr : RoceQpAttr) : KeepsSq (modifyPathMtu ctx attr) := by
  intro qp ret qp' h
  unfold modifyPathMtu at h
  split at h
  · split at h
    · cases h
    · split at h
      · obtain ⟨-, rfl⟩ := Prod.mk.inj (Except.ok.inj h)
        rfl
      · refine keepsSq_store _ ?_ qp ret qp' h
        exact fun _ => rfl
  · obtain ⟨-, rfl⟩ := Prod.mk.inj (Except.ok.inj h)
    rfl

theorem keepsSq_before (ctx : RoceCtx) (attr : RoceQpAttr) :
    ∀ c ∈ modifyBefore ctx attr, KeepsSq c.2 := by
  unfold modifyBefore
  simp only [List.forall_mem_cons, List.not_mem_nil, false_implies, implies_true, and_true]
  refine ⟨keepsSq_store _ fun _ => rfl, keepsSq_store _ fun _ => rfl, ?_, ?_,
    keepsSq_ah ctx _, keepsSq_store _ fun _ => rfl, keepsSq_pathMtu ctx attr⟩
  · exact keepsSq_ite (fun _ => attr.pkeyIndex ≥ roceMaxPkey) _ (store _) (keepsSq_store _ fun _ => rfl)
  · exact keepsSq_ite (fun _ => attr.portNum > roceMaxPorts) _ (store _) (keepsSq_store _ fun _ => rfl)

theorem keepsSq_after (ctx : RoceCtx) (attr : RoceQpAttr) :
    ∀ c ∈ modifyAfter ctx attr, KeepsSq c.2 := by
  unfold modifyAfter
  simp only [List.forall_mem_cons, List.not_mem_nil, false_implies, implies_true, and_true]
  refine ⟨keepsSq_store _ fun _ => rfl, keepsSq_store _ fun _ => rfl, keepsSq_store _ fun _ => rfl,
    ?_, keepsSq_store _ fun _ => rfl⟩
  exact keepsSq_ite (fun _ => roceVerifyQpCap ctx attr.cap ≠ 0) _ (store _) (keepsSq_store _ fun _ => rfl)

theorem modifyClauses_keepsSq {attrMask : UInt32} {clauses : List (UInt32 × Clause)}
    (hk : ∀ c ∈ clauses, KeepsSq c.2) {qp qp' : RoceQp} {ret : Int}
    (h : modifyClauses attrMask clauses qp = .ok (ret, qp')) : qp'.sqPart = qp.sqPart := by
  induction clauses generalizing qp with
  | nil =>
    obtain ⟨-, rfl⟩ := Prod.mk.inj (Except.ok.inj h)
    rfl
  | cons c clauses ih =>
    obtain ⟨bit, clause⟩ := c
    rw [modifyClauses] at h
    have hk' : ∀ c ∈ clauses, KeepsSq c.2 := fun c hc => hk c (List.mem_cons_of_mem _ hc)
    split at h
    · exact ih hk' h
    · split at h
      · cases h
      · next ret1 qp1 h1 =>
        have e1 := hk _ List.mem_cons_self qp ret1 qp1 h1
        split at h
        · obtain ⟨-, rfl⟩ := Prod.mk.inj (Except.ok.inj h)
          exact e1
        · rw [ih hk' h, e1]

/-- A run of clauses ends in its first part, or runs that with `0`. -/
theorem modifyClauses_append {attrMask : UInt32} {cs ds : List (UInt32 × Clause)} {qp qp' : RoceQp}
    {ret : Int} (h : modifyClauses attrMask (cs ++ ds) qp = .ok (ret, qp')) :
    ret ≠ 0 ∧ modifyClauses attrMask cs qp = .ok (ret, qp') ∨
      ∃ qp1, modifyClauses attrMask cs qp = .ok (0, qp1) ∧
        modifyClauses attrMask ds qp1 = .ok (ret, qp') := by
  induction cs generalizing qp with
  | nil => exact Or.inr ⟨qp, rfl, h⟩
  | cons c cs ih =>
    obtain ⟨bit, clause⟩ := c
    rw [List.cons_append, modifyClauses] at h
    rw [modifyClauses]
    split at h
    · next hb =>
      rw [if_pos hb]
      exact ih h
    · next hb =>
      rw [if_neg hb]
      split at h
      · cases h
      · next ret1 qp1 h1 =>
        split at h
        · next hr =>
          rw [if_pos hr]
          obtain ⟨rfl, rfl⟩ := Prod.mk.inj (Except.ok.inj h)
          exact Or.inl ⟨hr, rfl⟩
        · next hr =>
          rw [if_neg hr]
          exact ih h

/-- The requester before the first post: nothing queued, and the next packet
carries the SQ PSN, which has 24 bits. -/
structure SqPsnSet (qp : RoceQp) : Prop where
  psn24 : qp.attr.sqPsn.toNat < psnMod
  psn : qp.req.psn = qp.attr.sqPsn
  pending : qp.req.pendingPkts = []
  outgoing : qp.req.outgoingPkts = []

/-- What `roce_modify_qp` leaves once it has set the SQ PSN. -/
theorem roceModifyQp_sq {ctx : RoceCtx} {qp qp' : RoceQp} {attr : RoceQpAttr} {attrMask : UInt32}
    (h : roceModifyQp ctx qp attr attrMask = .ok (0, qp')) (hbit : attrMask &&& roceQpSqPsn ≠ 0) :
    qp'.attr.sqPsn = attr.sqPsn ∧ qp'.req = ⟨attr.sqPsn, [], []⟩ ∧ qp'.sq = qp.sq := by
  unfold roceModifyQp at h
  split at h
  · cases h
  · obtain ⟨hne, -⟩ | ⟨qp1, h1, h2⟩ := modifyClauses_append h
    · exact absurd rfl hne
    have e1 := modifyClauses_keepsSq (keepsSq_before ctx attr) h1
    rw [modifyClauses, if_neg hbit] at h2
    split at h2
    · cases h2
    · next ret qp2 hc =>
      split at h2
      · next hr => exact absurd (Prod.mk.inj (Except.ok.inj h2)).1 hr
      · next hr =>
        have e2 := modifyClauses_keepsSq (keepsSq_after ctx attr) h2
        unfold modifySqPsn at hc
        split at hc
        · obtain ⟨rfl, -⟩ := Prod.mk.inj (Except.ok.inj hc)
          exact absurd (show eBUSY ≠ 0 by decide) hr
        · next hq =>
          obtain ⟨-, rfl⟩ := Prod.mk.inj (Except.ok.inj hc)
          obtain ⟨hp, ho⟩ := not_or.mp hq
          obtain ⟨e3, e4⟩ := Prod.mk.inj e2
          obtain ⟨e4, e5⟩ := Prod.mk.inj e4
          have e6 := (Prod.mk.inj (Prod.mk.inj e1).2).2
          refine ⟨e3, ?_, by rw [e5]; exact e6⟩
          rw [e4]
          exact congrArg₂ (RoceRequester.mk attr.sqPsn) (not_not.mp hp) (not_not.mp ho)

/-- Every other call of it leaves the requester alone. -/
theorem roceModifyQp_cases {ctx : RoceCtx} {qp qp' : RoceQp} {attr : RoceQpAttr} {attrMask : UInt32}
    {ret : Int} (h : roceModifyQp ctx qp attr attrMask = .ok (ret, qp')) :
    qp'.sqPart = qp.sqPart ∨
      qp.req.pendingPkts = [] ∧ qp.req.outgoingPkts = [] ∧
        qp'.sqPart = (attr.sqPsn, ⟨attr.sqPsn, [], []⟩, qp.sq) := by
  unfold roceModifyQp at h
  split at h
  · obtain ⟨-, rfl⟩ := Prod.mk.inj (Except.ok.inj h)
    exact Or.inl rfl
  · obtain ⟨-, h1⟩ | ⟨qp1, h1, h2⟩ := modifyClauses_append h
    · exact Or.inl (modifyClauses_keepsSq (keepsSq_before ctx attr) h1)
    have e1 := modifyClauses_keepsSq (keepsSq_before ctx attr) h1
    rw [modifyClauses] at h2
    split at h2
    · exact Or.inl ((modifyClauses_keepsSq (keepsSq_after ctx attr) h2).trans e1)
    · split at h2
      · cases h2
      · next ret1 qp2 hc =>
        unfold modifySqPsn at hc
        split at hc
        · obtain ⟨rfl, rfl⟩ := Prod.mk.inj (Except.ok.inj hc)
          rw [if_pos (by decide)] at h2
          obtain ⟨-, rfl⟩ := Prod.mk.inj (Except.ok.inj h2)
          exact Or.inl e1
        · next hq =>
          obtain ⟨rfl, rfl⟩ := Prod.mk.inj (Except.ok.inj hc)
          rw [if_neg (by decide)] at h2
          have e2 := modifyClauses_keepsSq (keepsSq_after ctx attr) h2
          obtain ⟨hp, ho⟩ := not_or.mp hq
          have hreq : qp1.req = qp.req := (Prod.mk.inj (Prod.mk.inj e1).2).1
          have hsq : qp1.sq = qp.sq := (Prod.mk.inj (Prod.mk.inj e1).2).2
          right
          refine ⟨?_, ?_, ?_⟩
          · rw [← hreq]
            exact not_not.mp hp
          · rw [← hreq]
            exact not_not.mp ho
          · rw [e2, ← hsq]
            have heq : (⟨attr.sqPsn, qp1.req.pendingPkts, qp1.req.outgoingPkts⟩ : RoceRequester) =
                ⟨attr.sqPsn, [], []⟩ :=
              congrArg₂ (RoceRequester.mk attr.sqPsn) (not_not.mp hp) (not_not.mp ho)
            exact congrArg (fun r => (attr.sqPsn, r, qp1.sq)) heq

/-- `roce_modify_qp` with a 24-bit SQ PSN either refuses or gives such a requester. -/
theorem roceModifyQp_sqPsn {ctx : RoceCtx} {qp qp' : RoceQp} {attr : RoceQpAttr} {attrMask : UInt32}
    (h : roceModifyQp ctx qp attr attrMask = .ok (0, qp')) (hbit : attrMask &&& roceQpSqPsn ≠ 0)
    (h24 : attr.sqPsn.toNat < psnMod) : SqPsnSet qp' ∧ qp'.sq = qp.sq := by
  obtain ⟨hpsn, hreq, hsq⟩ := roceModifyQp_sq h hbit
  refine ⟨⟨?_, ?_, ?_, ?_⟩, hsq⟩
  · rw [hpsn]; exact h24
  · rw [hpsn, hreq]
  · rw [hreq]
  · rw [hreq]

/-! ## Creation -/

/-- The QP `roce_create_qp` sets up once its arguments passed; `random0/1` are
what the two calls of `random` answer.  `req.psn` is left 0. -/
def roceCreateQp (port : RocePort) (handle : UInt32) (qpType : QpType) (pd scq rcq : Nat)
    (cap : RoceQpCap) (sqSigAll : Bool) (random0 random1 : UInt32) : RoceQp where
  handle := handle
  qpType := qpType
  sqSigAll := sqSigAll
  pd := pd
  scq := scq
  rcq := rcq
  attr :=
    { qpState := .reset, rqPsn := random0 &&& ibBthPsnMask, sqPsn := random1 &&& ibBthPsnMask
      pathMtu := port.activeMtu, qkey := 0, destQpNum := 0, qpAccessFlags := 0, cap := cap
      ahAttr := ⟨Vector.replicate 16 0, Vector.replicate 6 0, 0, 0, 0, 0, 0⟩
      pkeyIndex := 0, maxRdAtomic := 0, maxDestRdAtomic := 0, portNum := 1 }
  sq := []
  rq := []
  req := ⟨0, [], []⟩
  resp := ⟨.wr 0, 0, 0, 0, false, 0⟩

/-! ## Work requests -/

/-- `roce_free_recv_wr`: the object at `p` goes, and its references. -/
def roceFreeRecvWr (ctx : RoceCtx) (p : UInt64) (wr : RecvWr) : Except Fault RoceCtx :=
  match rocePutMrs ctx wr.sge with
  | .error e => .error e
  | .ok ctx =>
    .ok { ctx with
      recvWrs := fun q => if q = p then none else ctx.recvWrs q
      trace := ctx.trace ++ [.freeRecv p] }

/-- `roce_post_recv` of the WR object at `p`. -/
def rocePostRecv (s : St) (p : UInt64) (wr : RecvWr) : Except Fault (Int × St) :=
  match roceGetMrs s.ctx wr.sge with
  | .error e => .error e
  | .ok (ret, ctx) =>
    if ret ≠ 0 then
      match roceFreeRecvWr ctx p wr with
      | .error e => .error e
      | .ok ctx => .ok (eACCES, { s with ctx := ctx })
    else
      .ok (0,
        { ctx := { ctx with recvWrs := fun q => if q = p then some wr else ctx.recvWrs q }
          qp := { s.qp with rq := s.qp.rq ++ [p] } })

/-- `roce_free_send_wr` -/
def roceFreeSendWr (ctx : RoceCtx) (wr : SendWr) : Except Fault RoceCtx :=
  if wr.mapped then rocePutMrs ctx wr.sge else .ok ctx

theorem roceFreeSendWr_refsOnly {ctx ctx' : RoceCtx} {wr : SendWr}
    (h : roceFreeSendWr ctx wr = .ok ctx') : RefsOnly ctx ctx' := by
  unfold roceFreeSendWr at h
  split at h
  · exact rocePutMrs_refsOnly h
  · obtain rfl := Except.ok.inj h
    exact .refl ctx

/-! ## A small system

One port, one PD and a QP on it: what the concrete runs start from. -/

def smallPort : RocePort :=
  ⟨4096, 1024, 0, List.replicate 8 (Vector.replicate 16 0), Vector.replicate 6 0⟩

def smallCtx : RoceCtx where
  pageSize := 4096
  devAttr := ⟨0xffffffff, 64, 16, 1024⟩
  dmaMap := fun addr _ => addr.toNat
  ports := [smallPort]
  pds := [some ⟨0⟩]
  mrs := [none, none]
  ahs := []
  mem := fun _ => 0
  recvWrs := fun _ => none
  trace := []

def smallQp : RoceQp :=
  { roceCreateQp smallPort 2 .rc 0 0 0 ⟨16, 16, 16, 16, 1024⟩ false 0 0 with attr.qpState := .rts }

/-- The QP with its SQ PSN set. -/
def smallStart (sqPsn : UInt32) : St :=
  ⟨smallCtx, { smallQp with attr.sqPsn := sqPsn, req.psn := sqPsn }⟩

/-- A WR with one empty SGE, to be sent inline. -/
def smallSend (addr : Nat) (opcode : WrOpcode) : SendWr where
  addr := addr
  wrId := 7
  opcode := opcode
  sendFlags := roceSendSignaled ||| roceSendInline
  imm := 0
  remoteAddr := 0
  rkey := 0
  ud := ⟨0, 0, 0⟩
  sge := [⟨0, 0, 0⟩]
  error := 0
  mapped := false

/-- The system with one more MR, when it can be created. -/
def withMr (ctx : RoceCtx) (a : MrArgs) : RoceCtx :=
  match roceCreateMr ctx a true 0 0 with
  | .ok (_, ctx) => ctx
  | .error _ => ctx

/-- A page that may be written locally and remotely; its keys are 0. -/
def smallMr : MrArgs where
  pd := 0
  type := .mem
  iova := 0x10000
  length := 4096
  access := 3
  iovs := [⟨0x10000, 4096⟩]
  pageSize := 4096

/-- The system with that page and `n` receive WRs of its first `len` bytes posted. -/
def smallRecv (len : UInt32) : Nat → St
  | 0 => ⟨withMr smallCtx smallMr, smallQp⟩
  | n + 1 =>
    match rocePostRecv (smallRecv len n) (UInt64.ofNat (0x1000 * (n + 1)))
        (.fresh (UInt64.ofNat n) [⟨0x10000, len, 0⟩]) with
    | .ok (_, s) => s
    | .error _ => smallRecv len n

end Libroce
