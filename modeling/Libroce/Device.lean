import Libroce.Lib.Refs
import Libroce.Responder

/-!
# The device

`dev.c`, `pd.c`, `cq.c`, `ah.c` and the creation and destruction of QPs: the
tables of the device and the references that objects hold on each other.

A pointer from one object to another is kept as the handle of the other one;
`hasRcq` tells the receive CQ of a QP from `NULL`.  SMI and GSI are objects of
the device, allocated before any QP; their slots in the QP table point to them.

`devStep` is one call of the API, or one packet, on the whole device.
-/

namespace Libroce

/-! ## Objects -/

/-- `roce_cq` -/
structure RoceCq where
  ref : UInt32
  deriving DecidableEq

/-- A QP in use; `qp.rcq` is its receive CQ when `qp->rcq` is not `NULL`. -/
structure QpObj where
  qp : RoceQp
  hasRcq : Bool
  deriving DecidableEq

/-- `dev.smi` or `dev.gsi`: its handle, and the QP it is while its type is not
`ROCE_QPT_MAX`. -/
structure SpecialQp where
  handle : UInt32
  used : Option QpObj
  deriving DecidableEq

/-- What a slot of the QP table points to. -/
inductive QpPtr where
  | smi
  | gsi
  | heap (o : QpObj)
  deriving DecidableEq

/-- `roce_device` with the context around it.  A special QP is `none` when its
pointer is `NULL` or its object was freed. -/
structure Device where
  ctx : RoceCtx
  maxCqe : UInt32
  cqs : List (Option RoceCq)
  qps : List (Option QpPtr)
  smi : Option SpecialQp
  gsi : Option SpecialQp

/-- The QP in use that a slot points to. -/
def Device.objOf (d : Device) : QpPtr → Option QpObj
  | .smi => d.smi.bind (·.used)
  | .gsi => d.gsi.bind (·.used)
  | .heap o => some o

/-- `roce_get_qp`, for the callers that use the object it returns. -/
def Device.getQp (d : Device) (qpHandle : Nat) : Option QpObj :=
  (roceResourceGet d.qps qpHandle).bind d.objOf

/-- Store a QP back to where the slot points. -/
def Device.putBack (d : Device) (qpHandle : Nat) (o : QpObj) : Device :=
  match roceResourceGet d.qps qpHandle with
  | none => d
  | some .smi => { d with smi := d.smi.map fun s => { s with used := some o } }
  | some .gsi => { d with gsi := d.gsi.map fun s => { s with used := some o } }
  | some (.heap _) => { d with qps := d.qps.set qpHandle (some (.heap o)) }

/-! ## Initialisation -/

/-- `roce_device_attr` as `roce_init_device` reads it. -/
structure RoceDevicePara extends RoceDeviceAttr where
  maxQp : UInt32
  maxCq : UInt32
  maxCqe : UInt32
  maxMr : UInt32
  maxPd : UInt32
  maxMw : UInt32
  maxAh : UInt32
  maxSrq : UInt32
  maxPkeys : UInt16
  physPortCnt : UInt8

def roceMaxInlineData : UInt32 := 1024
def roceMaxGeneral : UInt32 := 0x1000000

/-- `resources[]` of `roce_init_device`: size, minimum and maximum. -/
def devResources (para : RoceDevicePara) : List (UInt32 × UInt32 × UInt32) :=
  [ (para.maxPd, 1, roceMaxGeneral),
    (para.maxCq, 1, roceMaxGeneral),
    (para.maxMr, 1, roceMaxGeneral),
    (para.maxMw, 0, 0),
    (para.maxQp, 3, roceMaxGeneral),
    (para.maxSrq, 0, 0),
    (para.maxAh, 1, roceMaxGeneral) ]

/-- One turn of the loop over them; `calloc` answers for the table. -/
def initResource (size min max : UInt32) (calloc : Bool) : Bool :=
  !(size < min || size > max) && (size == 0 || calloc)

/-- The loop; `calloc i` answers for the table of resource `i`. -/
def initResources (calloc : Nat → Bool) : Nat → List (UInt32 × UInt32 × UInt32) → Bool
  | _, [] => true
  | i, (size, min, max) :: rs => initResource size min max (calloc i) && initResources calloc (i + 1) rs

/-- `roce_resource_alloc_at`; `none` is an error. -/
def roceResourceAllocAt {α : Type} (addr : List (Option α)) (index : Nat) (res : α) :
    Option (List (Option α)) :=
  match addr[index]? with
  | some none => some (addr.set index (some res))
  | _ => none

/-- `roce_alloc_special_qps`; its result is not looked at. -/
def Device.allocSpecialQps (d : Device) (calloc : Nat → Bool) : Device :=
  if calloc 0 then
    match roceResourceAllocAt d.qps 0 .smi with
    | none => d
    | some qps =>
      if calloc 1 then
        match roceResourceAllocAt qps 1 .gsi with
        | none => { d with qps := qps.set 0 none }
        | some qps => { d with qps := qps, smi := some ⟨0, none⟩, gsi := some ⟨1, none⟩ }
      else { d with qps := qps.set 0 none }
  else d

/-- `roce_init_device`; `.error` is what it returns when it fails.  `calloc`
answers for the tables, `callocQp` for SMI and GSI. -/
def roceInitDevice (ctx : RoceCtx) (para : RoceDevicePara) (calloc callocQp : Nat → Bool) :
    Except Int Device :=
  if para.maxMrSize < ctx.pageSize ∨ !rocePowerOf2 para.maxMrSize.toUInt64 then .error eINVAL
  else if para.maxSge.toNat ≥ roceMaxSge then .error eINVAL
  else if para.maxInlineData ≥ roceMaxInlineData then .error eINVAL
  else if para.maxPkeys = 0 ∨ para.maxPkeys > roceMaxPkey then .error eINVAL
  else if para.physPortCnt = 0 ∨ para.physPortCnt > roceMaxPorts then .error eINVAL
  else if initResources calloc 0 (devResources para) then
    let d : Device :=
      { ctx := { ctx with
          devAttr := para.toRoceDeviceAttr
          pds := List.replicate para.maxPd.toNat none
          mrs := List.replicate para.maxMr.toNat none
          ahs := List.replicate para.maxAh.toNat none }
        maxCqe := para.maxCqe
        cqs := List.replicate para.maxCq.toNat none
        qps := List.replicate para.maxQp.toNat none
        smi := none
        gsi := none }
    .ok (d.allocSpecialQps callocQp)
  else .error eNOMEM

/-! ## PDs -/

/-- `roce_alloc_pd` -/
def roceAllocPd (ctx : RoceCtx) (calloc : Bool) : Int × RoceCtx :=
  if calloc then
    match roceResourceAlloc ctx.pds fun _ => ⟨0⟩ with
    | none => (eBUSY, ctx)
    | some (h, pds) => (h, { ctx with pds := pds })
  else (eNOMEM, ctx)

/-- `roce_dealloc_pd` -/
def roceDeallocPd (ctx : RoceCtx) (pdHandle : Nat) : Int × RoceCtx :=
  match roceResourceGet ctx.pds pdHandle with
  | none => (eINVAL, ctx)
  | some pd => if pd.ref ≠ 0 then (eBUSY, ctx) else (0, { ctx with pds := ctx.pds.set pdHandle none })

/-! ## CQs -/

/-- `roce_create_cq` -/
def roceCreateCq (d : Device) (cqe : UInt32) (calloc : Bool) : Int × Device :=
  if cqe > d.maxCqe then (eINVAL, d)
  else if calloc then
    match roceResourceAlloc d.cqs fun _ => ⟨0⟩ with
    | none => (eBUSY, d)
    | some (h, cqs) => (h, { d with cqs := cqs })
  else (eNOMEM, d)

/-- `roce_destroy_cq` -/
def roceDestroyCq (d : Device) (cqHandle : Nat) : Int × Device :=
  match roceResourceGet d.cqs cqHandle with
  | none => (eINVAL, d)
  | some cq => if cq.ref ≠ 0 then (eBUSY, d) else (0, { d with cqs := d.cqs.set cqHandle none })

/-- `roce_get_cq` -/
def roceGetCq (cqs : List (Option RoceCq)) (cqHandle : Nat) : Option (List (Option RoceCq)) :=
  match roceResourceGet cqs cqHandle with
  | none => none
  | some cq => some (cqs.set cqHandle (some ⟨cq.ref + 1⟩))

/-- `ROCE_ASSERT(!roce_put_cq(ctx, cq_handle))` -/
def assertPutCq (cqs : List (Option RoceCq)) (cqHandle : Nat) :
    Except Fault (List (Option RoceCq)) :=
  match roceResourceGet cqs cqHandle with
  | none => .error (.abort .putCq)
  | some cq => .ok (cqs.set cqHandle (some ⟨cq.ref - 1⟩))

/-! ## AHs -/

/-- `roce_create_ah` -/
def roceCreateAh (ctx : RoceCtx) (pdHandle : Nat) (attr : RoceAhAttr) (calloc : Bool) :
    Except Fault (Int × RoceCtx) :=
  match roceGetPd ctx pdHandle with
  | none => .ok (eINVAL, ctx)
  | some ctx =>
    if calloc then
      match roceResourceAlloc ctx.ahs fun _ => ⟨0, pdHandle, attr⟩ with
      | none => do
        let ctx ← assertPutPd ctx pdHandle
        return (eBUSY, ctx)
      | some (h, ahs) => .ok (h, { ctx with ahs := ahs })
    else do
      let ctx ← assertPutPd ctx pdHandle
      return (eNOMEM, ctx)

/-- `roce_destroy_ah` -/
def roceDestroyAh (ctx : RoceCtx) (ahHandle : Nat) : Except Fault (Int × RoceCtx) :=
  match roceResourceGet ctx.ahs ahHandle with
  | none => .ok (eINVAL, ctx)
  | some ah =>
    if ah.ref ≠ 0 then .ok (eBUSY, ctx)
    else do
      let ctx ← assertPutPd { ctx with ahs := ctx.ahs.set ahHandle none } ah.pd
      return (0, ctx)

/-! ## QPs -/

/-- The arguments of `roce_create_qp` that it uses. -/
structure QpArgs where
  pd : Nat
  qpType : QpType
  sendCq : Nat
  recvCq : Nat
  cap : RoceQpCap
  sqSigAll : Bool

/-- The label `put_resource` of `roce_create_qp`; `rcq` tells whether the
receive CQ was found.  PD and send CQ were. -/
def Device.putResource (d : Device) (a : QpArgs) (rcq : Bool) : Except Fault (Int × Device) := do
  let ctx ← assertPutPd d.ctx a.pd
  let cqs ← assertPutCq d.cqs a.sendCq
  let cqs ← if rcq then assertPutCq cqs a.recvCq else .ok cqs
  return (eINVAL, { d with ctx := ctx, cqs := cqs })

/-- The QP of `roce_create_qp` under its number. -/
def QpArgs.newQp (a : QpArgs) (port : RocePort) (rcq : Bool) (random0 random1 qpn : UInt32) : QpObj :=
  ⟨roceCreateQp port qpn a.qpType a.pd a.sendCq a.recvCq a.cap a.sqSigAll random0 random1, rcq⟩

/-- `roce_create_qp` once it holds its references. -/
def Device.createQpObj (d : Device) (a : QpArgs) (rcq calloc : Bool) (random0 random1 : UInt32) :
    Except Fault (Int × Device) := do
  let port ← portAt d.ctx 1
  if a.qpType = .gsi then
    match d.gsi with
    | none => .error (.abort .gsiAlloc)
    | some gsi =>
      if gsi.used.isSome then d.putResource a rcq
      else do
        roceAssert (gsi.handle == 1) .gsiHandle
        let o := a.newQp port rcq random0 random1 gsi.handle
        return (gsi.handle.toNat, { d with gsi := some { gsi with used := some o } })
  else if calloc then
    match roceResourceAlloc d.qps fun qpn =>
        .heap (a.newQp port rcq random0 random1 (UInt32.ofNat qpn)) with
    | none => d.putResource a rcq
    | some (qpn, qps) => return (qpn, { d with qps := qps })
  else d.putResource a rcq

/-- `roce_create_qp`.  After the receive CQ the code tests `scq` again, so a
receive CQ that was not found is kept as `NULL`. -/
def Device.createQp (d : Device) (a : QpArgs) (calloc : Bool) (random0 random1 : UInt32) :
    Except Fault (Int × Device) :=
  if a.qpType ≠ .gsi ∧ a.qpType ≠ .rc ∧ a.qpType ≠ .ud then .ok (eNOTSUP, d)
  else if roceVerifyQpCap d.ctx a.cap ≠ 0 then .ok (eINVAL, d)
  else
    match roceGetPd d.ctx a.pd with
    | none => .ok (eINVAL, d)
    | some ctx =>
      match roceGetCq d.cqs a.sendCq with
      | none => do
        let ctx ← assertPutPd ctx a.pd
        return (eINVAL, { d with ctx := ctx })
      | some cqs =>
        match roceGetCq cqs a.recvCq with
        | none => Device.createQpObj { d with ctx := ctx, cqs := cqs } a false calloc random0 random1
        | some cqs => Device.createQpObj { d with ctx := ctx, cqs := cqs } a true calloc random0 random1

/-- The loop of `roce_destroy_qp` over the send queue. -/
def freeSendWrs (ctx : RoceCtx) : List SendWr → Except Fault RoceCtx
  | [] => .ok ctx
  | wr :: wrs =>
    match roceFreeSendWr ctx wr with
    | .error e => .error e
    | .ok ctx => freeSendWrs ctx wrs

/-- The loop of `roce_destroy_qp` over the receive queue. -/
def freeRecvWrs (ctx : RoceCtx) : List UInt64 → Except Fault RoceCtx
  | [] => .ok ctx
  | p :: ps =>
    match ctx.recvWrs p with
    | none => .error (.undefined .recvWr)
    | some wr =>
      match roceFreeRecvWr ctx p wr with
      | .error e => .error e
      | .ok ctx => freeRecvWrs ctx ps

/-- The end of `roce_destroy_qp`: GSI is cleared, its handle with it. -/
def Device.releaseQp (d : Device) (o : QpObj) : Device :=
  if o.qp.qpType = .gsi then { d with gsi := d.gsi.map fun _ => ⟨0, none⟩ } else d

/-- `roce_destroy_qp` -/
def Device.destroyQp (d : Device) (qpHandle : Nat) : Except Fault (Int × Device) :=
  match d.getQp qpHandle with
  | none => .error (.undefined .nullQp)
  | some o =>
    if o.hasRcq then do
      let ctx ← assertPutPd d.ctx o.qp.pd
      let cqs ← assertPutCq d.cqs o.qp.scq
      let cqs ← assertPutCq cqs o.qp.rcq
      let ctx ← freeSendWrs ctx o.qp.sq
      let ctx ← freeRecvWrs ctx o.qp.rq
      let d : Device :=
        { d with ctx := ctx, cqs := cqs, qps := d.qps.set o.qp.handle.toNat none }
      return (0, d.releaseQp o)
    else .error (.undefined .nullCq)

/-! ## Calls on a QP -/

/-- A call that works on one QP. -/
inductive QpCall where
  | modify (attr : RoceQpAttr) (attrMask : UInt32)
  | postRecv (p : UInt64) (wrId : UInt64) (sge : List RoceSge)
  | postSend (wr : SendWr) (calloc : Nat → Bool)
  | recv (d : Decap) (calloc : Bool)

/-- One call on the QP of `s`. -/
def qpStep (s : St) : QpCall → Except Fault St
  | .modify attr attrMask => do
    let (_, qp) ← roceModifyQp s.ctx s.qp attr attrMask
    return { s with qp := qp }
  | .postRecv p wrId sge => do
    let (_, s) ← rocePostRecv s p (.fresh wrId sge)
    return s
  | .postSend wr calloc => rocePostSend s wr.fresh calloc
  | .recv d calloc => do
    let (_, s) ← roceRecvBth s d calloc
    return s

/-- One call on the QP at `qpHandle`. -/
def Device.onQp (d : Device) (qpHandle : Nat) (call : QpCall) : Except Fault Device :=
  match d.getQp qpHandle with
  | none => .error (.undefined .nullQp)
  | some o => do
    let s ← qpStep ⟨d.ctx, o.qp⟩ call
    return Device.putBack { d with ctx := s.ctx } qpHandle { o with qp := s.qp }

/-- `roce_net_recv`: the frame goes to the QP its BTH names.  SMI and a GSI not
in use refuse it. -/
def Device.netRecv (d : Device) (iovs : List (List UInt8)) (calloc : Bool) : Except Fault Device := do
  match ← roceNetDecap d.ctx iovs with
  | none => return d
  | some pkt =>
    let destqp := (ibBthGetDestqp pkt.bth).toNat
    if destqp = 0 ∨ d.getQp destqp = none then return d
    else d.onQp destqp (.recv pkt calloc)

/-! ## The machine -/

/-- A call of the API, or an arriving packet. -/
inductive DevOp where
  | allocPd (calloc : Bool)
  | deallocPd (pdHandle : Nat)
  | createCq (cqe : UInt32) (calloc : Bool)
  | destroyCq (cqHandle : Nat)
  | createAh (pdHandle : Nat) (attr : RoceAhAttr) (calloc : Bool)
  | destroyAh (ahHandle : Nat)
  | createMr (a : MrArgs) (calloc : Bool) (random0 random1 : UInt32)
  | destroyMr (mrHandle : Nat)
  | createQp (a : QpArgs) (calloc : Bool) (random0 random1 : UInt32)
  | destroyQp (qpHandle : Nat)
  | onQp (qpHandle : Nat) (call : QpCall)
  | netRecv (iovs : List (List UInt8)) (calloc : Bool)

def Device.withCtx (d : Device) (r : Int × RoceCtx) : Device := { d with ctx := r.2 }

/-- One step of the device. -/
def devStep (d : Device) : DevOp → Except Fault Device
  | .allocPd calloc => .ok (d.withCtx (roceAllocPd d.ctx calloc))
  | .deallocPd pdHandle => .ok (d.withCtx (roceDeallocPd d.ctx pdHandle))
  | .createCq cqe calloc => .ok (roceCreateCq d cqe calloc).2
  | .destroyCq cqHandle => .ok (roceDestroyCq d cqHandle).2
  | .createAh pdHandle attr calloc => do
    let r ← roceCreateAh d.ctx pdHandle attr calloc
    return d.withCtx r
  | .destroyAh ahHandle => do
    let r ← roceDestroyAh d.ctx ahHandle
    return d.withCtx r
  | .createMr a calloc random0 random1 => do
    let r ← roceCreateMr d.ctx a calloc random0 random1
    return d.withCtx r
  | .destroyMr mrHandle => do
    let r ← roceDestroyMr d.ctx mrHandle
    return d.withCtx r
  | .createQp a calloc random0 random1 => do
    let r ← d.createQp a calloc random0 random1
    return r.2
  | .destroyQp qpHandle => do
    let r ← d.destroyQp qpHandle
    return r.2
  | .onQp qpHandle call => d.onQp qpHandle call
  | .netRecv iovs calloc => d.netRecv iovs calloc

/-! ## A small device -/

def smallPara : RoceDevicePara where
  maxMrSize := 0x80000000
  maxQpWr := 64
  maxSge := 16
  maxInlineData := 512
  maxQp := 4
  maxCq := 2
  maxCqe := 64
  maxMr := 2
  maxPd := 2
  maxMw := 0
  maxAh := 2
  maxSrq := 0
  maxPkeys := 1
  physPortCnt := 1

def smallQpArgs (qpType : QpType) (recvCq : Nat) : QpArgs :=
  ⟨0, qpType, 0, recvCq, ⟨16, 16, 16, 16, 512⟩, false⟩

end Libroce
