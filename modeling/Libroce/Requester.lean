import Libroce.Lib.Machine
import Libroce.Qp

/-!
# The requester

`requester.c`.  A posted WR joins the send queue, is cut into packets that
join `pending_pkts`, and `roce_xmit_pkts` moves packets to `outgoing_pkts` as
the window allows.  An acknowledgement takes packets off `outgoing_pkts` and
completes the WR at the head of the send queue when its last packet goes.

The members of the builder family are `rcOnly` (one packet) and `rcMulti`
(FIRST, MIDDLE*, LAST) with their opcodes and extension headers.
-/

namespace Libroce

/-! ## Building one packet -/

def roceGetMtu (ctx : RoceCtx) (qp : RoceQp) : Except Fault UInt16 :=
  if qp.qpType = .rc ∨ qp.qpType = .uc then .ok qp.attr.pathMtu
  else
    match portAt ctx 1 with
    | .error e => .error e
    | .ok port => .ok port.activeMtu

theorem RefsOnly.roceGetMtu {ctx ctx' : RoceCtx} (h : RefsOnly ctx ctx') (qp : RoceQp) :
    Libroce.roceGetMtu ctx' qp = Libroce.roceGetMtu ctx qp := by
  unfold RefsOnly at h
  rw [h]
  rfl

def roceNetpktPsn (pkt : RoceNetpkt) : UInt32 := ibBthGetPsn pkt.bth

/-- The bytes an iovec of a packet denotes; one that was never written is empty. -/
def iovBytes (mem : Nat → UInt8) : Option Iovec → List UInt8
  | none => []
  | some iov => (List.range iov.len).map fun i => mem (iov.base + i)

/-- Mapping SGEs into a packet, with the checks that follow it.  `map_pages`
is unsigned, so the error path is dead and a refusal meets the assertion. -/
def pktMapSge (ctx : RoceCtx) (qp : RoceQp) (sges : List RoceSge) (pages : UInt32) :
    Except Fault (Option (List (List UInt8))) := do
  let r ← roceMrMapSge ctx qp sges true 0
  let mapPages := UInt32.ofInt r.ret
  if mapPages < 0 then return none
  else if pages = mapPages then return some (r.iovs.map (iovBytes ctx.mem))
  else .error (.abort .mapPages)

/-- A payload is what memory holds at its iovecs, if it has any there. -/
def InMemory (mem : Nat → UInt8) (mapped : List (Option Iovec)) (payload : List (List UInt8)) : Prop :=
  mapped = [] ∨ payload = mapped.map (iovBytes mem)

/-- The iovecs that the SGEs are mapped to. -/
def mappedIovs (ctx : RoceCtx) (qp : RoceQp) (sges : List RoceSge) : List (Option Iovec) :=
  match roceMrMapSge ctx qp sges true 0 with
  | .error _ => []
  | .ok r => r.iovs

def sendSolicited (wr : SendWr) : Bool := wr.sendFlags &&& roceSendSolicited != 0

/-- `(-payload) & 0x3` -/
def padCount (payload : UInt32) : UInt8 := ((0 - payload) &&& 0x3).toUInt8

/-- The headers of a request packet: `roce_netpkt_set_bth` and `roce_netpkt_set_eth`. -/
def requestHeaders (ctx : RoceCtx) (qp : RoceQp) (pkt : RoceNetpkt) (opcode : UInt8) (se : Bool)
    (padcnt : UInt8) (destqp : UInt32) (ack : Bool) (psn : UInt32) (ahAttr : RoceAhAttr) :
    Except Fault RoceNetpkt := do
  let port ← portAt ctx qp.attr.portNum
  roceNetpktSetEth
    { pkt with bth := roceNetpktSetBth pkt.bth qp.qpType opcode se padcnt destqp ack psn } port ahAttr

/-! ## A request in one packet -/

/-- The payload of a single packet: the inline array, or the mapped SGEs. -/
def onlyPayload (ctx : RoceCtx) (qp : RoceQp) (wr : SendWr) (payload pages : UInt32) :
    Except Fault (Option (List (List UInt8))) :=
  if roceSendWrIsInline wr then .ok (some [(sgeBytes wr.sge).take payload.toNat])
  else pktMapSge ctx qp wr.sge pages

/-- Those of its iovecs that lie in host memory. -/
def onlyMapped (ctx : RoceCtx) (qp : RoceQp) (wr : SendWr) : List (Option Iovec) :=
  if roceSendWrIsInline wr then [] else mappedIovs ctx qp wr.sge

def onlyPages (ctx : RoceCtx) (wr : SendWr) : Except Fault UInt32 :=
  if roceSendWrIsInline wr then .ok 1 else roceSgePages wr.sge ctx.pageSize

/-- `roce_rc_send_only` and `roce_rc_write_only`; `calloc n` is the answer to
the `n`-th allocation of the call. -/
def rcOnly (ctx : RoceCtx) (qp : RoceQp) (wr : SendWr) (calloc : Nat → Bool) (opcode : UInt8)
    (ext : List UInt8) (payload : UInt32) : Except Fault (RoceQp × SendWr) := do
  let pages ← onlyPages ctx wr
  let padcnt := padCount payload
  match ← roceNetpktAlloc ctx qp (some wr.addr) padcnt (calloc 0) with
  | none => return (qp, { wr with error := roceWcLocQpOpErr })
  | some pkt =>
    match ← onlyPayload ctx qp wr payload pages with
    | none => return (qp, { wr with error := roceWcLocQpOpErr })
    | some bytes =>
      let mapped := onlyMapped ctx qp wr
      let pkt ← requestHeaders ctx qp { pkt with ext := ext, payload := bytes, mapped := mapped } opcode
        (sendSolicited wr) padcnt qp.attr.destQpNum true qp.req.psn qp.attr.ahAttr
      return ({ qp with
          req.pendingPkts := qp.req.pendingPkts ++ [pkt]
          req.psn := roceQpPsnInc qp.req.psn }, wr)

/-- `roce_rc_send_only` -/
def roceRcSendOnly (ctx : RoceCtx) (qp : RoceQp) (wr : SendWr) (calloc : Nat → Bool)
    (inv imm : Bool) (payload : UInt32) : Except Fault (RoceQp × SendWr) :=
  if inv then
    rcOnly ctx qp wr calloc ibOpcodeSendOnlyWithInvalidate (ibIethCodec.enc wr.imm) payload
  else if imm then
    rcOnly ctx qp wr calloc ibOpcodeSendOnlyWithImmediate (ibImmdtCodec.enc wr.imm) payload
  else rcOnly ctx qp wr calloc ibOpcodeSendOnly [] payload

/-- The RETH of a WRITE request. -/
def writeReth (wr : SendWr) (payload : UInt32) : List UInt8 :=
  ibRethCodec.enc ⟨wr.remoteAddr, wr.rkey, payload⟩

/-- `roce_rc_write_only` -/
def roceRcWriteOnly (ctx : RoceCtx) (qp : RoceQp) (wr : SendWr) (calloc : Nat → Bool)
    (imm : Bool) (payload : UInt32) : Except Fault (RoceQp × SendWr) :=
  if imm then
    rcOnly ctx qp wr calloc ibOpcodeRdmaWriteOnlyWithImmediate
      (writeReth wr payload ++ ibImmdtCodec.enc wr.imm) payload
  else rcOnly ctx qp wr calloc ibOpcodeRdmaWriteOnly (writeReth wr payload) payload

/-! ## A request in several packets -/

/-- The opcodes and extension headers of a request in several packets. -/
structure MultiKind where
  opFirst : UInt8
  opMiddle : UInt8
  opLast : UInt8
  extFirst : List UInt8
  extLast : List UInt8

/-- One packet of several.  The list takes the packet before it is checked. -/
def multiPkt (ctx : RoceCtx) (qp : RoceQp) (opaquePtr : Option Nat) (sges : List RoceSge)
    (opcode : UInt8) (ext : List UInt8) (se : Bool) (padcnt : UInt8) (ack : Bool) (psn : UInt32)
    (calloc : Bool) : Except Fault (Option RoceNetpkt) := do
  let pages ← roceSgePages sges ctx.pageSize
  match ← roceNetpktAlloc ctx qp opaquePtr padcnt calloc with
  | none => .error (.undefined .nullPkt)
  | some pkt =>
    match ← pktMapSge ctx qp sges pages with
    | none => return none
    | some bytes =>
      let mapped := mappedIovs ctx qp sges
      let pkt ← requestHeaders ctx qp
        { pkt with ext := ext, payload := bytes, mapped := mapped } opcode se padcnt
        qp.attr.destQpNum ack psn qp.attr.ahAttr
      return some pkt

/-- `!(psn % ROCE_MAX_OUTGOING_PACKETS)` -/
def multiAck (psn : UInt32) : Bool := psn % roceMaxOutgoingPackets == 0

/-- Where the builder stands: the packets so far, the next PSN, the bytes left
and the cursor. -/
structure MultiState where
  pkts : List RoceNetpkt
  psn : UInt32
  payload : UInt32
  sgeIdx : Nat
  sgeOff : Nat

/-- A FIRST or MIDDLE packet of `mtu` bytes. -/
def multiStep (ctx : RoceCtx) (qp : RoceQp) (wr : SendWr) (calloc : Nat → Bool) (opcode : UInt8)
    (ext : List UInt8) (mtu : UInt16) (m : MultiState) : Except Fault (Option MultiState) := do
  let (sges, sgeIdx, sgeOff) ← roceSgeAdvance wr.sge mtu.toNat m.sgeIdx m.sgeOff
  match ← multiPkt ctx qp none sges opcode ext false 0 (multiAck m.psn) m.psn (calloc m.pkts.length) with
  | none => return none
  | some pkt =>
    return some ⟨m.pkts ++ [pkt], roceQpPsnInc m.psn, m.payload - mtu.toUInt32, sgeIdx, sgeOff⟩

/-- The loop of MIDDLE packets.  Each turn takes `mtu` bytes off the payload,
so it runs out of fuel only when the MTU is 0. -/
def multiMiddle (ctx : RoceCtx) (qp : RoceQp) (wr : SendWr) (calloc : Nat → Bool) (opcode : UInt8)
    (mtu : UInt16) : Nat → MultiState → Except Fault (Option MultiState)
  | 0, _ => .error .hang
  | fuel + 1, m =>
    if m.payload > mtu.toUInt32 then do
      match ← multiStep ctx qp wr calloc opcode [] mtu m with
      | none => return none
      | some m => multiMiddle ctx qp wr calloc opcode mtu fuel m
    else .ok (some m)

/-- `roce_rc_send_multi` and `roce_rc_write_multi` -/
def rcMulti (ctx : RoceCtx) (qp : RoceQp) (wr : SendWr) (calloc : Nat → Bool) (kind : MultiKind)
    (payload : UInt32) (mtu : UInt16) : Except Fault (RoceQp × SendWr) := do
  let failed := (qp, { wr with error := roceWcLocQpOpErr })
  match ← multiStep ctx qp wr calloc kind.opFirst kind.extFirst mtu ⟨[], qp.req.psn, payload, 0, 0⟩ with
  | none => return failed
  | some m =>
    match ← multiMiddle ctx qp wr calloc kind.opMiddle mtu (payload.toNat + 1) m with
    | none => return failed
    | some m =>
      let (sges, _, _) ← roceSgeAdvance wr.sge m.payload.toNat m.sgeIdx m.sgeOff
      match ← multiPkt ctx qp (some wr.addr) sges kind.opLast kind.extLast (sendSolicited wr)
          (padCount m.payload) true m.psn (calloc m.pkts.length) with
      | none => return failed
      | some pkt =>
        return ({ qp with
            req.pendingPkts := qp.req.pendingPkts ++ (m.pkts ++ [pkt])
            req.psn := roceQpPsnInc m.psn }, wr)

def sendMultiKind (wr : SendWr) (inv imm : Bool) : MultiKind where
  opFirst := ibOpcodeSendFirst
  opMiddle := ibOpcodeSendMiddle
  opLast :=
    if inv then ibOpcodeSendLastWithInvalidate
    else if imm then ibOpcodeSendLastWithImmediate
    else ibOpcodeSendLast
  extFirst := []
  extLast :=
    if inv then ibIethCodec.enc wr.imm else if imm then ibImmdtCodec.enc wr.imm else []

/-- `roce_rc_send_multi` -/
def roceRcSendMulti (ctx : RoceCtx) (qp : RoceQp) (wr : SendWr) (calloc : Nat → Bool)
    (inv imm : Bool) (payload : UInt32) (mtu : UInt16) : Except Fault (RoceQp × SendWr) :=
  rcMulti ctx qp wr calloc (sendMultiKind wr inv imm) payload mtu

def writeMultiKind (wr : SendWr) (imm : Bool) (payload : UInt32) : MultiKind where
  opFirst := ibOpcodeRdmaWriteFirst
  opMiddle := ibOpcodeRdmaWriteMiddle
  opLast := if imm then ibOpcodeRdmaWriteLastWithImmediate else ibOpcodeRdmaWriteLast
  extFirst := writeReth wr payload
  extLast := if imm then ibImmdtCodec.enc wr.imm else []

/-- `roce_rc_write_multi` -/
def roceRcWriteMulti (ctx : RoceCtx) (qp : RoceQp) (wr : SendWr) (calloc : Nat → Bool)
    (imm : Bool) (payload : UInt32) (mtu : UInt16) : Except Fault (RoceQp × SendWr) :=
  rcMulti ctx qp wr calloc (writeMultiKind wr imm payload) payload mtu

/-! ## All the packets of a request -/

/-- `sizeof(roce_sge) * num_sge` -/
def inlineLen (wr : SendWr) : UInt32 := UInt32.ofNat (16 * wr.sge.length)

def requestLen (wr : SendWr) : Except Fault UInt32 :=
  if roceSendWrIsInline wr then .ok (inlineLen wr) else roceSgeLen wr.sge 0 0

/-- `roce_rc_send_pkts` -/
def roceRcSendPkts (ctx : RoceCtx) (qp : RoceQp) (wr : SendWr) (calloc : Nat → Bool)
    (inv imm : Bool) : Except Fault (RoceQp × SendWr) := do
  let mtu ← roceGetMtu ctx qp
  roceAssert (!(inv && imm)) .invAndImm
  let payload ← requestLen wr
  if payload ≤ mtu.toUInt32 then roceRcSendOnly ctx qp wr calloc inv imm payload
  else
    roceAssert (!roceSendWrIsInline wr) .inlineMulti
    roceRcSendMulti ctx qp wr calloc inv imm payload mtu

/-- `roce_rc_write_pkts` -/
def roceRcWritePkts (ctx : RoceCtx) (qp : RoceQp) (wr : SendWr) (calloc : Nat → Bool)
    (imm : Bool) : Except Fault (RoceQp × SendWr) := do
  let mtu ← roceGetMtu ctx qp
  let payload ← requestLen wr
  if payload ≤ mtu.toUInt32 then roceRcWriteOnly ctx qp wr calloc imm payload
  else roceRcWriteMulti ctx qp wr calloc imm payload mtu

/-- `roce_rc_build_pkts`.  The switch has no case for RDMA_READ, the atomics,
FLUSH and the local operations: these build nothing. -/
def roceRcBuildPkts (ctx : RoceCtx) (qp : RoceQp) (wr : SendWr) (calloc : Nat → Bool) :
    Except Fault (RoceQp × SendWr) :=
  if roceSendWrIsInline wr ∧ inlineLen wr > qp.attr.cap.maxInlineData then
    .ok (qp, { wr with error := roceWcLocLenErr })
  else
    match wr.opcode with
    | .sendWithImm => roceRcSendPkts ctx qp wr calloc false true
    | .sendWithInv => roceRcSendPkts ctx qp wr calloc true false
    | .send => roceRcSendPkts ctx qp wr calloc false false
    | .rdmaWriteWithImm => roceRcWritePkts ctx qp wr calloc true
    | .rdmaWrite => roceRcWritePkts ctx qp wr calloc false
    | _ => .ok (qp, wr)

/-! ## Transmission -/

/-- The loop of `roce_xmit_pkts`: what moves to the outgoing queue and what
stays pending. -/
def xmitLoop (sqPsn : UInt32) : List RoceNetpkt → List RoceNetpkt × List RoceNetpkt
  | [] => ([], [])
  | pkt :: pkts =>
    if roceComparePsn (sqPsn + roceMaxOutgoingPackets) (roceNetpktPsn pkt) = 0 then ([pkt], pkts)
    else (pkt :: (xmitLoop sqPsn pkts).1, (xmitLoop sqPsn pkts).2)

/-- The pending packets that go out, after the head of `roce_xmit_pkts` let them. -/
def xmitPending (s : St) : St :=
  let moved := xmitLoop s.qp.attr.sqPsn s.qp.req.pendingPkts
  ({ s with
      qp.req.outgoingPkts := s.qp.req.outgoingPkts ++ moved.1
      qp.req.pendingPkts := moved.2 } : St).emit (moved.1.map .netXmit)

/-- `roce_xmit_pkts` -/
def roceXmitPkts (s : St) : Except Fault St :=
  match s.qp.req.outgoingPkts.getLast? with
  | none => .ok (xmitPending s)
  | some pkt =>
    let psn := roceNetpktPsn pkt
    -- raw integers, where the rest of the file compares serial numbers
    if psn ≥ s.qp.attr.sqPsn ∧ psn ≤ s.qp.req.psn then
      let diff := roceComparePsn (s.qp.attr.sqPsn + roceMaxOutgoingPackets) psn
      if diff ≥ 0 then
        if diff = 0 then .ok s else .ok (xmitPending s)
      else .error (.abort .xmitWindow)
    else .error (.abort .xmitPsn)

/-! ## Completion -/

/-- `roce_complete_head` takes off local WRs and WRs with an error. -/
def completesAtHead (wr : SendWr) : Bool := roceSendWrIsLocal wr || wr.error != 0

/-- `roce_complete_head` -/
def roceCompleteHead (s : St) : St :=
  ({ s with qp.sq := s.qp.sq.dropWhile completesAtHead } : St).emit
    ((s.qp.sq.takeWhile completesAtHead).map .leaveSq)

/-- `roce_send_wr_opcode_to_wc` -/
def roceSendWrOpcodeToWc : WrOpcode → WcOpcode × UInt16
  | .send => (.send, 0)
  | .sendWithImm => (.send, roceWcWithImm)
  | .sendWithInv => (.send, roceWcWithInvalidate)
  | .rdmaWrite => (.rdmaWrite, 0)
  | .rdmaWriteWithImm => (.rdmaWrite, roceWcWithImm)
  | .rdmaRead => (.rdmaRead, 0)
  | .atomicCmpAndSwp => (.compSwap, 0)
  | .atomicFetchAndAdd => (.fetchAdd, 0)
  | .atomicWrite => (.atomicWrite, 0)
  | .flush => (.flush, 0)
  | .localInv => (.localInv, 0)
  | .regMr => (.regMr, 0)
  | .bindMw => (.bindMw, 0)

def wrSignaled (qp : RoceQp) (wr : SendWr) : Bool :=
  qp.sqSigAll || wr.sendFlags &&& roceSendSignaled != 0

/-- The completion of a send WR. -/
def sendWc (qp : RoceQp) (wr : SendWr) (status : UInt8) (byteLen : UInt32) : RoceWc where
  wrId := wr.wrId
  status := status
  opcode := (roceSendWrOpcodeToWc wr.opcode).1
  byteLen := byteLen
  localQpn := qp.handle
  remoteQpn := qp.attr.destQpNum
  immData := 0
  wcFlags := (roceSendWrOpcodeToWc wr.opcode).2

/-- The report of `roce_rc_complete_send_wr`, if one is due. -/
def completionEvents (qp : RoceQp) (wr : SendWr) : Except Fault (List Event) :=
  if wrSignaled qp wr then do
    let byteLen ← roceSgeLen wr.sge 0 0
    return [.cqComp (sendWc qp wr roceWcSuccess byteLen) qp.scq]
  else .ok []

/-- `roce_rc_complete_send_wr` -/
def roceRcCompleteSendWr (s : St) (pkt : RoceNetpkt) : Except Fault St :=
  let s := roceCompleteHead s
  let s : St := { s with qp.attr.sqPsn := roceQpPsnInc s.qp.attr.sqPsn }
  match pkt.opaquePtr with
  | none => .ok s
  | some wrAddr =>
    match s.qp.sq with
    | [] => .error (.abort .completeOpaque)
    | wr :: sq =>
      if wr.addr = wrAddr then do
        let reports ← completionEvents s.qp wr
        let s := ({ s with qp.sq := sq } : St).emit (.leaveSq wr :: reports)
        let ctx ← roceFreeSendWr s.ctx wr
        return roceCompleteHead { s with ctx := ctx }
      else .error (.abort .completeOpaque)

/-- The loop of `roce_handle_ack` over the outgoing packets. -/
def ackLoop (psn : UInt32) : List RoceNetpkt → St → Except Fault St
  | [], s => .ok s
  | pkt :: pkts, s =>
    if roceComparePsn (roceNetpktPsn pkt) psn > 0 then .ok s
    else
      match roceRcCompleteSendWr (({ s with qp.req.outgoingPkts := pkts } : St).emit [.acked pkt]) pkt with
      | .error e => .error e
      | .ok s => ackLoop psn pkts s

/-- `roce_handle_ack` -/
def roceHandleAck (s : St) (psn : UInt32) : Except Fault St :=
  if roceComparePsn s.qp.attr.sqPsn psn > 0 then .ok s
  else if roceComparePsn s.qp.req.psn psn < 0 then .ok s
  else ackLoop psn s.qp.req.outgoingPkts s

/-- `roce_handle_nak` -/
def roceHandleNak (s : St) (psn : UInt32) : Except Fault St := do
  let s ← roceHandleAck s ((psn - 1) &&& ibBthPsnMask)
  roceXmitPkts (s.emit (s.qp.req.outgoingPkts.map .netXmit))

/-- `roce_handle_acknowledge`; the value (a NAK code) and the MSN are only logged. -/
def roceHandleAcknowledge (s : St) (syndrome : Syndrome) (_val : UInt8) (psn : UInt32)
    (_msn : UInt32) : Except Fault St :=
  match syndrome with
  | .ack => do
    let s ← roceHandleAck s psn
    roceXmitPkts s
  | .nak => roceHandleNak s psn
  | .rnrNak => .ok s
  | .reserved => .ok s

/-! ## Posting -/

/-- Build the packets of a WR that has no error yet. -/
def requestBuild (ctx : RoceCtx) (qp : RoceQp) (wr : SendWr) (calloc : Nat → Bool) :
    Except Fault (RoceQp × SendWr) :=
  if wr.error = 0 then roceRcBuildPkts ctx qp wr calloc else .ok (qp, wr)

/-- The first half of `roce_request_rc`: the WR joins the send queue and its
packets are built. -/
def requestQueue (s : St) (wr : SendWr) (calloc : Nat → Bool) : Except Fault St := do
  let (qp, wr) ← requestBuild s.ctx s.qp wr calloc
  return { s with qp := { qp with sq := s.qp.sq ++ [wr] } }

/-- `roce_request_rc` -/
def roceRequestRc (s : St) (wr : SendWr) (calloc : Nat → Bool) : Except Fault St := do
  let s ← requestQueue s wr calloc
  let s ← roceXmitPkts s
  return roceCompleteHead s

/-- `roce_get_ah` -/
def roceGetAh (ctx : RoceCtx) (ah : Nat) : Option (RoceAh × RoceCtx) :=
  match roceResourceGet ctx.ahs ah with
  | none => none
  | some a => some (a, { ctx with ahs := ctx.ahs.set ah (some { a with ref := a.ref + 1 }) })

/-- `roce_put_ah` -/
def rocePutAh (ctx : RoceCtx) (ah : Nat) : RoceCtx :=
  match roceResourceGet ctx.ahs ah with
  | none => ctx
  | some a => { ctx with ahs := ctx.ahs.set ah (some { a with ref := a.ref - 1 }) }

/-- The context with its address handles replaced. -/
def RoceCtx.withAhs (ctx : RoceCtx) (ahs : List (Option RoceAh)) : RoceCtx := { ctx with ahs := ahs }

theorem roceGetAh_ok {ctx ctx' : RoceCtx} {i : Nat} {ah : RoceAh} (h : roceGetAh ctx i = some (ah, ctx')) :
    roceResourceGet ctx.ahs i = some ah ∧
      ctx' = ctx.withAhs (ctx.ahs.set i (some { ah with ref := ah.ref + 1 })) := by
  unfold roceGetAh at h
  split at h
  · cases h
  · next a hget =>
    obtain ⟨rfl, rfl⟩ := Prod.mk.inj (Option.some.inj h)
    exact ⟨hget, rfl⟩

theorem roceGetAh_eq_none {ctx : RoceCtx} {i : Nat} :
    roceGetAh ctx i = none ↔ roceResourceGet ctx.ahs i = none := by
  unfold roceGetAh
  cases roceResourceGet ctx.ahs i with
  | none => exact iff_of_true rfl rfl
  | some a => exact iff_of_false (Option.some_ne_none _) (Option.some_ne_none _)

theorem rocePutAh_withAhs (ctx : RoceCtx) (i : Nat) : ∃ ahs, rocePutAh ctx i = ctx.withAhs ahs := by
  unfold rocePutAh
  split
  · exact ⟨ctx.ahs, rfl⟩
  · exact ⟨_, rfl⟩

/-- `*dmamap` and the iovecs mapped for the payload of a single packet. -/
def onlyUnmap (ctx : RoceCtx) (qp : RoceQp) (wr : SendWr) : Except Fault (List Event) :=
  if roceSendWrIsInline wr then .ok []
  else do
    let r ← roceMrMapSge ctx qp wr.sge true 0
    return roceMrUnmapSge r.dmamap (r.iovs.filterMap id)

/-- The packet of `roce_ud_send_pkt` and the unmapping that follows its
transmission; `none` when the WR gets an error. -/
def udPkt (ctx : RoceCtx) (qp : RoceQp) (wr : SendWr) (calloc : Bool) (imm : Bool)
    (payload : UInt32) (ahAttr : RoceAhAttr) : Except Fault (Option (RoceNetpkt × List Event)) := do
  let pages ← onlyPages ctx wr
  let padcnt := padCount payload
  match ← roceNetpktAlloc ctx qp (some wr.addr) padcnt calloc with
  | none => return none
  | some pkt =>
    match ← onlyPayload ctx qp wr payload pages with
    | none => return none
    | some bytes =>
      let unmaps ← onlyUnmap ctx qp wr
      let deth := ibDethCodec.enc ⟨wr.ud.remoteQkey, qp.handle &&& ibDethSrcqpMask⟩
      let ext := if imm then deth ++ ibImmdtCodec.enc wr.imm else deth
      let opcode := if imm then ibOpcodeSendOnlyWithImmediate else ibOpcodeSendOnly
      let mapped := onlyMapped ctx qp wr
      let pkt ← requestHeaders ctx qp { pkt with ext := ext, payload := bytes, mapped := mapped } opcode
        (sendSolicited wr) padcnt wr.ud.remoteQpn true qp.req.psn ahAttr
      return some (pkt, unmaps)

/-- `roce_ud_send_pkt`; a WR whose AH is invalid gets no error. -/
def roceUdSendPkt (s : St) (wr : SendWr) (calloc : Bool) (imm : Bool) (payload : UInt32) :
    Except Fault (St × SendWr) :=
  match roceGetAh s.ctx wr.ud.ah with
  | none => .ok (s, wr)
  | some (ah, ctx) => do
    let s : St := { s with ctx := ctx }
    match ← udPkt s.ctx s.qp wr calloc imm payload ah.attr with
    | none => return ({ s with ctx := rocePutAh s.ctx wr.ud.ah }, { wr with error := roceWcLocQpOpErr })
    | some (pkt, unmaps) =>
      let s := ({ s with qp.req.psn := roceQpPsnInc s.qp.req.psn } : St).emit (.netXmit pkt :: unmaps)
      return ({ s with ctx := rocePutAh s.ctx wr.ud.ah }, wr)

/-- The switch of `roce_request_ud`: the state, the WR and the length to report. -/
def udSwitch (s : St) (wr : SendWr) (calloc : Bool) : Except Fault (St × SendWr × UInt32) := do
  let mtu ← roceGetMtu s.ctx s.qp
  let payload ← requestLen wr
  if payload > mtu.toUInt32 then return (s, { wr with error := roceWcLocLenErr }, 0)
  else
    match wr.opcode with
    | .sendWithImm => do
      let (s, wr) ← roceUdSendPkt s wr calloc true payload
      return (s, wr, payload)
    | .send => do
      let (s, wr) ← roceUdSendPkt s wr calloc false payload
      return (s, wr, payload)
    | _ => return (s, { wr with error := roceWcLocQpOpErr }, 0)

/-- `roce_request_ud` up to its label `done`. -/
def udRequest (s : St) (wr : SendWr) (calloc : Bool) : Except Fault (St × SendWr × UInt32) :=
  if wr.error = 0 then udSwitch s wr calloc else .ok (s, wr, 0)

/-- `roce_request_ud` -/
def roceRequestUd (s : St) (wr : SendWr) (calloc : Bool) : Except Fault St := do
  let (s, wr, byteLen) ← udRequest s wr calloc
  let s := if wrSignaled s.qp wr || wr.error != 0 then
      s.emit [.cqComp (sendWc s.qp wr wr.error byteLen) s.qp.scq]
    else s
  let ctx ← roceFreeSendWr s.ctx wr
  return { s with ctx := ctx }

/-- The references `roce_post_send` takes: `error` gets the low byte of the
`int` that `roce_get_mrs` returns. -/
def postGetMrs (s : St) (wr : SendWr) : Except Fault (St × SendWr) :=
  if roceSendWrIsInline wr then .ok (s, wr)
  else do
    let (ret, ctx) ← roceGetMrs s.ctx wr.sge
    let error := UInt8.ofInt ret
    return ({ s with ctx := ctx }, { wr with error := error, mapped := error == 0 || wr.mapped })

/-- `roce_post_send` -/
def rocePostSend (s : St) (wr : SendWr) (calloc : Nat → Bool) : Except Fault St := do
  let (s, wr) ← postGetMrs s wr
  match s.qp.qpType with
  | .rc => roceRequestRc s wr calloc
  | .gsi => roceRequestUd s wr (calloc 0)
  | .ud => roceRequestUd s wr (calloc 0)
  | _ => .error (.abort .qpTypeSend)

end Libroce
