import Libroce.Requester

/-!
# The responder

`responder.c`: a frame is decapsulated (`roceNetDecap`), its BTH is matched
with a QP (`roceRecvBth`) and the request is executed (`roceRecvRc`,
`roceRecvUd`).

`resp.wr` and `resp.iova` share their storage: a SEND in progress stores a WR
pointer there, a WRITE in progress the virtual address of its RETH.
`RespWord.bits` is what either member reads.
-/

namespace Libroce

/-! ## Decapsulation -/

/-- What `roce_net_decap` leaves when it returns 0.  `roce_crc32_pkt` has
masked the IP header and the BTH. -/
structure Decap where
  bth : IbBth
  ip : NetHdr
  iovs : List (List UInt8)

/-- Take a header of fixed width off the front; `none` when it is cut short. -/
def takeHdr {α : Type} (c : Bytes.Codec α) (iovs : List (List UInt8)) :
    Option (α × List (List UInt8)) :=
  if (roceIovAdvance c.width iovs).1.length ≠ c.width then none
  else some (c.dec (roceIovAdvance c.width iovs).1, (roceIovAdvance c.width iovs).2)

/-- The options of an IPv4 header go to a buffer of 60 bytes.  `ihllen` is a
`uint8_t`, so a header that claims fewer than 20 bytes asks for more than that. -/
def decapIhl (h : IpHdr) (iovs : List (List UInt8)) :
    Except Fault (NetHdr × List UInt8 × List (List UInt8)) :=
  let ihllen := (((h.u8_0 &&& 0xf) <<< 2) - 20).toNat
  if ihllen = 0 then .ok (.ip4 h, [], iovs)
  else if (roceIovAdvance ihllen iovs).1.length > 60 then .error (.undefined .ihlbuf)
  else .ok (.ip4 h, (roceIovAdvance ihllen iovs).1, (roceIovAdvance ihllen iovs).2)

/-- The IP part of `roce_net_decap`: the header, its options and the rest. -/
def decapIp (type : UInt16) (iovs : List (List UInt8)) :
    Except Fault (Option (NetHdr × List UInt8 × List (List UInt8))) :=
  if type = ethernetIp then
    match takeHdr ipCodec iovs with
    | none => .ok none
    | some (h, iovs) => do
      let r ← decapIhl h iovs
      return some r
  else if type = ethernetIpv6 then
    match takeHdr ipv6Codec iovs with
    | none => .ok none
    | some (h, iovs) => .ok (some (.ip6 h, [], iovs))
  else .ok none

/-- The UDP header, the BTH and the ICRC. -/
def decapUdp (ip : NetHdr) (ihlbuf : List UInt8) (iovs : List (List UInt8)) : Option Decap :=
  match takeHdr udpCodec iovs with
  | none => none
  | some (udph, iovs) =>
    if udph.dport ≠ roceV2UdpDport then none
    else if udph.length.toUInt32 ≠ 8 + roceIovLen iovs then none
    else
      match takeHdr ibBthCodec iovs with
      | none => none
      | some (bth, iovs) =>
        let icrc := roceIovReverse 4 iovs
        if icrc.1.length ≠ 4 then none
        else if roceCrc32Pkt ip ihlbuf udph bth icrc.2 ≠ Bytes.Codec.le32.dec icrc.1 then none
        else some ⟨maskBth bth, maskIp ip, icrc.2⟩

/-- `roce_net_decap`; `none` is `-EPROTO`. -/
def roceNetDecap (ctx : RoceCtx) (iovs : List (List UInt8)) : Except Fault (Option Decap) :=
  if iovs = [] then .error (.abort .iovEmpty)
  else
    match portAt ctx 1 with
    | .error e => .error e
    | .ok port =>
      let vneth := roceIovAdvance port.vnetHdr.toNat iovs
      if vneth.1.length ≠ port.vnetHdr.toNat then .ok none
      else
        match takeHdr ethernetCodec vneth.2 with
        | none => .ok none
        | some (ethh, iovs) =>
          if roceMacMatched port.mac ethh.dmac then do
            match ← decapIp ethh.type iovs with
            | none => return none
            | some (ip, ihlbuf, iovs) => return decapUdp ip ihlbuf iovs
          else .ok none

/-! ## Receive WRs -/

/-- `roce_get_eth`: an extension header off the front, or `-EPROTO`. -/
def roceGetEth {α : Type} (c : Bytes.Codec α) (iovs : List (List UInt8)) :
    Option (α × List (List UInt8)) :=
  if (roceIovLen iovs).toNat < c.width then none
  else some (c.dec (roceIovAdvance c.width iovs).1, (roceIovAdvance c.width iovs).2)

/-- `__roce_pop_recv_wr` -/
def rqPop (s : St) : Option UInt64 × St :=
  match s.qp.rq with
  | [] => (none, s)
  | p :: rq => (some p, ({ s with qp.rq := rq } : St).emit [.popRecv p])

/-- Store into the union. -/
def St.setWord (s : St) (w : RespWord) : St := { s with qp.resp.word := w }

/-- `roce_pop_recv_wr` -/
def rocePopRecvWr (s : St) (inprocess : Bool) : Option UInt64 × St :=
  if inprocess ≠ (s.qp.resp.word.bits != 0) then (none, s)
  else if s.qp.resp.word.bits ≠ 0 then (some s.qp.resp.word.bits, s)
  else
    match rqPop s with
    | (none, s) => (none, s.setWord (.wr 0))
    | (some p, s) => (some p, s.setWord (.wr p))

/-- `roce_recv_wr_opcode_to_wc`: opcode, flags and `complete`.  The plain RDMA
WRITE opcodes have no entry, like all those that do not complete. -/
def roceRecvWrOpcodeToWc (ibOpcode : UInt8) : WcOpcode × UInt16 × Bool :=
  if ibOpcode = ibOpcodeSendLast then (.recv, 0, true)
  else if ibOpcode = ibOpcodeSendLastWithImmediate then (.recv, roceWcWithImm, true)
  else if ibOpcode = ibOpcodeSendOnly then (.recv, 0, true)
  else if ibOpcode = ibOpcodeSendOnlyWithImmediate then (.recv, roceWcWithImm, true)
  else if ibOpcode = ibOpcodeRdmaWriteLastWithImmediate then (.recvRdmaWithImm, roceWcWithImm, true)
  else if ibOpcode = ibOpcodeRdmaWriteOnlyWithImmediate then (.recvRdmaWithImm, roceWcWithImm, true)
  else (.send, 0, false)

/-- `roce_recv_cq_comp` with status SUCCESS: the report, when the opcode
completes.  The `BAD_RESP_ERR` of a missing immediate is overwritten. -/
def roceRecvCqComp (qp : RoceQp) (opcode : UInt8) (wrId : UInt64) (byteLen : UInt32)
    (immdt : Option UInt32) : Option Event :=
  let (wcOpcode, flags, complete) := roceRecvWrOpcodeToWc opcode
  if complete then
    let bad := flags &&& roceWcWithImm != 0 && immdt.isNone
    let grh := if qp.qpType = .gsi ∨ qp.qpType = .ud then roceWcGrh else 0
    some <| .cqComp
      { wrId := wrId, status := roceWcSuccess, opcode := wcOpcode
        byteLen := if bad then 0 else byteLen
        localQpn := qp.handle, remoteQpn := qp.attr.destQpNum
        immData := if flags &&& roceWcWithImm != 0 then immdt.getD 0 else 0
        wcFlags := if bad then flags else flags ||| grh } qp.rcq
  else none

/-! ## Placing payload -/

/-- `memcpy` to host memory. -/
def writeMem (mem : Nat → UInt8) (dst : Nat) (bytes : List UInt8) : Nat → UInt8 := fun a =>
  if dst ≤ a then bytes.getD (a - dst) (mem a) else mem a

/-- The copy loop: payload goes to the mapped iovecs one after the other. -/
def copyLoop (s : St) : List (Option Iovec) → List (List UInt8) → Except Fault St
  | [], _ => .ok s
  | none :: _, _ => .error (.undefined .dstIovs)
  | some dst :: dsts, iovs =>
    let (bytes, iovs) := roceIovAdvance dst.len iovs
    copyLoop (({ s with ctx.mem := writeMem s.ctx.mem dst.base bytes } : St).emit
      [.copy dst.base bytes]) dsts iovs

/-- Map SGEs for received payload and copy it: `none` when the mapping is
refused.  The array on the stack has `ROCE_MAX_SGE * 2` entries. -/
def placePayload (s : St) (sges : List RoceSge) (isLocal : Bool) (access : UInt32)
    (iovs : List (List UInt8)) : Except Fault (Option St) := do
  let r ← roceMrMapSge s.ctx s.qp sges isLocal access
  if r.iovs.length > 2 * roceMaxSge then .error (.undefined .dstIovs)
  else if r.ret < 0 then return none
  else
    let pages ← roceSgePages sges s.ctx.pageSize
    roceAssert (UInt32.ofInt r.ret == pages) .recvPages
    let s ← copyLoop s r.iovs iovs
    return some (s.emit (roceMrUnmapSge r.dmamap (r.iovs.filterMap id)))

/-- Update the receive WR object at `p`. -/
def St.setRecvWr (s : St) (p : UInt64) (wr : RecvWr) : St :=
  { s with ctx.recvWrs := fun q => if q = p then some wr else s.ctx.recvWrs q }

/-- The end of `roce_recv_payload`: count the bytes and complete. -/
def recvFinish (s : St) (p : UInt64) (wr : RecvWr) (bufLen : UInt32) (immdt : Option UInt32)
    (opcode : UInt8) : Except Fault (Int × St) :=
  let wr := { wr with byteLen := wr.byteLen + bufLen }
  let s := s.setRecvWr p wr
  match roceRecvCqComp s.qp opcode wr.wrId wr.byteLen immdt with
  | none => .ok (0, s)
  | some e =>
    match roceFreeRecvWr (s.emit [e]).ctx p wr with
    | .error e => .error e
    | .ok ctx => .ok (0, ({ s with ctx := ctx } : St).setWord (.wr 0))

/-- `roce_recv_payload` with a WR at hand. -/
def recvPayloadWr (s : St) (iovs : List (List UInt8)) (immdt : Option UInt32) (opcode : UInt8)
    (p : UInt64) (wr : RecvWr) : Except Fault (Int × St) := do
  let bufLen := roceIovLen iovs
  let sgeLen ← roceSgeLen wr.sge wr.sgeIdx wr.sgeOff
  if sgeLen < bufLen then return (eFAULT, s)
  else do
    let (sges, sgeIdx, sgeOff) ← roceSgeAdvance wr.sge bufLen.toNat wr.sgeIdx wr.sgeOff
    let wr := { wr with sgeIdx := sgeIdx, sgeOff := sgeOff }
    let s := s.setRecvWr p wr
    match ← placePayload s sges true roceAccessLocalWrite iovs with
    | none => return (eACCES, s)
    | some s => recvFinish s p wr bufLen immdt opcode

/-- `roce_recv_payload` -/
def roceRecvPayload (s : St) (iovs : List (List UInt8)) (immdt : Option UInt32) (inprocess : Bool)
    (opcode : UInt8) : Except Fault (Int × St) :=
  match rocePopRecvWr s inprocess with
  | (none, s) => .ok (eAGAIN, s)
  | (some p, s) =>
    match s.ctx.recvWrs p with
    | none => .error (.undefined .recvWr)
    | some wr => recvPayloadWr s iovs immdt opcode p wr

/-! ## RDMA WRITE -/

/-- The stores of a first WRITE packet: the RETH goes into the union. -/
def writeStart (s : St) (reth : IbReth) : St :=
  { s with
    qp.resp.word := .iova reth.va
    qp.resp.rkey := reth.rkey
    qp.resp.dmalen := reth.dmalen
    qp.resp.writtenlen := 0 }

/-- The SGE a WRITE packet of `bufLen` bytes goes to. -/
def writeSge (resp : RoceResponder) (bufLen : UInt32) : RoceSge :=
  ⟨resp.word.bits + resp.writtenlen.toUInt64, bufLen, resp.rkey⟩

/-- Complete the receive WR at `p`, which was popped for an immediate. -/
def writeComplete (s : St) (p : UInt64) (immdt : Option UInt32) (opcode : UInt8) :
    Except Fault (Int × St) :=
  match s.ctx.recvWrs p with
  | none => .error (.undefined .recvWr)
  | some wr =>
    match roceRecvCqComp s.qp opcode wr.wrId s.qp.resp.writtenlen immdt with
    | none => .ok (0, s)
    | some e =>
      match roceFreeRecvWr (s.emit [e]).ctx p wr with
      | .error e => .error e
      | .ok ctx =>
        .ok (0, { ({ s with ctx := ctx } : St).setWord (.wr 0) with qp.resp.writtenlen := 0 })

/-- The end of `roce_rdma_write_payload`: pop a receive WR for an immediate,
and complete. -/
def writeFinish (s : St) (immdt : Option UInt32) (opcode : UInt8) : Except Fault (Int × St) :=
  if opcode = ibOpcodeRdmaWriteOnlyWithImmediate ∨
      opcode = ibOpcodeRdmaWriteLastWithImmediate then
    match rqPop s with
    | (none, s) => .ok (eAGAIN, s)
    | (some p, s) => writeComplete s p immdt opcode
  else .ok (0, s)

/-- `roce_rdma_write_payload` after its sequence check. -/
def writePlace (s : St) (iovs : List (List UInt8)) (immdt : Option UInt32) (opcode : UInt8) :
    Except Fault (Int × St) := do
  let bufLen := roceIovLen iovs
  match ← placePayload s [writeSge s.qp.resp bufLen] false roceAccessRemoteWrite iovs with
  | none => return (eACCES, s)
  | some s =>
    writeFinish { s with qp.resp.writtenlen := s.qp.resp.writtenlen + bufLen } immdt opcode

/-- `roce_rdma_write_payload`.  `roce_set_qp_state` does nothing.  `reth` is
read for a first packet only, and those have one. -/
def roceRdmaWritePayload (s : St) (iovs : List (List UInt8)) (reth : Option IbReth)
    (immdt : Option UInt32) (inprocess : Bool) (opcode : UInt8) (calloc : Bool) :
    Except Fault (Int × St) :=
  if inprocess ≠ (s.qp.resp.writtenlen != 0) then
    match roceNetpktAcknowledge s .nak 1 s.qp.attr.rqPsn calloc with
    | .error e => .error e
    | .ok s => .ok (ePROTO, s)
  else if s.qp.resp.writtenlen = 0 then
    match reth with
    | none => .error (.undefined .nullReth)
    | some reth => writePlace (writeStart s reth) iovs immdt opcode
  else writePlace s iovs immdt opcode

/-! ## RC -/

/-- `roce_out_of_seq` -/
def roceOutOfSeq (s : St) (calloc : Bool) : Except Fault St :=
  if s.qp.resp.inPsnNak then .ok s
  else
    match roceNetpktAcknowledge s .nak 0 s.qp.attr.rqPsn calloc with
    | .error e => .error e
    | .ok s => .ok { s with qp.resp.inPsnNak := true }

/-- A decapsulated packet without its padding, and the answer of `roce_calloc`
should an acknowledgement be built. -/
structure Inbound where
  bth : IbBth
  iovs : List (List UInt8)
  calloc : Bool

/-- The switch of `roce_recv_rc` over the request opcodes. -/
def recvRequest (s : St) (pkt : Inbound) : Except Fault (Int × St) :=
  let opcode := ibBthGetOpcode pkt.bth
  if opcode = ibOpcodeSendFirst then roceRecvPayload s pkt.iovs none false opcode
  else if opcode = ibOpcodeSendMiddle then roceRecvPayload s pkt.iovs none true opcode
  else if opcode = ibOpcodeSendLastWithImmediate then
    match roceGetEth ibImmdtCodec pkt.iovs with
    | none => .ok (ePROTO, s)
    | some (immdt, iovs) => roceRecvPayload s iovs (some immdt) true opcode
  else if opcode = ibOpcodeSendLast then roceRecvPayload s pkt.iovs none true opcode
  else if opcode = ibOpcodeSendOnlyWithImmediate then
    match roceGetEth ibImmdtCodec pkt.iovs with
    | none => .ok (ePROTO, s)
    | some (immdt, iovs) => roceRecvPayload s iovs (some immdt) false opcode
  else if opcode = ibOpcodeSendOnly then roceRecvPayload s pkt.iovs none false opcode
  else if opcode = ibOpcodeRdmaWriteOnly then
    match roceGetEth ibRethCodec pkt.iovs with
    | none => .ok (ePROTO, s)
    | some (reth, iovs) => roceRdmaWritePayload s iovs (some reth) none false opcode pkt.calloc
  else if opcode = ibOpcodeRdmaWriteOnlyWithImmediate then
    match roceGetEth ibRethCodec pkt.iovs with
    | none => .ok (ePROTO, s)
    | some (reth, iovs) =>
      match roceGetEth ibImmdtCodec iovs with
      | none => .ok (ePROTO, s)
      | some (immdt, iovs) =>
        roceRdmaWritePayload s iovs (some reth) (some immdt) false opcode pkt.calloc
  else if opcode = ibOpcodeRdmaWriteFirst then
    match roceGetEth ibRethCodec pkt.iovs with
    | none => .ok (ePROTO, s)
    | some (reth, iovs) => roceRdmaWritePayload s iovs (some reth) none false opcode pkt.calloc
  else if opcode = ibOpcodeRdmaWriteMiddle then
    roceRdmaWritePayload s pkt.iovs none none true opcode pkt.calloc
  else if opcode = ibOpcodeRdmaWriteLast then
    roceRdmaWritePayload s pkt.iovs none none true opcode pkt.calloc
  else if opcode = ibOpcodeRdmaWriteLastWithImmediate then
    match roceGetEth ibImmdtCodec pkt.iovs with
    | none => .ok (ePROTO, s)
    | some (immdt, iovs) =>
      roceRdmaWritePayload s iovs none (some immdt) true opcode pkt.calloc
  else .ok (ePROTO, s)

/-- `roce_recv_rc` for a request whose PSN is the expected one. -/
def recvInSequence (s : St) (pkt : Inbound) : Except Fault (Int × St) := do
  let (ret, s) ← recvRequest { s with qp.resp.inPsnNak := false } pkt
  if ret ≠ 0 then return (ret, s)
  else do
    let s ←
      if ibBthGetAck pkt.bth then
        roceNetpktAcknowledge s .ack 0x1f (ibBthGetPsn pkt.bth) pkt.calloc
      else .ok s
    return (0, { s with qp.attr.rqPsn := roceQpPsnInc s.qp.attr.rqPsn })

/-- The case `IB_OPCODE_ACKNOWLEDGE` of `roce_recv_rc`. -/
def recvAcknowledge (s : St) (pkt : Inbound) : Except Fault (Int × St) :=
  match roceGetEth ibAethCodec pkt.iovs with
  | none => .ok (ePROTO, s)
  | some (aeth, _) => do
    let s ← roceHandleAcknowledge s (ibAethGetSyndromeType aeth) (ibAethGetSyndromeVal aeth)
      (ibBthGetPsn pkt.bth) (ibAethGetMsn aeth)
    return (0, s)

/-- `roce_recv_rc` -/
def roceRecvRc (s : St) (pkt : Inbound) : Except Fault (Int × St) :=
  if ibBthGetOpcode pkt.bth = ibOpcodeAcknowledge then recvAcknowledge s pkt
  else
    let psnDiff := roceComparePsn s.qp.attr.rqPsn (ibBthGetPsn pkt.bth)
    if psnDiff > 0 then .ok (0, s)
    else if psnDiff < 0 then do
      let s ← roceOutOfSeq s pkt.calloc
      return (0, s)
    else recvInSequence s pkt

/-! ## UD -/

/-- `roce_build_grh`: the 40 bytes in front of a UD payload. -/
def roceBuildGrh : NetHdr → List UInt8
  | .ip4 h => List.replicate 20 0 ++ ipCodec.enc h
  | .ip6 h => ipv6Codec.enc h

/-- `roce_recv_ud`; `ip` is the header as `roce_net_decap` left it. -/
def roceRecvUd (s : St) (pkt : Inbound) (ip : NetHdr) : Except Fault (Int × St) :=
  let opcode := ibBthGetOpcode pkt.bth
  match roceGetEth ibDethCodec pkt.iovs with
  | none => .ok (ePROTO, s)
  | some (deth, iovs) =>
    let finish (r : Int × St) : Int × St :=
      let s : St := { r.2 with qp.attr.destQpNum := deth.u32_1 &&& ibDethSrcqpMask }
      if r.1 ≠ 0 then (r.1, s)
      else (0, { s with qp.attr.rqPsn := roceQpPsnInc s.qp.attr.rqPsn })
    if opcode = ibOpcodeSendOnlyWithImmediate then
      match roceGetEth ibImmdtCodec iovs with
      | none => .ok (finish (ePROTO, s))
      | some (immdt, iovs) => do
        let r ← roceRecvPayload s (roceBuildGrh ip :: iovs) (some immdt) false opcode
        return finish r
    else if opcode = ibOpcodeSendOnly then do
      let r ← roceRecvPayload s (roceBuildGrh ip :: iovs) none false opcode
      return finish r
    else .ok (ePROTO, s)

/-! ## Dispatch -/

/-- The checks of `roce_recv_bth` on a QP that was found: 0, or the error. -/
def recvBthCheck (qp : RoceQp) (bth : IbBth) : Int :=
  let open_ := match qp.attr.qpState with
    | .rtr | .rts | .sqd | .sqe => true
    | .reset | .init | .err => false
  if !open_ then eACCES
  else if ibBthGetPkey bth ≠ rocePkey then eNOTSUP
  else if ibBthGetQpType bth ≠ roceQpTypeToIb qp.qpType then ePROTO
  else 0

/-- The payload without its padding; `none` when there are fewer bytes than that. -/
def dropPad (padcnt : UInt8) (iovs : List (List UInt8)) : Option (List (List UInt8)) :=
  if padcnt = 0 then some iovs
  else if (roceIovLen iovs).toNat < padcnt.toNat then none
  else some (roceIovReverse padcnt.toNat iovs).2

/-- `roce_recv_bth`, when the QP of `s` is the only one besides SMI and GSI. -/
def roceRecvBth (s : St) (d : Decap) (calloc : Bool) : Except Fault (Int × St) :=
  let destqp := ibBthGetDestqp d.bth
  if destqp ≠ s.qp.handle then .ok (ePROTO, s)
  else if destqp = 0 then .ok (eNOTSUP, s)
  else if destqp = 1 ∧ s.qp.qpType = .max then .ok (eAGAIN, s)
  else if recvBthCheck s.qp d.bth ≠ 0 then .ok (recvBthCheck s.qp d.bth, s)
  else
    match dropPad (ibBthGetPadcnt d.bth) d.iovs with
    | none => .ok (ePROTO, s)
    | some iovs =>
      match s.qp.qpType with
      | .rc => roceRecvRc s ⟨d.bth, iovs, calloc⟩
      | .ud => roceRecvUd s ⟨d.bth, iovs, calloc⟩ d.ip
      | .gsi => roceRecvUd s ⟨d.bth, iovs, calloc⟩ d.ip
      | _ => .error (.abort .qpTypeRecv)

/-- `roce_net_recv` -/
def roceNetRecv (s : St) (iovs : List (List UInt8)) (calloc : Bool) : Except Fault (Int × St) := do
  match ← roceNetDecap s.ctx iovs with
  | none => return (ePROTO, s)
  | some d =>
    let (ret, s) ← roceRecvBth s d calloc
    if ret < 0 then return (ret, s) else return ((roceIovLen iovs).toNat, s)

end Libroce
