import Libroce.Crc
import Libroce.Iov

/-!
# Network packets

`netpkt.c`: building a packet and its headers, and the acknowledgements the
responder sends.

A packet is built around its payload; the iovecs of `roce_netpkt` beyond the
payload's are single buffers, and `RoceNetpkt.iovs` lists them in the order in
which they go to `net_xmit`.
-/

namespace Libroce

def roceV2UdpDport : UInt16 := 4791

/-! ## Ports -/

/-- `&ctx->ports[port_num - 1]`, used as an object. -/
def portAt (ctx : RoceCtx) (portNum : UInt8) : Except Fault RocePort :=
  if portNum = 0 then .error (.undefined .port)
  else
    match ctx.ports[portNum.toNat - 1]? with
    | none => .error (.undefined .port)
    | some port => .ok port

/-- `roce_qp_vnet_hdr` -/
def roceQpVnetHdr (ctx : RoceCtx) (qp : RoceQp) : Except Fault UInt8 :=
  match portAt ctx qp.attr.portNum with
  | .error e => .error e
  | .ok port => .ok port.vnetHdr

def ipv4Prefix : List UInt8 := [0, 0, 0, 0, 0, 0, 0, 0, 0, 0, 0xff, 0xff]

def roceGidIsIpv4 (gid : Vector UInt8 16) : Bool := gid.toList.take 12 == ipv4Prefix

def roceGidToIpv4 (gid : Vector UInt8 16) : UInt32 :=
  (gid[12].toUInt32 <<< 24) ||| (gid[13].toUInt32 <<< 16) ||| (gid[14].toUInt32 <<< 8) |||
    gid[15].toUInt32

def roceMacMatched (src dst : Vector UInt8 6) : Bool := src == dst

/-! ## Building -/

/-- `roce_netpkt_alloc`.  `calloc` is the answer of `roce_calloc`; `pages` only
sizes the array of iovecs. -/
def roceNetpktAlloc (ctx : RoceCtx) (qp : RoceQp) (opaquePtr : Option Nat) (padcnt : UInt8)
    (calloc : Bool) : Except Fault (Option RoceNetpkt) :=
  match roceQpVnetHdr ctx qp with
  | .error e => .error e
  | .ok vnetHdr =>
    if calloc then
      .ok <| some
        { opaquePtr := opaquePtr
          vneth := List.replicate vnetHdr.toNat 0
          ethh := ⟨Vector.replicate 6 0, Vector.replicate 6 0, 0⟩
          ip := .ip4 ⟨0, 0, 0, 0, 0, 0, 0, 0, 0, 0⟩
          udph := ⟨0, 0, 0, 0⟩
          bth := ⟨0, 0, 0, 0, 0⟩
          ext := []
          payload := []
          mapped := []
          pad := List.replicate padcnt.toNat 0
          icrc := 0 }
    else .ok none

/-- Everything after the BTH, without the ICRC. -/
def RoceNetpkt.body (pkt : RoceNetpkt) : List (List UInt8) := pkt.ext :: pkt.payload ++ [pkt.pad]

/-- The iovecs given to `net_xmit`. -/
def RoceNetpkt.iovs (pkt : RoceNetpkt) : List (List UInt8) :=
  [pkt.vneth, ethernetCodec.enc pkt.ethh, pkt.ip.bytes, udpCodec.enc pkt.udph,
    ibBthCodec.enc pkt.bth] ++ pkt.body ++ [Bytes.Codec.le32.enc pkt.icrc]

/-- The 16-bit words of a buffer as the host reads them. -/
def hostWords : List UInt8 → List Nat
  | lo :: hi :: rest => (lo.toNat + 256 * hi.toNat) :: hostWords rest
  | _ => []

/-- `while (sum >> 16) sum = (sum & 0xffff) + (sum >> 16)` -/
def foldCarry (sum : Nat) : Nat :=
  if sum < 65536 then sum else foldCarry (sum % 65536 + sum / 65536)
termination_by sum
decreasing_by omega

/-- `roce_checksum` -/
def roceChecksum (buf : List UInt8) : UInt16 := ~~~(UInt16.ofNat (foldCarry (hostWords buf).sum))

/-- The IPv4 header `roce_netpkt_set4` writes. -/
def netpktIp4 (hopLimit : UInt8) (sgid dgid : Vector UInt8 16) (payloadLen : UInt16) : IpHdr :=
  let ip4 : IpHdr :=
    { u8_0 := ((4 : UInt8) <<< 4) ||| (5 &&& 0xf), tos := 0, length := 20 + 8 + payloadLen + 4, id := 0,
      fragOff := (1 : UInt16) <<< 14, ttl := hopLimit, protocol := 17, checksum := 0,
      saddr := roceGidToIpv4 sgid, daddr := roceGidToIpv4 dgid }
  { ip4 with checksum := roceChecksum (ipCodec.enc ip4) }

/-- The IPv6 header `roce_netpkt_set6` writes. -/
def netpktIp6 (hopLimit tclass : UInt8) (sgid dgid : Vector UInt8 16) (payloadLen : UInt16) :
    Ipv6Hdr :=
  { u32_0 := ipv6VersionTcFl 6 tclass 0,
    payloadLen := 8 + payloadLen + 4, nexthdr := 17, hopLimit := hopLimit, saddr := sgid,
    daddr := dgid }

/-- The part `roce_netpkt_set4` and `roce_netpkt_set6` share. -/
def netpktSet (pkt : RoceNetpkt) (type : UInt16) (ip : NetHdr) (dmac smac : Vector UInt8 6)
    (payloadLen : UInt16) : RoceNetpkt :=
  let udph : UdpHdr := ⟨roceV2UdpDport, roceV2UdpDport, 8 + payloadLen + 4, 0⟩
  { pkt with
    ethh := ⟨dmac, smac, type⟩, ip := ip, udph := udph
    icrc := roceCrc32Pkt ip [] udph pkt.bth pkt.body }

def ethernetIp : UInt16 := 0x0800
def ethernetIpv6 : UInt16 := 0x86DD

def roceNetpktSet4 (pkt : RoceNetpkt) (dmac smac : Vector UInt8 6) (hopLimit : UInt8)
    (sgid dgid : Vector UInt8 16) (payloadLen : UInt16) : RoceNetpkt :=
  netpktSet pkt ethernetIp (.ip4 (netpktIp4 hopLimit sgid dgid payloadLen)) dmac smac payloadLen

def roceNetpktSet6 (pkt : RoceNetpkt) (dmac smac : Vector UInt8 6) (hopLimit tclass : UInt8)
    (sgid dgid : Vector UInt8 16) (payloadLen : UInt16) : RoceNetpkt :=
  netpktSet pkt ethernetIpv6 (.ip6 (netpktIp6 hopLimit tclass sgid dgid payloadLen)) dmac smac
    payloadLen

/-- `roce_netpkt_set_eth` -/
def roceNetpktSetEth (pkt : RoceNetpkt) (port : RocePort) (ahAttr : RoceAhAttr) :
    Except Fault RoceNetpkt :=
  match port.gids[ahAttr.sgidIndex.toNat]? with
  | none => .error (.undefined .gid)
  | some sgid =>
    let payloadLen := (roceIovLen (ibBthCodec.enc pkt.bth :: pkt.body)).toUInt16
    if roceGidIsIpv4 ahAttr.gid then
      .ok (roceNetpktSet4 pkt ahAttr.mac port.mac ahAttr.hopLimit sgid ahAttr.gid payloadLen)
    else
      .ok (roceNetpktSet6 pkt ahAttr.mac port.mac ahAttr.hopLimit ahAttr.trafficClass sgid
        ahAttr.gid payloadLen)

/-- Building headers leaves what the requester queues by. -/
theorem roceNetpktSetEth_ok {pkt pkt' : RoceNetpkt} {port : RocePort} {ahAttr : RoceAhAttr}
    (h : roceNetpktSetEth pkt port ahAttr = .ok pkt') :
    pkt'.bth = pkt.bth ∧ pkt'.opaquePtr = pkt.opaquePtr ∧ pkt'.ext = pkt.ext ∧
      pkt'.payload = pkt.payload ∧ pkt'.pad = pkt.pad ∧ pkt'.mapped = pkt.mapped := by
  unfold roceNetpktSetEth at h
  split at h
  · cases h
  · simp only at h
    split at h
    · obtain rfl := Except.ok.inj h
      exact ⟨rfl, rfl, rfl, rfl, rfl, rfl⟩
    · obtain rfl := Except.ok.inj h
      exact ⟨rfl, rfl, rfl, rfl, rfl, rfl⟩

/-! ## Acknowledgements -/

/-- `roce_netpkt_xmit` -/
def roceNetpktXmit (s : St) (pkt : RoceNetpkt) : St := s.emit [.netXmit pkt]

/-- The packet `roce_netpkt_acknowledge` sends. -/
def acknowledgePkt (ctx : RoceCtx) (qp : RoceQp) (syndrome : Syndrome) (val : UInt8)
    (psn : UInt32) (calloc : Bool) : Except Fault RoceNetpkt :=
  match roceNetpktAlloc ctx qp none 0 calloc with
  | .error e => .error e
  | .ok none => .error (.abort .ackAlloc)
  | .ok (some pkt) =>
    let pkt := { pkt with
      bth := roceNetpktSetBth pkt.bth qp.qpType ibOpcodeAcknowledge false 0 qp.attr.destQpNum false psn
      ext := ibAethCodec.enc (ibAethSet syndrome.code val qp.resp.msn) }
    match portAt ctx qp.attr.portNum with
    | .error e => .error e
    | .ok port => roceNetpktSetEth pkt port qp.attr.ahAttr

/-- `roce_netpkt_acknowledge`; `calloc` is the answer of `roce_calloc`. -/
def roceNetpktAcknowledge (s : St) (syndrome : Syndrome) (val : UInt8) (psn : UInt32)
    (calloc : Bool) : Except Fault St :=
  if s.qp.qpType = .rc then
    match acknowledgePkt s.ctx s.qp syndrome val psn calloc with
    | .error e => .error e
    | .ok pkt =>
      .ok (roceNetpktXmit { s with qp.resp.msn := s.qp.resp.msn + 1 } pkt)
  else .error (.abort .ackQpType)

/-- An acknowledgement changes the message number and the trace, nothing else. -/
theorem roceNetpktAcknowledge_ok {s s' : St} {syndrome : Syndrome} {val : UInt8} {psn : UInt32}
    {calloc : Bool} (h : roceNetpktAcknowledge s syndrome val psn calloc = .ok s') :
    ∃ pkt, s' = (({ s with qp.resp.msn := s.qp.resp.msn + 1 } : St).emit [.netXmit pkt]) ∧
      acknowledgePkt s.ctx s.qp syndrome val psn calloc = .ok pkt := by
  unfold roceNetpktAcknowledge at h
  split at h
  · split at h
    · cases h
    · next pkt hp =>
      obtain rfl := Except.ok.inj h
      exact ⟨pkt, rfl, hp⟩
  · cases h

end Libroce
