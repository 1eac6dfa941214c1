import Libroce.Lib.Bytes
import Libroce.Lib.Serial

/-!
# Data model

The structures of `include/roce/roce.h`, `include/private/roce-private.h` and
`include/private/netpkt.h` that the modelled functions read and write, and the
ways a call can fail to return (`Fault`).

* Integers of the wire and of the API keep their C width (`UInt8` … `UInt64`),
  so their arithmetic wraps as in C.  Host addresses, lengths of host buffers
  and array indices are `Nat`.
* A pointer to a work request is the address of its object; a queue holds the
  objects in order.
* Callbacks of the user (`net_xmit`, `cq_comp`) and the internal moments that
  theorems speak about (a packet leaves the outgoing queue, a work request
  leaves its queue) are recorded in `trace`; no function reads it.
* Logging is off: it evaluates nothing and calls nobody.  Locks are not
  modelled; a call on a QP runs to its end before the next one.
-/

namespace Libroce

/-! ## Faults -/

/-- The `assert`/`ROCE_ASSERT` sites; a failed one aborts the process. -/
inductive Assertion where
  | sgeLenIdx | sgeLenOff | sgeLenTotal     -- roce_sge_len
  | sgePagesPageSize                        -- roce_sge_pages
  | sgeAdvanceIdx | sgeAdvanceOff           -- roce_sge_advance
  | iovCopySrc                              -- roce_iov_copy
  | iovEmpty                                -- roce_iov_len, roce_iov_advance, roce_iov_reverse
  | mapPages                                -- pages == map_pages, requester
  | recvPages                               -- dst_num_iov == roce_sge_pages, responder
  | xmitPsn                                 -- psn >= sq_psn && psn <= req.psn
  | xmitWindow                              -- diff >= 0
  | completeOpaque                          -- send_wr == pkt->opaque
  | invAndImm                               -- !(inv && imm)
  | inlineMulti                             -- an inline WR in a single packet
  | ackQpType                               -- roce_netpkt_acknowledge on RC only
  | putPd                                   -- !roce_put_pd
  | ackAlloc                                -- pkt, roce_netpkt_acknowledge
  | qpTypeRecv                              -- BUG on unsupported QP type from inbound request
  | qpTypeSend                              -- "Unsupported QP type" == NULL
  | putCq                                   -- !roce_put_cq
  | gsiAlloc                                -- ctx->dev.gsi, roce_create_qp
  | gsiHandle                               -- qpn == ROCE_QPT_GSI
  deriving DecidableEq

/-- Undefined behaviour: memory that is no object of the program is used. -/
inductive Undefined where
  | mrIovs      -- past the iovecs of an MR
  | dstSges     -- an SGE that roce_sge_advance counts but did not write
  | dstIovs     -- past the responder's iovec array, or an entry never written
  | ihlbuf      -- past the buffer of the IPv4 options
  | recvWr      -- a pointer that is no live receive WR
  | nullPkt     -- a packet whose allocation failed
  | nullReth    -- the RETH of a packet that has none
  | port        -- outside ctx->ports
  | gid         -- outside port->gids
  | nullQp      -- a QP handle that designates no QP in use
  | nullCq      -- the receive CQ of a QP that has none
  deriving DecidableEq

/-- Why a call does not return. -/
inductive Fault where
  | abort (a : Assertion)
  | undefined (u : Undefined)
  | hang
  deriving DecidableEq

/-- `ROCE_ASSERT(c)`. -/
def roceAssert (c : Bool) (a : Assertion) : Except Fault Unit :=
  if c then .ok () else .error (.abort a)

/-! ## Return values -/

def eACCES : Int := -13
def eAGAIN : Int := -11
def eFAULT : Int := -14
def ePROTO : Int := -71
def eINVAL : Int := -22
def eBUSY : Int := -16
def eNOTSUP : Int := -95

/-! ## Enumerations -/

/-- `roce_mr_state_t` -/
inductive MrState where
  | invalid | free | valid | destroyed
  deriving DecidableEq

/-- `roce_mr_type` -/
inductive MrType where
  | mem | frmr | dma
  deriving DecidableEq

/-- `roce_qp_type` -/
inductive QpType where
  | smi | gsi | rc | uc | rd | ud | max
  deriving DecidableEq

/-- `roce_qp_state` -/
inductive QpState where
  | reset | init | rtr | rts | sqd | sqe | err
  deriving DecidableEq

/-- `roce_wr_opcode` -/
inductive WrOpcode where
  | send | sendWithImm | sendWithInv | rdmaWrite | rdmaWriteWithImm | rdmaRead
  | atomicCmpAndSwp | atomicFetchAndAdd | atomicWrite | flush
  | localInv | regMr | bindMw
  deriving DecidableEq

/-- `roce_wc_opcode` -/
inductive WcOpcode where
  | send | rdmaWrite | rdmaRead | compSwap | fetchAdd | atomicWrite | flush
  | localInv | regMr | bindMw | recv | recvRdmaWithImm
  deriving DecidableEq

/-- `ib_aeth_syndrome_type` -/
inductive Syndrome where
  | ack | rnrNak | reserved | nak
  deriving DecidableEq

/-! ## Constants -/

def roceMaxOutgoingPackets : UInt32 := 8
def roceMaxSge : Nat := 64
def ibBthPsnMask : UInt32 := 0x00ffffff

def roceSendSignaled : UInt32 := 2
def roceSendSolicited : UInt32 := 4
def roceSendInline : UInt32 := 8

def roceWcSuccess : UInt8 := 0
def roceWcLocLenErr : UInt8 := 1
def roceWcLocQpOpErr : UInt8 := 2

def roceWcGrh : UInt16 := 1
def roceWcWithImm : UInt16 := 2
def roceWcWithInvalidate : UInt16 := 4

def roceAccessLocalWrite : UInt32 := 1
def roceAccessRemoteWrite : UInt32 := 2

/-! ## Memory regions -/

/-- `struct iovec` over host memory. -/
structure Iovec where
  base : Nat
  len : Nat
  deriving DecidableEq

/-- `roce_sge` -/
structure RoceSge where
  addr : UInt64
  length : UInt32
  lkey : UInt32
  deriving DecidableEq

/-- `roce_mr`; `num_iov` is the number of `iovs`, `pd` the PD's handle. -/
structure RoceMr where
  ref : UInt32
  pd : Nat
  state : MrState
  type : MrType
  iova : UInt64
  length : UInt32
  lkey : UInt32
  rkey : UInt32
  access : UInt32
  pageSize : UInt32
  iovs : List Iovec
  deriving DecidableEq

/-- `roce_pd` -/
structure RocePd where
  ref : UInt32
  deriving DecidableEq

/-! ## Work requests and completions -/

/-- `_roce_recv_wr` -/
structure RecvWr where
  wrId : UInt64
  sge : List RoceSge
  byteLen : UInt32
  sgeIdx : Nat
  sgeOff : Nat
  deriving DecidableEq

/-- `wr.ud` -/
structure RoceUdDest where
  remoteQpn : UInt32
  remoteQkey : UInt32
  ah : Nat
  deriving DecidableEq

/-- `_roce_send_wr` with its address.  `imm` is the union of `imm_data` and
`invalidated_rkey`; of the union `wr`, `remoteAddr` and `rkey` are `rdma`. -/
structure SendWr where
  addr : Nat
  wrId : UInt64
  opcode : WrOpcode
  sendFlags : UInt32
  imm : UInt32
  remoteAddr : UInt64
  rkey : UInt32
  ud : RoceUdDest
  sge : List RoceSge
  error : UInt8
  mapped : Bool
  deriving DecidableEq

/-- A send WR as `roce_alloc_send_wr` hands it out, filled in by the user. -/
def SendWr.fresh (wr : SendWr) : SendWr := { wr with error := 0, mapped := false }

/-- A receive WR as `roce_alloc_recv_wr` hands it out, filled in by the user. -/
def RecvWr.fresh (wrId : UInt64) (sge : List RoceSge) : RecvWr := ⟨wrId, sge, 0, 0, 0⟩

def roceSendWrIsInline (wr : SendWr) : Bool := wr.sendFlags &&& roceSendInline != 0

def roceSendWrIsLocal (wr : SendWr) : Bool :=
  match wr.opcode with
  | .localInv | .regMr | .bindMw => true
  | _ => false

/-- The bytes of the array `send_wr.sge[]`, which an inline WR sends. -/
def sgeBytes (sges : List RoceSge) : List UInt8 :=
  sges.flatMap fun s =>
    Bytes.Codec.le64.enc s.addr ++ Bytes.Codec.le32.enc s.length ++ Bytes.Codec.le32.enc s.lkey

/-- `roce_wc` -/
structure RoceWc where
  wrId : UInt64
  status : UInt8
  opcode : WcOpcode
  byteLen : UInt32
  localQpn : UInt32
  remoteQpn : UInt32
  immData : UInt32
  wcFlags : UInt16
  deriving DecidableEq

/-! ## Network headers

A field wider than a byte is kept as the value `be16toh`/`be32toh` gives, so
its bytes in memory are the big-endian ones.  The host is little-endian. -/

/-- `ib_bth` -/
structure IbBth where
  opcode : UInt8
  flags : UInt8
  pkey : UInt16
  u32_1 : UInt32
  u32_2 : UInt32
  deriving DecidableEq

/-- `ib_reth` -/
structure IbReth where
  va : UInt64
  rkey : UInt32
  dmalen : UInt32
  deriving DecidableEq

/-- `ethernet_hdr` -/
structure EthernetHdr where
  dmac : Vector UInt8 6
  smac : Vector UInt8 6
  type : UInt16
  deriving DecidableEq

/-- `ip_hdr`; the checksum is stored and read without `htobe16`. -/
structure IpHdr where
  u8_0 : UInt8
  tos : UInt8
  length : UInt16
  id : UInt16
  fragOff : UInt16
  ttl : UInt8
  protocol : UInt8
  checksum : UInt16
  saddr : UInt32
  daddr : UInt32
  deriving DecidableEq

/-- `ipv6_hdr` -/
structure Ipv6Hdr where
  u32_0 : UInt32
  payloadLen : UInt16
  nexthdr : UInt8
  hopLimit : UInt8
  saddr : Vector UInt8 16
  daddr : Vector UInt8 16
  deriving DecidableEq

/-- `udp_hdr`; the checksum is stored and read without `htobe16`. -/
structure UdpHdr where
  sport : UInt16
  dport : UInt16
  length : UInt16
  checksum : UInt16
  deriving DecidableEq

/-- The union of `ip4` and `ip6` in `roce_netpkt`. -/
inductive NetHdr where
  | ip4 (h : IpHdr)
  | ip6 (h : Ipv6Hdr)
  deriving DecidableEq

/-- `roce_netpkt`.  `ext` is the iovec `ROCE_NETPKT_ETH`, `payload` the iovecs
from `ROCE_NETPKT_PAYLOAD` on, each recorded by the bytes it denotes when the
packet is built and its ICRC computed.  `mapped` are those of them that lie in
host memory: there the bytes may change before the packet is sent. -/
structure RoceNetpkt where
  opaquePtr : Option Nat
  vneth : List UInt8
  ethh : EthernetHdr
  ip : NetHdr
  udph : UdpHdr
  bth : IbBth
  ext : List UInt8
  payload : List (List UInt8)
  mapped : List (Option Iovec)
  pad : List UInt8
  icrc : UInt32
  deriving DecidableEq

/-! ## Context and queue pair -/

/-- `roce_ah_attr` -/
structure RoceAhAttr where
  gid : Vector UInt8 16
  mac : Vector UInt8 6
  flowLabel : UInt32
  sgidIndex : UInt8
  hopLimit : UInt8
  trafficClass : UInt8
  portNum : UInt8
  deriving DecidableEq

/-- `roce_ah`; `pd` is the PD's handle. -/
structure RoceAh where
  ref : UInt32
  pd : Nat
  attr : RoceAhAttr
  deriving DecidableEq

/-- `roce_port` -/
structure RocePort where
  maxMtu : UInt16
  activeMtu : UInt16
  vnetHdr : UInt8
  gids : List (Vector UInt8 16)
  mac : Vector UInt8 6
  deriving DecidableEq

/-- What the library does that can be seen or that a theorem speaks about. -/
inductive Event where
  | netXmit (pkt : RoceNetpkt)          -- para.net_xmit
  | cqComp (wc : RoceWc) (cq : Nat)     -- para.cq_comp
  | acked (pkt : RoceNetpkt)            -- list_del from outgoing_pkts
  | leaveSq (wr : SendWr)               -- list_del / list_pop from sq.wrs
  | popRecv (p : UInt64)                -- list_pop from rq.wrs
  | freeRecv (p : UInt64)               -- roce_free_recv_wr
  | copy (dst : Nat) (bytes : List UInt8)  -- memcpy of received payload
  | dmaUnmap (iov : Iovec)              -- para.dma_unmap
  deriving DecidableEq

/-- The limits of `roce_device_attr` that the modelled functions check. -/
structure RoceDeviceAttr where
  maxMrSize : UInt32
  maxQpWr : UInt32
  maxSge : UInt32
  maxInlineData : UInt32
  deriving DecidableEq

/-- `roce_ctx`.  `recvWrs` are the live receive WR objects by address. -/
structure RoceCtx where
  pageSize : UInt32
  devAttr : RoceDeviceAttr
  dmaMap : UInt64 → UInt32 → Nat
  ports : List RocePort
  pds : List (Option RocePd)
  mrs : List (Option RoceMr)
  ahs : List (Option RoceAh)
  mem : Nat → UInt8
  recvWrs : UInt64 → Option RecvWr
  trace : List Event

/-- `roce_qp_cap` -/
structure RoceQpCap where
  maxSendWr : UInt32
  maxRecvWr : UInt32
  maxSendSge : UInt32
  maxRecvSge : UInt32
  maxInlineData : UInt32
  deriving DecidableEq

/-- `roce_qp_attr` -/
structure RoceQpAttr where
  qpState : QpState
  rqPsn : UInt32
  sqPsn : UInt32
  pathMtu : UInt16
  qkey : UInt32
  destQpNum : UInt32
  qpAccessFlags : UInt32
  cap : RoceQpCap
  ahAttr : RoceAhAttr
  pkeyIndex : UInt16
  maxRdAtomic : UInt8
  maxDestRdAtomic : UInt8
  portNum : UInt8
  deriving DecidableEq

/-- `struct roce_requester_t` -/
structure RoceRequester where
  psn : UInt32
  pendingPkts : List RoceNetpkt
  outgoingPkts : List RoceNetpkt
  deriving DecidableEq

/-- The eight bytes that `resp.wr` and `resp.iova` share, with the member that
was stored last. -/
inductive RespWord where
  | wr (p : UInt64)
  | iova (va : UInt64)
  deriving DecidableEq

/-- What either member reads. -/
def RespWord.bits : RespWord → UInt64
  | .wr p => p
  | .iova va => va

/-- `struct roce_responder_t` -/
structure RoceResponder where
  word : RespWord
  rkey : UInt32
  dmalen : UInt32
  writtenlen : UInt32
  inPsnNak : Bool
  msn : UInt32
  deriving DecidableEq

/-- `roce_qp`; `pd`, `scq` and `rcq` are handles, `rq` the queued receive WRs
by address. -/
structure RoceQp where
  handle : UInt32
  qpType : QpType
  sqSigAll : Bool
  pd : Nat
  scq : Nat
  rcq : Nat
  attr : RoceQpAttr
  sq : List SendWr
  rq : List UInt64
  req : RoceRequester
  resp : RoceResponder
  deriving DecidableEq

/-- The context and one QP of it: what a call on the QP works on. -/
structure St where
  ctx : RoceCtx
  qp : RoceQp

/-- Append to the trace. -/
def St.emit (s : St) (es : List Event) : St := { s with ctx.trace := s.ctx.trace ++ es }

@[simp] theorem St.emit_qp (s : St) (es : List Event) : (s.emit es).qp = s.qp := rfl

@[simp] theorem St.emit_trace (s : St) (es : List Event) :
    (s.emit es).ctx.trace = s.ctx.trace ++ es := rfl

theorem St.emit_emit (s : St) (es fs : List Event) : (s.emit es).emit fs = s.emit (es ++ fs) := by
  unfold St.emit
  simp only [List.append_assoc]

/-! ## Packet sequence numbers -/

/-- `roce_compare_psn`: the sign of `psn0 - psn1` as 24-bit serial numbers. -/
def roceComparePsn (psn0 psn1 : UInt32) : Int32 := ((psn0 - psn1) <<< 8).toInt32

def roceQpPsnInc (psn : UInt32) : UInt32 := (psn + 1) &&& ibBthPsnMask

/-- The number of PSNs. -/
def psnMod : Nat := 2 ^ 24

theorem roceQpPsnInc_toNat (psn : UInt32) :
    (roceQpPsnInc psn).toNat = (psn.toNat + 1) % psnMod := by
  have hm : ibBthPsnMask.toNat = 2 ^ 24 - 1 := rfl
  unfold roceQpPsnInc psnMod
  rw [UInt32.toNat_and, hm, Nat.and_two_pow_sub_one_eq_mod, UInt32.toNat_add,
    Nat.mod_mod_of_dvd _ (by decide)]
  rfl

theorem roceQpPsnInc_ne (psn : UInt32) : roceQpPsnInc psn ≠ psn := by
  intro h
  have hnat := congrArg UInt32.toNat h
  rw [roceQpPsnInc_toNat] at hnat
  have hlt := Nat.mod_lt (psn.toNat + 1) (show 0 < psnMod by decide)
  unfold psnMod at *
  omega

/-- The comparison in terms of the distance between the two serial numbers. -/
theorem roceComparePsn_toInt (a b : UInt32) :
    (roceComparePsn a b).toInt =
      if Serial.dist psnMod a.toNat b.toNat < 2 ^ 23 then 256 * (Serial.dist psnMod a.toNat b.toNat : Int)
      else 256 * (Serial.dist psnMod a.toNat b.toNat : Int) - 2 ^ 32 := by
  have ha := a.toNat_lt
  have hb := b.toNat_lt
  have key : (((a - b) <<< 8).toNat) = 256 * Serial.dist psnMod a.toNat b.toNat := by
    rw [UInt32.toNat_shiftLeft, UInt32.toNat_sub, Nat.shiftLeft_eq]
    unfold Serial.dist psnMod
    simp only [show (8 : UInt32).toNat % 32 = 8 from rfl]
    omega
  have hd := Serial.dist_lt (show 0 < psnMod by decide) a.toNat b.toNat
  have e : (roceComparePsn a b).toInt = (((a - b) <<< 8).toBitVec).toInt := rfl
  have k2 : (((a - b) <<< 8).toBitVec).toNat = 256 * Serial.dist psnMod a.toNat b.toNat := key
  rw [e, BitVec.toInt_eq_toNat_cond, k2]
  unfold psnMod at hd ⊢
  split <;> split <;> omega

theorem roceComparePsn_eq_zero (a b : UInt32) :
    roceComparePsn a b = 0 ↔ Serial.dist psnMod a.toNat b.toNat = 0 := by
  have hd := Serial.dist_lt (show 0 < psnMod by decide) a.toNat b.toNat
  unfold psnMod at hd
  rw [← Int32.toInt_inj, roceComparePsn_toInt]
  simp only [Int32.toInt_zero]
  unfold psnMod
  split <;> omega

theorem roceComparePsn_pos (a b : UInt32) :
    0 < roceComparePsn a b ↔
      0 < Serial.dist psnMod a.toNat b.toNat ∧ Serial.dist psnMod a.toNat b.toNat < 2 ^ 23 := by
  have hd := Serial.dist_lt (show 0 < psnMod by decide) a.toNat b.toNat
  unfold psnMod at hd
  rw [Int32.lt_iff_toInt_lt, roceComparePsn_toInt]
  simp only [Int32.toInt_zero]
  unfold psnMod
  split <;> omega

theorem roceComparePsn_neg (a b : UInt32) :
    roceComparePsn a b < 0 ↔ 2 ^ 23 ≤ Serial.dist psnMod a.toNat b.toNat := by
  have hd := Serial.dist_lt (show 0 < psnMod by decide) a.toNat b.toNat
  unfold psnMod at hd
  rw [Int32.lt_iff_toInt_lt, roceComparePsn_toInt]
  simp only [Int32.toInt_zero]
  unfold psnMod
  split <;> omega

/-- Near offsets from one number compare as the offsets do. -/
theorem roceComparePsn_offset {x y : UInt32} {c a b : Nat} (ha : a < 2 ^ 23) (hb : b < 2 ^ 23)
    (hx : x.toNat % psnMod = (c + a) % psnMod) (hy : y.toNat % psnMod = (c + b) % psnMod) :
    (roceComparePsn x y > 0 ↔ b < a) ∧ (roceComparePsn x y < 0 ↔ a < b) := by
  have hdist : Serial.dist psnMod x.toNat y.toNat = Serial.dist psnMod (c + a) (c + b) := by
    rw [← Serial.dist_mod_left, ← Serial.dist_mod_right, hx, hy, Serial.dist_mod_left,
      Serial.dist_mod_right]
  rw [gt_iff_lt, roceComparePsn_pos, roceComparePsn_neg, hdist]
  rcases Nat.lt_or_ge a b with hab | hab
  · rw [Serial.dist_behind (by decide) _ _ _ hab (by unfold psnMod; omega)]
    unfold psnMod
    omega
  · rw [Serial.dist_add_add (by decide) _ _ _ hab (by unfold psnMod; omega)]
    omega

end Libroce
