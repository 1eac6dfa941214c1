import Libroce.GidTable

/-!
# Contexts and ports

`roce_new_ctx`, and the calls of `port.c` that configure a port.  They may come
at any time, before the device is initialised and while it is in use.

    Host          the device, with the attributes of its port
    hostStep      one call of the API, or one packet
    Configured    the port holds what the calls let through

Main statement: `hostStep_configured`.
-/

namespace Libroce

open Machine (bind_eq_ok run)
open Outcome

/-! ## Contexts -/

/-- `roce_version` -/
inductive RoceVersion where
  | v1 | v2
  deriving DecidableEq

/-- `roce_ctx_para`: which of the callbacks are given, and what `dma_map` returns. -/
structure RoceCtxPara where
  version : RoceVersion
  pageSize : UInt32
  netXmit : Bool
  cqComp : Bool
  dmaMap : Option (UInt64 → UInt32 → Nat)
  dmaUnmap : Bool
  malloc : Bool
  free : Bool
  calloc : Bool
  realloc : Bool
  lockSize : Bool
  spinInit : Bool
  spinLock : Bool
  spinTrylock : Bool
  spinUnlock : Bool

/-- Some functions of a family are set, and some are not. -/
def RoceCtxPara.halfSet (family : List Bool) : Bool :=
  family.count true != 0 && family.count true != family.length

def RoceCtxPara.mm (para : RoceCtxPara) : List Bool := [para.malloc, para.free, para.calloc, para.realloc]

def RoceCtxPara.spin (para : RoceCtxPara) : List Bool :=
  [para.lockSize, para.spinInit, para.spinLock, para.spinTrylock, para.spinUnlock]

def roceMaxVnetHdr : UInt8 := 16

/-- A port of a context that was just allocated. -/
def unsetPort : RocePort := ⟨0, 0, 0, List.replicate 8 (Vector.replicate 16 0), Vector.replicate 6 0⟩

/-- `roce_new_ctx`; `mem` is the memory of the host, and `calloc` answers for the context. -/
def roceNewCtx (para : RoceCtxPara) (mem : Nat → UInt8) (calloc : Bool) : Option RoceCtx :=
  if para.version ≠ .v2 then none
  else if !rocePowerOf2 para.pageSize.toUInt64 then none
  else if !para.netXmit then none
  else if !para.cqComp then none
  else
    match para.dmaMap with
    | none => none
    | some dmaMap =>
      if !para.dmaUnmap then none
      else if RoceCtxPara.halfSet para.mm then none
      else if RoceCtxPara.halfSet para.spin then none
      else if !calloc then none
      else
        some
          { pageSize := para.pageSize
            devAttr := ⟨0, 0, 0, 0⟩
            dmaMap := dmaMap
            ports := List.replicate roceMaxPorts.toNat unsetPort
            pds := []
            mrs := []
            ahs := []
            mem := mem
            recvWrs := fun _ => none
            trace := [] }

/-! ## Ports -/

/-- `roce_port_attr` -/
structure RocePortAttr where
  portCapFlags : UInt64
  maxMtu : UInt16
  activeMtu : UInt16
  gidTblLen : UInt16
  pkeyTblLen : UInt16
  maxMsgSz : UInt32
  badPkeyCntr : UInt32
  qkeyViolCntr : UInt32
  deriving DecidableEq

def unsetPortAttr : RocePortAttr := ⟨0, 0, 0, 0, 0, 0, 0, 0⟩

/-- The device with `attr` of each of its ports; the ports themselves keep the two MTUs of it. -/
structure Host where
  dev : Device
  attrs : List RocePortAttr

/-- Before `roce_init_device`. -/
def Host.fresh (ctx : RoceCtx) : Host :=
  ⟨⟨ctx, 0, [], [], none, none⟩, List.replicate roceMaxPorts.toNat unsetPortAttr⟩

/-- A change of `ctx->ports[port - 1]`. -/
def Host.setPort (h : Host) (portNum : UInt8) (f : RocePort → RocePort) : Host :=
  { h with dev.ctx.ports := h.dev.ctx.ports.modify (portNum.toNat - 1) f }

/-- The numbers that are no index of a port. -/
def badPort (portNum : UInt8) : Bool := portNum == 0 || portNum > roceMaxPorts

/-- The attributes with a value for each that was left at zero. -/
def RocePortAttr.defaults (attr : RocePortAttr) : RocePortAttr :=
  { attr with
    gidTblLen := if attr.gidTblLen = 0 then roceGidTblLen.toUInt16 else attr.gidTblLen
    pkeyTblLen := if attr.pkeyTblLen = 0 then roceMaxPkey else attr.pkeyTblLen
    maxMsgSz := if attr.maxMsgSz = 0 then 32 * 1024 * 1024 else attr.maxMsgSz }

/-- `roce_init_port`: what it returns, what it leaves in `attr`, and the host. -/
def roceInitPort (h : Host) (portNum : UInt8) (attr : RocePortAttr) : Int × RocePortAttr × Host :=
  if badPort portNum then (eINVAL, attr, h)
  else if !roceValidMtu attr.maxMtu || !roceValidMtu attr.activeMtu then (eINVAL, attr, h)
  else if attr.activeMtu > attr.maxMtu then (eINVAL, attr, h)
  else if attr.gidTblLen > roceGidTblLen.toUInt16 then (eINVAL, attr, h)
  else if attr.pkeyTblLen > roceMaxPkey then
    -- the first default is stored already
    (eINVAL, { attr with gidTblLen := attr.defaults.gidTblLen }, h)
  else
    let stored := attr.defaults
    (0, stored,
      { h.setPort portNum fun port =>
          { port with maxMtu := stored.maxMtu, activeMtu := stored.activeMtu } with
        attrs := h.attrs.set (portNum.toNat - 1) stored })

/-- `roce_set_port_mac` -/
def roceSetPortMac (h : Host) (portNum : UInt8) (mac : Vector UInt8 6) : Int × Host :=
  if badPort portNum then (eINVAL, h)
  else (0, h.setPort portNum fun port => { port with mac := mac })

/-- `roce_set_port_vnet` -/
def roceSetPortVnet (h : Host) (portNum vnetHdr : UInt8) : Int × Host :=
  if badPort portNum then (eINVAL, h)
  else if vnetHdr > roceMaxVnetHdr then (eINVAL, h)
  else (0, h.setPort portNum fun port => { port with vnetHdr := vnetHdr })

/-- `roce_query_port`, with what it stores to `attr` -/
def roceQueryPort (h : Host) (portNum : UInt8) : Int × Option RocePortAttr :=
  if badPort portNum then (eINVAL, none) else (0, h.attrs[portNum.toNat - 1]?)

/-! ## The machine -/

/-- A call of `port.c`. -/
inductive PortOp where
  | initPort (portNum : UInt8) (attr : RocePortAttr)
  | setPortMac (portNum : UInt8) (mac : Vector UInt8 6)
  | setPortVnet (portNum vnetHdr : UInt8)
  | addGid (portNum index : UInt8) (gid : Vector UInt8 16)
  | delGid (portNum index : UInt8)

def portStep (h : Host) : PortOp → Except Fault Host
  | .initPort portNum attr => .ok (roceInitPort h portNum attr).2.2
  | .setPortMac portNum mac => .ok (roceSetPortMac h portNum mac).2
  | .setPortVnet portNum vnetHdr => .ok (roceSetPortVnet h portNum vnetHdr).2
  | .addGid portNum index gid => do
    let (_, ctx) ← roceAddGid h.dev.ctx portNum index gid
    return { h with dev.ctx := ctx }
  | .delGid portNum index => do
    let (_, ctx) ← roceDelGid h.dev.ctx portNum index
    return { h with dev.ctx := ctx }

inductive HostOp where
  | port (op : PortOp)
  | dev (op : DevOp)

def hostStep (h : Host) : HostOp → Except Fault Host
  | .port op => portStep h op
  | .dev op => do
    let dev ← devStep h.dev op
    return { h with dev := dev }

/-! ## What the calls let through -/

/-- The attributes of an initialised port. -/
structure RocePortAttr.Accepted (attr : RocePortAttr) : Prop where
  maxMtu : roceValidMtu attr.maxMtu = true
  activeMtu : roceValidMtu attr.activeMtu = true
  le : attr.activeMtu ≤ attr.maxMtu
  gids : attr.gidTblLen ≠ 0 ∧ attr.gidTblLen ≤ roceGidTblLen.toUInt16
  pkeys : attr.pkeyTblLen = roceMaxPkey
  msg : attr.maxMsgSz ≠ 0

/-- The port of a context, whose attributes are `attr`. -/
structure PortHolds (port : RocePort) (attr : RocePortAttr) : Prop where
  maxMtu : port.maxMtu = attr.maxMtu
  activeMtu : port.activeMtu = attr.activeMtu
  vnetHdr : port.vnetHdr ≤ roceMaxVnetHdr
  gids : port.gids.length = roceGidTblLen.toNat
  accepted : attr = unsetPortAttr ∨ attr.Accepted

structure Host.Holds (h : Host) (port : RocePort) (attr : RocePortAttr) : Prop where
  ports : h.dev.ctx.ports = [port]
  attrs : h.attrs = [attr]
  holds : PortHolds port attr

/-- The only port holds what the calls let through. -/
def Host.Configured (h : Host) : Prop := ∃ port attr, h.Holds port attr

/-- Nothing of the device but its ports changed. -/
def PortsOnly (d d' : Device) : Prop := d' = { d with ctx := { d.ctx with ports := d'.ctx.ports } }

/-- What a call that needs no device leaves. -/
structure Host.SetsUp (h h' : Host) : Prop where
  configured : h'.Configured
  only : PortsOnly h.dev h'.dev

section steps

variable {h h' : Host}

theorem badPort_eq_false {portNum : UInt8} (hn : ¬badPort portNum = true) : portNum = 1 := by
  by_contra hne
  apply hn
  unfold badPort
  rw [Bool.or_eq_true, beq_iff_eq, decide_eq_true_eq]
  exact (port_valid portNum).mpr hne

theorem RocePortAttr.accepted_defaults {attr : RocePortAttr}
    (hmtus : ¬(!roceValidMtu attr.maxMtu || !roceValidMtu attr.activeMtu) = true)
    (hle : ¬attr.activeMtu > attr.maxMtu) (hgids : ¬attr.gidTblLen > roceGidTblLen.toUInt16)
    (hpkeys : ¬attr.pkeyTblLen > roceMaxPkey) : attr.defaults.Accepted := by
  rw [Bool.or_eq_true, not_or, Bool.not_eq_true', Bool.not_eq_true', Bool.not_eq_false,
    Bool.not_eq_false] at hmtus
  refine ⟨hmtus.1, hmtus.2, UInt16.not_lt.mp hle, ?_, ?_, ?_⟩
  · show (if attr.gidTblLen = 0 then roceGidTblLen.toUInt16 else attr.gidTblLen) ≠ 0 ∧
      (if attr.gidTblLen = 0 then roceGidTblLen.toUInt16 else attr.gidTblLen) ≤ roceGidTblLen.toUInt16
    by_cases hzero : attr.gidTblLen = 0
    · rw [if_pos hzero]
      decide
    · rw [if_neg hzero]
      exact ⟨hzero, UInt16.not_lt.mp hgids⟩
  · show (if attr.pkeyTblLen = 0 then roceMaxPkey else attr.pkeyTblLen) = roceMaxPkey
    by_cases hzero : attr.pkeyTblLen = 0
    · rw [if_pos hzero]
    · rw [if_neg hzero]
      have hle := UInt16.le_iff_toNat_le.mp (UInt16.not_lt.mp hpkeys)
      have hmax : roceMaxPkey.toNat = 1 := rfl
      have hne : attr.pkeyTblLen.toNat ≠ 0 := fun he => hzero (UInt16.toNat_inj.mp he)
      apply UInt16.toNat_inj.mp
      omega
  · show (if attr.maxMsgSz = 0 then 32 * 1024 * 1024 else attr.maxMsgSz) ≠ 0
    by_cases hzero : attr.maxMsgSz = 0
    · rw [if_pos hzero]
      decide
    · rw [if_neg hzero]
      exact hzero

/-- What an initialisation leaves, and what a query then returns. -/
theorem roceInitPort_holds {port : RocePort} {attr0 : RocePortAttr} (hh : h.Holds port attr0)
    (portNum : UInt8)
    (attr : RocePortAttr) :
    ((roceInitPort h portNum attr).1 ≠ 0 ∧ (roceInitPort h portNum attr).2.2 = h) ∨
      (roceInitPort h portNum attr).1 = 0 ∧ attr.defaults.Accepted ∧
        (roceInitPort h portNum attr).2.2.Holds
          { port with maxMtu := attr.maxMtu, activeMtu := attr.activeMtu } attr.defaults ∧
        roceQueryPort (roceInitPort h portNum attr).2.2 portNum = (0, some attr.defaults) := by
  have hinval : eINVAL ≠ 0 := by decide
  unfold roceInitPort
  by_cases hport : badPort portNum = true
  · rw [if_pos hport]
    exact Or.inl ⟨hinval, rfl⟩
  rw [if_neg hport]
  by_cases hmtus : (!roceValidMtu attr.maxMtu || !roceValidMtu attr.activeMtu) = true
  · rw [if_pos hmtus]
    exact Or.inl ⟨hinval, rfl⟩
  rw [if_neg hmtus]
  by_cases hle : attr.activeMtu > attr.maxMtu
  · rw [if_pos hle]
    exact Or.inl ⟨hinval, rfl⟩
  rw [if_neg hle]
  by_cases hgids : attr.gidTblLen > roceGidTblLen.toUInt16
  · rw [if_pos hgids]
    exact Or.inl ⟨hinval, rfl⟩
  rw [if_neg hgids]
  by_cases hpkeys : attr.pkeyTblLen > roceMaxPkey
  · rw [if_pos hpkeys]
    exact Or.inl ⟨hinval, rfl⟩
  rw [if_neg hpkeys]
  obtain rfl := badPort_eq_false hport
  have hacc := RocePortAttr.accepted_defaults hmtus hle hgids hpkeys
  obtain ⟨hports, hattrs, hholds⟩ := hh
  refine Or.inr ⟨rfl, hacc, ⟨?_, ?_, rfl, rfl, hholds.vnetHdr, hholds.gids, Or.inr hacc⟩, ?_⟩
  · show h.dev.ctx.ports.modify 0 _ = _
    rw [hports]
    rfl
  · show h.attrs.set 0 _ = _
    rw [hattrs]
    rfl
  · unfold roceQueryPort
    rw [if_neg hport]
    show (0, (h.attrs.set 0 _)[0]?) = _
    rw [hattrs]
    rfl

theorem PortsOnly.sameTable {d d' : Device} (ho : PortsOnly d d') : d.SameTable d' := by
  unfold PortsOnly at ho
  rw [ho]
  exact ⟨rfl, rfl, rfl⟩

theorem PortsOnly.mem {d d' : Device} (ho : PortsOnly d d') : d'.ctx.mem = d.ctx.mem := by
  unfold PortsOnly at ho
  rw [ho]

theorem PortsOnly.trace {d d' : Device} (ho : PortsOnly d d') : d'.ctx.trace = d.ctx.trace := by
  unfold PortsOnly at ho
  rw [ho]

theorem Host.SetsUp.refl (hc : h.Configured) : h.SetsUp h := ⟨hc, rfl⟩

/-- The port with another MAC or another virtual network header. -/
theorem Host.Holds.setPort {port : RocePort} {attr : RocePortAttr} {f : RocePort → RocePort}
    (hh : h.Holds port attr) (hf : PortHolds (f port) attr) : h.SetsUp (h.setPort 1 f) := by
  refine ⟨⟨f port, attr, ?_, hh.attrs, hf⟩, rfl⟩
  show h.dev.ctx.ports.modify 0 f = _
  rw [hh.ports]
  rfl

theorem roceInitPort_setsUp (hc : h.Configured) (portNum : UInt8) (attr : RocePortAttr) :
    h.SetsUp (roceInitPort h portNum attr).2.2 := by
  obtain ⟨port, attr0, hh⟩ := hc
  rcases roceInitPort_holds hh portNum attr with ⟨-, hno⟩ | ⟨-, -, hnew, -⟩
  · rw [hno]
    exact .refl ⟨port, attr0, hh⟩
  · refine ⟨⟨_, _, hnew⟩, ?_⟩
    unfold roceInitPort
    split_ifs <;> rfl

theorem roceSetPortMac_setsUp (hc : h.Configured) (portNum : UInt8) (mac : Vector UInt8 6) :
    h.SetsUp (roceSetPortMac h portNum mac).2 := by
  unfold roceSetPortMac
  by_cases hport : badPort portNum = true
  · rw [if_pos hport]
    exact .refl hc
  · rw [if_neg hport]
    obtain rfl := badPort_eq_false hport
    obtain ⟨port, attr, hh⟩ := hc
    have hp := hh.holds
    exact hh.setPort ⟨hp.maxMtu, hp.activeMtu, hp.vnetHdr, hp.gids, hp.accepted⟩

theorem roceSetPortVnet_setsUp (hc : h.Configured) (portNum vnetHdr : UInt8) :
    h.SetsUp (roceSetPortVnet h portNum vnetHdr).2 := by
  unfold roceSetPortVnet
  by_cases hport : badPort portNum = true
  · rw [if_pos hport]
    exact .refl hc
  rw [if_neg hport]
  by_cases hlong : vnetHdr > roceMaxVnetHdr
  · rw [if_pos hlong]
    exact .refl hc
  · rw [if_neg hlong]
    obtain rfl := badPort_eq_false hport
    obtain ⟨port, attr, hh⟩ := hc
    have hp := hh.holds
    exact hh.setPort ⟨hp.maxMtu, hp.activeMtu, UInt8.not_lt.mp hlong, hp.gids, hp.accepted⟩

/-- A GID that is added or deleted. -/
theorem Host.Configured.putsGid {portNum index : UInt8} {old gid : Vector UInt8 16} {ctx : RoceCtx}
    (hc : h.Configured) (hput : PutsGid h.dev.ctx portNum index old gid ctx) :
    h.SetsUp { h with dev.ctx := ctx } := by
  obtain ⟨port, attr, hports, hattrs, hp⟩ := hc
  obtain ⟨q, hmem, -, rfl⟩ := hput
  rw [hports] at hmem
  obtain rfl := List.mem_singleton.mp hmem
  have hset : ∃ gids, h.dev.ctx.ports.set (portNum.toNat - 1) { q with gids := q.gids.set index.toNat gid } =
      [{ q with gids := gids }] ∧ gids.length = q.gids.length := by
    rw [hports]
    cases portNum.toNat - 1 with
    | zero => exact ⟨_, rfl, List.length_set⟩
    | succ n => exact ⟨_, rfl, rfl⟩
  obtain ⟨gids, hports', hlen⟩ := hset
  exact ⟨⟨_, attr, hports', hattrs, hp.maxMtu, hp.activeMtu, hp.vnetHdr, hlen.trans hp.gids,
    hp.accepted⟩, rfl⟩

/-- A call of `port.c` leaves the port configured, and the rest alone. -/
theorem portStep_setsUp {op : PortOp} (hc : h.Configured) (hs : portStep h op = .ok h') : h.SetsUp h' := by
  cases op with
  | initPort portNum attr =>
    obtain rfl := Except.ok.inj hs
    exact roceInitPort_setsUp hc portNum attr
  | setPortMac portNum mac =>
    obtain rfl := Except.ok.inj hs
    exact roceSetPortMac_setsUp hc portNum mac
  | setPortVnet portNum vnetHdr =>
    obtain rfl := Except.ok.inj hs
    exact roceSetPortVnet_setsUp hc portNum vnetHdr
  | addGid portNum index gid =>
    obtain ⟨⟨ret, ctx⟩, hadd, hs⟩ := bind_eq_ok.mp hs
    obtain rfl := Except.ok.inj hs
    rcases roceAddGid_ok hadd with hno | ⟨old, -, hput⟩
    · obtain rfl : ctx = h.dev.ctx := hno
      exact .refl hc
    · exact hc.putsGid hput
  | delGid portNum index =>
    obtain ⟨⟨ret, ctx⟩, hdel, hs⟩ := bind_eq_ok.mp hs
    obtain rfl := Except.ok.inj hs
    rcases roceDelGid_ok hdel with hno | ⟨old, hput⟩
    · obtain rfl : ctx = h.dev.ctx := hno
      exact .refl hc
    · exact hc.putsGid hput

/-- **One step.**  The port stays configured. -/
theorem hostStep_configured {op : HostOp} (hc : h.Configured) (hs : hostStep h op = .ok h') :
    h'.Configured := by
  cases op with
  | port op => exact (portStep_setsUp hc hs).configured
  | dev op =>
    obtain ⟨d, hd, hs⟩ := bind_eq_ok.mp hs
    obtain rfl := Except.ok.inj hs
    have hends : Ends (fun d' => Addresses op.NewAh h.dev.ctx d'.ctx) (Fault.Blames True True)
        (devStep h.dev op) :=
      devStep_ends (fun _ => trivial) (fun _ _ _ _ => trivial) fun _ _ _ _ => trivial
    have hports := (hends.result hd).ports
    obtain ⟨port, attr, hh⟩ := hc
    exact ⟨port, attr, hports.trans hh.ports, hh.attrs, hh.holds⟩

/-- A context that was just made has a port with nothing set. -/
theorem roceNewCtx_configured {para : RoceCtxPara} {mem : Nat → UInt8} {calloc : Bool} {ctx : RoceCtx}
    (hctx : roceNewCtx para mem calloc = some ctx) : (Host.fresh ctx).Configured ∧ ctx.trace = [] := by
  unfold roceNewCtx at hctx
  cases hmap : para.dmaMap with
  | none =>
    simp only [hmap] at hctx
    split_ifs at hctx
  | some dmaMap =>
    simp only [hmap] at hctx
    split_ifs at hctx
    obtain rfl := Option.some.inj hctx
    exact ⟨⟨unsetPort, unsetPortAttr, rfl, rfl, rfl, rfl, by decide, rfl, Or.inl rfl⟩, rfl⟩

end steps

end Libroce
