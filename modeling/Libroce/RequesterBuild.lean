import Libroce.Requester

/-!
# What building a request adds

One statement about the builders, from which the requester's invariants are
derived.  A request that is built adds a *train*: packets with consecutive
PSNs, of which only the last one points back to the WR.  `Shaped` says which
packets these are.

Main statement:
* `roceRcBuildPkts_ok` — a build that returns either queues a train, or gives
  the WR an error and queues nothing, or does nothing because the opcode has no
  case (`Unimplemented`).
-/

namespace Libroce

open Machine (bind_eq_ok)

/-! ## PSNs in general -/

theorem psnMask_toNat (psn : UInt32) : (ibBthPsnMask &&& psn).toNat = psn.toNat % psnMod := by
  have hm : ibBthPsnMask.toNat = 2 ^ 24 - 1 := rfl
  rw [UInt32.toNat_and, hm, Nat.and_comm, Nat.and_two_pow_sub_one_eq_mod]
  rfl

/-- The PSN `n` packets on. -/
def psnAfter (psn : UInt32) : Nat → UInt32
  | 0 => psn
  | n + 1 => roceQpPsnInc (psnAfter psn n)

theorem psnAfter_toNat (psn : UInt32) (n : Nat) :
    (psnAfter psn n).toNat % psnMod = (psn.toNat + n) % psnMod := by
  induction n with
  | zero => rfl
  | succ n ih =>
    rw [psnAfter, roceQpPsnInc_toNat, Nat.mod_mod, ← Nat.mod_add_mod, ih, Nat.mod_add_mod,
      Nat.add_assoc]

theorem psnAfter_lt {psn : UInt32} (h : psn.toNat < psnMod) (n : Nat) :
    (psnAfter psn n).toNat < psnMod := by
  cases n with
  | zero => exact h
  | succ n =>
    rw [psnAfter, roceQpPsnInc_toNat]
    exact Nat.mod_lt _ (by decide)

theorem psnAfter_add (psn : UInt32) (m n : Nat) :
    psnAfter psn (m + n) = psnAfter (psnAfter psn m) n := by
  induction n with
  | zero => rfl
  | succ n ih => rw [← Nat.add_assoc, psnAfter, ih, psnAfter]

/-! ## One packet -/

/-- A packet, by what its builder was given. -/
structure IsPacket (ctx : RoceCtx) (qp : RoceQp) (opcode : UInt8) (ext : List UInt8) (padcnt : UInt8)
    (destqp : UInt32) (ack : Bool) (psn : UInt32) (ahAttr : RoceAhAttr) (payload : List (List UInt8))
    (pkt : RoceNetpkt) : Prop where
  bth_eq : ∃ se, pkt.bth =
    roceNetpktSetBth ⟨0, 0, 0, 0, 0⟩ qp.qpType opcode se padcnt destqp ack psn
  ext_eq : pkt.ext = ext
  payload_eq : pkt.payload = payload
  pad_eq : pkt.pad = List.replicate padcnt.toNat 0
  framed : ∃ port pkt0, portAt ctx qp.attr.portNum = .ok port ∧
    pkt0.vneth = List.replicate port.vnetHdr.toNat 0 ∧ roceNetpktSetEth pkt0 port ahAttr = .ok pkt

/-- A request packet of an RC QP. -/
structure IsRequest (ctx : RoceCtx) (qp : RoceQp) (opaquePtr : Option Nat) (opcode : UInt8)
    (ext : List UInt8) (padcnt : UInt8) (ack : Bool) (psn : UInt32) (payload : List (List UInt8))
    (pkt : RoceNetpkt) : Prop where
  opaquePtr_eq : pkt.opaquePtr = opaquePtr
  inMemory : InMemory ctx.mem pkt.mapped pkt.payload
  packet : IsPacket ctx qp opcode ext padcnt qp.attr.destQpNum ack psn qp.attr.ahAttr payload pkt

section packet

variable {ctx : RoceCtx} {qp : RoceQp} {o : Option Nat} {opcode : UInt8} {ext : List UInt8}
  {padcnt : UInt8} {destqp : UInt32} {ack : Bool} {psn : UInt32} {ahAttr : RoceAhAttr}
  {payload : List (List UInt8)} {pkt : RoceNetpkt}

theorem IsPacket.psn_eq
    (h : IsPacket ctx qp opcode ext padcnt destqp ack psn ahAttr payload pkt) :
    (roceNetpktPsn pkt).toNat = psn.toNat % psnMod := by
  obtain ⟨se, hb⟩ := h.bth_eq
  unfold roceNetpktPsn
  rw [hb, ibBthGetPsn_setBth, psnMask_toNat]

theorem roceNetpktAlloc_some {calloc : Bool}
    (h : roceNetpktAlloc ctx qp o padcnt calloc = .ok (some pkt)) :
    pkt.opaquePtr = o ∧ pkt.bth = ⟨0, 0, 0, 0, 0⟩ ∧ pkt.ext = [] ∧ pkt.payload = [] ∧
      pkt.pad = List.replicate padcnt.toNat 0 ∧ pkt.mapped = [] ∧
      ∃ port, portAt ctx qp.attr.portNum = .ok port ∧
        pkt.vneth = List.replicate port.vnetHdr.toNat 0 := by
  unfold roceNetpktAlloc at h
  split at h
  · cases h
  · next vnetHdr hv =>
    split at h
    · obtain rfl := Option.some.inj (Except.ok.inj h)
      unfold roceQpVnetHdr at hv
      split at hv
      · cases hv
      · next port hport =>
        obtain rfl := Except.ok.inj hv
        exact ⟨rfl, rfl, rfl, rfl, rfl, rfl, port, hport, rfl⟩
    · cases h

/-- A packet from its allocation to its headers. -/
theorem requestHeaders_ok {se calloc : Bool} {pkt0 : RoceNetpkt} {mapped : List (Option Iovec)}
    (h0 : roceNetpktAlloc ctx qp o padcnt calloc = .ok (some pkt0)) (hmem : InMemory ctx.mem mapped payload)
    (h : requestHeaders ctx qp { pkt0 with ext := ext, payload := payload, mapped := mapped } opcode se padcnt
      destqp ack psn ahAttr = .ok pkt) :
    pkt.opaquePtr = o ∧ InMemory ctx.mem pkt.mapped pkt.payload ∧
      IsPacket ctx qp opcode ext padcnt destqp ack psn ahAttr payload pkt := by
  obtain ⟨ho, hb, -, -, hpad, -, port0, hport0, hvneth⟩ := roceNetpktAlloc_some h0
  unfold requestHeaders at h
  obtain ⟨port, hport, h⟩ := bind_eq_ok.mp h
  obtain rfl := Except.ok.inj (hport0.symm.trans hport)
  obtain ⟨h1, h2, h3, h4, h5, h6⟩ := roceNetpktSetEth_ok h
  refine ⟨h2.trans ho, ?_, ⟨se, by rw [h1, hb]⟩, h3, h4, h5.trans hpad, port0, _, hport, ?_, h⟩
  · rw [h4, h6]
    exact hmem
  · exact hvneth

end packet

/-! ## Trains -/

/-- The packets of one request: consecutive PSNs, and only the last packet
points back to the WR. -/
structure Train (wrAddr : Nat) (psn : UInt32) (pkts : List RoceNetpkt) : Prop where
  psns : pkts.map (fun p => (roceNetpktPsn p).toNat) = Serial.seq psnMod psn.toNat pkts.length
  owners : pkts.map (·.opaquePtr) = List.replicate (pkts.length - 1) none ++ [some wrAddr]

/-- Queue a train. -/
def RoceQp.push (qp : RoceQp) (pkts : List RoceNetpkt) : RoceQp :=
  { qp with
    req.pendingPkts := qp.req.pendingPkts ++ pkts
    req.psn := psnAfter qp.req.psn pkts.length }

theorem Train.ne_nil {wrAddr : Nat} {psn : UInt32} {pkts : List RoceNetpkt}
    (h : Train wrAddr psn pkts) : pkts ≠ [] := by
  rintro rfl
  exact absurd h.owners (by simp)

theorem Train.single {wrAddr : Nat} {psn : UInt32} {pkt : RoceNetpkt}
    (hp : (roceNetpktPsn pkt).toNat = psn.toNat % psnMod) (ho : pkt.opaquePtr = some wrAddr) :
    Train wrAddr psn [pkt] := by
  constructor
  · rw [List.map_singleton, hp, List.length_singleton, Serial.seq_succ]
    rfl
  · simp [ho]

/-! ## Sizes -/

theorem length_iovBytes (mem : Nat → UInt8) (iovs : List (Option Iovec)) :
    (iovs.map (iovBytes mem)).flatten.length = iovTotal iovs := by
  induction iovs with
  | nil => rfl
  | cons o iovs ih =>
    rw [List.map_cons, List.flatten_cons, List.length_append, ih, iovTotal_cons]
    cases o with
    | none => rfl
    | some iov => simp [iovBytes]

theorem padCount_toNat (payload : UInt32) : (padCount payload).toNat = (4 - payload.toNat % 4) % 4 := by
  have h3 : (3 : UInt32).toNat = 2 ^ 2 - 1 := rfl
  have h0 : (0 : UInt32).toNat = 0 := rfl
  have hlt := payload.toNat_lt
  unfold padCount
  rw [UInt32.toNat_toUInt8, UInt32.toNat_and, h3, Nat.and_two_pow_sub_one_eq_mod, UInt32.toNat_sub, h0]
  omega

theorem padCount_lt (payload : UInt32) : padCount payload < 4 := by
  have h4 : (4 : UInt8).toNat = 4 := rfl
  rw [UInt8.lt_iff_toNat_lt, padCount_toNat, h4]
  omega

/-- A mapping for a packet that is as long as the pages of its SGEs denotes all
their bytes. -/
def Backed (ctx : RoceCtx) (qp : RoceQp) (sges : List RoceSge) : Prop :=
  ∀ r, roceMrMapSge ctx qp sges true 0 = .ok r →
    roceSgePages sges ctx.pageSize = .ok (UInt32.ofInt r.ret) → iovTotal r.iovs = sgeTotal sges

/-- The SGEs of a WR and the pieces they are cut into are backed by memory. -/
def AllBacked (ctx : RoceCtx) (qp : RoceQp) (sges : List RoceSge) : Prop :=
  Backed ctx qp sges ∧ ∀ bytes idx off dst idx' off',
    roceSgeAdvance sges bytes idx off = .ok (dst, idx', off') → Backed ctx qp dst

/-- The payload a packet got for `n` bytes of the SGEs. -/
structure Brings (ctx : RoceCtx) (qp : RoceQp) (sges : List RoceSge) (n : Nat)
    (bytes : List (List UInt8)) : Prop where
  le : bytes.flatten.length ≤ n
  eq : AllBacked ctx qp sges → bytes.flatten.length = n

/-- A packet carries no more than its SGEs ask for. -/
theorem pktMapSge_total {ctx : RoceCtx} {qp : RoceQp} {sges : List RoceSge} {pages : UInt32}
    {bytes : List (List UInt8)} (h : pktMapSge ctx qp sges pages = .ok (some bytes)) :
    bytes.flatten.length ≤ sgeTotal sges := by
  unfold pktMapSge at h
  obtain ⟨r, hr, h⟩ := bind_eq_ok.mp h
  simp only at h
  split at h
  · cases h
  · split at h
    · obtain rfl := Option.some.inj (Except.ok.inj h)
      rw [length_iovBytes]
      exact mrMapLoop_total hr
    · cases h

theorem pktMapSge_backed {ctx : RoceCtx} {qp : RoceQp} {sges : List RoceSge} {pages : UInt32}
    {bytes : List (List UInt8)} (hb : Backed ctx qp sges)
    (hpages : roceSgePages sges ctx.pageSize = .ok pages)
    (h : pktMapSge ctx qp sges pages = .ok (some bytes)) : bytes.flatten.length = sgeTotal sges := by
  unfold pktMapSge at h
  obtain ⟨r, hr, h⟩ := bind_eq_ok.mp h
  simp only at h
  split at h
  · cases h
  · split at h
    · next heq =>
      obtain rfl := Option.some.inj (Except.ok.inj h)
      rw [length_iovBytes]
      exact hb r hr (by rw [hpages, heq])
    · cases h

theorem onlyPayload_total {ctx : RoceCtx} {qp : RoceQp} {wr : SendWr} {payload pages : UInt32}
    {bytes : List (List UInt8)} (hlen : requestLen wr = .ok payload)
    (h : onlyPayload ctx qp wr payload pages = .ok (some bytes)) :
    bytes.flatten.length ≤ payload.toNat := by
  unfold onlyPayload at h
  unfold requestLen at hlen
  by_cases hin : roceSendWrIsInline wr = true
  · rw [if_pos hin] at h
    obtain rfl := Option.some.inj (Except.ok.inj h)
    rw [List.flatten_singleton]
    exact List.length_take_le _ _
  · rw [if_neg hin] at h hlen
    obtain ⟨-, hp⟩ := roceSgeLen_ok hlen
    rw [hp, sgeRest_zero]
    exact pktMapSge_total h

/-- The bytes of a request. -/
def SendWr.len (wr : SendWr) : Nat :=
  if roceSendWrIsInline wr then (inlineLen wr).toNat else sgeTotal wr.sge

theorem requestLen_ok {wr : SendWr} {payload : UInt32} (h : requestLen wr = .ok payload) :
    payload.toNat = wr.len := by
  unfold requestLen at h
  unfold SendWr.len
  by_cases hin : roceSendWrIsInline wr = true
  · rw [if_pos hin] at h ⊢
    rw [Except.ok.inj h]
  · rw [if_neg hin] at h ⊢
    obtain ⟨-, hp⟩ := roceSgeLen_ok h
    rw [hp, sgeRest_zero]

/-- The inline array is as long as its SGEs are many. -/
theorem length_sgeBytes (sges : List RoceSge) : (sgeBytes sges).length = 16 * sges.length := by
  induction sges with
  | nil => rfl
  | cons sge sges ih =>
    have haddr : (Bytes.Codec.le64.enc sge.addr).length = 8 := Bytes.Codec.le64.length_enc _
    have hlen : (Bytes.Codec.le32.enc sge.length).length = 4 := Bytes.Codec.le32.length_enc _
    have hkey : (Bytes.Codec.le32.enc sge.lkey).length = 4 := Bytes.Codec.le32.length_enc _
    unfold sgeBytes at ih ⊢
    rw [List.flatMap_cons, List.length_append, List.length_append, List.length_append, haddr, hlen,
      hkey, ih, List.length_cons]
    omega

/-- An inline array is sent as it is. -/
theorem onlyPayload_inline {ctx : RoceCtx} {qp : RoceQp} {wr : SendWr} {payload pages : UInt32}
    {bytes : List (List UInt8)} (hlen : requestLen wr = .ok payload)
    (hin : roceSendWrIsInline wr = true)
    (h : onlyPayload ctx qp wr payload pages = .ok (some bytes)) :
    bytes.flatten.length = payload.toNat := by
  have hp := requestLen_ok hlen
  unfold SendWr.len at hp
  unfold onlyPayload at h
  rw [if_pos hin] at h hp
  obtain rfl := Option.some.inj (Except.ok.inj h)
  have hle : (inlineLen wr).toNat ≤ 16 * wr.sge.length := by
    unfold inlineLen
    rw [UInt32.toNat_ofNat']
    exact Nat.mod_le _ _
  rw [List.flatten_singleton, List.length_take, length_sgeBytes]
  omega

/-- A packet that is alone carries the whole request. -/
theorem onlyPayload_brings {ctx : RoceCtx} {qp : RoceQp} {wr : SendWr} {payload pages : UInt32}
    {bytes : List (List UInt8)} (hlen : requestLen wr = .ok payload)
    (hpages : onlyPages ctx wr = .ok pages)
    (h : onlyPayload ctx qp wr payload pages = .ok (some bytes)) :
    Brings ctx qp wr.sge payload.toNat bytes := by
  refine ⟨onlyPayload_total hlen h, ?_⟩
  intro hb
  by_cases hin : roceSendWrIsInline wr = true
  · exact onlyPayload_inline hlen hin h
  · have hp := requestLen_ok hlen
    unfold SendWr.len at hp
    unfold onlyPages at hpages
    unfold onlyPayload at h
    rw [if_neg hin] at h hp hpages
    rw [hp]
    exact pktMapSge_backed hb.1 hpages h

/-! ## The two builders -/

theorem pktMapSge_inMemory {ctx : RoceCtx} {qp : RoceQp} {sges : List RoceSge} {pages : UInt32}
    {bytes : List (List UInt8)} (h : pktMapSge ctx qp sges pages = .ok (some bytes)) :
    InMemory ctx.mem (mappedIovs ctx qp sges) bytes := by
  unfold pktMapSge at h
  obtain ⟨r, hr, h⟩ := bind_eq_ok.mp h
  dsimp only at h
  split at h
  · cases h
  · split at h
    · obtain rfl := Option.some.inj (Except.ok.inj h)
      refine Or.inr ?_
      unfold mappedIovs
      rw [hr]
    · cases h

theorem onlyPayload_inMemory {ctx : RoceCtx} {qp : RoceQp} {wr : SendWr} {payload pages : UInt32}
    {bytes : List (List UInt8)} (h : onlyPayload ctx qp wr payload pages = .ok (some bytes)) :
    InMemory ctx.mem (onlyMapped ctx qp wr) bytes := by
  unfold onlyPayload at h
  unfold onlyMapped
  split at h
  · next hinline => exact Or.inl (if_pos hinline)
  · next hinline =>
    rw [if_neg hinline]
    exact pktMapSge_inMemory h

/-- The steps of a single packet: the WR fails, or the packet is allocated, mapped
and gets its headers. -/
theorem rcOnly_cases {ctx : RoceCtx} {qp qp' : RoceQp} {wr wr' : SendWr} {calloc : Nat → Bool}
    {opcode : UInt8} {ext : List UInt8} {payload : UInt32}
    (h : rcOnly ctx qp wr calloc opcode ext payload = .ok (qp', wr')) :
    qp' = qp ∧ wr' = { wr with error := roceWcLocQpOpErr } ∨
    wr' = wr ∧ ∃ pkt bytes pages pkt0, qp' = qp.push [pkt] ∧ onlyPages ctx wr = .ok pages ∧
      onlyPayload ctx qp wr payload pages = .ok (some bytes) ∧
      roceNetpktAlloc ctx qp (some wr.addr) (padCount payload) (calloc 0) = .ok (some pkt0) ∧
      requestHeaders ctx qp { pkt0 with ext := ext, payload := bytes, mapped := onlyMapped ctx qp wr } opcode
        (sendSolicited wr) (padCount payload) qp.attr.destQpNum true qp.req.psn qp.attr.ahAttr = .ok pkt := by
  unfold rcOnly at h
  obtain ⟨pages, hpages, h⟩ := bind_eq_ok.mp h
  obtain ⟨alloc, halloc, h⟩ := bind_eq_ok.mp h
  cases alloc with
  | none =>
    obtain ⟨rfl, rfl⟩ := Prod.mk.inj (Except.ok.inj h)
    exact Or.inl ⟨rfl, rfl⟩
  | some pkt0 =>
    obtain ⟨bytes, hbytes, h⟩ := bind_eq_ok.mp h
    cases bytes with
    | none =>
      obtain ⟨rfl, rfl⟩ := Prod.mk.inj (Except.ok.inj h)
      exact Or.inl ⟨rfl, rfl⟩
    | some bytes =>
      obtain ⟨pkt, hpkt, h⟩ := bind_eq_ok.mp h
      obtain ⟨rfl, rfl⟩ := Prod.mk.inj (Except.ok.inj h)
      exact Or.inr ⟨rfl, pkt, bytes, pages, pkt0, rfl, hpages, hbytes, halloc, hpkt⟩

/-- A request that fits a packet. -/
theorem rcOnly_ok {ctx : RoceCtx} {qp qp' : RoceQp} {wr wr' : SendWr} {calloc : Nat → Bool}
    {opcode : UInt8} {ext : List UInt8} {payload : UInt32}
    (h : rcOnly ctx qp wr calloc opcode ext payload = .ok (qp', wr')) :
    qp' = qp ∧ wr' = { wr with error := roceWcLocQpOpErr } ∨
    wr' = wr ∧ ∃ pkt bytes pages, qp' = qp.push [pkt] ∧ onlyPages ctx wr = .ok pages ∧
      onlyPayload ctx qp wr payload pages = .ok (some bytes) ∧
      IsRequest ctx qp (some wr.addr) opcode ext (padCount payload) true qp.req.psn bytes pkt := by
  rcases rcOnly_cases h with hfailed | ⟨rfl, pkt, bytes, pages, pkt0, rfl, hpages, hbytes, halloc, hpkt⟩
  · exact Or.inl hfailed
  · obtain ⟨ho, hmem, hp⟩ := requestHeaders_ok halloc (onlyPayload_inMemory hbytes) hpkt
    exact Or.inr ⟨rfl, pkt, bytes, pages, rfl, hpages, hbytes, ho, hmem, hp⟩

/-- The same steps for one packet of several. -/
theorem multiPkt_cases {ctx : RoceCtx} {qp : RoceQp} {o : Option Nat} {sges : List RoceSge}
    {opcode : UInt8} {ext : List UInt8} {se : Bool} {padcnt : UInt8} {ack : Bool} {psn : UInt32}
    {calloc : Bool} {pkt : RoceNetpkt}
    (h : multiPkt ctx qp o sges opcode ext se padcnt ack psn calloc = .ok (some pkt)) :
    ∃ pages bytes pkt0, roceSgePages sges ctx.pageSize = .ok pages ∧
      pktMapSge ctx qp sges pages = .ok (some bytes) ∧
      roceNetpktAlloc ctx qp o padcnt calloc = .ok (some pkt0) ∧
      requestHeaders ctx qp
        { pkt0 with ext := ext, payload := bytes, mapped := mappedIovs ctx qp sges } opcode
        se padcnt qp.attr.destQpNum ack psn qp.attr.ahAttr = .ok pkt := by
  unfold multiPkt at h
  obtain ⟨pages, hpages, h⟩ := bind_eq_ok.mp h
  obtain ⟨alloc, halloc, h⟩ := bind_eq_ok.mp h
  cases alloc with
  | none => cases h
  | some pkt0 =>
    obtain ⟨bytes, hbytes, h⟩ := bind_eq_ok.mp h
    cases bytes with
    | none => cases h
    | some bytes =>
      obtain ⟨pkt', hpkt, h⟩ := bind_eq_ok.mp h
      obtain rfl := Option.some.inj (Except.ok.inj h)
      exact ⟨pages, bytes, pkt0, hpages, hbytes, halloc, hpkt⟩

/-- One packet of several: it carries what its SGEs hold, at most. -/
theorem multiPkt_some {ctx : RoceCtx} {qp : RoceQp} {o : Option Nat} {sges : List RoceSge}
    {opcode : UInt8} {ext : List UInt8} {se : Bool} {padcnt : UInt8} {ack : Bool} {psn : UInt32}
    {calloc : Bool} {pkt : RoceNetpkt}
    (h : multiPkt ctx qp o sges opcode ext se padcnt ack psn calloc = .ok (some pkt)) :
    ∃ bytes, bytes.flatten.length ≤ sgeTotal sges ∧
      (Backed ctx qp sges → bytes.flatten.length = sgeTotal sges) ∧
      IsRequest ctx qp o opcode ext padcnt ack psn bytes pkt := by
  obtain ⟨pages, bytes, pkt0, hpages, hbytes, halloc, hpkt⟩ := multiPkt_cases h
  obtain ⟨ho, hmem, hp⟩ := requestHeaders_ok halloc (pktMapSge_inMemory hbytes) hpkt
  exact ⟨bytes, pktMapSge_total hbytes, fun hb => pktMapSge_backed hb hpages hbytes, ho, hmem, hp⟩

/-- The same for a datagram, which is unmapped behind its transmission. -/
theorem udPkt_ok {ctx : RoceCtx} {qp : RoceQp} {wr : SendWr} {calloc imm : Bool} {payload : UInt32}
    {ahAttr : RoceAhAttr} {pkt : RoceNetpkt} {unmaps : List Event}
    (h : udPkt ctx qp wr calloc imm payload ahAttr = .ok (some (pkt, unmaps))) :
    ∃ pages bytes, onlyPayload ctx qp wr payload pages = .ok (some bytes) ∧ onlyUnmap ctx qp wr = .ok unmaps ∧
      InMemory ctx.mem pkt.mapped pkt.payload ∧
      IsPacket ctx qp (if imm then ibOpcodeSendOnlyWithImmediate else ibOpcodeSendOnly)
        (if imm then
          ibDethCodec.enc ⟨wr.ud.remoteQkey, qp.handle &&& ibDethSrcqpMask⟩ ++ ibImmdtCodec.enc wr.imm
          else ibDethCodec.enc ⟨wr.ud.remoteQkey, qp.handle &&& ibDethSrcqpMask⟩)
        (padCount payload) wr.ud.remoteQpn true qp.req.psn ahAttr bytes pkt := by
  unfold udPkt at h
  obtain ⟨pages, -, h⟩ := bind_eq_ok.mp h
  obtain ⟨alloc, halloc, h⟩ := bind_eq_ok.mp h
  cases alloc with
  | none => cases h
  | some pkt0 =>
    obtain ⟨bytes, hbytes, h⟩ := bind_eq_ok.mp h
    cases bytes with
    | none => cases h
    | some bytes =>
      obtain ⟨events, hevents, h⟩ := bind_eq_ok.mp h
      obtain ⟨pkt', hpkt, h⟩ := bind_eq_ok.mp h
      obtain ⟨rfl, rfl⟩ := Prod.mk.inj (Option.some.inj (Except.ok.inj h))
      obtain ⟨-, hmem, hp⟩ := requestHeaders_ok halloc (onlyPayload_inMemory hbytes) hpkt
      exact ⟨pages, bytes, hbytes, hevents, hmem, hp⟩

theorem onlyUnmap_ok {ctx : RoceCtx} {qp : RoceQp} {wr : SendWr} {unmaps : List Event}
    (h : onlyUnmap ctx qp wr = .ok unmaps) : ∀ e ∈ unmaps, ∃ iov, e = .dmaUnmap iov := by
  intro e he
  unfold onlyUnmap at h
  split at h
  · obtain rfl := Except.ok.inj h
    cases he
  · obtain ⟨r, -, h⟩ := bind_eq_ok.mp h
    obtain rfl := Except.ok.inj h
    unfold roceMrUnmapSge at he
    split at he
    · obtain ⟨iov, -, rfl⟩ := List.mem_map.mp he
      exact ⟨iov, rfl⟩
    · cases he

/-- A packet of the next `n` bytes of the SGEs. -/
theorem multiPkt_brings {ctx : RoceCtx} {qp : RoceQp} {o : Option Nat} {sges dst : List RoceSge}
    {n idx off idx' off' : Nat} {opcode : UInt8} {ext : List UInt8} {se : Bool} {padcnt : UInt8}
    {ack : Bool} {psn : UInt32} {calloc : Bool} {pkt : RoceNetpkt} (hn : n < 2 ^ 32)
    (hadv : roceSgeAdvance sges n idx off = .ok (dst, idx', off'))
    (h : multiPkt ctx qp o dst opcode ext se padcnt ack psn calloc = .ok (some pkt)) :
    ∃ bytes, Brings ctx qp sges n bytes ∧ IsRequest ctx qp o opcode ext padcnt ack psn bytes pkt := by
  obtain ⟨bytes, hle, heq, hreq⟩ := multiPkt_some h
  rw [roceSgeAdvance_total hn hadv] at hle heq
  exact ⟨bytes, ⟨hle, fun hb => heq (hb.2 _ _ _ _ _ _ hadv)⟩, hreq⟩

/-- A FIRST or MIDDLE packet: no pointer, no padding, `mtu` bytes of the SGEs,
and an acknowledgement asked for by its PSN. -/
def IsPart (ctx : RoceCtx) (qp : RoceQp) (sges : List RoceSge) (opcode : UInt8) (ext : List UInt8)
    (mtu : UInt16) (psn : UInt32) (pkt : RoceNetpkt) : Prop :=
  ∃ bytes, IsRequest ctx qp none opcode ext 0 (multiAck psn) psn bytes pkt ∧
    Brings ctx qp sges mtu.toNat bytes

theorem multiStep_some {ctx : RoceCtx} {qp : RoceQp} {wr : SendWr} {calloc : Nat → Bool}
    {opcode : UInt8} {ext : List UInt8} {mtu : UInt16} {m m' : MultiState}
    (h : multiStep ctx qp wr calloc opcode ext mtu m = .ok (some m')) :
    ∃ pkt sgeIdx sgeOff, IsPart ctx qp wr.sge opcode ext mtu m.psn pkt ∧
      m' = ⟨m.pkts ++ [pkt], roceQpPsnInc m.psn, m.payload - mtu.toUInt32, sgeIdx, sgeOff⟩ := by
  unfold multiStep at h
  obtain ⟨⟨sges, sgeIdx, sgeOff⟩, hadv, h⟩ := bind_eq_ok.mp h
  obtain ⟨pkt, hpkt, h⟩ := bind_eq_ok.mp h
  cases pkt with
  | none => cases h
  | some pkt =>
    obtain rfl := Option.some.inj (Except.ok.inj h)
    have hmtu : mtu.toNat < 2 ^ 32 := Nat.lt_trans mtu.toNat_lt (by decide)
    obtain ⟨bytes, hbytes, hreq⟩ := multiPkt_brings hmtu hadv hpkt
    exact ⟨pkt, sgeIdx, sgeOff, ⟨bytes, hreq, hbytes⟩, rfl⟩

/-- What every MIDDLE packet keeps, the loop keeps. -/
theorem multiMiddle_inv {ctx : RoceCtx} {qp : RoceQp} {wr : SendWr} {calloc : Nat → Bool}
    {opcode : UInt8} {mtu : UInt16} {P : MultiState → Prop}
    (hstep : ∀ m m', P m → m.payload > mtu.toUInt32 →
      multiStep ctx qp wr calloc opcode [] mtu m = .ok (some m') → P m')
    {fuel : Nat} {m m' : MultiState} (h0 : P m)
    (h : multiMiddle ctx qp wr calloc opcode mtu fuel m = .ok (some m')) :
    P m' ∧ ¬m'.payload > mtu.toUInt32 := by
  induction fuel generalizing m with
  | zero => cases h
  | succ fuel ih =>
    rw [multiMiddle] at h
    split at h
    · next hgt =>
      obtain ⟨m1, hm1, h⟩ := bind_eq_ok.mp h
      cases m1 with
      | none => cases h
      | some m1 => exact ih (hstep m m1 h0 hgt hm1) h
    · next hle =>
      obtain rfl := Option.some.inj (Except.ok.inj h)
      exact ⟨h0, hle⟩

/-- The packets before the LAST one, and the bytes they leave. -/
structure Head (ctx : RoceCtx) (qp : RoceQp) (sges : List RoceSge) (kind : MultiKind) (mtu : UInt16)
    (psn payload : UInt32) (m : MultiState) : Prop where
  psns : m.pkts.map (fun p => (roceNetpktPsn p).toNat) = Serial.seq psnMod psn.toNat m.pkts.length
  owners : m.pkts.map (·.opaquePtr) = List.replicate m.pkts.length none
  next : m.psn = psnAfter psn m.pkts.length
  parts : ∃ first mids, m.pkts = first :: mids ∧
    (∃ p, IsPart ctx qp sges kind.opFirst kind.extFirst mtu p first) ∧
    ∀ pkt ∈ mids, ∃ p, IsPart ctx qp sges kind.opMiddle [] mtu p pkt
  left : m.pkts.length * mtu.toNat + m.payload.toNat = payload.toNat
  nonzero : 0 < m.payload.toNat

section multi

variable {ctx : RoceCtx} {qp qp' : RoceQp} {wr wr' : SendWr} {calloc : Nat → Bool} {kind : MultiKind}
  {mtu : UInt16} {psn payload : UInt32} {m m' : MultiState}

/-- More than a packet is left, so the subtraction does not wrap. -/
theorem payload_sub (h : payload > mtu.toUInt32) :
    (payload - mtu.toUInt32).toNat = payload.toNat - mtu.toNat ∧ mtu.toNat < payload.toNat := by
  have hlt := UInt32.lt_iff_toNat_lt.mp h
  rw [UInt16.toNat_toUInt32] at hlt
  have hpayload := payload.toNat_lt
  refine ⟨?_, hlt⟩
  rw [UInt32.toNat_sub_of_le _ _ (UInt32.le_of_lt h), UInt16.toNat_toUInt32]

theorem Head.first (hgt : payload > mtu.toUInt32)
    (h : multiStep ctx qp wr calloc kind.opFirst kind.extFirst mtu ⟨[], psn, payload, 0, 0⟩ =
      .ok (some m')) : Head ctx qp wr.sge kind mtu psn payload m' := by
  obtain ⟨pkt, sgeIdx, sgeOff, hpart, rfl⟩ := multiStep_some h
  obtain ⟨bytes, hreq, -⟩ := id hpart
  obtain ⟨hsub, hlt⟩ := payload_sub hgt
  refine ⟨?_, ?_, rfl, ⟨pkt, [], rfl, ⟨psn, hpart⟩, ?_⟩, ?_, ?_⟩
  · show [(roceNetpktPsn pkt).toNat] = _
    rw [hreq.packet.psn_eq]
    rfl
  · show [pkt.opaquePtr] = _
    rw [hreq.opaquePtr_eq]
    rfl
  · intro p hp
    cases hp
  · show (0 + 1) * mtu.toNat + (payload - mtu.toUInt32).toNat = _
    rw [hsub]
    omega
  · show 0 < (payload - mtu.toUInt32).toNat
    rw [hsub]
    omega

theorem Head.step (h0 : Head ctx qp wr.sge kind mtu psn payload m) (hgt : m.payload > mtu.toUInt32)
    (h : multiStep ctx qp wr calloc kind.opMiddle [] mtu m = .ok (some m')) :
    Head ctx qp wr.sge kind mtu psn payload m' := by
  obtain ⟨pkt, sgeIdx, sgeOff, hpart, rfl⟩ := multiStep_some h
  obtain ⟨bytes, hreq, -⟩ := id hpart
  obtain ⟨hsub, hlt⟩ := payload_sub hgt
  have hleft := h0.left
  obtain ⟨first, mids, hpkts, hfirst, hmids⟩ := h0.parts
  constructor
  · simp only [List.map_append, List.length_append, List.length_singleton, List.map_singleton]
    rw [Serial.seq_append, ← h0.psns, hreq.packet.psn_eq, h0.next, psnAfter_toNat, Serial.seq_succ]
    rfl
  · simp only [List.map_append, List.length_append, List.length_singleton, List.map_singleton]
    rw [h0.owners, hreq.opaquePtr_eq, List.replicate_succ']
  · simp only [List.length_append, List.length_singleton]
    rw [psnAfter, h0.next]
  · refine ⟨first, mids ++ [pkt], by rw [hpkts]; rfl, hfirst, ?_⟩
    intro p hp
    rcases List.mem_append.mp hp with hp | hp
    · exact hmids p hp
    · rw [List.mem_singleton.mp hp]
      exact ⟨_, hpart⟩
  · simp only [List.length_append, List.length_singleton]
    rw [hsub, Nat.add_mul]
    omega
  · show 0 < (m.payload - mtu.toUInt32).toNat
    rw [hsub]
    omega

/-- The LAST packet closes the train. -/
theorem Head.close {opcode : UInt8} {ext : List UInt8} {padcnt : UInt8} {ack : Bool}
    {bytes : List (List UInt8)} {pkt : RoceNetpkt} (h0 : Head ctx qp wr.sge kind mtu psn payload m)
    (hreq : IsRequest ctx qp (some wr.addr) opcode ext padcnt ack m.psn bytes pkt) :
    Train wr.addr psn (m.pkts ++ [pkt]) := by
  constructor
  · simp only [List.map_append, List.length_append, List.length_singleton, List.map_singleton]
    rw [Serial.seq_append, ← h0.psns, hreq.packet.psn_eq, h0.next, psnAfter_toNat, Serial.seq_succ]
    rfl
  · simp only [List.map_append, List.length_append, List.length_singleton, List.map_singleton]
    rw [h0.owners, hreq.opaquePtr_eq, Nat.add_sub_cancel]

/-- The packets of a request in several packets. -/
structure IsMulti (ctx : RoceCtx) (qp : RoceQp) (wr : SendWr) (kind : MultiKind) (mtu : UInt16)
    (payload : UInt32) (pkts : List RoceNetpkt) : Prop where
  parts : ∃ first mids last, pkts = first :: mids ++ [last] ∧
    (∃ psn, IsPart ctx qp wr.sge kind.opFirst kind.extFirst mtu psn first) ∧
    (∀ pkt ∈ mids, ∃ psn, IsPart ctx qp wr.sge kind.opMiddle [] mtu psn pkt) ∧
    ∃ rest psn bytes,
      IsRequest ctx qp (some wr.addr) kind.opLast kind.extLast (padCount rest) true psn bytes last ∧
      Brings ctx qp wr.sge rest.toNat bytes ∧ 0 < rest.toNat ∧ rest.toNat ≤ mtu.toNat ∧
      (mids.length + 1) * mtu.toNat + rest.toNat = payload.toNat

theorem rcMulti_ok (hgt : payload > mtu.toUInt32)
    (h : rcMulti ctx qp wr calloc kind payload mtu = .ok (qp', wr')) :
    qp' = qp ∧ wr' = { wr with error := roceWcLocQpOpErr } ∨
    wr' = wr ∧ ∃ pkts, qp' = qp.push pkts ∧ Train wr.addr qp.req.psn pkts ∧
      IsMulti ctx qp wr kind mtu payload pkts := by
  unfold rcMulti at h
  obtain ⟨m1, hm1, h⟩ := bind_eq_ok.mp h
  cases m1 with
  | none =>
    obtain ⟨rfl, rfl⟩ := Prod.mk.inj (Except.ok.inj h)
    exact Or.inl ⟨rfl, rfl⟩
  | some m1 =>
    obtain ⟨m2, hm2, h⟩ := bind_eq_ok.mp h
    cases m2 with
    | none =>
      obtain ⟨rfl, rfl⟩ := Prod.mk.inj (Except.ok.inj h)
      exact Or.inl ⟨rfl, rfl⟩
    | some m2 =>
      obtain ⟨⟨sges, sgeIdx, sgeOff⟩, hadv, h⟩ := bind_eq_ok.mp h
      obtain ⟨last, hlast, h⟩ := bind_eq_ok.mp h
      cases last with
      | none =>
        obtain ⟨rfl, rfl⟩ := Prod.mk.inj (Except.ok.inj h)
        exact Or.inl ⟨rfl, rfl⟩
      | some pkt =>
        obtain ⟨rfl, rfl⟩ := Prod.mk.inj (Except.ok.inj h)
        obtain ⟨hhead, hle⟩ := multiMiddle_inv (fun _ _ hP hgt hs => Head.step hP hgt hs)
          (Head.first hgt hm1) hm2
        obtain ⟨bytes, hbytes, hreq⟩ := multiPkt_brings m2.payload.toNat_lt hadv hlast
        obtain ⟨first, mids, hpkts, hfirst, hmids⟩ := hhead.parts
        have hrest : m2.payload.toNat ≤ mtu.toNat := by
          have hle' := UInt32.le_iff_toNat_le.mp (UInt32.not_lt.mp hle)
          rwa [UInt16.toNat_toUInt32] at hle'
        have hleft := hhead.left
        rw [hpkts, List.length_cons] at hleft
        refine Or.inr ⟨rfl, m2.pkts ++ [pkt], ?_, hhead.close hreq, ⟨first, mids, pkt, ?_, hfirst,
          hmids, m2.payload, _, bytes, hreq, hbytes, hhead.nonzero, hrest, hleft⟩⟩
        · unfold RoceQp.push
          rw [List.length_append, List.length_singleton, psnAfter, ← hhead.next]
        · rw [hpkts]

end multi

/-! ## All requests -/

/-- The opcodes `roce_rc_build_pkts` has no case for, the local ones apart. -/
def Unimplemented (opcode : WrOpcode) : Prop :=
  opcode = .rdmaRead ∨ opcode = .atomicCmpAndSwp ∨ opcode = .atomicFetchAndAdd ∨
    opcode = .atomicWrite ∨ opcode = .flush

/-- The opcode and the extension header of a request in one packet. -/
inductive OnlyKind (wr : SendWr) (payload : UInt32) : UInt8 → List UInt8 → Prop where
  | send (h : wr.opcode = .send) : OnlyKind wr payload ibOpcodeSendOnly []
  | sendWithImm (h : wr.opcode = .sendWithImm) :
    OnlyKind wr payload ibOpcodeSendOnlyWithImmediate (ibImmdtCodec.enc wr.imm)
  | sendWithInv (h : wr.opcode = .sendWithInv) :
    OnlyKind wr payload ibOpcodeSendOnlyWithInvalidate (ibIethCodec.enc wr.imm)
  | rdmaWrite (h : wr.opcode = .rdmaWrite) :
    OnlyKind wr payload ibOpcodeRdmaWriteOnly (writeReth wr payload)
  | rdmaWriteWithImm (h : wr.opcode = .rdmaWriteWithImm) :
    OnlyKind wr payload ibOpcodeRdmaWriteOnlyWithImmediate
      (writeReth wr payload ++ ibImmdtCodec.enc wr.imm)

/-- Those of a request in several packets. -/
inductive SeveralKind (wr : SendWr) (payload : UInt32) : MultiKind → Prop where
  | send (h : wr.opcode = .send) : SeveralKind wr payload (sendMultiKind wr false false)
  | sendWithImm (h : wr.opcode = .sendWithImm) : SeveralKind wr payload (sendMultiKind wr false true)
  | sendWithInv (h : wr.opcode = .sendWithInv) : SeveralKind wr payload (sendMultiKind wr true false)
  | rdmaWrite (h : wr.opcode = .rdmaWrite) : SeveralKind wr payload (writeMultiKind wr false payload)
  | rdmaWriteWithImm (h : wr.opcode = .rdmaWriteWithImm) :
    SeveralKind wr payload (writeMultiKind wr true payload)

/-- The packets of a request. -/
inductive Shaped (ctx : RoceCtx) (qp : RoceQp) (wr : SendWr) : List RoceNetpkt → Prop where
  | only {mtu : UInt16} {payload : UInt32} {opcode : UInt8} {ext : List UInt8}
      {bytes : List (List UInt8)} {pkt : RoceNetpkt} (hmtu : roceGetMtu ctx qp = .ok mtu)
      (hlen : requestLen wr = .ok payload) (hk : OnlyKind wr payload opcode ext)
      (hreq : IsRequest ctx qp (some wr.addr) opcode ext (padCount payload) true qp.req.psn bytes pkt)
      (hb : Brings ctx qp wr.sge payload.toNat bytes)
      (hin : roceSendWrIsInline wr = true → bytes.flatten.length = payload.toNat)
      (hle : payload.toNat ≤ mtu.toNat) : Shaped ctx qp wr [pkt]
  | several {mtu : UInt16} {payload : UInt32} {kind : MultiKind} {pkts : List RoceNetpkt}
      (hmtu : roceGetMtu ctx qp = .ok mtu) (hlen : requestLen wr = .ok payload)
      (hk : SeveralKind wr payload kind) (h : IsMulti ctx qp wr kind mtu payload pkts) :
      Shaped ctx qp wr pkts

/-- Each of the packets is a request for the bytes that memory holds at its iovecs. -/
theorem Shaped.isRequest {ctx : RoceCtx} {qp : RoceQp} {wr : SendWr} {pkts : List RoceNetpkt}
    (h : Shaped ctx qp wr pkts) : ∀ pkt ∈ pkts, ∃ o opcode ext padcnt ack psn payload,
      IsRequest ctx qp o opcode ext padcnt ack psn payload pkt := by
  intro pkt hmem
  cases h with
  | only hmtu hlen hk hreq hb hin hfit =>
    obtain rfl := List.mem_singleton.mp hmem
    exact ⟨_, _, _, _, _, _, _, hreq⟩
  | several hmtu hlen hk hm =>
    obtain ⟨first, mids, last, rfl, ⟨p, bytes1, hfirst, -⟩, hmids, rest, psn, bytes, hlast, -⟩ := hm.parts
    rcases List.mem_append.mp hmem with hmem | hmem
    · rcases List.mem_cons.mp hmem with rfl | hmem
      · exact ⟨_, _, _, _, _, _, _, hfirst⟩
      · obtain ⟨p', bytes2, hmid, -⟩ := hmids pkt hmem
        exact ⟨_, _, _, _, _, _, _, hmid⟩
    · obtain rfl := List.mem_singleton.mp hmem
      exact ⟨_, _, _, _, _, _, _, hlast⟩

/-- The outcomes of a build. -/
inductive Built (ctx : RoceCtx) (qp : RoceQp) (wr : SendWr) : RoceQp → SendWr → Prop where
  | failed (e : UInt8) (he : e ≠ 0) : Built ctx qp wr qp { wr with error := e }
  | skipped (h : roceSendWrIsLocal wr = true ∨ Unimplemented wr.opcode) : Built ctx qp wr qp wr
  | queued (pkts : List RoceNetpkt) (h : Train wr.addr qp.req.psn pkts)
      (hop : roceSendWrIsLocal wr = false ∧ ¬Unimplemented wr.opcode)
      (hs : Shaped ctx qp wr pkts) : Built ctx qp wr (qp.push pkts) wr

section build

variable {ctx : RoceCtx} {qp qp' : RoceQp} {wr wr' : SendWr} {calloc : Nat → Bool}

theorem OnlyKind.implemented {payload : UInt32} {opcode : UInt8} {ext : List UInt8}
    (h : OnlyKind wr payload opcode ext) :
    roceSendWrIsLocal wr = false ∧ ¬Unimplemented wr.opcode := by
  cases h with
  | _ hop => simp [roceSendWrIsLocal, Unimplemented, hop]

theorem SeveralKind.implemented {payload : UInt32} {kind : MultiKind}
    (h : SeveralKind wr payload kind) :
    roceSendWrIsLocal wr = false ∧ ¬Unimplemented wr.opcode := by
  cases h with
  | _ hop => simp [roceSendWrIsLocal, Unimplemented, hop]

theorem built_of_only {mtu : UInt16} {opcode : UInt8} {ext : List UInt8} {payload : UInt32}
    (hmtu : roceGetMtu ctx qp = .ok mtu) (hlen : requestLen wr = .ok payload)
    (hle : payload ≤ mtu.toUInt32) (hk : OnlyKind wr payload opcode ext)
    (h : rcOnly ctx qp wr calloc opcode ext payload = .ok (qp', wr')) : Built ctx qp wr qp' wr' := by
  rcases rcOnly_ok h with ⟨rfl, rfl⟩ | ⟨rfl, pkt, bytes, pages, rfl, hpages, hbytes, hreq⟩
  · exact .failed _ (by decide)
  · have hb := onlyPayload_brings hlen hpages hbytes
    have hle' : payload.toNat ≤ mtu.toNat := by
      have := UInt32.le_iff_toNat_le.mp hle
      rwa [UInt16.toNat_toUInt32] at this
    exact .queued [pkt] (.single hreq.packet.psn_eq hreq.opaquePtr_eq) hk.implemented
      (.only hmtu hlen hk hreq hb (fun hin => onlyPayload_inline hlen hin hbytes) hle')

theorem built_of_multi {mtu : UInt16} {kind : MultiKind} {payload : UInt32}
    (hmtu : roceGetMtu ctx qp = .ok mtu) (hlen : requestLen wr = .ok payload)
    (hgt : ¬ payload ≤ mtu.toUInt32) (hk : SeveralKind wr payload kind)
    (h : rcMulti ctx qp wr calloc kind payload mtu = .ok (qp', wr')) : Built ctx qp wr qp' wr' := by
  rcases rcMulti_ok (UInt32.not_le.mp hgt) h with ⟨rfl, rfl⟩ | ⟨rfl, pkts, rfl, htrain, hm⟩
  · exact .failed _ (by decide)
  · exact .queued pkts htrain hk.implemented (.several hmtu hlen hk hm)

theorem roceRcSendPkts_ok {inv imm : Bool}
    (hop : wr.opcode = if inv then .sendWithInv else if imm then .sendWithImm else .send)
    (h : roceRcSendPkts ctx qp wr calloc inv imm = .ok (qp', wr')) : Built ctx qp wr qp' wr' := by
  unfold roceRcSendPkts at h
  obtain ⟨mtu, hmtu, h⟩ := bind_eq_ok.mp h
  obtain ⟨_, hnot, h⟩ := bind_eq_ok.mp h
  obtain ⟨payload, hlen, h⟩ := bind_eq_ok.mp h
  split at h
  · next hle =>
    unfold roceRcSendOnly at h
    cases inv with
    | true => exact built_of_only hmtu hlen hle (.sendWithInv hop) h
    | false =>
      cases imm with
      | true => exact built_of_only hmtu hlen hle (.sendWithImm hop) h
      | false => exact built_of_only hmtu hlen hle (.send hop) h
  · next hgt =>
    obtain ⟨-, -, h⟩ := bind_eq_ok.mp h
    cases inv with
    | true =>
      cases imm with
      | true => cases hnot
      | false => exact built_of_multi hmtu hlen hgt (.sendWithInv hop) h
    | false =>
      cases imm with
      | true => exact built_of_multi hmtu hlen hgt (.sendWithImm hop) h
      | false => exact built_of_multi hmtu hlen hgt (.send hop) h

theorem roceRcWritePkts_ok {imm : Bool}
    (hop : wr.opcode = if imm then .rdmaWriteWithImm else .rdmaWrite)
    (h : roceRcWritePkts ctx qp wr calloc imm = .ok (qp', wr')) : Built ctx qp wr qp' wr' := by
  unfold roceRcWritePkts at h
  obtain ⟨mtu, hmtu, h⟩ := bind_eq_ok.mp h
  obtain ⟨payload, hlen, h⟩ := bind_eq_ok.mp h
  split at h
  · next hle =>
    unfold roceRcWriteOnly at h
    cases imm with
    | true => exact built_of_only hmtu hlen hle (.rdmaWriteWithImm hop) h
    | false => exact built_of_only hmtu hlen hle (.rdmaWrite hop) h
  · next hgt =>
    cases imm with
    | true => exact built_of_multi hmtu hlen hgt (.rdmaWriteWithImm hop) h
    | false => exact built_of_multi hmtu hlen hgt (.rdmaWrite hop) h

/-- **Every build that returns.** -/
theorem roceRcBuildPkts_ok (h : roceRcBuildPkts ctx qp wr calloc = .ok (qp', wr')) :
    Built ctx qp wr qp' wr' := by
  unfold roceRcBuildPkts at h
  split at h
  · obtain ⟨rfl, rfl⟩ := Prod.mk.inj (Except.ok.inj h)
    exact .failed _ (by decide)
  · cases hop : wr.opcode <;> simp only [hop] at h
    case sendWithImm | sendWithInv | send =>
      refine roceRcSendPkts_ok ?_ h
      exact hop
    case rdmaWrite | rdmaWriteWithImm =>
      refine roceRcWritePkts_ok ?_ h
      exact hop
    all_goals
      obtain ⟨rfl, rfl⟩ := Prod.mk.inj (Except.ok.inj h)
      exact .skipped (by simp [roceSendWrIsLocal, Unimplemented, hop])

/-! ### Which builds fail -/

theorem roceNetpktAlloc_isSome {o : Option Nat} {padcnt : UInt8} {calloc : Bool}
    {alloc : Option RoceNetpkt} (h : roceNetpktAlloc ctx qp o padcnt calloc = .ok alloc) :
    alloc.isSome = calloc := by
  unfold roceNetpktAlloc at h
  split at h
  · cases h
  · cases calloc with
    | true =>
      rw [if_pos rfl] at h
      obtain rfl := Except.ok.inj h
      rfl
    | false =>
      rw [if_neg Bool.false_ne_true] at h
      obtain rfl := Except.ok.inj h
      rfl

/-- `map_pages` is unsigned, so its error path is dead. -/
theorem pktMapSge_ne_none {sges : List RoceSge} {pages : UInt32} :
    pktMapSge ctx qp sges pages ≠ .ok none := by
  intro h
  unfold pktMapSge at h
  obtain ⟨r, -, h⟩ := bind_eq_ok.mp h
  simp only at h
  split at h
  · next hneg => exact UInt32.not_lt_zero hneg
  · split at h
    · cases h
    · cases h

/-- A single packet fails when it is not allocated. -/
theorem rcOnly_error {opcode : UInt8} {ext : List UInt8} {payload : UInt32}
    (h : rcOnly ctx qp wr calloc opcode ext payload = .ok (qp', wr')) (hcalloc : calloc 0 = true) :
    wr' = wr := by
  unfold rcOnly at h
  obtain ⟨pages, -, h⟩ := bind_eq_ok.mp h
  obtain ⟨alloc, halloc, h⟩ := bind_eq_ok.mp h
  have hsome := roceNetpktAlloc_isSome halloc
  rw [hcalloc] at hsome
  obtain ⟨pkt, rfl⟩ := Option.isSome_iff_exists.mp hsome
  obtain ⟨bytes, hbytes, h⟩ := bind_eq_ok.mp h
  cases bytes with
  | none =>
    unfold onlyPayload at hbytes
    split at hbytes
    · cases hbytes
    · exact absurd hbytes pktMapSge_ne_none
  | some bytes =>
    obtain ⟨pkt', -, h⟩ := bind_eq_ok.mp h
    exact (Prod.mk.inj (Except.ok.inj h)).2.symm

theorem multiPkt_ne_none {o : Option Nat} {sges : List RoceSge} {opcode : UInt8} {ext : List UInt8}
    {se ack c : Bool} {padcnt : UInt8} {psn : UInt32} :
    multiPkt ctx qp o sges opcode ext se padcnt ack psn c ≠ .ok none := by
  intro h
  unfold multiPkt at h
  obtain ⟨pages, -, h⟩ := bind_eq_ok.mp h
  obtain ⟨alloc, -, h⟩ := bind_eq_ok.mp h
  cases alloc with
  | none => cases h
  | some pkt =>
    obtain ⟨bytes, hbytes, h⟩ := bind_eq_ok.mp h
    cases bytes with
    | none => exact pktMapSge_ne_none hbytes
    | some bytes =>
      obtain ⟨pkt', -, h⟩ := bind_eq_ok.mp h
      cases h

theorem multiStep_ne_none {opcode : UInt8} {ext : List UInt8} {mtu : UInt16} {m : MultiState} :
    multiStep ctx qp wr calloc opcode ext mtu m ≠ .ok none := by
  intro h
  unfold multiStep at h
  obtain ⟨⟨sges, sgeIdx, sgeOff⟩, -, h⟩ := bind_eq_ok.mp h
  obtain ⟨pkt, hpkt, h⟩ := bind_eq_ok.mp h
  cases pkt with
  | none => exact multiPkt_ne_none hpkt
  | some pkt => cases h

theorem multiMiddle_ne_none {opcode : UInt8} {mtu : UInt16} (fuel : Nat) {m : MultiState} :
    multiMiddle ctx qp wr calloc opcode mtu fuel m ≠ .ok none := by
  induction fuel generalizing m with
  | zero =>
    intro h
    cases h
  | succ fuel ih =>
    intro h
    rw [multiMiddle] at h
    split at h
    · obtain ⟨m', hm', h⟩ := bind_eq_ok.mp h
      cases m' with
      | none => exact multiStep_ne_none hm'
      | some m' => exact ih h
    · cases h

/-- Several packets never fail: where one is not allocated the build faults. -/
theorem rcMulti_error {kind : MultiKind} {payload : UInt32} {mtu : UInt16}
    (h : rcMulti ctx qp wr calloc kind payload mtu = .ok (qp', wr')) : wr' = wr := by
  unfold rcMulti at h
  obtain ⟨m1, hm1, h⟩ := bind_eq_ok.mp h
  cases m1 with
  | none => exact absurd hm1 multiStep_ne_none
  | some m1 =>
    obtain ⟨m2, hm2, h⟩ := bind_eq_ok.mp h
    cases m2 with
    | none => exact absurd hm2 (multiMiddle_ne_none _)
    | some m2 =>
      obtain ⟨⟨sges, sgeIdx, sgeOff⟩, -, h⟩ := bind_eq_ok.mp h
      obtain ⟨pkt, hpkt, h⟩ := bind_eq_ok.mp h
      cases pkt with
      | none => exact absurd hpkt multiPkt_ne_none
      | some pkt => exact (Prod.mk.inj (Except.ok.inj h)).2.symm

/-- A WR gets an error only when it is too long to be inline, or for a single
packet that is not allocated. -/
theorem roceRcBuildPkts_unfailed (h : roceRcBuildPkts ctx qp wr calloc = .ok (qp', wr'))
    (hfit : roceSendWrIsInline wr = true → inlineLen wr ≤ qp.attr.cap.maxInlineData)
    (hcalloc : calloc 0 = true ∨ Unimplemented wr.opcode ∨ ∀ mtu len, roceGetMtu ctx qp = .ok mtu →
      requestLen wr = .ok len → mtu.toUInt32 < len) : wr' = wr := by
  have honly : ∀ {opcode : UInt8} {ext : List UInt8} {payload : UInt32} {mtu : UInt16},
      ¬Unimplemented wr.opcode → roceGetMtu ctx qp = .ok mtu → requestLen wr = .ok payload →
      payload ≤ mtu.toUInt32 → rcOnly ctx qp wr calloc opcode ext payload = .ok (qp', wr') → wr' = wr := by
    intro opcode ext payload mtu hop hmtu hpayload hle h
    rcases hcalloc with hcalloc | hun | hlarge
    · exact rcOnly_error h hcalloc
    · exact absurd hun hop
    · exact absurd hle (UInt32.not_le.mpr (hlarge mtu payload hmtu hpayload))
  have hsend : ∀ {inv imm : Bool}, ¬Unimplemented wr.opcode →
      roceRcSendPkts ctx qp wr calloc inv imm = .ok (qp', wr') → wr' = wr := by
    intro inv imm hop h
    unfold roceRcSendPkts at h
    obtain ⟨mtu, hmtu, h⟩ := bind_eq_ok.mp h
    obtain ⟨_, -, h⟩ := bind_eq_ok.mp h
    obtain ⟨payload, hpayload, h⟩ := bind_eq_ok.mp h
    split at h
    · next hle =>
      unfold roceRcSendOnly at h
      split at h
      · exact honly hop hmtu hpayload hle h
      · split at h
        · exact honly hop hmtu hpayload hle h
        · exact honly hop hmtu hpayload hle h
    · obtain ⟨_, -, h⟩ := bind_eq_ok.mp h
      exact rcMulti_error h
  have hwrite : ∀ {imm : Bool}, ¬Unimplemented wr.opcode →
      roceRcWritePkts ctx qp wr calloc imm = .ok (qp', wr') → wr' = wr := by
    intro imm hop h
    unfold roceRcWritePkts at h
    obtain ⟨mtu, hmtu, h⟩ := bind_eq_ok.mp h
    obtain ⟨payload, hpayload, h⟩ := bind_eq_ok.mp h
    split at h
    · next hle =>
      unfold roceRcWriteOnly at h
      split at h
      · exact honly hop hmtu hpayload hle h
      · exact honly hop hmtu hpayload hle h
    · exact rcMulti_error h
  unfold roceRcBuildPkts at h
  rw [if_neg fun hlong => UInt32.not_lt.mpr (hfit hlong.1) hlong.2] at h
  cases hop : wr.opcode <;> simp only [hop] at h
  case sendWithImm | sendWithInv | send => exact hsend (by rw [hop]; simp [Unimplemented]) h
  case rdmaWrite | rdmaWriteWithImm => exact hwrite (by rw [hop]; simp [Unimplemented]) h
  all_goals exact (Prod.mk.inj (Except.ok.inj h)).2.symm

/-- One that is not inline, for a single packet that is not allocated. -/
theorem roceRcBuildPkts_error (h : roceRcBuildPkts ctx qp wr calloc = .ok (qp', wr'))
    (hin : roceSendWrIsInline wr = false)
    (hcalloc : calloc 0 = true ∨ ∀ mtu len, roceGetMtu ctx qp = .ok mtu →
      roceSgeLen wr.sge 0 0 = .ok len → mtu.toUInt32 < len) : wr' = wr := by
  have hlen : requestLen wr = roceSgeLen wr.sge 0 0 := by
    unfold requestLen
    rw [hin]
    rfl
  rw [← hlen] at hcalloc
  refine roceRcBuildPkts_unfailed h ?_ (hcalloc.imp_right Or.inr)
  intro hyes
  rw [hin] at hyes
  cases hyes

end build

end Libroce
