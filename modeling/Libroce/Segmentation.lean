import Libroce.Lib.Segment
import Libroce.Placement
import Libroce.RequesterBuild

/-!
# How a request is cut into packets

The two builders of several packets keep a count of the bytes left and a cursor
into the SGEs.  What they build is the segmentation of the message: full packets
and a last one, whose bytes are those of the SGEs one after the other.

    SgeCuts     the SGEs picked by one advance after the other
    MapsTo      the payload of a packet, and the SGEs it was mapped from
    Segmented   the packets of a request

Main statement: `roceRcBuildPkts_segmented`.
-/

namespace Libroce

open Machine (bind_eq_ok)

/-! ## Mapped bytes -/

/-- The SGE lies in an MR that its key names and the QP may use.  Pages cover
the range of the MR, which lies in the address space. -/
structure SgeIn (ctx : RoceCtx) (qp : RoceQp) (sge : RoceSge) (mr : RoceMr) : Prop where
  grants : MrGrants ctx qp true 0 sge mr
  paged : mr.Paged
  range : InRange sge mr
  space : mr.iova.toNat + mr.length.toNat < 2 ^ 64

section sgeIn

variable {ctx : RoceCtx} {qp : RoceQp} {sge : RoceSge} {mr : RoceMr}

theorem SgeIn.inPages (h : SgeIn ctx qp sge mr) : InPages ctx sge := ⟨mr, h.grants.live, h.paged, h.range⟩

theorem SgeIn.sgeHost (h : SgeIn ctx qp sge mr) : sgeHost ctx sge = mr.hosts sge := by
  unfold Libroce.sgeHost
  rw [h.grants.live]
  rfl

/-- So does every piece of it. -/
theorem SgeIn.piece (h : SgeIn ctx qp sge mr) {off len : Nat} (hle : off + len ≤ sge.length.toNat) :
    SgeIn ctx qp (sge.piece off len) mr ∧
      Libroce.sgeHost ctx (sge.piece off len) = ((Libroce.sgeHost ctx sge).drop off).take len := by
  have hgrants := h.grants
  have hspace := h.space
  have hlo : mr.iova ≤ (sge.piece off len).addr := by
    obtain ⟨hge, hend⟩ := h.range
    rw [UInt64.le_iff_toNat_le]
    show mr.iova.toNat ≤ (sge.addr + UInt64.ofNat off).toNat
    rw [UInt64.toNat_add, UInt64.toNat_ofNat', Nat.add_mod_mod, Nat.mod_eq_of_lt (by omega)]
    omega
  obtain ⟨hrange, hhosts⟩ := RoceMr.hosts_piece h.range hle hlo
  have hpiece : SgeIn ctx qp (sge.piece off len) mr :=
    ⟨⟨hgrants.live, hgrants.key, hgrants.pd, hgrants.valid, hgrants.rights⟩, h.paged, hrange, hspace⟩
  refine ⟨hpiece, ?_⟩
  rw [hpiece.sgeHost, h.sgeHost]
  exact hhosts

/-- The range check of the code passes. -/
theorem SgeIn.rangeChecked (h : SgeIn ctx qp sge mr) : RangeChecked sge mr := by
  obtain ⟨hge, hend⟩ := h.range
  have hspace := h.space
  refine ⟨UInt64.le_iff_toNat_le.mpr hge, ?_⟩
  rw [UInt64.le_iff_toNat_le, UInt64.toNat_add, UInt64.toNat_add, UInt32.toNat_toUInt64,
    UInt32.toNat_toUInt64, Nat.mod_eq_of_lt (by omega), Nat.mod_eq_of_lt hspace]
  exact hend

/-- No turn of the mapping loop is refused. -/
theorem SgeIn.mrMapOne (h : SgeIn ctx qp sge mr) {mrType : Option MrType}
    (htype : mrType = none ∨ mrType = some .mem) : mrMapOne ctx qp true 0 mrType sge ≠ .ok none := by
  have hmem : mr.type ≠ .dma := by
    rw [h.paged.type]
    decide
  have hsame : mrType = none ∨ mrType = some mr.type := by
    rw [h.paged.type]
    exact htype
  rw [h.grants.mrMapOne_eq hmem hsame h.rangeChecked]
  cases mrIovCopy mr sge with
  | error e => rintro ⟨⟩
  | ok iovs => rintro ⟨⟩

end sgeIn

/-- A mapping of such SGEs is not refused, and writes every iovec it counts. -/
theorem mrMapLoop_sgeIn {ctx : RoceCtx} {qp : RoceQp} {sges : List RoceSge} {mrType : Option MrType}
    {dmamap : Bool} {r : MapRes} (hin : ∀ sge ∈ sges, ∃ mr, SgeIn ctx qp sge mr)
    (htype : mrType = none ∨ mrType = some .mem)
    (h : mrMapLoop ctx qp true 0 sges mrType dmamap = .ok r) :
    r.refused = false ∧ ∃ ds : List Iovec, r.iovs = ds.map some := by
  induction sges generalizing mrType dmamap r with
  | nil =>
    obtain rfl := Except.ok.inj h
    exact ⟨rfl, [], rfl⟩
  | cons sge sges ih =>
    obtain ⟨mr, hmr⟩ := hin sge List.mem_cons_self
    rw [mrMapLoop] at h
    cases hone : mrMapOne ctx qp true 0 mrType sge with
    | error e =>
      simp only [hone] at h
      cases h
    | ok res =>
      cases res with
      | none => exact absurd hone (hmr.mrMapOne htype)
      | some res =>
        obtain ⟨type, iovs⟩ := res
        obtain ⟨mr', hg, rfl, -, hcase⟩ := mrMapOne_ok hone
        obtain rfl := Option.some.inj (hmr.grants.live.symm.trans hg.live)
        simp only [hone] at h
        cases hrest : mrMapLoop ctx qp true 0 sges (some mr.type) (mr.type == .dma) with
        | error e =>
          simp only [hrest] at h
          cases h
        | ok r' =>
          simp only [hrest] at h
          obtain rfl := Except.ok.inj h
          obtain ⟨hr', ds2, hds2⟩ := ih (fun s hs => hin s (List.mem_cons_of_mem _ hs))
            (Or.inr (congrArg some hmr.paged.type)) hrest
          rcases hcase with ⟨hdma, -⟩ | ⟨-, -, hcopy⟩
          · rw [hmr.paged.type] at hdma
            cases hdma
          · obtain ⟨ds1, hds1⟩ := hmr.paged.mrIovCopy_some hmr.range hcopy
            refine ⟨hr', ds1 ++ ds2, ?_⟩
            show iovs ++ r'.iovs = _
            rw [hds1, hds2, List.map_append]

/-- The bytes that written iovecs denote. -/
theorem iovBytes_flatten (mem : Nat → UInt8) (ds : List Iovec) :
    ((ds.map some).map (iovBytes mem)).flatten = (iovAddrs ds).map mem := by
  induction ds with
  | nil => rfl
  | cons iov ds ih =>
    have hone : iovBytes mem (some iov) = (List.range' iov.base iov.len).map mem := by
      unfold iovBytes
      rw [List.range'_eq_map_range, List.map_map]
      rfl
    rw [List.map_cons, List.map_cons, List.flatten_cons, ih, hone, iovAddrs_cons, List.map_append]

/-- The payload of the packet was mapped from the SGEs. -/
def MapsTo (ctx : RoceCtx) (qp : RoceQp) (pkt : RoceNetpkt) (sges : List RoceSge) : Prop :=
  ∃ pages, roceSgePages sges ctx.pageSize = .ok pages ∧ pktMapSge ctx qp sges pages = .ok (some pkt.payload)

/-- It consists of their bytes. -/
theorem MapsTo.bytes {ctx : RoceCtx} {qp : RoceQp} {pkt : RoceNetpkt} {sges : List RoceSge}
    (h : MapsTo ctx qp pkt sges) (hin : ∀ sge ∈ sges, ∃ mr, SgeIn ctx qp sge mr) :
    pkt.payload.flatten = (sges.flatMap (sgeHost ctx)).map ctx.mem := by
  obtain ⟨pages, -, h⟩ := h
  unfold pktMapSge at h
  obtain ⟨r, hr, h⟩ := bind_eq_ok.mp h
  obtain ⟨hok, ds, hds⟩ := mrMapLoop_sgeIn hin (Or.inl rfl) hr
  simp only at h
  split at h
  · cases h
  · split at h
    · have hpayload := Option.some.inj (Except.ok.inj h)
      have hpages : ∀ sge ∈ sges, InPages ctx sge := by
        intro sge hsge
        obtain ⟨mr, hmr⟩ := hin sge hsge
        exact hmr.inPages
      rw [← hpayload, hds, iovBytes_flatten, mrMapLoop_host hr hok hds hpages]
    · cases h

/-- Such SGEs are backed by memory. -/
theorem backed_of_sgeIn {ctx : RoceCtx} {qp : RoceQp} {sges : List RoceSge}
    (h : ∀ g ∈ sges, ∃ mr, SgeIn ctx qp g mr) : Backed ctx qp sges := by
  intro r hr _
  obtain ⟨hok, ds, hds⟩ := mrMapLoop_sgeIn h (Or.inl rfl) hr
  have hpages : ∀ g ∈ sges, InPages ctx g := by
    intro g hg
    obtain ⟨mr, hmr⟩ := h g hg
    exact hmr.inPages
  have hbytes := iovBytes_flatten ctx.mem ds
  rw [mrMapLoop_host hr hok hds hpages] at hbytes
  rw [hds, ← length_iovBytes ctx.mem, hbytes, List.length_map, length_sgesHost hpages]

theorem allBacked_of_sgeIn {ctx : RoceCtx} {qp : RoceQp} {sges : List RoceSge}
    (h : ∀ g ∈ sges, ∃ mr, SgeIn ctx qp g mr) : AllBacked ctx qp sges := by
  refine ⟨backed_of_sgeIn h, ?_⟩
  intro bytes idx off dst idx' off' hadv
  apply backed_of_sgeIn
  intro d hd
  obtain ⟨g, hg, o, n, hle, rfl⟩ := roceSgeAdvance_pieces hadv d hd
  obtain ⟨mr, hmr⟩ := h g hg
  exact ⟨mr, (hmr.piece hle).1⟩

/-! ## The SGEs of each packet -/

/-- The SGEs that `roce_sge_advance` picks for pieces of the given sizes, one
after the other, and where it leaves the cursor. -/
inductive SgeCuts (sges : List RoceSge) : List Nat → List (List RoceSge) → Nat → Nat → Prop where
  | nil : SgeCuts sges [] [] 0 0
  | snoc {sizes : List Nat} {segs : List (List RoceSge)} {n idx off idx' off' : Nat} {dst : List RoceSge}
      (h : SgeCuts sges sizes segs idx off)
      (hadv : roceSgeAdvance sges n idx off = .ok (dst, idx', off')) :
      SgeCuts sges (sizes ++ [n]) (segs ++ [dst]) idx' off'

section sgeCuts

variable {ctx : RoceCtx} {qp : RoceQp} {sges : List RoceSge} {sizes : List Nat} {segs : List (List RoceSge)}
  {idx off : Nat}

theorem SgeCuts.pieces (h : SgeCuts sges sizes segs idx off) :
    ∀ seg ∈ segs, ∀ d ∈ seg, ∃ sge ∈ sges, ∃ o n, o + n ≤ sge.length.toNat ∧ d = sge.piece o n := by
  induction h with
  | nil =>
    intro seg hseg
    cases hseg
  | snoc h hadv ih =>
    intro seg hseg
    rcases List.mem_append.mp hseg with hseg | hseg
    · exact ih seg hseg
    · obtain rfl := List.mem_singleton.mp hseg
      exact roceSgeAdvance_pieces hadv

/-- Each list asks for as many bytes as its size says. -/
theorem SgeCuts.totals (h : SgeCuts sges sizes segs idx off) (hfit : ∀ n ∈ sizes, n < 2 ^ 32) :
    segs.map sgeTotal = sizes := by
  induction h with
  | nil => rfl
  | @snoc sizes _ n _ _ _ _ _ h hadv ih =>
    have hn : n < 2 ^ 32 := hfit n (List.mem_append_right _ List.mem_cons_self)
    rw [List.map_append, ih fun m hm => hfit m (List.mem_append_left _ hm), List.map_singleton,
      roceSgeAdvance_total hn hadv]

/-- The bytes of the lists are those of the SGEs, up to the cursor. -/
theorem SgeCuts.host (h : SgeCuts sges sizes segs idx off) (hin : ∀ sge ∈ sges, ∃ mr, SgeIn ctx qp sge mr) :
    segs.flatten.flatMap (sgeHost ctx) = (sges.flatMap (sgeHost ctx)).take sizes.sum ∧
      cursorHost ctx sges idx off = (sges.flatMap (sgeHost ctx)).drop sizes.sum := by
  have hlen : ∀ sge ∈ sges, (sgeHost ctx sge).length = sge.length.toNat := by
    intro sge hsge
    obtain ⟨mr, hmr⟩ := hin sge hsge
    exact hmr.inPages.length_sgeHost
  have hpieces : ∀ dst, PiecesOf ctx sges dst := by
    intro dst sge hsge o n hle _
    obtain ⟨mr, hmr⟩ := hin sge hsge
    exact (hmr.piece hle).2
  induction h with
  | nil => exact ⟨rfl, rfl⟩
  | snoc h hadv ih =>
    obtain ⟨hpicked, hcursor⟩ := ih
    obtain ⟨hdst, hnext⟩ := roceSgeAdvance_host hlen (hpieces _) hadv
    rw [hcursor] at hdst hnext
    rw [List.sum_append_nat, List.sum_singleton]
    constructor
    · rw [List.flatten_append, List.flatMap_append, hpicked, List.flatten_singleton, hdst, List.take_add]
    · rw [hnext, List.drop_drop]

end sgeCuts

/-- The SGEs each packet of a request is mapped from. -/
def SegmentsOf (wr : SendWr) (mtu : Nat) (segs : List (List RoceSge)) : Prop :=
  wr.len ≤ mtu ∧ segs = [wr.sge] ∨
    mtu < wr.len ∧ ∃ idx off, SgeCuts wr.sge (Segment.sizes mtu wr.len) segs idx off

/-! ## The headers -/

/-- The opcodes of a request, by the place of the packet. -/
structure PktOps where
  only : UInt8
  first : UInt8
  middle : UInt8
  last : UInt8

/-- Those of a SEND or an RDMA WRITE. -/
def pktOps : WrOpcode → Option PktOps
  | .send => some ⟨ibOpcodeSendOnly, ibOpcodeSendFirst, ibOpcodeSendMiddle, ibOpcodeSendLast⟩
  | .sendWithImm =>
    some ⟨ibOpcodeSendOnlyWithImmediate, ibOpcodeSendFirst, ibOpcodeSendMiddle, ibOpcodeSendLastWithImmediate⟩
  | .sendWithInv =>
    some ⟨ibOpcodeSendOnlyWithInvalidate, ibOpcodeSendFirst, ibOpcodeSendMiddle,
      ibOpcodeSendLastWithInvalidate⟩
  | .rdmaWrite =>
    some ⟨ibOpcodeRdmaWriteOnly, ibOpcodeRdmaWriteFirst, ibOpcodeRdmaWriteMiddle, ibOpcodeRdmaWriteLast⟩
  | .rdmaWriteWithImm =>
    some ⟨ibOpcodeRdmaWriteOnlyWithImmediate, ibOpcodeRdmaWriteFirst, ibOpcodeRdmaWriteMiddle,
      ibOpcodeRdmaWriteLastWithImmediate⟩
  | _ => none

/-- The header of the first packet of an RDMA WRITE, with the length of all. -/
def requestReth (wr : SendWr) : List UInt8 :=
  if wr.opcode = .rdmaWrite ∨ wr.opcode = .rdmaWriteWithImm then
    ibRethCodec.enc ⟨wr.remoteAddr, wr.rkey, UInt32.ofNat wr.len⟩
  else []

/-- The immediate or invalidate header of the last packet. -/
def requestTail (wr : SendWr) : List UInt8 :=
  match wr.opcode with
  | .sendWithImm | .rdmaWriteWithImm => ibImmdtCodec.enc wr.imm
  | .sendWithInv => ibIethCodec.enc wr.imm
  | _ => []

/-- The headers of the packets of a request. -/
structure Headed (psn : UInt32) (wr : SendWr) (ops : PktOps) (mtu : Nat) (pkts : List RoceNetpkt) :
    Prop where
  count : pkts.length = if wr.len ≤ mtu then 1 else (wr.len + mtu - 1) / mtu
  rest : mtu < wr.len → 0 < wr.len - (pkts.length - 1) * mtu ∧ wr.len - (pkts.length - 1) * mtu ≤ mtu
  psns : pkts.map (fun p => (roceNetpktPsn p).toNat) = Serial.seq psnMod psn.toNat pkts.length
  owners : pkts.map (·.opaquePtr) = Segment.butLast pkts.length none (some wr.addr)
  opcodes : pkts.map (fun p => ibBthGetOpcode p.bth) =
    Segment.byPlace pkts.length ops.only ops.first ops.middle ops.last
  exts : pkts.map (·.ext) =
    Segment.byPlace pkts.length (requestReth wr ++ requestTail wr) (requestReth wr) [] (requestTail wr)
  solicited : pkts.map (fun p => ibBthGetSe p.bth) = Segment.butLast pkts.length false (sendSolicited wr)
  pads : pkts.map (fun p => (ibBthGetPadcnt p.bth).toNat) =
    Segment.butLast pkts.length 0 ((4 - (wr.len - (pkts.length - 1) * mtu) % 4) % 4)
  padded : ∀ pkt ∈ pkts, pkt.pad = List.replicate (ibBthGetPadcnt pkt.bth).toNat 0

/-- Their payloads, mapped from the SGEs. -/
def Mapped (ctx : RoceCtx) (qp : RoceQp) (wr : SendWr) (mtu : Nat) (pkts : List RoceNetpkt) : Prop :=
  ∃ segs, SegmentsOf wr mtu segs ∧ List.Forall₂ (MapsTo ctx qp) pkts segs

/-- The payloads of any request: an inline array that fits a packet is sent as it
is, and a longer one is taken for SGEs. -/
def Carried (ctx : RoceCtx) (qp : RoceQp) (wr : SendWr) (mtu : Nat) (pkts : List RoceNetpkt) : Prop :=
  roceSendWrIsInline wr = true ∧ wr.len ≤ mtu ∧ pkts.map (·.payload.flatten.length) = [wr.len] ∨
    (roceSendWrIsInline wr = false ∨ mtu < wr.len) ∧ Mapped ctx qp wr mtu pkts

/-- The packets of a request. -/
structure Segmented (ctx : RoceCtx) (psn : UInt32) (wr : SendWr) (ops : PktOps) (mtu : Nat)
    (pkts : List RoceNetpkt) : Prop where
  headed : Headed psn wr ops mtu pkts
  sizes : pkts.map (·.payload.flatten.length) = Segment.sizes mtu wr.len
  bytes : pkts.flatMap (·.payload.flatten) = (wr.sge.flatMap (sgeHost ctx)).map ctx.mem

/-! ## The payloads -/

section payloads

variable {ctx : RoceCtx} {qp : RoceQp} {wr : SendWr} {mtu : Nat} {pkts : List RoceNetpkt}
  {segs : List (List RoceSge)}

theorem SegmentsOf.sgeIn (h : SegmentsOf wr mtu segs) (hin : ∀ sge ∈ wr.sge, ∃ mr, SgeIn ctx qp sge mr) :
    ∀ seg ∈ segs, ∀ d ∈ seg, ∃ mr, SgeIn ctx qp d mr := by
  intro seg hseg d hd
  rcases h with ⟨-, rfl⟩ | ⟨-, idx, off, hcuts⟩
  · rw [List.mem_singleton.mp hseg] at hd
    exact hin d hd
  · obtain ⟨sge, hsge, o, n, hle, rfl⟩ := hcuts.pieces seg hseg d hd
    obtain ⟨mr, hmr⟩ := hin sge hsge
    exact ⟨mr, (hmr.piece hle).1⟩

theorem SegmentsOf.totals (h : SegmentsOf wr mtu segs)
    (hmode : roceSendWrIsInline wr = false ∨ mtu < wr.len) (hfit : wr.len < 2 ^ 32) :
    segs.map sgeTotal = Segment.sizes mtu wr.len := by
  rcases h with ⟨hle, rfl⟩ | ⟨-, idx, off, hcuts⟩
  · rcases hmode with hinline | hlt
    · rw [Segment.sizes_of_le hle]
      unfold SendWr.len
      rw [hinline]
      rfl
    · omega
  · apply hcuts.totals
    intro n hn
    have hle := Segment.le_of_mem hn
    omega

/-- The packets carry the bytes of the SGEs. -/
theorem SegmentsOf.host (h : SegmentsOf wr mtu segs) (hinline : roceSendWrIsInline wr = false)
    (hin : ∀ sge ∈ wr.sge, ∃ mr, SgeIn ctx qp sge mr) :
    segs.flatten.flatMap (sgeHost ctx) = wr.sge.flatMap (sgeHost ctx) := by
  rcases h with ⟨-, rfl⟩ | ⟨-, idx, off, hcuts⟩
  · rw [List.flatten_singleton]
  · have hpages : ∀ sge ∈ wr.sge, InPages ctx sge := by
      intro sge hsge
      obtain ⟨mr, hmr⟩ := hin sge hsge
      exact hmr.inPages
    have hlen : wr.len = sgeTotal wr.sge := by
      unfold SendWr.len
      rw [hinline]
      rfl
    rw [(hcuts.host hin).1, Segment.sum_sizes, hlen, ← length_sgesHost hpages, List.take_length]

theorem mapsTo_bytes (h : List.Forall₂ (MapsTo ctx qp) pkts segs)
    (hin : ∀ seg ∈ segs, ∀ d ∈ seg, ∃ mr, SgeIn ctx qp d mr) :
    pkts.flatMap (·.payload.flatten) = (segs.flatten.flatMap (sgeHost ctx)).map ctx.mem ∧
      pkts.map (·.payload.flatten.length) = segs.map sgeTotal := by
  induction h with
  | nil => exact ⟨rfl, rfl⟩
  | @cons pkt seg pkts segs hpkt _ ih =>
    obtain ⟨hbytes, hsizes⟩ := ih fun s hs => hin s (List.mem_cons_of_mem _ hs)
    have hone := hpkt.bytes (hin seg List.mem_cons_self)
    have hpages : ∀ d ∈ seg, InPages ctx d := by
      intro d hd
      obtain ⟨mr, hmr⟩ := hin seg List.mem_cons_self d hd
      exact hmr.inPages
    constructor
    · rw [List.flatMap_cons, hone, hbytes, List.flatten_cons, List.flatMap_append, List.map_append]
    · rw [List.map_cons, List.map_cons, hsizes, hone, List.length_map, length_sgesHost hpages]

/-- **The packets are the segments of the message.** -/
theorem Mapped.segmented {psn : UInt32} {ops : PktOps} (h : Mapped ctx qp wr mtu pkts)
    (hh : Headed psn wr ops mtu pkts) (hinline : roceSendWrIsInline wr = false) (hfit : wr.len < 2 ^ 32)
    (hin : ∀ sge ∈ wr.sge, ∃ mr, SgeIn ctx qp sge mr) : Segmented ctx psn wr ops mtu pkts := by
  obtain ⟨segs, hsegs, hmaps⟩ := h
  obtain ⟨hbytes, hsizes⟩ := mapsTo_bytes hmaps (hsegs.sgeIn hin)
  refine ⟨hh, ?_, ?_⟩
  · rw [hsizes, hsegs.totals (Or.inl hinline) hfit]
  · rw [hbytes, hsegs.host hinline hin]

end payloads

/-! ## The builders -/

/-- The headers of one packet. -/
structure HasHeaders (o : Option Nat) (opcode : UInt8) (ext : List UInt8) (se : Bool) (padcnt : UInt8)
    (psn : UInt32) (pkt : RoceNetpkt) : Prop where
  owner : pkt.opaquePtr = o
  opcode_eq : ibBthGetOpcode pkt.bth = opcode
  ext_eq : pkt.ext = ext
  se_eq : ibBthGetSe pkt.bth = se
  padcnt_eq : ibBthGetPadcnt pkt.bth = padcnt
  pad_eq : pkt.pad = List.replicate padcnt.toNat 0
  psn_eq : (roceNetpktPsn pkt).toNat = psn.toNat % psnMod

section builders

variable {ctx : RoceCtx} {qp qp' : RoceQp} {wr wr' : SendWr} {calloc : Nat → Bool} {o : Option Nat}
  {opcode : UInt8} {ext : List UInt8} {se ack c : Bool} {padcnt : UInt8} {psn payload : UInt32}
  {pkt : RoceNetpkt} {sges : List RoceSge} {mtu : UInt16} {kind : MultiKind} {m m' : MultiState}

theorem requestHeaders_headers {pkt0 : RoceNetpkt} {destqp : UInt32} {ahAttr : RoceAhAttr}
    {bytes : List (List UInt8)} {mapped : List (Option Iovec)} (hop : opcode < 32) (hpad : padcnt < 4)
    (h0 : roceNetpktAlloc ctx qp o padcnt c = .ok (some pkt0)) (hmem : InMemory ctx.mem mapped bytes)
    (h : requestHeaders ctx qp { pkt0 with ext := ext, payload := bytes, mapped := mapped } opcode se padcnt
      destqp ack psn ahAttr = .ok pkt) : HasHeaders o opcode ext se padcnt psn pkt ∧ pkt.payload = bytes := by
  obtain ⟨howner, -, hpacket⟩ := requestHeaders_ok h0 hmem h
  obtain ⟨-, hb, -⟩ := roceNetpktAlloc_some h0
  unfold requestHeaders at h
  obtain ⟨port, -, h⟩ := bind_eq_ok.mp h
  obtain ⟨hbth, -⟩ := roceNetpktSetEth_ok h
  refine ⟨⟨howner, ?_, hpacket.ext_eq, ?_, ?_, hpacket.pad_eq, hpacket.psn_eq⟩, hpacket.payload_eq⟩
  · rw [hbth]
    exact ibBthGetOpcode_setBth _ _ _ _ _ _ _ _ hop
  · rw [hbth]
    exact ibBthGetSe_setBth ..
  · rw [hbth]
    exact ibBthGetPadcnt_setBth _ _ _ _ _ _ _ _ hpad

theorem multiPkt_maps (hop : opcode < 32) (hpad : padcnt < 4)
    (h : multiPkt ctx qp o sges opcode ext se padcnt ack psn c = .ok (some pkt)) :
    HasHeaders o opcode ext se padcnt psn pkt ∧ MapsTo ctx qp pkt sges := by
  obtain ⟨pages, bytes, pkt0, hpages, hbytes, halloc, hpkt⟩ := multiPkt_cases h
  obtain ⟨hheaders, hpayload⟩ := requestHeaders_headers hop hpad halloc (pktMapSge_inMemory hbytes) hpkt
  exact ⟨hheaders, pages, hpages, by rw [hpayload]; exact hbytes⟩

/-- A request that fits a packet: an inline array is sent as it is. -/
theorem rcOnly_headed (hlen : requestLen wr = .ok payload) (hop : opcode < 32) (herr : wr'.error = 0)
    (h : rcOnly ctx qp wr calloc opcode ext payload = .ok (qp', wr')) :
    wr' = wr ∧ ∃ pkt, qp' = qp.push [pkt] ∧
      HasHeaders (some wr.addr) opcode ext (sendSolicited wr) (padCount payload) qp.req.psn pkt ∧
      (roceSendWrIsInline wr = true ∧ pkt.payload.flatten.length = payload.toNat ∨
        roceSendWrIsInline wr = false ∧ MapsTo ctx qp pkt wr.sge) := by
  rcases rcOnly_cases h with ⟨-, rfl⟩ | ⟨rfl, pkt, bytes, pages, pkt0, rfl, hpages, hbytes, halloc, hpkt⟩
  · have hfail : (roceWcLocQpOpErr : UInt8) ≠ 0 := by decide
    exact absurd herr hfail
  · obtain ⟨hheaders, hpayload⟩ :=
      requestHeaders_headers hop (padCount_lt payload) halloc (onlyPayload_inMemory hbytes) hpkt
    refine ⟨rfl, pkt, rfl, hheaders, ?_⟩
    rw [← hpayload] at hbytes
    by_cases hin : roceSendWrIsInline wr' = true
    · exact Or.inl ⟨hin, onlyPayload_inline hlen hin hbytes⟩
    · unfold onlyPages at hpages
      unfold onlyPayload at hbytes
      rw [if_neg hin] at hpages hbytes
      exact Or.inr ⟨Bool.eq_false_iff.mpr hin, pages, hpages, hbytes⟩

/-- The packets before the LAST one, and the SGEs they were mapped from. -/
structure Cut (ctx : RoceCtx) (qp : RoceQp) (sges : List RoceSge) (kind : MultiKind) (mtu : UInt16)
    (m : MultiState) : Prop where
  parts : ∃ first mids, m.pkts = first :: mids ∧
    (∃ psn, HasHeaders none kind.opFirst kind.extFirst false 0 psn first) ∧
    ∀ pkt ∈ mids, ∃ psn, HasHeaders none kind.opMiddle [] false 0 psn pkt
  cuts : ∃ segs, SgeCuts sges (List.replicate m.pkts.length mtu.toNat) segs m.sgeIdx m.sgeOff ∧
    List.Forall₂ (MapsTo ctx qp) m.pkts segs

theorem multiStep_maps (hop : opcode < 32)
    (h : multiStep ctx qp wr calloc opcode ext mtu m = .ok (some m')) :
    ∃ pkt dst, m'.pkts = m.pkts ++ [pkt] ∧
      roceSgeAdvance wr.sge mtu.toNat m.sgeIdx m.sgeOff = .ok (dst, m'.sgeIdx, m'.sgeOff) ∧
      HasHeaders none opcode ext false 0 m.psn pkt ∧ MapsTo ctx qp pkt dst := by
  unfold multiStep at h
  obtain ⟨⟨sges, sgeIdx, sgeOff⟩, hadv, h⟩ := bind_eq_ok.mp h
  obtain ⟨pkt, hpkt, h⟩ := bind_eq_ok.mp h
  cases pkt with
  | none => cases h
  | some pkt =>
    obtain rfl := Option.some.inj (Except.ok.inj h)
    obtain ⟨hheaders, hmaps⟩ := multiPkt_maps hop (by decide) hpkt
    exact ⟨pkt, sges, rfl, hadv, hheaders, hmaps⟩

/-- One more packet. -/
theorem SgeCuts.push {pkts : List RoceNetpkt} {segs : List (List RoceSge)} {dst : List RoceSge}
    {n idx off idx' off' : Nat} (hcuts : SgeCuts sges (List.replicate pkts.length n) segs idx off)
    (hmaps : List.Forall₂ (MapsTo ctx qp) pkts segs)
    (hadv : roceSgeAdvance sges n idx off = .ok (dst, idx', off')) (hpkt : MapsTo ctx qp pkt dst) :
    SgeCuts sges (List.replicate (pkts ++ [pkt]).length n) (segs ++ [dst]) idx' off' ∧
      List.Forall₂ (MapsTo ctx qp) (pkts ++ [pkt]) (segs ++ [dst]) := by
  refine ⟨?_, List.rel_append hmaps (.cons hpkt .nil)⟩
  rw [List.length_append, List.length_singleton, List.replicate_succ']
  exact hcuts.snoc hadv

theorem Cut.first (hop : kind.opFirst < 32)
    (h : multiStep ctx qp wr calloc kind.opFirst kind.extFirst mtu ⟨[], psn, payload, 0, 0⟩ =
      .ok (some m)) : Cut ctx qp wr.sge kind mtu m := by
  obtain ⟨pkt, dst, hpkts, hadv, hheaders, hpkt⟩ := multiStep_maps hop h
  have hstart : SgeCuts wr.sge (List.replicate ([] : List RoceNetpkt).length mtu.toNat) [] 0 0 := .nil
  have hpush := hstart.push .nil hadv hpkt
  rw [← hpkts] at hpush
  refine ⟨⟨pkt, [], hpkts, ⟨psn, hheaders⟩, ?_⟩, _, hpush⟩
  intro p hp
  cases hp

theorem Cut.step (hop : kind.opMiddle < 32) (h0 : Cut ctx qp wr.sge kind mtu m)
    (h : multiStep ctx qp wr calloc kind.opMiddle [] mtu m = .ok (some m')) :
    Cut ctx qp wr.sge kind mtu m' := by
  obtain ⟨pkt, dst, hpkts, hadv, hheaders, hpkt⟩ := multiStep_maps hop h
  obtain ⟨first, mids, hm, hfirst, hmids⟩ := h0.parts
  obtain ⟨segs, hcuts, hmaps⟩ := h0.cuts
  have hpush := hcuts.push hmaps hadv hpkt
  rw [← hpkts] at hpush
  refine ⟨⟨first, mids ++ [pkt], ?_, hfirst, ?_⟩, _, hpush⟩
  · rw [hpkts, hm]
    rfl
  · intro p hp
    rcases List.mem_append.mp hp with hp | hp
    · exact hmids p hp
    · obtain rfl := List.mem_singleton.mp hp
      exact ⟨_, hheaders⟩

/-- The opcodes and headers that the builder of several packets was given. -/
structure KindOf (wr : SendWr) (ops : PktOps) (kind : MultiKind) : Prop where
  first : kind.opFirst = ops.first
  middle : kind.opMiddle = ops.middle
  last : kind.opLast = ops.last
  extFirst : kind.extFirst = requestReth wr
  extLast : kind.extLast = requestTail wr
  small : ops.first < 32 ∧ ops.middle < 32 ∧ ops.last < 32

/-- The LAST packet. -/
theorem Cut.headed {ops : PktOps} {last : RoceNetpkt} (hk : KindOf wr ops kind)
    (hlen : payload.toNat = wr.len) (hhead : Head ctx qp wr.sge kind mtu psn payload m)
    (hcut : Cut ctx qp wr.sge kind mtu m) (hle : m.payload.toNat ≤ mtu.toNat)
    (htrain : Train wr.addr psn (m.pkts ++ [last]))
    (hlast : HasHeaders (some wr.addr) kind.opLast kind.extLast (sendSolicited wr) (padCount m.payload) m.psn
      last) : Headed psn wr ops mtu.toNat (m.pkts ++ [last]) := by
  obtain ⟨first, mids, hpkts, ⟨_, hfirst⟩, hmids⟩ := hcut.parts
  have hleft := hhead.left
  have hpos := hhead.nonzero
  rw [hlen] at hleft
  have hsizes := Segment.sizes_eq hleft hpos hle
  have hone : 0 < m.pkts.length := by
    rw [hpkts]
    exact Nat.succ_pos _
  have hmul : mtu.toNat ≤ m.pkts.length * mtu.toNat := Nat.le_mul_of_pos_left _ hone
  have hlength : (m.pkts ++ [last]).length = m.pkts.length + 1 := by simp
  have hrest : wr.len - ((m.pkts ++ [last]).length - 1) * mtu.toNat = m.payload.toNat := by
    rw [hlength, Nat.add_sub_cancel]
    omega
  -- the packets before the last one have neither the bit nor padding
  have hbefore : ∀ pkt ∈ m.pkts, ibBthGetSe pkt.bth = false ∧ ibBthGetPadcnt pkt.bth = 0 ∧ pkt.pad = [] := by
    intro pkt hpkt
    rw [hpkts] at hpkt
    rcases List.mem_cons.mp hpkt with rfl | hpkt
    · exact ⟨hfirst.se_eq, hfirst.padcnt_eq, hfirst.pad_eq⟩
    · obtain ⟨_, hmid⟩ := hmids pkt hpkt
      exact ⟨hmid.se_eq, hmid.padcnt_eq, hmid.pad_eq⟩
  constructor
  · rw [if_neg (by omega), ← Segment.length_sizes_ceil (by omega) (by omega), hsizes]
    simp
  · intro _
    rw [hrest]
    exact ⟨hpos, hle⟩
  · exact htrain.psns
  · exact htrain.owners
  · rw [hpkts, ← hk.first, ← hk.middle, ← hk.last]
    refine Segment.map_byPlace ?_ ?_ ?_
    · exact hfirst.opcode_eq
    · intro pkt hpkt
      obtain ⟨_, hmid⟩ := hmids pkt hpkt
      exact hmid.opcode_eq
    · exact hlast.opcode_eq
  · rw [hpkts, ← hk.extFirst, ← hk.extLast]
    apply Segment.map_byPlace hfirst.ext_eq ?_ hlast.ext_eq
    intro pkt hpkt
    obtain ⟨_, hmid⟩ := hmids pkt hpkt
    exact hmid.ext_eq
  · exact Segment.map_butLast (fun pkt hpkt => (hbefore pkt hpkt).1) hlast.se_eq
  · rw [hrest, ← padCount_toNat]
    apply Segment.map_butLast
    · intro pkt hpkt
      rw [(hbefore pkt hpkt).2.1]
      rfl
    · rw [hlast.padcnt_eq]
  · intro pkt hpkt
    rcases List.mem_append.mp hpkt with hpkt | hpkt
    · obtain ⟨-, hzero, hnil⟩ := hbefore pkt hpkt
      rw [hzero, hnil]
      rfl
    · obtain rfl := List.mem_singleton.mp hpkt
      rw [hlast.padcnt_eq]
      exact hlast.pad_eq

/-- A request in several packets. -/
theorem rcMulti_headed {ops : PktOps} (hgt : payload > mtu.toUInt32) (hlen : payload.toNat = wr.len)
    (hk : KindOf wr ops kind) (herr : wr'.error = 0)
    (h : rcMulti ctx qp wr calloc kind payload mtu = .ok (qp', wr')) :
    wr' = wr ∧ ∃ pkts, qp' = qp.push pkts ∧ Headed qp.req.psn wr ops mtu.toNat pkts ∧
      Mapped ctx qp wr mtu.toNat pkts := by
  have hfail : (roceWcLocQpOpErr : UInt8) ≠ 0 := by decide
  obtain ⟨hsmallFirst, hsmallMiddle, hsmallLast⟩ := hk.small
  rw [← hk.first] at hsmallFirst
  rw [← hk.middle] at hsmallMiddle
  rw [← hk.last] at hsmallLast
  unfold rcMulti at h
  obtain ⟨m1, hm1, h⟩ := bind_eq_ok.mp h
  cases m1 with
  | none =>
    obtain ⟨-, rfl⟩ := Prod.mk.inj (Except.ok.inj h)
    exact absurd herr hfail
  | some m1 =>
    obtain ⟨m2, hm2, h⟩ := bind_eq_ok.mp h
    cases m2 with
    | none =>
      obtain ⟨-, rfl⟩ := Prod.mk.inj (Except.ok.inj h)
      exact absurd herr hfail
    | some m2 =>
      obtain ⟨⟨sges, sgeIdx, sgeOff⟩, hadv, h⟩ := bind_eq_ok.mp h
      obtain ⟨last, hlast, h⟩ := bind_eq_ok.mp h
      cases last with
      | none =>
        obtain ⟨-, rfl⟩ := Prod.mk.inj (Except.ok.inj h)
        exact absurd herr hfail
      | some last =>
        obtain ⟨rfl, rfl⟩ := Prod.mk.inj (Except.ok.inj h)
        obtain ⟨⟨hhead, hcut⟩, hstop⟩ := multiMiddle_inv
          (P := fun m => Head ctx qp wr.sge kind mtu qp.req.psn payload m ∧ Cut ctx qp wr.sge kind mtu m)
          (fun _ _ hm hgt hs => ⟨hm.1.step hgt hs, hm.2.step hsmallMiddle hs⟩)
          ⟨.first hgt hm1, .first hsmallFirst hm1⟩ hm2
        have hle : m2.payload.toNat ≤ mtu.toNat := by
          have hle' := UInt32.le_iff_toNat_le.mp (UInt32.not_lt.mp hstop)
          rwa [UInt16.toNat_toUInt32] at hle'
        obtain ⟨bytes, -, -, hreq⟩ := multiPkt_some hlast
        obtain ⟨hheaders, hmaps⟩ := multiPkt_maps hsmallLast (padCount_lt _) hlast
        have hheaded := hcut.headed hk hlen hhead hle (hhead.close hreq) hheaders
        have hleft := hhead.left
        rw [hlen] at hleft
        refine ⟨rfl, m2.pkts ++ [last], ?_, hheaded, ?_⟩
        · unfold RoceQp.push
          rw [List.length_append, List.length_singleton, psnAfter, ← hhead.next]
        · obtain ⟨segs, hcuts, hall⟩ := hcut.cuts
          refine ⟨segs ++ [sges], Or.inr ⟨?_, sgeIdx, sgeOff, ?_⟩, List.rel_append hall (.cons hmaps .nil)⟩
          · have hlt := UInt32.lt_iff_toNat_lt.mp hgt
            rwa [UInt16.toNat_toUInt32, hlen] at hlt
          · rw [Segment.sizes_eq hleft hhead.nonzero hle]
            exact hcuts.snoc hadv

theorem Headed.single {ops : PktOps} {n : Nat} (hlen : payload.toNat = wr.len) (hle : wr.len ≤ n)
    (h : HasHeaders (some wr.addr) ops.only (requestReth wr ++ requestTail wr) (sendSolicited wr)
      (padCount payload) psn pkt) : Headed psn wr ops n [pkt] := by
  have hrest : wr.len - ([pkt].length - 1) * n = wr.len := by simp
  constructor
  · rw [if_pos hle]
    rfl
  · intro hlt
    omega
  · show [(roceNetpktPsn pkt).toNat] = _
    rw [h.psn_eq]
    rfl
  · show [pkt.opaquePtr] = _
    rw [h.owner]
    rfl
  · show [ibBthGetOpcode pkt.bth] = _
    rw [h.opcode_eq]
    rfl
  · show [pkt.ext] = _
    rw [h.ext_eq]
    rfl
  · show [ibBthGetSe pkt.bth] = _
    rw [h.se_eq]
    rfl
  · rw [hrest, ← hlen, ← padCount_toNat]
    show [(ibBthGetPadcnt pkt.bth).toNat] = _
    rw [h.padcnt_eq]
    rfl
  · intro p hp
    obtain rfl := List.mem_singleton.mp hp
    rw [h.padcnt_eq]
    exact h.pad_eq

/-- A build that queues packets: their headers and their payloads. -/
def QueuesHeaded (ctx : RoceCtx) (qp : RoceQp) (wr : SendWr) (ops : PktOps) (qp' : RoceQp) (wr' : SendWr) :
    Prop :=
  wr' = wr ∧ (∃ payload, requestLen wr = .ok payload) ∧
    ∃ mtu pkts, roceGetMtu ctx qp = .ok mtu ∧ qp' = qp.push pkts ∧
      Headed qp.req.psn wr ops mtu.toNat pkts ∧ Carried ctx qp wr mtu.toNat pkts

/-- One packet, or several. -/
theorem queuesHeaded_of_len {ops : PktOps} (hmtu : roceGetMtu ctx qp = .ok mtu)
    (hlen : requestLen wr = .ok payload) (hsmall : ops.only < 32) (hk : KindOf wr ops kind)
    (herr : wr'.error = 0)
    (h : (if payload ≤ mtu.toUInt32 then
        rcOnly ctx qp wr calloc ops.only (requestReth wr ++ requestTail wr) payload
      else rcMulti ctx qp wr calloc kind payload mtu) = .ok (qp', wr')) :
    QueuesHeaded ctx qp wr ops qp' wr' := by
  have hn := requestLen_ok hlen
  by_cases hle : payload ≤ mtu.toUInt32
  · rw [if_pos hle] at h
    obtain ⟨rfl, pkt, rfl, hheaders, hpayload⟩ := rcOnly_headed hlen hsmall herr h
    have hle' : wr'.len ≤ mtu.toNat := by
      have hnat := UInt32.le_iff_toNat_le.mp hle
      rwa [UInt16.toNat_toUInt32, hn] at hnat
    refine ⟨rfl, ⟨_, hlen⟩, mtu, [pkt], hmtu, rfl, .single hn hle' hheaders, ?_⟩
    rcases hpayload with ⟨hin, hsize⟩ | ⟨hin, hmaps⟩
    · refine Or.inl ⟨hin, hle', ?_⟩
      rw [← hn, ← hsize]
      rfl
    · exact Or.inr ⟨Or.inl hin, [wr'.sge], Or.inl ⟨hle', rfl⟩, .cons hmaps .nil⟩
  · rw [if_neg hle] at h
    obtain ⟨rfl, pkts, rfl, hheaded, hmaps⟩ := rcMulti_headed (UInt32.not_le.mp hle) hn hk herr h
    have hlt := UInt32.lt_iff_toNat_lt.mp (UInt32.not_le.mp hle)
    rw [UInt16.toNat_toUInt32, hn] at hlt
    exact ⟨rfl, ⟨_, hlen⟩, mtu, pkts, hmtu, rfl, hheaded, Or.inr ⟨Or.inr hlt, hmaps⟩⟩

theorem roceRcSendPkts_headed {ops : PktOps} {inv imm : Bool}
    (hop : wr.opcode = if inv then .sendWithInv else if imm then .sendWithImm else .send)
    (hops : pktOps wr.opcode = some ops) (herr : wr'.error = 0)
    (h : roceRcSendPkts ctx qp wr calloc inv imm = .ok (qp', wr')) : QueuesHeaded ctx qp wr ops qp' wr' := by
  unfold roceRcSendPkts at h
  obtain ⟨mtu, hmtu, h⟩ := bind_eq_ok.mp h
  obtain ⟨_, hnot, h⟩ := bind_eq_ok.mp h
  obtain ⟨payload, hlen, h⟩ := bind_eq_ok.mp h
  have hreth : requestReth wr = [] := by
    unfold requestReth
    rw [hop]
    cases inv <;> cases imm <;> rfl
  have htail : requestTail wr = (sendMultiKind wr inv imm).extLast := by
    unfold requestTail
    rw [hop]
    cases inv with
    | true =>
      cases imm with
      | true => cases hnot
      | false => rfl
    | false => cases imm <;> rfl
  have hkind : KindOf wr ops (sendMultiKind wr inv imm) ∧ ops.only < 32 ∧
      roceRcSendOnly ctx qp wr calloc inv imm payload =
        rcOnly ctx qp wr calloc ops.only (requestReth wr ++ requestTail wr) payload := by
    rw [hop] at hops
    rw [htail, hreth, List.nil_append]
    cases inv with
    | true =>
      cases imm with
      | true => cases hnot
      | false =>
        obtain rfl := Option.some.inj hops
        exact ⟨⟨rfl, rfl, rfl, hreth.symm, htail.symm, by decide⟩, by decide, rfl⟩
    | false =>
      cases imm with
      | true =>
        obtain rfl := Option.some.inj hops
        exact ⟨⟨rfl, rfl, rfl, hreth.symm, htail.symm, by decide⟩, by decide, rfl⟩
      | false =>
        obtain rfl := Option.some.inj hops
        exact ⟨⟨rfl, rfl, rfl, hreth.symm, htail.symm, by decide⟩, by decide, rfl⟩
  obtain ⟨hk, hsmall, honly⟩ := hkind
  apply queuesHeaded_of_len hmtu hlen hsmall hk herr
  rw [← honly]
  by_cases hle : payload ≤ mtu.toUInt32
  · rw [if_pos hle] at h ⊢
    exact h
  · rw [if_neg hle] at h ⊢
    obtain ⟨_, -, h⟩ := bind_eq_ok.mp h
    exact h

theorem roceRcWritePkts_headed {ops : PktOps} {imm : Bool}
    (hop : wr.opcode = if imm then .rdmaWriteWithImm else .rdmaWrite)
    (hops : pktOps wr.opcode = some ops) (herr : wr'.error = 0)
    (h : roceRcWritePkts ctx qp wr calloc imm = .ok (qp', wr')) : QueuesHeaded ctx qp wr ops qp' wr' := by
  unfold roceRcWritePkts at h
  obtain ⟨mtu, hmtu, h⟩ := bind_eq_ok.mp h
  obtain ⟨payload, hlen, h⟩ := bind_eq_ok.mp h
  have hreth : requestReth wr = writeReth wr payload := by
    unfold requestReth writeReth
    rw [← requestLen_ok hlen, UInt32.ofNat_toNat, hop]
    cases imm <;> rfl
  have htail : requestTail wr = (writeMultiKind wr imm payload).extLast := by
    unfold requestTail
    rw [hop]
    cases imm <;> rfl
  have hkind : KindOf wr ops (writeMultiKind wr imm payload) ∧ ops.only < 32 ∧
      roceRcWriteOnly ctx qp wr calloc imm payload =
        rcOnly ctx qp wr calloc ops.only (requestReth wr ++ requestTail wr) payload := by
    rw [hop] at hops
    rw [htail, hreth]
    cases imm with
    | true =>
      obtain rfl := Option.some.inj hops
      exact ⟨⟨rfl, rfl, rfl, hreth.symm, htail.symm, by decide⟩, by decide, rfl⟩
    | false =>
      obtain rfl := Option.some.inj hops
      have hnone : writeReth wr payload ++ (writeMultiKind wr false payload).extLast = writeReth wr payload :=
        List.append_nil _
      rw [hnone]
      exact ⟨⟨rfl, rfl, rfl, hreth.symm, htail.symm, by decide⟩, by decide, rfl⟩
  obtain ⟨hk, hsmall, honly⟩ := hkind
  apply queuesHeaded_of_len hmtu hlen hsmall hk herr
  rw [← honly]
  exact h

/-- **Every build of a SEND or RDMA WRITE that gets no error.** -/
theorem roceRcBuildPkts_headed {ops : PktOps} (hops : pktOps wr.opcode = some ops) (herr : wr'.error = 0)
    (h : roceRcBuildPkts ctx qp wr calloc = .ok (qp', wr')) : QueuesHeaded ctx qp wr ops qp' wr' := by
  unfold roceRcBuildPkts at h
  by_cases hlong : roceSendWrIsInline wr = true ∧ inlineLen wr > qp.attr.cap.maxInlineData
  · rw [if_pos hlong] at h
    obtain ⟨-, rfl⟩ := Prod.mk.inj (Except.ok.inj h)
    have hfail : (roceWcLocLenErr : UInt8) ≠ 0 := by decide
    exact absurd herr hfail
  · rw [if_neg hlong] at h
    cases hop : wr.opcode <;> simp only [hop] at h
    case sendWithImm | sendWithInv | send =>
      refine roceRcSendPkts_headed ?_ hops herr h
      exact hop
    case rdmaWrite | rdmaWriteWithImm =>
      refine roceRcWritePkts_headed ?_ hops herr h
      exact hop
    all_goals
      rw [hop] at hops
      cases hops

/-- **Segmentation.**  The packets built for a SEND or RDMA WRITE of SGEs in
memory are the segments of their bytes, with PSNs from the requester's on. -/
theorem roceRcBuildPkts_segmented {ops : PktOps} (hinline : roceSendWrIsInline wr = false)
    (hops : pktOps wr.opcode = some ops) (hin : ∀ sge ∈ wr.sge, ∃ mr, SgeIn ctx qp sge mr)
    (h : roceRcBuildPkts ctx qp wr calloc = .ok (qp', wr')) (herr : wr'.error = 0) :
    ∃ mtu pkts, roceGetMtu ctx qp = .ok mtu ∧ Segmented ctx qp.req.psn wr ops mtu.toNat pkts ∧
      qp'.req.pendingPkts = qp.req.pendingPkts ++ pkts ∧
      qp'.req.psn.toNat = (qp.req.psn.toNat + pkts.length) % psnMod := by
  obtain ⟨rfl, ⟨_, hlen⟩, mtu, pkts, hmtu, rfl, hheaded, hcarried⟩ := roceRcBuildPkts_headed hops herr h
  have hfit : wr'.len < 2 ^ 32 := by
    rw [← requestLen_ok hlen]
    exact UInt32.toNat_lt _
  have hmapped : Mapped ctx qp wr' mtu.toNat pkts := by
    rcases hcarried with ⟨hin, -⟩ | ⟨-, hmapped⟩
    · rw [hinline] at hin
      cases hin
    · exact hmapped
  refine ⟨mtu, pkts, hmtu, hmapped.segmented hheaded hinline hfit hin, rfl, ?_⟩
  have hne : pkts ≠ [] := by
    rintro rfl
    exact absurd hheaded.owners (by simp [Segment.butLast])
  obtain ⟨k, hk⟩ := Nat.exists_eq_succ_of_ne_zero (List.length_pos_iff.mpr hne).ne'
  show (psnAfter qp.req.psn pkts.length).toNat = _
  rw [← psnAfter_toNat, hk, psnAfter, roceQpPsnInc_toNat, Nat.mod_mod]

end builders

/-- A WRITE of 1500 bytes, the SGE without bytes in the middle. -/
def threeSges : SendWr :=
  { smallSend 1 .rdmaWriteWithImm with
    sendFlags := roceSendSolicited
    sge := [⟨0x10000, 600, 0⟩, ⟨0x10000, 0, 0⟩, ⟨0x10300, 900, 0⟩] }

/-- It leaves in two packets; the PSN wraps in between. -/
theorem roceRcBuildPkts_segmented_write :
    ∃ qp' wr' mtu pkts, roceRcBuildPkts (withMr smallCtx smallMr) { smallQp with req.psn := 0xffffff }
        threeSges (fun _ => true) = .ok (qp', wr') ∧
      Segmented (withMr smallCtx smallMr) 0xffffff threeSges
        ⟨ibOpcodeRdmaWriteOnlyWithImmediate, ibOpcodeRdmaWriteFirst, ibOpcodeRdmaWriteMiddle,
          ibOpcodeRdmaWriteLastWithImmediate⟩ mtu pkts ∧
            qp'.req.psn.toNat = (0xffffff + pkts.length) % psnMod := by
  have hrun : (roceRcBuildPkts (withMr smallCtx smallMr) { smallQp with req.psn := 0xffffff } threeSges
      (fun _ => true)).toOption.map (fun r => r.2.error) = some 0 := by decide +kernel
  have hin : ∀ sge ∈ threeSges.sge, ∃ mr, SgeIn (withMr smallCtx smallMr)
      { smallQp with req.psn := 0xffffff } sge mr := by
    intro sge hsge
    refine ⟨⟨0, 0, .valid, .mem, 0x10000, 4096, 0, 0, 3, 4096, [⟨0x10000, 4096⟩]⟩, ?_⟩
    have hcases : sge = ⟨0x10000, 600, 0⟩ ∨ sge = ⟨0x10000, 0, 0⟩ ∨ sge = ⟨0x10300, 900, 0⟩ := by
      simpa [threeSges] using hsge
    have hpaged : RoceMr.Paged ⟨0, 0, .valid, .mem, 0x10000, 4096, 0, 0, 3, 4096, [⟨0x10000, 4096⟩]⟩ := by
      refine ⟨rfl, ?_, by decide⟩
      intro iov hiov
      rw [List.mem_singleton.mp hiov]
      rfl
    rcases hcases with rfl | rfl | rfl
    · exact ⟨⟨rfl, rfl, rfl, rfl, rfl⟩, hpaged, by unfold InRange; decide, by decide⟩
    · exact ⟨⟨rfl, rfl, rfl, rfl, rfl⟩, hpaged, by unfold InRange; decide, by decide⟩
    · exact ⟨⟨rfl, rfl, rfl, rfl, rfl⟩, hpaged, by unfold InRange; decide, by decide⟩
  cases h : roceRcBuildPkts (withMr smallCtx smallMr) { smallQp with req.psn := 0xffffff } threeSges
      (fun _ => true) with
  | error e =>
    rw [h] at hrun
    cases hrun
  | ok r =>
    obtain ⟨qp', wr'⟩ := r
    rw [h] at hrun
    obtain ⟨mtu, pkts, -, hseg, -, hpsn⟩ :=
      roceRcBuildPkts_segmented rfl rfl hin h (Option.some.inj hrun)
    exact ⟨qp', wr', mtu.toNat, pkts, rfl, hseg, hpsn⟩

end Libroce
