import Libroce.Framing
import Libroce.Isolation
import Libroce.Ports
import Libroce.UdStatus

/-!
# What a host puts on the wire

Every packet that leaves a host, at any time of its life, is one that a receiver
can read: a request, a datagram, an acknowledgement, or a request sent again.

The ICRC is computed when a packet is built, and its payload is read from memory
each time it is sent.  So the bytes in memory may not change in between: no packet
that arrives may store to them.

    Readable pkt    every receiver that owns the destination MAC reads `pkt`
    Intact mem pkt  memory holds the payload that the ICRC was computed over
    Passes P s t    what is sent or queued was queued before, or is in `P`
    Sound           a host whose QPs and past packets are in order
    Spares h op     a packet that arrives leaves the bytes that queued ones are sent from

Main statement: `hostRun_readable`.
-/

namespace Libroce

open Machine (Along along_iff bind_eq_ok run run_inv throughout_iff throughout_of_along)
open Outcome

/-! ## Packets that can be read -/

/-- A frame is read as the packet: the fields of its BTH, its bytes, and its IP
header as the ICRC check masks it. -/
structure ReadAs (pkt : RoceNetpkt) (d : Decap) : Prop where
  opcode : ibBthGetOpcode d.bth = ibBthGetOpcode pkt.bth
  padcnt : ibBthGetPadcnt d.bth = ibBthGetPadcnt pkt.bth
  destqp : ibBthGetDestqp d.bth = ibBthGetDestqp pkt.bth
  ack : ibBthGetAck d.bth = ibBthGetAck pkt.bth
  psn : ibBthGetPsn d.bth = ibBthGetPsn pkt.bth
  ip : d.ip = maskIp pkt.ip
  body : d.iovs.flatten = pkt.ext ++ pkt.payload.flatten ++ pkt.pad
  unpadded : ∃ rest, dropPad (ibBthGetPadcnt d.bth) d.iovs = some rest ∧
    rest.flatten = pkt.ext ++ pkt.payload.flatten

/-- The virtual network header fits its buffer and the payload the largest MTU.  A
port with a header of that length and the destination MAC reads the packet,
whatever pieces its bytes come in. -/
structure Readable (pkt : RoceNetpkt) : Prop where
  vneth : pkt.vneth.length ≤ roceMaxVnetHdr.toNat
  payload : pkt.payload.flatten.length ≤ 4096
  read : ∀ (ctx : RoceCtx) (port : RocePort) (iovs : List (List UInt8)), portAt ctx 1 = .ok port →
    port.vnetHdr.toNat = pkt.vneth.length → port.mac = pkt.ethh.dmac → iovs.flatten = pkt.iovs.flatten →
    ∃ d, roceNetDecap ctx iovs = .ok (some d) ∧ ReadAs pkt d

/-- The host bytes that the packet is sent from. -/
def RoceNetpkt.sources (pkt : RoceNetpkt) : List Nat := iovAddrs pkt.mapped.reduceOption

/-- Memory holds the payload that the ICRC of the packet was computed over. -/
def RoceNetpkt.Intact (mem : Nat → UInt8) (pkt : RoceNetpkt) : Prop :=
  InMemory mem pkt.mapped pkt.payload

theorem RoceNetpkt.Intact.kept {mem mem' : Nat → UInt8} {pkt : RoceNetpkt} (h : pkt.Intact mem)
    (hkept : ∀ a ∈ pkt.sources, mem' a = mem a) : pkt.Intact mem' := by
  refine Or.imp_right (fun hp => hp.trans (List.map_congr_left fun iov hiov => ?_)) h
  cases iov with
  | none => rfl
  | some iov =>
    apply List.map_congr_left
    intro i hi
    refine (hkept _ (List.mem_flatMap.mpr ⟨iov, List.reduceOption_mem_iff.mpr hiov, ?_⟩)).symm
    rw [List.mem_range'_1]
    have hlt := List.mem_range.mp hi
    omega

/-- A packet that goes out, or may go out later. -/
structure Departing (mem : Nat → UInt8) (pkt : RoceNetpkt) : Prop where
  readable : Readable pkt
  intact : pkt.Intact mem

/-- The virtual network header and the MTU of each port are none, or ones that
`port.c` lets through. -/
def PortsFit (ports : List RocePort) : Prop :=
  ∀ port ∈ ports, port.vnetHdr ≤ roceMaxVnetHdr ∧ port.activeMtu.toNat ≤ 4096

/-- So is the path MTU of an RC QP. -/
def PathFits (qp : RoceQp) : Prop := qp.qpType = .rc → qp.attr.pathMtu.toNat ≤ 4096

theorem mtusFit {s : St} (hports : PortsFit s.ctx.ports) (hpath : PathFits s.qp) (huc : s.qp.qpType ≠ .uc) :
    MtusFit s := by
  intro mtu hmtu
  unfold roceGetMtu at hmtu
  split at hmtu
  · next hrc =>
    obtain rfl := Except.ok.inj hmtu
    exact hpath (hrc.resolve_right huc)
  · split at hmtu
    · cases hmtu
    · next port hport =>
      obtain rfl := Except.ok.inj hmtu
      exact (hports port ((portAt_ends s.ctx 1).result hport)).2

theorem roceValidMtu_le {mtu : UInt16} (h : roceValidMtu mtu = true) : mtu.toNat ≤ 4096 := by
  unfold roceValidMtu at h
  simp only [Bool.or_eq_true, beq_iff_eq] at h
  rcases h with (rfl | rfl) | rfl <;> decide

theorem mem_sentPkts {es : List Event} {pkt : RoceNetpkt} : pkt ∈ sentPkts es ↔ .netXmit pkt ∈ es := by
  unfold sentPkts
  rw [List.mem_filterMap]
  constructor
  · rintro ⟨e, he, hsent⟩
    cases e <;> first | exact Option.some.inj hsent ▸ he | cases hsent
  · exact fun h => ⟨_, h, rfl⟩

theorem Received.readAs {qpType : QpType} {opcode padcnt : UInt8} {destqp : UInt32} {se ack : Bool}
    {psn : UInt32} {pkt : RoceNetpkt} {d : Decap}
    (h : Received qpType opcode padcnt destqp ack psn pkt d) (hop : opcode < 32) (hpad : padcnt < 4)
    (hbth : pkt.bth = roceNetpktSetBth ⟨0, 0, 0, 0, 0⟩ qpType opcode se padcnt destqp ack psn) :
    ReadAs pkt d := by
  refine ⟨?_, ?_, ?_, ?_, ?_, h.ip, h.body, h.unpadded⟩
  · rw [h.opcode, hbth, ibBthGetOpcode_setBth _ _ _ _ _ _ _ _ hop]
  · rw [h.padcnt, hbth, ibBthGetPadcnt_setBth _ _ _ _ _ _ _ _ hpad]
  · rw [h.destqp, hbth, ibBthGetDestqp_setBth]
  · rw [h.ack, hbth, ibBthGetAck_setBth]
  · rw [h.psn, hbth, ibBthGetPsn_setBth]

/-- It goes behind the virtual network header of the port. -/
theorem Described.vneth {s : St} {pkt : RoceNetpkt} (h : Described s pkt) :
    ∃ port, portAt s.ctx s.qp.attr.portNum = .ok port ∧ pkt.vneth.length = port.vnetHdr.toNat := by
  obtain ⟨_, _, _, _, _, _, _, _, hp, -⟩ := h
  obtain ⟨port, pkt0, hport, hvneth, hset⟩ := hp.framed
  refine ⟨port, hport, ?_⟩
  rw [(roceNetpktSetEth_frame hset).vneth_eq, hvneth, List.length_replicate]

/-- What a builder was given within bounds is readable. -/
theorem Described.readable {s : St} {pkt : RoceNetpkt} (h : Described s pkt) (hports : PortsFit s.ctx.ports) :
    Readable pkt := by
  obtain ⟨port0, hport0, hlength⟩ := h.vneth
  obtain ⟨opcode, ext, padcnt, destqp, ack, psn, ahAttr, payload, hp, hfits⟩ := h
  obtain ⟨se, hbth⟩ := hp.bth_eq
  refine ⟨?_, ?_, ?_⟩
  · rw [hlength]
    exact UInt8.le_iff_toNat_le.mp (hports port0 ((portAt_ends s.ctx s.qp.attr.portNum).result hport0)).1
  · rw [hp.payload_eq]
    exact hfits.payload
  · intro ctx port iovs hport hvnet hmac hw
    have hvnet : port.vnetHdr = port0.vnetHdr := UInt8.toNat_inj.mp (hvnet.trans hlength)
    obtain ⟨d, hdecap, hreceived⟩ := roceNetDecap_wire hp hfits hport0 hport hvnet hmac hw
    exact ⟨d, hdecap, hreceived.readAs hfits.opcode hfits.padcnt hbth⟩

theorem acknowledgePkt_mapped {ctx : RoceCtx} {qp : RoceQp} {syndrome : Syndrome} {val : UInt8} {psn : UInt32}
    {calloc : Bool} {pkt : RoceNetpkt} (h : acknowledgePkt ctx qp syndrome val psn calloc = .ok pkt) :
    pkt.mapped = [] := by
  unfold acknowledgePkt at h
  split at h
  · cases h
  · cases h
  · next pkt0 halloc =>
    obtain ⟨-, -, -, -, -, hmapped, -⟩ := roceNetpktAlloc_some halloc
    simp only at h
    split at h
    · cases h
    · obtain ⟨-, -, -, -, -, hkept⟩ := roceNetpktSetEth_ok h
      exact hkept.trans hmapped

/-- An acknowledgement has no payload. -/
theorem acknowledgePkt_departing {s : St} {syndrome : Syndrome} {val : UInt8} {psn : UInt32} {calloc : Bool}
    {pkt : RoceNetpkt} (h : acknowledgePkt s.ctx s.qp syndrome val psn calloc = .ok pkt)
    (hports : PortsFit s.ctx.ports) (mem : Nat → UInt8) : Departing mem pkt :=
  ⟨(acknowledgePkt_addressed h).described.readable hports, Or.inl (acknowledgePkt_mapped h)⟩

/-! ## Calls -/

/-- What is sent or queued on the way from `s` to `t` was queued before, or is in
`P`; ports and path MTU stay. -/
structure Passes (P : RoceNetpkt → Prop) (s t : St) : Prop where
  ports : t.ctx.ports = s.ctx.ports
  path : t.qp.attr.pathMtu = s.qp.attr.pathMtu
  issues : Issues P s t

/-- Every acknowledgement that is built over these ports is in `P`. -/
def AcksIn (P : RoceNetpkt → Prop) (ports : List RocePort) : Prop :=
  ∀ (s : St) (syndrome : Syndrome) (val : UInt8) (psn : UInt32) (calloc : Bool) (pkt : RoceNetpkt),
    s.ctx.ports = ports → acknowledgePkt s.ctx s.qp syndrome val psn calloc = .ok pkt → P pkt

section passes

variable {P : RoceNetpkt → Prop} {s t u : St}

theorem Passes.refl (s : St) : Passes P s s := ⟨rfl, rfl, .quiet rfl rfl⟩

theorem Passes.trans (h1 : Passes P s t) (h2 : Passes P t u) : Passes P s u :=
  ⟨h2.ports.trans h1.ports, h2.path.trans h1.path, h1.issues.trans h2.issues⟩

theorem AcksIn.passes (h : AcksIn P s.ctx.ports) (hst : Passes P s t) : AcksIn P t.ctx.ports := by
  rw [hst.ports]
  exact h

theorem Acts.pathMtu {pkts : List RoceNetpkt} (h : Acts s t pkts) :
    t.qp.attr.pathMtu = s.qp.attr.pathMtu := by
  rw [h.qp]

theorem Acts.passes {pkts : List RoceNetpkt} (h : Acts s t pkts)
    (hsent : ∀ pkt ∈ pkts, pkt ∈ s.qp.req.queued ∨ P pkt)
    (hq : ∀ pkt ∈ t.qp.req.queued, pkt ∈ s.qp.req.queued ∨ P pkt) : Passes P s t := by
  obtain ⟨es, hes, hpkts⟩ := h.trace
  refine ⟨h.ports, h.pathMtu, ⟨es, hes, ?_⟩, hq⟩
  intro pkt hp
  rw [hpkts] at hp
  exact hsent pkt hp

theorem Works.passes (h : Works s t) : Passes P s t := ⟨h.acts.ports, h.acts.pathMtu, h.issues⟩

/-! ### The responder -/

theorem roceNetpktAcknowledge_passes {syndrome : Syndrome} {val : UInt8} {psn : UInt32} {calloc : Bool}
    (hP : AcksIn P s.ctx.ports) (h : roceNetpktAcknowledge s syndrome val psn calloc = .ok t) :
    Passes P s t := by
  obtain ⟨pkt, rfl, hpkt⟩ := roceNetpktAcknowledge_ok h
  refine ⟨rfl, rfl, ⟨[.netXmit pkt], rfl, ?_⟩, fun q hq => Or.inl hq⟩
  intro q hq
  obtain rfl := List.mem_singleton.mp hq
  exact Or.inr (hP s syndrome val psn calloc q rfl hpkt)

/-- A request packet; a WRITE out of its place is answered with a NAK. -/
theorem recvRequest_passes {pkt : Inbound} {ret : Int} (hP : AcksIn P s.ctx.ports)
    (h : recvRequest s pkt = .ok (ret, t)) : Passes P s t := by
  by_cases hplace : OutOfPlace s pkt
  · obtain ⟨inprocess, reth, immdt, iovs, hreq, hout⟩ := hplace
    rw [recvRequest_eq, hreq] at h
    have h' : roceRdmaWritePayload s iovs reth immdt inprocess (ibBthGetOpcode pkt.bth) pkt.calloc =
        .ok (ret, t) := h
    unfold roceRdmaWritePayload at h'
    rw [if_pos hout] at h'
    cases hack : roceNetpktAcknowledge s .nak 1 s.qp.attr.rqPsn pkt.calloc with
    | error e =>
      simp only [hack] at h'
      cases h'
    | ok u =>
      simp only [hack] at h'
      obtain ⟨-, rfl⟩ := Prod.mk.inj (Except.ok.inj h')
      exact roceNetpktAcknowledge_passes hP hack
  · exact ((recvRequest_ok h).works hplace).passes

theorem recvInSequence_passes {pkt : Inbound} {ret : Int} (hP : AcksIn P s.ctx.ports)
    (h : recvInSequence s pkt = .ok (ret, t)) : Passes P s t := by
  have hclear : Passes P s { s with qp.resp.inPsnNak := false } := ⟨rfl, rfl, .quiet rfl rfl⟩
  have hnext : ∀ v : St, Passes P v { v with qp.attr.rqPsn := roceQpPsnInc v.qp.attr.rqPsn } :=
    fun v => ⟨rfl, rfl, .quiet rfl rfl⟩
  unfold recvInSequence at h
  obtain ⟨⟨ret1, s1⟩, hreq, h⟩ := bind_eq_ok.mp h
  have h1 : Passes P s s1 := hclear.trans (recvRequest_passes (hP.passes hclear) hreq)
  dsimp only at h
  by_cases hret : ret1 ≠ 0
  · rw [if_pos hret] at h
    obtain ⟨-, rfl⟩ := Prod.mk.inj (Except.ok.inj h)
    exact h1
  · rw [if_neg hret] at h
    by_cases hasks : ibBthGetAck pkt.bth = true
    · rw [if_pos hasks] at h
      obtain ⟨s2, hack, h⟩ := bind_eq_ok.mp h
      obtain ⟨-, rfl⟩ := Prod.mk.inj (Except.ok.inj h)
      exact (h1.trans (roceNetpktAcknowledge_passes (hP.passes h1) hack)).trans (hnext s2)
    · rw [if_neg hasks] at h
      obtain ⟨-, rfl⟩ := Prod.mk.inj (Except.ok.inj h)
      exact h1.trans (hnext s1)

/-! ### The requester -/

theorem roceHandleAck_passes {psn : UInt32} (h : roceHandleAck s psn = .ok t) : Passes P s t := by
  obtain ⟨n, -, hreq, -⟩ := roceHandleAck_drops h
  refine (roceHandleAck_acts h).passes (fun pkt hp => by cases hp) ?_
  intro pkt hp
  rw [hreq] at hp
  left
  rcases List.mem_append.mp hp with hp | hp
  · exact List.mem_append_left _ (List.mem_of_mem_drop hp)
  · exact List.mem_append_right _ hp

theorem roceXmitPkts_passes (h : roceXmitPkts s = .ok t) : Passes P s t := by
  obtain ⟨moved, hmoves⟩ := roceXmitPkts_moves h
  refine hmoves.acts.passes ?_ ?_
  · intro pkt hp
    left
    refine List.mem_append_right _ ?_
    rw [hmoves.pending]
    exact List.mem_append_left _ hp
  · intro pkt hp
    left
    unfold RoceRequester.queued at hp ⊢
    rw [hmoves.pending]
    rw [hmoves.qp] at hp
    simpa using hp

theorem roceHandleAcknowledge_passes {syndrome : Syndrome} {val : UInt8} {psn msn : UInt32}
    (h : roceHandleAcknowledge s syndrome val psn msn = .ok t) : Passes P s t := by
  unfold roceHandleAcknowledge at h
  cases syndrome with
  | ack =>
    obtain ⟨u, hack, h⟩ := bind_eq_ok.mp h
    exact (roceHandleAck_passes hack).trans (roceXmitPkts_passes h)
  | nak =>
    unfold roceHandleNak at h
    obtain ⟨u, hack, h⟩ := bind_eq_ok.mp h
    -- what is outgoing goes out again
    have hagain : Passes P u (u.emit (u.qp.req.outgoingPkts.map .netXmit)) := by
      refine (Acts.emit u _).passes ?_ fun pkt hp => Or.inl hp
      intro pkt hp
      rw [sentPkts_xmits] at hp
      exact Or.inl (List.mem_append_left _ hp)
    exact ((roceHandleAck_passes hack).trans hagain).trans (roceXmitPkts_passes h)
  | rnrNak =>
    obtain rfl := Except.ok.inj h
    exact .refl s
  | reserved =>
    obtain rfl := Except.ok.inj h
    exact .refl s

/-! ### Packets that arrive -/

theorem roceOutOfSeq_passes {calloc : Bool} (hP : AcksIn P s.ctx.ports) (h : roceOutOfSeq s calloc = .ok t) :
    Passes P s t := by
  unfold roceOutOfSeq at h
  by_cases hnak : s.qp.resp.inPsnNak = true
  · rw [if_pos hnak] at h
    obtain rfl := Except.ok.inj h
    exact .refl s
  · rw [if_neg hnak] at h
    cases hack : roceNetpktAcknowledge s .nak 0 s.qp.attr.rqPsn calloc with
    | error e =>
      simp only [hack] at h
      cases h
    | ok v =>
      simp only [hack] at h
      obtain rfl := Except.ok.inj h
      exact (roceNetpktAcknowledge_passes hP hack).trans ⟨rfl, rfl, .quiet rfl rfl⟩

theorem roceRecvRc_passes {pkt : Inbound} {ret : Int} (hP : AcksIn P s.ctx.ports)
    (h : roceRecvRc s pkt = .ok (ret, t)) : Passes P s t := by
  unfold roceRecvRc at h
  split at h
  · unfold recvAcknowledge at h
    split at h
    · obtain ⟨-, rfl⟩ := Prod.mk.inj (Except.ok.inj h)
      exact .refl s
    · obtain ⟨u, hack, h⟩ := bind_eq_ok.mp h
      obtain ⟨-, rfl⟩ := Prod.mk.inj (Except.ok.inj h)
      exact roceHandleAcknowledge_passes hack
  · dsimp only at h
    split at h
    · obtain ⟨-, rfl⟩ := Prod.mk.inj (Except.ok.inj h)
      exact .refl s
    · split at h
      · obtain ⟨u, hseq, h⟩ := bind_eq_ok.mp h
        obtain ⟨-, rfl⟩ := Prod.mk.inj (Except.ok.inj h)
        exact roceOutOfSeq_passes hP hseq
      · exact recvInSequence_passes hP h

theorem roceRecvBth_emits {d : Decap} {calloc : Bool} {ret : Int} (hP : AcksIn P s.ctx.ports)
    (h : roceRecvBth s d calloc = .ok (ret, t)) :
    Issues P s t ∧ (s.qp.qpType = .rc → t.qp.attr.pathMtu = s.qp.attr.pathMtu) := by
  have hdrop : ∀ {r : Int}, (.ok (r, s) : Except Fault (Int × St)) = .ok (ret, t) →
      Issues P s t ∧ (s.qp.qpType = .rc → t.qp.attr.pathMtu = s.qp.attr.pathMtu) := by
    intro r hr
    obtain ⟨-, rfl⟩ := Prod.mk.inj (Except.ok.inj hr)
    exact ⟨.quiet rfl rfl, fun _ => rfl⟩
  unfold roceRecvBth at h
  dsimp only at h
  iterate 4
    split at h
    · exact hdrop h
  split at h
  · exact hdrop h
  cases htype : s.qp.qpType with
  | rc =>
    simp only [htype] at h
    have hpasses := roceRecvRc_passes hP h
    exact ⟨hpasses.issues, fun _ => hpasses.path⟩
  | ud =>
    simp only [htype] at h
    exact ⟨roceRecvUd_issues h, fun hrc => nomatch hrc⟩
  | gsi =>
    simp only [htype] at h
    exact ⟨roceRecvUd_issues h, fun hrc => nomatch hrc⟩
  | _ =>
    simp only [htype] at h
    cases h

end passes

/-! ## Every call -/

section calls

variable {s t : St}

theorem PortsFit.acksIn {ports : List RocePort} (h : PortsFit ports) (mem : Nat → UInt8) :
    AcksIn (Departing mem) ports := by
  intro s syndrome val psn calloc pkt hs hpkt
  refine acknowledgePkt_departing hpkt ?_ mem
  rw [hs]
  exact h

/-- Posting on an RC QP. -/
theorem rocePostSend_passes {wr : SendWr} {calloc : Nat → Bool} (hrc : s.qp.qpType = .rc)
    (hports : PortsFit s.ctx.ports) (hpath : PathFits s.qp) (h : rocePostSend s wr.fresh calloc = .ok t) :
    Passes (Departing s.ctx.mem) s t := by
  obtain ⟨v, u, qp, wr2, moved, hposted, hrefs, hqp, hmoves, rfl⟩ := postSend_ok hrc h
  have hacts := hposted.acts hrefs hqp hmoves
  have hports' : PortsFit v.ctx.ports := by
    rw [hrefs.acts.ports]
    exact hports
  have hbuilt : ∀ pkt ∈ qp.req.queued, pkt ∈ s.qp.req.queued ∨ Departing s.ctx.mem pkt := by
    cases hposted with
    | failed e he m => exact fun pkt hp => Or.inl hp
    | skipped m hs => exact fun pkt hp => Or.inl hp
    | queued m pkts ht hop hs =>
      intro pkt hp
      have hp' : pkt ∈ s.qp.req.queued ++ pkts := by
        unfold RoceRequester.queued
        rw [List.append_assoc]
        exact hp
      rcases List.mem_append.mp hp' with hp | hp
      · exact Or.inl hp
      · obtain ⟨opcode, -, ha⟩ := hs.addressed_of_fit (s := ⟨v.ctx, s.qp⟩)
          (mtusFit hports' hpath (by rw [hrc]; decide)) pkt hp
        obtain ⟨_, _, _, _, _, _, _, hreq⟩ := hs.isRequest pkt hp
        have hintact := hreq.inMemory
        rw [hrefs.mem] at hintact
        exact Or.inr ⟨ha.described.readable hports', hintact⟩
  -- what left the pending queue is outgoing now
  have hqueued : u.qp.req.queued = qp.req.queued := by
    unfold RoceRequester.queued
    rw [hmoves.qp]
    show (v.qp.req.outgoingPkts ++ moved) ++ u.qp.req.pendingPkts = _
    rw [List.append_assoc, ← hmoves.pending, hqp]
  refine hacts.passes (fun pkt hp => hbuilt pkt ?_) fun pkt hp => hbuilt pkt ?_
  · rw [← hqueued, hmoves.qp]
    exact List.mem_append_left _ (List.mem_append_right _ hp)
  · rw [← hqueued]
    exact hp

/-- Posting a datagram. -/
theorem rocePostSend_emits {wr : SendWr} {calloc : Nat → Bool} (hud : s.qp.qpType = .ud ∨ s.qp.qpType = .gsi)
    (hports : PortsFit s.ctx.ports) (hpath : PathFits s.qp) (h : rocePostSend s wr.fresh calloc = .ok t) :
    Issues (Departing s.ctx.mem) s t := by
  have huc : s.qp.qpType ≠ .uc := by
    rcases hud with hud | hud <;> rw [hud] <;> decide
  obtain ⟨s1, wr1, hget, hsend⟩ := rocePostSend_udRequest hud h
  have hqp := postGetMrs_qp hget
  obtain ⟨hrefs, -⟩ := postGetMrs_ok hget
  obtain ⟨ctx1, qp1⟩ := s1
  obtain rfl : qp1 = s.qp := hqp
  have hports1 : PortsFit ctx1.ports := by
    rw [hrefs.acts.ports]
    exact hports
  have hsends := roceRequestUd_sends hsend
  obtain ⟨es, hes, hbuilt⟩ := hsends.trace
  constructor
  · refine ⟨es, by rw [hes, hrefs.trace], fun pkt hp => Or.inr ?_⟩
    cases hbuilt pkt (mem_sentPkts.mp hp) with
    | mk hmtu hlen hle hah hpkt =>
      have hmtu' := mtusFit (s := ⟨ctx1, s.qp⟩) hports1 hpath huc _ hmtu
      obtain ⟨-, -, -, -, hintact, -⟩ := udPkt_ok hpkt
      have hmem : ctx1.mem = s.ctx.mem := hrefs.mem
      rw [← hmem]
      exact ⟨(udPkt_described hlen hle hmtu' hpkt).readable hports1, hintact⟩
  · intro pkt hp
    rw [hsends.req] at hp
    exact Or.inl hp

theorem mtuRefused_valid {ctx : RoceCtx} {attr : RoceQpAttr} (h : mtuRefused ctx attr = false) :
    roceValidMtu attr.pathMtu = true := by
  unfold mtuRefused at h
  split at h
  · next hvalid => exact hvalid
  · cases h

/-- **Every call on a QP.**  What it issues is readable, and the path MTU stays within bounds. -/
theorem qpStep_departing {call : QpCall} (hports : PortsFit s.ctx.ports) (hpath : PathFits s.qp)
    (h : qpStep s call = .ok t) : Issues (Departing t.ctx.mem) s t ∧ PathFits t.qp := by
  have htype : t.qp.qpType = s.qp.qpType := by
    have hroute := congrArg (·.1) ((qpStep_ends s call).result h).2
    cases call <;> exact hroute
  have hkeep : (s.qp.qpType = .rc → t.qp.attr.pathMtu = s.qp.attr.pathMtu) → PathFits t.qp := by
    intro hsame hrc
    rw [htype] at hrc
    rw [hsame hrc]
    exact hpath hrc
  cases call with
  | modify attr attrMask =>
    obtain ⟨⟨ret, qp⟩, hmod, h⟩ := bind_eq_ok.mp h
    obtain rfl := Except.ok.inj h
    obtain rfl := roceModifyQp_stored hmod
    refine ⟨.quiet rfl rfl, fun hrc => ?_⟩
    show (if roceQpPathMtu ∈ storedBits s.ctx s.qp attr attrMask then attr.pathMtu
      else s.qp.attr.pathMtu).toNat ≤ 4096
    by_cases hbit : roceQpPathMtu ∈ storedBits s.ctx s.qp attr attrMask
    · rw [if_pos hbit]
      exact roceValidMtu_le (mtuRefused_valid (storedBits_not_refused hbit))
    · rw [if_neg hbit]
      exact hpath hrc
  | postRecv p wrId sge =>
    obtain ⟨⟨ret, u⟩, hpost, h⟩ := bind_eq_ok.mp h
    obtain rfl := Except.ok.inj h
    have hworks := rocePostRecv_works hpost
    exact ⟨hworks.issues, hkeep fun _ => hworks.acts.pathMtu⟩
  | postSend wr calloc =>
    have h' : rocePostSend s wr.fresh calloc = .ok t := h
    rw [rocePostSend_mem h']
    by_cases hrc : s.qp.qpType = .rc
    · have hpasses := rocePostSend_passes hrc hports hpath h'
      exact ⟨hpasses.issues, hkeep fun _ => hpasses.path⟩
    · refine ⟨rocePostSend_emits ?_ hports hpath h', hkeep fun hrc' => absurd hrc' hrc⟩
      unfold rocePostSend at h'
      obtain ⟨⟨s1, wr1⟩, hget, h'⟩ := bind_eq_ok.mp h'
      have hqp := postGetMrs_qp hget
      dsimp only at h' hqp
      rw [hqp] at h'
      cases hqt : s.qp.qpType with
      | rc => exact absurd hqt hrc
      | ud => exact Or.inl rfl
      | gsi => exact Or.inr rfl
      | _ =>
        rw [hqt] at h'
        cases h'
  | recv d calloc =>
    obtain ⟨⟨ret, u⟩, hrecv, h⟩ := bind_eq_ok.mp h
    obtain rfl := Except.ok.inj h
    obtain ⟨hissues, hsame⟩ := roceRecvBth_emits (hports.acksIn _) hrecv
    exact ⟨hissues, hkeep hsame⟩

end calls

/-! ## New QPs -/

section create

variable {P : QpObj → Prop} {d d' : Device} {a : QpArgs} {rcq calloc : Bool} {random0 random1 : UInt32}
  {ret : Int}

theorem Device.EachQp.putResource (h : d.EachQp P) (hput : d.putResource a rcq = .ok (ret, d')) :
    d'.EachQp P := by
  obtain ⟨-, ctx, cqs, -, rfl⟩ := Device.putResource_same hput
  exact h.congr ⟨rfl, rfl, rfl⟩

theorem Device.EachQp.createQpObj (h : d.EachQp P)
    (hnew : ∀ port ∈ d.ctx.ports, ∀ rcq r0 r1 qpn, P (a.newQp port rcq r0 r1 qpn))
    (hc : d.createQpObj a rcq calloc random0 random1 = .ok (ret, d')) : d'.EachQp P := by
  unfold Device.createQpObj at hc
  obtain ⟨port, hport, hc⟩ := bind_eq_ok.mp hc
  have hmem : port ∈ d.ctx.ports := (portAt_ends d.ctx 1).result hport
  split at hc
  · split at hc
    · cases hc
    · split at hc
      · exact h.putResource hc
      · obtain ⟨⟨⟩, -, hc⟩ := bind_eq_ok.mp hc
        obtain ⟨-, rfl⟩ := Prod.mk.inj (Except.ok.inj hc)
        refine ⟨h.heap, h.smi, fun g o hg hused => ?_⟩
        obtain rfl := Option.some.inj hg
        obtain rfl := Option.some.inj hused
        exact hnew port hmem _ _ _ _
  · split at hc
    · split at hc
      · exact h.putResource hc
      · next halloc =>
        obtain ⟨-, rfl⟩ := Prod.mk.inj (Except.ok.inj hc)
        obtain ⟨-, rfl⟩ := roceResourceAlloc_ok halloc
        refine h.set fun o ho => ?_
        obtain rfl := QpPtr.heap.inj (Option.some.inj ho)
        exact hnew port hmem _ _ _ _
    · exact h.putResource hc

/-- A new QP takes its path MTU from a port of the device. -/
theorem Device.EachQp.createQp_onPort (h : d.EachQp P)
    (hnew : ∀ port ∈ d.ctx.ports, ∀ rcq r0 r1 qpn, P (a.newQp port rcq r0 r1 qpn))
    (hc : d.createQp a calloc random0 random1 = .ok (ret, d')) : d'.EachQp P := by
  have hrefused : ∀ {r : Int}, (.ok (r, d) : Except Fault (Int × Device)) = .ok (ret, d') → d'.EachQp P := by
    intro r hr
    obtain ⟨-, rfl⟩ := Prod.mk.inj (Except.ok.inj hr)
    exact h
  unfold Device.createQp at hc
  split at hc
  · exact hrefused hc
  split at hc
  · exact hrefused hc
  split at hc
  · exact hrefused hc
  next ctx hpd =>
  have hnew' : ∀ port ∈ ctx.ports, ∀ rcq r0 r1 qpn, P (a.newQp port rcq r0 r1 qpn) := by
    rw [(roceGetPd_tables hpd).ports]
    exact hnew
  have hheld : ∀ cqs, Device.EachQp P { d with ctx := ctx, cqs := cqs } := fun cqs => h.congr ⟨rfl, rfl, rfl⟩
  split at hc
  · obtain ⟨ctx', -, hc⟩ := bind_eq_ok.mp hc
    obtain ⟨-, rfl⟩ := Prod.mk.inj (Except.ok.inj hc)
    exact h.congr ⟨rfl, rfl, rfl⟩
  next cqs hscq =>
  split at hc
  · exact (hheld cqs).createQpObj hnew' hc
  · next cqs' hrcq => exact (hheld cqs').createQpObj hnew' hc

end create

/-! ## The life of a host -/

/-- A host in order: what it sent is readable, and so is what its QPs queue. -/
structure Host.Sound (h : Host) : Prop where
  configured : h.Configured
  qps : h.dev.EachQp fun o => PathFits o.qp ∧ ∀ pkt ∈ o.qp.req.queued, Departing h.dev.ctx.mem pkt
  sent : ∀ pkt ∈ sentPkts h.dev.ctx.trace, Readable pkt

/-- A packet that arrives leaves the host bytes that the queued packets are sent from. -/
def Device.Spares (d : Device) (op : DevOp) : Prop :=
  (d.delivers op).isSome → ∀ d', devStep d op = .ok d' →
    d.EachQp fun o => ∀ pkt ∈ o.qp.req.queued, ∀ a ∈ pkt.sources, d'.ctx.mem a = d.ctx.mem a

def Host.Spares (h : Host) : HostOp → Prop
  | .port _ => True
  | .dev op => h.dev.Spares op

/-- The packets of a step are sent when memory holds them. -/
def SendsIntact (h h' : Host) : Prop :=
  ∃ es, h'.dev.ctx.trace = h.dev.ctx.trace ++ es ∧ ∀ pkt ∈ sentPkts es, Departing h'.dev.ctx.mem pkt

section life

variable {h h' : Host}

/-- So does any other step: it changes no memory. -/
theorem Device.Spares.leaves {d d' : Device} {op : DevOp} (h : d.Spares op) (hs : devStep d op = .ok d') :
    d.EachQp fun o => ∀ pkt ∈ o.qp.req.queued, ∀ a ∈ pkt.sources, d'.ctx.mem a = d.ctx.mem a := by
  by_cases hdelivers : (d.delivers op).isSome = true
  · exact h hdelivers d' hs
  · have hmem : ∀ a, d'.ctx.mem a = d.ctx.mem a := by
      intro a
      by_contra hne
      obtain ⟨o, pkt, hsome, -⟩ := devStep_confined hs hne
      rw [hsome] at hdelivers
      exact hdelivers rfl
    exact ⟨fun _ _ _ _ _ a _ => hmem a, fun _ _ _ _ _ _ a _ => hmem a, fun _ _ _ _ _ _ a _ => hmem a⟩

theorem Host.Configured.portsFit (hc : h.Configured) : PortsFit h.dev.ctx.ports := by
  obtain ⟨port, attr, hports, -, hp⟩ := hc
  rw [hports]
  intro q hq
  obtain rfl := List.mem_singleton.mp hq
  refine ⟨hp.vnetHdr, ?_⟩
  rw [hp.activeMtu]
  rcases hp.accepted with rfl | hacc
  · decide
  · exact roceValidMtu_le hacc.activeMtu

/-- What is queued can still be sent when the step is over. -/
theorem Host.Sound.spared {attrs : List RocePortAttr} {d d' : Device} {op : DevOp}
    (hh : Host.Sound ⟨d, attrs⟩)
    (hspares : d.Spares op) (hs : devStep d op = .ok d') :
    d.EachQp fun o => PathFits o.qp ∧ ∀ pkt ∈ o.qp.req.queued, Departing d'.ctx.mem pkt := by
  refine (hh.qps.and (hspares.leaves hs)).mono ?_
  rintro o ⟨⟨hpath, hqueued⟩, hkept⟩
  refine ⟨hpath, fun pkt hp => ?_⟩
  have hsend := hqueued pkt hp
  exact ⟨hsend.readable, hsend.intact.kept (hkept pkt hp)⟩

theorem devStep_sends {attrs : List RocePortAttr} {d d' : Device} {op : DevOp} (hh : Host.Sound ⟨d, attrs⟩)
    (hspares : d.Spares op) (hs : devStep d op = .ok d') : SendsIntact ⟨d, attrs⟩ ⟨d', attrs⟩ := by
  rcases devStep_aside hs with haside | ⟨o, call, s, hperf, hstep, hctx⟩
  · obtain ⟨es, hes, hnone⟩ := haside.trace
    refine ⟨es, hes, fun pkt hp => ?_⟩
    rw [hnone] at hp
    cases hp
  · obtain ⟨i, hget⟩ := hperf.getQp
    obtain ⟨-, hqueued⟩ := (hh.spared hspares hs).getQp hget
    obtain ⟨hpath, -⟩ := hh.qps.getQp hget
    obtain ⟨es, hes, hsent⟩ := (qpStep_departing hh.configured.portsFit hpath hstep).1.trace
    refine ⟨es, (congrArg RoceCtx.trace hctx).trans hes, fun pkt hp => ?_⟩
    rcases hsent pkt hp with hold | hnew
    · exact hqueued pkt hold
    · have hmem : d'.ctx.mem = s.ctx.mem := congrArg RoceCtx.mem hctx
      show Departing d'.ctx.mem pkt
      rw [hmem]
      exact hnew

theorem SendsIntact.readable (hsends : SendsIntact h h')
    (hbefore : ∀ pkt ∈ sentPkts h.dev.ctx.trace, Readable pkt) :
    ∀ pkt ∈ sentPkts h'.dev.ctx.trace, Readable pkt := by
  obtain ⟨es, hes, hnew⟩ := hsends
  intro pkt hp
  rw [hes, sentPkts_append, List.mem_append] at hp
  rcases hp with hp | hp
  · exact hbefore pkt hp
  · exact (hnew pkt hp).readable

theorem devStep_sound {attrs : List RocePortAttr} {d d' : Device} {op : DevOp} (hh : Host.Sound ⟨d, attrs⟩)
    (hspares : d.Spares op) (hc : Host.Configured ⟨d', attrs⟩) (hs : devStep d op = .ok d') :
    Host.Sound ⟨d', attrs⟩ := by
  have hports : PortsFit d.ctx.ports := hh.configured.portsFit
  have hqps := hh.spared hspares hs
  have hcall : ∀ {call : QpCall} {i : Nat}, d.onQp i call = .ok d' → ∀ (o : QpObj) (s : St),
      d.getQp i = some o → qpStep ⟨d.ctx, o.qp⟩ call = .ok s →
        PathFits s.qp ∧ ∀ pkt ∈ s.qp.req.queued, Departing d'.ctx.mem pkt := by
    intro call i hc o s hget hstep
    obtain ⟨o', s', hget', hstep', hctx⟩ := Device.onQp_ctx hc
    obtain rfl := Option.some.inj (hget.symm.trans hget')
    obtain rfl := Except.ok.inj (hstep.symm.trans hstep')
    obtain ⟨hpath, hqueued⟩ := hqps.getQp hget
    obtain ⟨hissues, hpath'⟩ := qpStep_departing hports hpath hstep
    rw [hctx] at hqueued ⊢
    exact ⟨hpath', fun pkt hp => (hissues.queued pkt hp).elim (hqueued pkt) id⟩
  refine ⟨hc, ?_, (devStep_sends hh hspares hs).readable hh.sent⟩
  cases devStep_qps hs with
  | same hsame => exact hqps.congr hsame
  | createQp hc =>
    refine hqps.createQp_onPort ?_ hc
    intro port hport rcq r0 r1 qpn
    exact ⟨fun _ => (hports port hport).2, fun pkt hp => by cases hp⟩
  | destroyQp hd => exact hqps.destroyQp hd
  | onQp hc => exact hqps.onQp (hcall hc) hc
  | netRecv hdecap h0 hc => exact hqps.onQp (hcall hc) hc

theorem portStep_sound {op : PortOp} (hh : h.Sound) (hs : portStep h op = .ok h') :
    h'.Sound ∧ SendsIntact h h' := by
  obtain ⟨hc, honly⟩ := portStep_setsUp hh.configured hs
  refine ⟨⟨hc, ?_, ?_⟩, [], by rw [honly.trace, List.append_nil], fun pkt hp => by cases hp⟩
  · rw [honly.mem]
    exact hh.qps.congr honly.sameTable
  · rw [honly.trace]
    exact hh.sent

/-- **One step.**  Whatever is called and whatever arrives, the host stays in order. -/
theorem hostStep_sound {op : HostOp} (hh : h.Sound) (hspares : h.Spares op) (hs : hostStep h op = .ok h') :
    h'.Sound ∧ SendsIntact h h' := by
  have hc := hostStep_configured hh.configured hs
  cases op with
  | port op => exact portStep_sound hh hs
  | dev op =>
    obtain ⟨d, hd, hs⟩ := bind_eq_ok.mp hs
    obtain rfl := Except.ok.inj hs
    exact ⟨devStep_sound hh hspares hc hd, devStep_sends hh hspares hd⟩

/-- A context that was just made. -/
theorem roceNewCtx_sound {para : RoceCtxPara} {mem : Nat → UInt8} {calloc : Bool} {ctx : RoceCtx}
    (hctx : roceNewCtx para mem calloc = some ctx) : (Host.fresh ctx).Sound := by
  obtain ⟨hc, htrace⟩ := roceNewCtx_configured hctx
  refine ⟨hc, ?_, ?_⟩
  · constructor
    · intro i o hget
      have hnone : roceResourceGet (Host.fresh ctx).dev.qps i = none := rfl
      rw [hnone] at hget
      cases hget
    · intro g o hg
      cases hg
    · intro g o hg
      cases hg
  · show ∀ pkt ∈ sentPkts ctx.trace, _
    rw [htrace]
    intro pkt hp
    cases hp

/-- The device is made on a port that may be configured already. -/
theorem roceInitDevice_sound {para : RoceDevicePara} {calloc callocQp : Nat → Bool} {d : Device}
    (hh : h.Sound) (hinit : roceInitDevice h.dev.ctx para calloc callocQp = .ok d) :
    Host.Sound ⟨d, h.attrs⟩ := by
  have hfresh := roceInitDevice_fresh hinit
  obtain ⟨rfl, -⟩ := roceInitDevice_ok hinit
  have hctx := Device.allocSpecialQps_ctx (para.device h.dev.ctx) callocQp
  have hports : ((para.device h.dev.ctx).allocSpecialQps callocQp).ctx.ports = h.dev.ctx.ports := by
    rw [hctx]
    rfl
  have htrace : ((para.device h.dev.ctx).allocSpecialQps callocQp).ctx.trace = h.dev.ctx.trace := by
    rw [hctx]
    rfl
  obtain ⟨port, attr, hh1⟩ := hh.configured
  refine ⟨⟨port, attr, hports.trans hh1.ports, hh1.attrs, hh1.holds⟩, hfresh.eachQp, ?_⟩
  show ∀ pkt ∈ sentPkts ((para.device h.dev.ctx).allocSpecialQps callocQp).ctx.trace, _
  rw [htrace]
  exact hh.sent

end life

/-- **What a host puts on the wire.**  The port may be set up before the device is
made, and again while it is in use.  As long as no packet that arrives stores to the
bytes of a queued one, what goes out is what the ICRC covers. -/
theorem hostRun_readable {para : RoceCtxPara} {mem : Nat → UInt8} {calloc : Bool} {ctx : RoceCtx}
    (hctx : roceNewCtx para mem calloc = some ctx) {setup : List PortOp} {h0 : Host}
    (hsetup : run portStep (Host.fresh ctx) setup = .ok h0) {dpara : RoceDevicePara}
    {callocs callocQp : Nat → Bool} {d : Device}
    (hinit : roceInitDevice h0.dev.ctx dpara callocs callocQp = .ok d) {ops : List HostOp} {h : Host}
    (hspares : Along hostStep Host.Spares ⟨d, h0.attrs⟩ ops) (hrun : run hostStep ⟨d, h0.attrs⟩ ops = .ok h) :
    h.Configured ∧ (∀ pkt ∈ sentPkts h.dev.ctx.trace, Readable pkt) ∧
      ∀ before op after u v, ops = before ++ op :: after → run hostStep ⟨d, h0.attrs⟩ before = .ok u →
        hostStep u op = .ok v → SendsIntact u v := by
  have hstart : h0.Sound :=
    run_inv (fun _ _ _ hh hs => (portStep_sound hh hs).1) (roceNewCtx_sound hctx) hsetup
  have hsound := throughout_of_along (fun _ _ _ hh hG hs => (hostStep_sound hh hG hs).1)
    (roceInitDevice_sound hstart hinit) hspares
  have hend := throughout_iff.mp hsound ops [] h (List.append_nil _).symm hrun
  refine ⟨hend.configured, hend.sent, fun before op after u v hops hu hv => ?_⟩
  have hnow := throughout_iff.mp hsound before (op :: after) u hops hu
  exact (hostStep_sound hnow (along_iff.mp hspares before op after u hops hu) hv).2

/-- A host that leaves memory and locks to the library. -/
def hostPara : RoceCtxPara where
  version := .v2
  pageSize := 4096
  netXmit := true
  cqComp := true
  dmaMap := some fun addr _ => addr.toNat
  dmaUnmap := true
  malloc := false
  free := false
  calloc := false
  realloc := false
  lockSize := false
  spinInit := false
  spinLock := false
  spinTrylock := false
  spinUnlock := false

def hostSetup : List PortOp :=
  [.initPort 1 { unsetPortAttr with maxMtu := 4096, activeMtu := 1024 }, .setPortMac 1 (Vector.replicate 6 2),
    .setPortVnet 1 4]

/-- A SEND of two bytes of the MR goes out, and another comes in and is stored
before it. -/
def hostOps : List HostOp :=
  (receiverOps ++ [.onQp 2 (.postSend { smallSend 1 .send with
      sendFlags := roceSendSignaled, sge := [⟨0x10800, 2, 0⟩] } fun _ => true),
    postRecvOp, .onQp 2 (.recv sendFirst true)]).map .dev

/-- A NAK for it. -/
def hostNak : HostOp :=
  .dev (.onQp 2 (.recv ⟨⟨ibOpcodeAcknowledge, 0, rocePkey, 2, 0⟩, .ip4 ⟨0x45, 0, 0, 0, 0, 64, 17, 0, 0, 0⟩,
    [ibAethCodec.enc (ibAethSet Syndrome.nak.code 0 0)]⟩ true))

instance (d : Device) (op : DevOp) : Decidable (d.Spares op) :=
  inferInstanceAs (Decidable (_ → ∀ d', devStep d op = .ok d' → _))

instance (h : Host) : (op : HostOp) → Decidable (h.Spares op)
  | .port _ => .isTrue trivial
  | .dev op => inferInstanceAs (Decidable (h.dev.Spares op))

/-- It goes out twice, behind four bytes of a virtual network header. -/
theorem hostRun_readable_send :
    ∃ ctx h0 d u h, roceNewCtx hostPara UInt8.ofNat true = some ctx ∧
      run portStep (Host.fresh ctx) hostSetup = .ok h0 ∧
      roceInitDevice h0.dev.ctx smallPara (fun _ => true) (fun _ => true) = .ok d ∧
      run hostStep ⟨d, h0.attrs⟩ hostOps = .ok u ∧ hostStep u hostNak = .ok h ∧
      SendsIntact u h ∧ (∀ pkt ∈ sentPkts h.dev.ctx.trace, Readable pkt) ∧ h.dev.ctx.mem 0x10001 = 2 ∧
      (sentPkts h.dev.ctx.trace).map (fun pkt => (pkt.vneth.length, pkt.payload.flatten)) =
        [(4, [0, 1]), (4, [0, 1])] := by
  obtain ⟨ctx, hctx, h0, hsetup, d, hinit, hspares, h, hrun, hstored, hsent⟩ :
      ∃ ctx ∈ roceNewCtx hostPara UInt8.ofNat true,
      ∃ h0, run portStep (Host.fresh ctx) hostSetup = .ok h0 ∧
      ∃ d, roceInitDevice h0.dev.ctx smallPara (fun _ => true) (fun _ => true) = .ok d ∧
      Along hostStep Host.Spares ⟨d, h0.attrs⟩ (hostOps ++ [hostNak]) ∧
      ∃ h, run hostStep ⟨d, h0.attrs⟩ (hostOps ++ [hostNak]) = .ok h ∧ h.dev.ctx.mem 0x10001 = 2 ∧
      (sentPkts h.dev.ctx.trace).map (fun pkt => (pkt.vneth.length, pkt.payload.flatten)) =
        [(4, [0, 1]), (4, [0, 1])] := by decide +kernel
  obtain ⟨u, hu, hlast⟩ := Machine.run_append_eq_ok hostStep hrun
  obtain ⟨h', hnak, hdone⟩ := Machine.run_cons_eq_ok hostStep hlast
  obtain rfl := Except.ok.inj hdone
  obtain ⟨-, hread, hsends⟩ := hostRun_readable hctx hsetup hinit hspares hrun
  exact ⟨ctx, h0, d, u, h', hctx, hsetup, hinit, hu, hnak, hsends _ _ [] _ _ rfl hu hnak, hread,
    hstored, hsent⟩

end Libroce
