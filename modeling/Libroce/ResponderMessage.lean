import Libroce.Landing
import Libroce.ResponderUnion
import Mathlib.Logic.Function.Iterate

/-!
# Messages

A SEND or RDMA WRITE message is one ONLY packet or FIRST, MIDDLE.., LAST.
`Message.Packets` says which packets carry a message; `Mappable` what a receive
WR must offer for the responder to place them.

    a SEND packet that fits is placed at the cursor       (recvPayloadWr_eq)
    a packet done is acknowledged and counted             (roceRecvRc_done)
-/

namespace Libroce

open Machine (bind_eq_ok)

/-! ## What stays while requests come in -/

/-- The parts of a state that receiving leaves, and the MRs a mapping needs. -/
structure Env (s t : St) : Prop where
  qp : t.qp = { s.qp with attr.rqPsn := t.qp.attr.rqPsn, rq := t.qp.rq, resp := t.qp.resp }
  ctx : t.ctx = { s.ctx with
    pds := t.ctx.pds, mrs := t.ctx.mrs, mem := t.ctx.mem, recvWrs := t.ctx.recvWrs
    trace := t.ctx.trace }
  mrs : MrsKept s.ctx t.ctx
  pds : PdsLive s.ctx → PdsLive t.ctx

theorem Env.refl (s : St) : Env s s := ⟨rfl, rfl, .refl s.ctx, id⟩

theorem Env.trans {s t u : St} (h1 : Env s t) (h2 : Env t u) : Env s u := by
  refine ⟨?_, ?_, h1.mrs.trans h2.mrs, fun h => h2.pds (h1.pds h)⟩
  · rw [h2.qp, h1.qp]
  · rw [h2.ctx, h1.ctx]

theorem Env.place (s : St) (dsts : List Iovec) (bytes : List UInt8) (dmamap : Bool) :
    Env s (s.place dsts bytes dmamap) := ⟨rfl, rfl, mrsKept_of_eq rfl, id⟩

theorem Env.setRecvWr (s : St) (p : UInt64) (wr : RecvWr) : Env s (s.setRecvWr p wr) :=
  ⟨rfl, rfl, mrsKept_of_eq rfl, id⟩

theorem Env.nak (s : St) (nak : Bool) : Env s { s with qp.resp.inPsnNak := nak } :=
  ⟨rfl, rfl, mrsKept_of_eq rfl, id⟩

/-- A mapping that places payload goes on doing so. -/
theorem Env.places {s t : St} (h : Env s t) {sges : List RoceSge} {isLocal : Bool} {access : UInt32}
    {dsts : List Iovec} {dmamap : Bool} (hp : Places s.ctx s.qp sges isLocal access dsts dmamap) :
    Places t.ctx t.qp sges isLocal access dsts dmamap := by
  have hdma : t.ctx.dmaMap = s.ctx.dmaMap := by rw [h.ctx]
  have hpage : t.ctx.pageSize = s.ctx.pageSize := by rw [h.ctx]
  have hpd : t.qp.pd = s.qp.pd := by rw [h.qp]
  have htype : t.qp.qpType = s.qp.qpType := by rw [h.qp]
  refine ⟨h.mrs.roceMrMapSge hdma hpd htype hp.map rfl, ?_, hp.fits⟩
  rw [hpage, hp.pages]

theorem Env.placeable {s t : St} (h : Env s t) {sges : List RoceSge} {isLocal : Bool} {access : UInt32}
    (hp : Placeable s.ctx s.qp isLocal access sges) : Placeable t.ctx t.qp isLocal access sges := by
  obtain ⟨dsts, dmamap, hp⟩ := hp
  exact ⟨dsts, dmamap, h.places hp⟩

theorem Env.opens {s t : St} (h : Env s t) {sges : List RoceSge} {isLocal : Bool} {access : UInt32}
    (hopen : Opens s.ctx s.qp isLocal access sges) : Opens t.ctx t.qp isLocal access sges :=
  hopen.kept h.mrs (by rw [h.qp]) (by rw [h.qp])

theorem Env.sgesLand {s t : St} (h : Env s t) {sges : List RoceSge} {isLocal : Bool} {access : UInt32}
    (hopen : Opens s.ctx s.qp isLocal access sges) : SgesLand t.ctx sges ↔ SgesLand s.ctx sges :=
  hopen.lands_kept h.mrs (by rw [h.ctx])

theorem Env.pageSize {s t : St} (h : Env s t) : t.ctx.pageSize = s.ctx.pageSize := by rw [h.ctx]

/-- Every cut of the SGEs for one packet can be written, to iovecs that hold all of it. -/
def Mappable (ctx : RoceCtx) (qp : RoceQp) (sges : List RoceSge) : Prop :=
  ∀ bytes idx off dst idx' off', bytes ≤ 4096 →
    roceSgeAdvance sges bytes idx off = .ok (dst, idx', off') → ∃ dsts dmamap,
      Places ctx qp dst true roceAccessLocalWrite dsts dmamap ∧
        iovTotal (dsts.map some) = sgeTotal dst

theorem Env.mappable {s t : St} (h : Env s t) {sges : List RoceSge}
    (hm : Mappable s.ctx s.qp sges) : Mappable t.ctx t.qp sges := by
  intro bytes idx off dst idx' off' hle hcut
  obtain ⟨dsts, dmamap, hp, htotal⟩ := hm bytes idx off dst idx' off' hle hcut
  exact ⟨dsts, dmamap, h.places hp, htotal⟩

/-! ## A receive WR being filled -/

/-- `n` bytes have been received into the WR. -/
structure RecvWr.At (wr : RecvWr) (n : Nat) : Prop where
  byteLen : wr.byteLen.toNat = n
  rest : sgeRest wr.sge wr.sgeIdx wr.sgeOff = sgeTotal wr.sge - n
  inside : n < sgeTotal wr.sge ∨ n = 0 → CursorIn wr.sge wr.sgeIdx wr.sgeOff
  short : sgeTotal wr.sge < 2 ^ 32

/-- A WR as it was posted. -/
theorem RecvWr.at_fresh (wrId : UInt64) {sge : List RoceSge} (hne : sge ≠ [])
    (hshort : sgeTotal sge < 2 ^ 32) : (RecvWr.fresh wrId sge).At 0 := by
  refine ⟨rfl, sgeRest_zero sge, fun _ => ?_, hshort⟩
  cases sge with
  | nil => exact absurd rfl hne
  | cons g rest => exact ⟨g, rest, rfl, Nat.zero_le _⟩

/-- A payload that fits is placed at the cursor. -/
theorem recvPayloadWr_eq {s : St} {p : UInt64} {wr : RecvWr} {n : Nat} {iovs : List (List UInt8)}
    (immdt : Option UInt32) (opcode : UInt8) (hat : wr.At n)
    (hfit : n + iovs.flatten.length ≤ sgeTotal wr.sge) (hne : iovs.flatten ≠ [] ∨ n = 0)
    (hland : ∀ dst cursor, roceSgeAdvance wr.sge iovs.flatten.length wr.sgeIdx wr.sgeOff =
      .ok (dst, cursor) → Placeable s.ctx s.qp true roceAccessLocalWrite dst) :
    ∃ dst idx off dsts dmamap,
      roceSgeAdvance wr.sge iovs.flatten.length wr.sgeIdx wr.sgeOff = .ok (dst, idx, off) ∧
      RecvWr.At { wr with
        sgeIdx := idx, sgeOff := off, byteLen := wr.byteLen + roceIovLen iovs }
        (n + iovs.flatten.length) ∧
      recvPayloadWr s iovs immdt opcode p wr =
        recvFinish ((s.place dsts iovs.flatten dmamap).setRecvWr p
          { wr with sgeIdx := idx, sgeOff := off }) p { wr with sgeIdx := idx, sgeOff := off }
          (roceIovLen iovs) immdt opcode := by
  have hshort := hat.short
  have hlen : (roceIovLen iovs).toNat = iovs.flatten.length := by
    rw [roceIovLen_toNat, Nat.mod_eq_of_lt (by omega)]
  have hcur : CursorIn wr.sge wr.sgeIdx wr.sgeOff := by
    apply hat.inside
    rcases hne with hne | hzero
    · have hpos := List.length_pos_iff.mpr hne
      omega
    · exact Or.inr hzero
  have hrest := hat.rest
  have hroom : iovs.flatten.length ≤ sgeRest wr.sge wr.sgeIdx wr.sgeOff := by omega
  obtain ⟨dst, idx, off, hcut, htotal, hrest', hcur'⟩ := roceSgeAdvance_spec hcur hroom
  obtain ⟨dsts, dmamap, hp⟩ := hland dst (idx, off) hcut
  refine ⟨dst, idx, off, dsts, dmamap, hcut, ⟨?_, ?_, ?_, hshort⟩, ?_⟩
  · show (wr.byteLen + roceIovLen iovs).toNat = _
    rw [UInt32.toNat_add, hat.byteLen, hlen, Nat.mod_eq_of_lt (by omega)]
  · show sgeRest wr.sge idx off = sgeTotal wr.sge - (n + iovs.flatten.length)
    omega
  · intro hin
    show CursorIn wr.sge idx off
    by_cases hzero : iovs.flatten.length = 0
    · rw [hzero, roceSgeAdvance_zero hcur] at hcut
      obtain ⟨rfl, rfl⟩ := Prod.mk.inj (Prod.mk.inj (Except.ok.inj hcut)).2
      exact hcur
    · have hin' : n + iovs.flatten.length < sgeTotal wr.sge ∨ n + iovs.flatten.length = 0 := hin
      exact hcur' (by omega)
  · have hsame : SameMrs s.ctx s.qp (s.setRecvWr p { wr with sgeIdx := idx, sgeOff := off }).ctx
        (s.setRecvWr p { wr with sgeIdx := idx, sgeOff := off }).qp := ⟨rfl, rfl, rfl, rfl⟩
    have hp' : Places (s.setRecvWr p { wr with sgeIdx := idx, sgeOff := off }).ctx
        (s.setRecvWr p { wr with sgeIdx := idx, sgeOff := off }).qp dst true roceAccessLocalWrite
        dsts dmamap := ⟨(hsame.roceMrMapSge dst true _).trans hp.map, hp.pages, hp.fits⟩
    have hnot : ¬ UInt32.ofNat (sgeRest wr.sge wr.sgeIdx wr.sgeOff) < roceIovLen iovs := by
      rw [UInt32.lt_iff_toNat_lt, UInt32.toNat_ofNat', Nat.mod_eq_of_lt (by omega), hlen]
      omega
    unfold recvPayloadWr
    simp only [bind, Except.bind, roceSgeLen_eq_ok hcur (show _ < 2 ^ 32 by omega), if_neg hnot, hlen,
      hcut, hp'.placePayload iovs]
    rfl

/-- What was placed for a payload that fits lands, when the keys open it. -/
theorem recvPayloadWr_taken {s : St} {p : UInt64} {wr : RecvWr} {iovs : List (List UInt8)}
    {immdt : Option UInt32} {opcode : UInt8} {r : Int × St}
    (h : recvPayloadWr s iovs immdt opcode p wr = .ok r)
    (hp : rocePowerOf2 s.ctx.pageSize.toUInt64 = true)
    (hfit : iovs.flatten.length ≤ sgeRest wr.sge wr.sgeIdx wr.sgeOff)
    {dst : List RoceSge} {cursor : Nat × Nat}
    (hcut : roceSgeAdvance wr.sge iovs.flatten.length wr.sgeIdx wr.sgeOff = .ok (dst, cursor))
    (hopen : Opens s.ctx s.qp true roceAccessLocalWrite dst) : SgesLand s.ctx dst := by
  have hbuf : ∀ {len}, roceSgeLen wr.sge wr.sgeIdx wr.sgeOff = .ok len →
      (roceIovLen iovs).toNat = iovs.flatten.length ∧ roceIovLen iovs ≤ len := by
    intro len hlen
    obtain ⟨-, hrest⟩ := roceSgeLen_ok hlen
    have hlt := len.toNat_lt
    have hiov : (roceIovLen iovs).toNat = iovs.flatten.length := by
      rw [roceIovLen_toNat, Nat.mod_eq_of_lt (by omega)]
    refine ⟨hiov, ?_⟩
    rw [UInt32.le_iff_toNat_le]
    omega
  obtain ⟨ret, t⟩ := r
  cases recvPayloadWr_ok h with
  | short hlen hlt => exact absurd hlt (UInt32.not_lt.mpr (hbuf hlen).2)
  | refused hlen hle hcut' hmap hr =>
    rw [(hbuf hlen).1, hcut] at hcut'
    obtain ⟨rfl, -⟩ := Prod.mk.inj (Except.ok.inj hcut')
    rw [hopen.granted hmap] at hr
    cases hr
  | placed hlen hle hcut' hmap hfin =>
    rw [(hbuf hlen).1, hcut] at hcut'
    obtain ⟨rfl, -⟩ := Prod.mk.inj (Except.ok.inj hcut')
    exact (hopen.placeable_iff hp).mp ⟨_, _, hmap⟩

/-! ## The packets of a message -/

/-- A message: a SEND, or an RDMA WRITE with its RETH; the payload of each of
its packets. -/
structure Message where
  reth : Option IbReth
  imm : Option UInt32
  payloads : List (List UInt8)

/-- The bytes of a message. -/
def Message.total (m : Message) : Nat := m.payloads.flatten.length

/-- The opcode of a packet that is the first or the last of its message, or both. -/
def messageOpcode (write imm first last : Bool) : UInt8 :=
  match write, first, last with
  | false, true, true => if imm then ibOpcodeSendOnlyWithImmediate else ibOpcodeSendOnly
  | false, true, false => ibOpcodeSendFirst
  | false, false, false => ibOpcodeSendMiddle
  | false, false, true => if imm then ibOpcodeSendLastWithImmediate else ibOpcodeSendLast
  | true, true, true => if imm then ibOpcodeRdmaWriteOnlyWithImmediate else ibOpcodeRdmaWriteOnly
  | true, true, false => ibOpcodeRdmaWriteFirst
  | true, false, false => ibOpcodeRdmaWriteMiddle
  | true, false, true => if imm then ibOpcodeRdmaWriteLastWithImmediate else ibOpcodeRdmaWriteLast

def Message.opcode (m : Message) (first last : Bool) : UInt8 :=
  messageOpcode m.reth.isSome m.imm.isSome first last

/-- Its extension headers. -/
def Message.ext (m : Message) (first last : Bool) : List UInt8 :=
  (if first then m.reth.elim [] ibRethCodec.enc else []) ++
    (if last then m.imm.elim [] ibImmdtCodec.enc else [])

/-- The request it decodes to. -/
def Message.request (m : Message) (first last : Bool) (iovs : List (List UInt8)) : Request :=
  match m.reth with
  | none => .send (!first) (if last then m.imm else none) iovs
  | some reth =>
    .write (!first) (if first then some reth else none) (if last then m.imm else none) iovs

/-- `pkt` carries a payload of the message; no packet is longer than the largest MTU. -/
structure Carries (m : Message) (first last : Bool) (psn : UInt32) (payload : List UInt8)
    (pkt : Inbound) : Prop where
  opcode : ibBthGetOpcode pkt.bth = m.opcode first last
  psn : ibBthGetPsn pkt.bth = psn
  body : pkt.iovs.flatten = m.ext first last ++ payload
  mtu : payload.length ≤ 4096
  calloc : pkt.calloc = true

/-- The packets that carry a message from one payload on, in PSN order.  Only a
packet that is alone may be empty. -/
inductive Message.Packets (m : Message) : Bool → UInt32 → List (List UInt8) → List Inbound → Prop where
  | last {first : Bool} {psn : UInt32} {c : List UInt8} {pkt : Inbound}
      (hc : c ≠ [] ∨ first = true) (h : Carries m first true psn c pkt) :
      Packets m first psn [c] [pkt]
  | more {first : Bool} {psn : UInt32} {c : List UInt8} {cs : List (List UInt8)} {pkt : Inbound}
      {pkts : List Inbound} (hc : c ≠ []) (h : Carries m first false psn c pkt)
      (hrest : Packets m false (roceQpPsnInc psn) cs pkts) :
      Packets m first psn (c :: cs) (pkt :: pkts)

/-- A whole message is well formed: its packets, and the length in its RETH. -/
structure Message.WellFormed (m : Message) (psn : UInt32) (pkts : List Inbound) : Prop where
  packets : m.Packets true psn m.payloads pkts
  dmalen : ∀ reth, m.reth = some reth → reth.dmalen.toNat = m.total

/-! ### Decoding -/

theorem roceGetEth_enc {α : Type} (c : Bytes.Codec α) (a : α) {iovs : List (List UInt8)}
    {rest : List UInt8} (h : iovs.flatten = c.enc a ++ rest)
    (hlen : c.width + rest.length < 2 ^ 32) :
    ∃ iovs', roceGetEth c iovs = some (a, iovs') ∧ iovs'.flatten = rest := by
  have henc := c.length_enc a
  have hge : ¬ (roceIovLen iovs).toNat < c.width := by
    rw [roceIovLen_toNat, h, List.length_append, henc, Nat.mod_eq_of_lt hlen]
    omega
  refine ⟨(roceIovAdvance c.width iovs).2, ?_, ?_⟩
  · unfold roceGetEth
    rw [if_neg hge, roceIovAdvance_fst, h, c.take_enc, c.dec_enc_self]
  · rw [roceIovAdvance_snd, h, c.drop_enc]

/-- The opcode says whether the packet ends its message. -/
theorem messageOpcode_completes :
    ∀ imm first last, (roceRecvWrOpcodeToWc (messageOpcode false imm first last)).2.2 = last := by
  decide

theorem Message.completes {m : Message} (hm : m.reth = none) (first last : Bool) :
    (roceRecvWrOpcodeToWc (m.opcode first last)).2.2 = last := by
  unfold Message.opcode
  rw [hm]
  exact messageOpcode_completes m.imm.isSome first last

theorem messageOpcode_withImm :
    ∀ imm first last, WithImm (messageOpcode true imm first last) ↔ last = true ∧ imm = true := by
  decide

theorem messageOpcode_ne_acknowledge :
    ∀ write imm first last, messageOpcode write imm first last ≠ ibOpcodeAcknowledge := by
  decide

theorem decodeImm_enc {iovs : List (List UInt8)} {imm : UInt32} {rest : List UInt8}
    (f : UInt32 → List (List UInt8) → Request) (h : iovs.flatten = ibImmdtCodec.enc imm ++ rest)
    (hlen : rest.length ≤ 4096) :
    ∃ iovs', decodeImm iovs f = some (f imm iovs') ∧ iovs'.flatten = rest := by
  have hwidth : ibImmdtCodec.width = 4 := rfl
  obtain ⟨iovs', heth, hrest⟩ := roceGetEth_enc ibImmdtCodec imm h (by omega)
  refine ⟨iovs', ?_, hrest⟩
  unfold decodeImm
  rw [heth]

theorem decodeReth_enc {iovs : List (List UInt8)} {reth : IbReth} {rest : List UInt8}
    (f : IbReth → List (List UInt8) → Option Request)
    (h : iovs.flatten = ibRethCodec.enc reth ++ rest) (hlen : rest.length ≤ 4100) :
    ∃ iovs', decodeReth iovs f = f reth iovs' ∧ iovs'.flatten = rest := by
  have hwidth : ibRethCodec.width = 16 := rfl
  obtain ⟨iovs', heth, hrest⟩ := roceGetEth_enc ibRethCodec reth h (by omega)
  refine ⟨iovs', ?_, hrest⟩
  unfold decodeReth
  rw [heth]

/-- A packet of a message decodes to its request. -/
theorem Carries.request {m : Message} {first last : Bool} {psn : UInt32} {payload : List UInt8}
    {pkt : Inbound} (h : Carries m first last psn payload pkt) :
    ∃ iovs, pkt.request = some (m.request first last iovs) ∧ iovs.flatten = payload := by
  obtain ⟨hop, -, hbody, hmtu, -⟩ := h
  obtain ⟨reth, imm, payloads⟩ := m
  unfold Inbound.request Message.request
  rw [hop]
  unfold Message.opcode
  unfold Message.ext at hbody
  cases reth with
  | none =>
    cases last with
    | false => cases first <;> exact ⟨pkt.iovs, rfl, hbody⟩
    | true =>
      cases imm with
      | none => cases first <;> exact ⟨pkt.iovs, rfl, hbody⟩
      | some imm => cases first <;> exact decodeImm_enc _ hbody hmtu
  | some reth =>
    cases first with
    | false =>
      cases last with
      | false => exact ⟨pkt.iovs, rfl, hbody⟩
      | true =>
        cases imm with
        | none => exact ⟨pkt.iovs, rfl, hbody⟩
        | some imm => exact decodeImm_enc _ hbody hmtu
    | true =>
      -- the RETH comes off first, then the immediate
      have hreth : ∀ rest f, pkt.iovs.flatten = ibRethCodec.enc reth ++ rest → rest.length ≤ 4100 →
          ∃ iovs', decodeReth pkt.iovs f = f reth iovs' ∧ iovs'.flatten = rest :=
        fun rest f hb hl => decodeReth_enc f hb hl
      have hplain : pkt.iovs.flatten = ibRethCodec.enc reth ++ ([] ++ payload) →
          ∃ iovs, (decodeReth pkt.iovs fun reth iovs => some (.write false (some reth) none iovs)) =
            some (.write false (some reth) none iovs) ∧ iovs.flatten = payload := by
        intro hb
        exact hreth payload _ hb (by omega)
      rw [List.append_assoc] at hbody
      cases last with
      | false => exact hplain hbody
      | true =>
        cases imm with
        | none => exact hplain hbody
        | some imm =>
          have himm : (ibImmdtCodec.enc imm).length = 4 := ibImmdtCodec.length_enc imm
          obtain ⟨iovs1, hdec1, hb1⟩ := hreth (ibImmdtCodec.enc imm ++ payload)
            (fun reth iovs => decodeImm iovs fun immdt iovs => .write false (some reth) (some immdt) iovs)
            hbody (by rw [List.length_append]; omega)
          obtain ⟨iovs2, hdec2, hb2⟩ := decodeImm_enc
            (fun immdt iovs => .write false (some reth) (some immdt) iovs) hb1 hmtu
          exact ⟨iovs2, hdec1.trans hdec2, hb2⟩

/-! ## A SEND packet -/

/-- The receiver expects the first packet of a SEND, with the WR at `p` next in
its queue, or a later one, with that WR in the union and `n` bytes in it. -/
structure SendReady (s : St) (first : Bool) (p : UInt64) (wr : RecvWr) (rest : List UInt64) (n : Nat) :
    Prop where
  state : first = true ∧ s.qp.resp.word.bits = 0 ∧ s.qp.rq = p :: rest ∧ n = 0 ∨
    first = false ∧ s.qp.resp.word = .wr p ∧ s.qp.rq = rest
  nonnull : p ≠ 0
  live : s.ctx.recvWrs p = some wr
  cursor : wr.At n

/-- The state with the WR at `p` in the union. -/
def St.taking (s : St) (first : Bool) (p : UInt64) (rest : List UInt64) : St :=
  if first then (({ s with qp.rq := rest } : St).emit [.popRecv p]).setWord (.wr p) else s

theorem Env.taking (s : St) (first : Bool) (p : UInt64) (rest : List UInt64) :
    Env s (s.taking first p rest) := by
  cases first with
  | false => exact .refl s
  | true => exact ⟨rfl, rfl, mrsKept_of_eq rfl, id⟩

theorem St.taking_recvWrs (s : St) (first : Bool) (p : UInt64) (rest : List UInt64) :
    (s.taking first p rest).ctx.recvWrs = s.ctx.recvWrs := by
  cases first with
  | false => rfl
  | true => rfl

/-- The WR that a SEND packet finds. -/
theorem rocePopRecvWr_taking {s : St} {first : Bool} {p : UInt64} {wr : RecvWr} {rest : List UInt64}
    (hstate : first = true ∧ s.qp.resp.word.bits = 0 ∧ s.qp.rq = p :: rest ∨
      first = false ∧ s.qp.resp.word = .wr p ∧ s.qp.rq = rest)
    (hnull : p ≠ 0) (hlive : s.ctx.recvWrs p = some wr) :
    (s.taking first p rest).qp = { s.qp with rq := rest, resp.word := .wr p } ∧
      ∀ iovs immdt opcode, roceRecvPayload s iovs immdt (!first) opcode =
        recvPayloadWr (s.taking first p rest) iovs immdt opcode p wr := by
  unfold roceRecvPayload rocePopRecvWr rqPop
  rcases hstate with ⟨rfl, hbits, hrq⟩ | ⟨rfl, hword, hrq⟩
  · refine ⟨rfl, ?_⟩
    intro iovs immdt opcode
    rw [hbits, hrq]
    have hlive' : ((({ s with qp.rq := rest } : St).emit [.popRecv p]).setWord (.wr p)).ctx.recvWrs p =
      some wr := hlive
    simp only [Bool.not_true, bne_self_eq_false, ne_eq, not_true_eq_false, if_false, hlive']
    rfl
  · refine ⟨?_, ?_⟩
    · show s.qp = _
      rw [← hrq, ← hword]
    · intro iovs immdt opcode
      have hbits : (p != 0) = true := bne_iff_ne.mpr hnull
      rw [hword]
      simp only [RespWord.bits, Bool.not_false, hbits, ne_eq, not_true_eq_false, if_false, hnull,
        not_false_eq_true, if_true, hlive]
      rfl

theorem SendReady.taking {s : St} {first : Bool} {p : UInt64} {wr : RecvWr} {rest : List UInt64}
    {n : Nat} (h : SendReady s first p wr rest n) :
    (s.taking first p rest).qp = { s.qp with rq := rest, resp.word := .wr p } ∧
      ∀ iovs immdt opcode, roceRecvPayload s iovs immdt (!first) opcode =
        recvPayloadWr (s.taking first p rest) iovs immdt opcode p wr := by
  refine rocePopRecvWr_taking (h.state.imp_left fun hfirst => ?_) h.nonnull h.live
  exact ⟨hfirst.1, hfirst.2.1, hfirst.2.2.1⟩

theorem recvFinish_goesOn (s : St) (p : UInt64) (wr : RecvWr) (bufLen : UInt32)
    (immdt : Option UInt32) {opcode : UInt8} (h : (roceRecvWrOpcodeToWc opcode).2.2 = false) :
    recvFinish s p wr bufLen immdt opcode =
      .ok (0, s.setRecvWr p { wr with byteLen := wr.byteLen + bufLen }) := by
  unfold recvFinish
  have hnone := roceRecvCqComp_isSome (s.setRecvWr p { wr with byteLen := wr.byteLen + bufLen }).qp
    opcode wr.wrId (wr.byteLen + bufLen) immdt
  rw [h, Option.isSome_eq_false_iff, Option.isNone_iff_eq_none] at hnone
  simp only [hnone]

/-- Freeing a receive WR while the PDs are in place. -/
theorem roceFreeRecvWr_live {ctx : RoceCtx} (h : PdsLive ctx) (p : UInt64) (wr : RecvWr) :
    ∃ ctx', roceFreeRecvWr ctx p wr = .ok ctx' ∧ PdsLive ctx' := by
  obtain ⟨ctx1, hput, hlive⟩ := rocePutMrs_live h wr.sge
  unfold roceFreeRecvWr
  rw [hput]
  exact ⟨_, rfl, hlive⟩

theorem roceFreeRecvWr_refs {ctx ctx' : RoceCtx} {p : UInt64} {wr : RecvWr}
    (h : roceFreeRecvWr ctx p wr = .ok ctx') :
    MrsKept ctx ctx' ∧ ctx' = { ctx with
      pds := ctx'.pds, mrs := ctx'.mrs, recvWrs := ctx'.recvWrs, trace := ctx'.trace } := by
  unfold roceFreeRecvWr at h
  split at h
  · cases h
  · next ctx1 hput =>
    obtain rfl := Except.ok.inj h
    have hrefs := rocePutMrs_refsOnly hput
    refine ⟨(rocePutMrs_kept hput).trans (mrsKept_of_eq rfl), ?_⟩
    rw [hrefs]

theorem recvFinish_done {s : St} (hpds : PdsLive s.ctx) (p : UInt64) (wr : RecvWr) (bufLen : UInt32)
    (immdt : Option UInt32) {opcode : UInt8} (h : (roceRecvWrOpcodeToWc opcode).2.2 = true) :
    ∃ t, recvFinish s p wr bufLen immdt opcode = .ok (0, t) ∧ Env s t ∧
      t.qp = { s.qp with resp.word := .wr 0 } ∧ ∀ q, q ≠ p → t.ctx.recvWrs q = s.ctx.recvWrs q := by
  have hsome := roceRecvCqComp_isSome (s.setRecvWr p { wr with byteLen := wr.byteLen + bufLen }).qp
    opcode wr.wrId (wr.byteLen + bufLen) immdt
  rw [h] at hsome
  obtain ⟨e, he⟩ := Option.isSome_iff_exists.mp hsome
  have hpds' : PdsLive ((s.setRecvWr p { wr with byteLen := wr.byteLen + bufLen }).emit [e]).ctx := hpds
  obtain ⟨ctx, hfree, hlive⟩ := roceFreeRecvWr_live hpds' p { wr with byteLen := wr.byteLen + bufLen }
  obtain ⟨hkept, hctx⟩ := roceFreeRecvWr_refs hfree
  obtain ⟨-, hrecv⟩ := roceFreeRecvWr_ok hfree
  refine ⟨({ s with ctx := ctx } : St).setWord (.wr 0), ?_, ⟨rfl, ?_, ?_, fun _ => hlive⟩, rfl, ?_⟩
  · unfold recvFinish
    simp only [he, hfree]
    rfl
  · show ctx = _
    rw [hctx]
    rfl
  · exact MrsKept.trans (mrsKept_of_eq rfl) hkept
  · intro q hq
    show ctx.recvWrs q = _
    rw [hrecv, if_neg hq]
    exact if_neg hq

/-! ## A packet that is done -/

/-- An acknowledgement can be built. -/
def CanAck (s : St) : Prop :=
  s.qp.qpType = .rc ∧ ∃ port sgid, portAt s.ctx s.qp.attr.portNum = .ok port ∧
    port.gids[s.qp.attr.ahAttr.sgidIndex.toNat]? = some sgid

theorem Env.canAck {s t : St} (h : Env s t) (hc : CanAck s) : CanAck t := by
  obtain ⟨htype, port, sgid, hport, hgid⟩ := hc
  unfold CanAck
  rw [h.qp]
  refine ⟨htype, port, sgid, ?_, hgid⟩
  unfold portAt at hport ⊢
  rw [h.ctx]
  exact hport

theorem CanAck.acknowledge {s : St} (h : CanAck s) (syndrome : Syndrome) (val : UInt8) (psn : UInt32) :
    ∃ pkt, roceNetpktAcknowledge s syndrome val psn true =
      .ok (({ s with qp.resp.msn := s.qp.resp.msn + 1 } : St).emit [.netXmit pkt]) := by
  obtain ⟨htype, port, sgid, hport, hgid⟩ := h
  have hack : ∃ pkt, acknowledgePkt s.ctx s.qp syndrome val psn true = .ok pkt := by
    unfold acknowledgePkt roceNetpktAlloc roceQpVnetHdr roceNetpktSetEth
    simp only [hport, hgid, if_true]
    split
    · exact ⟨_, rfl⟩
    · exact ⟨_, rfl⟩
  obtain ⟨pkt, hpkt⟩ := hack
  refine ⟨pkt, ?_⟩
  unfold roceNetpktAcknowledge
  rw [if_pos htype, hpkt]
  rfl

/-- The state after a request that did its work: acknowledged perhaps, and counted. -/
def St.counted (s : St) (msn : UInt32) (acks : List Event) : St :=
  { s.emit acks with
    qp.resp.msn := msn
    qp.attr.rqPsn := roceQpPsnInc s.qp.attr.rqPsn }

theorem roceComparePsn_self (psn : UInt32) : roceComparePsn psn psn = 0 :=
  (roceComparePsn_eq_zero psn psn).mpr (Serial.dist_self (by decide) _)

/-- A request with the expected PSN is tried. -/
theorem roceRecvRc_inSequence {s : St} {pkt : Inbound} (hop : ibBthGetOpcode pkt.bth ≠ ibOpcodeAcknowledge)
    (hcmp : roceComparePsn s.qp.attr.rqPsn (ibBthGetPsn pkt.bth) = 0) :
    roceRecvRc s pkt = recvInSequence s pkt := by
  unfold roceRecvRc
  simp only [if_neg hop, hcmp]
  rfl

theorem roceRecvRc_tried {s : St} {pkt : Inbound} {r : Int × St}
    (hop : ibBthGetOpcode pkt.bth ≠ ibOpcodeAcknowledge) (hpsn : ibBthGetPsn pkt.bth = s.qp.attr.rqPsn)
    (h : roceRecvRc s pkt = .ok r) :
    ∃ q, recvRequest { s with qp.resp.inPsnNak := false } pkt = .ok q := by
  rw [roceRecvRc_inSequence hop (by rw [hpsn, roceComparePsn_self])] at h
  unfold recvInSequence at h
  obtain ⟨q, hq, -⟩ := bind_eq_ok.mp h
  exact ⟨q, hq⟩

/-- A packet done is acknowledged and counted. -/
theorem roceRecvRc_done {s s1 : St} {pkt : Inbound} (hop : ibBthGetOpcode pkt.bth ≠ ibOpcodeAcknowledge)
    (hpsn : ibBthGetPsn pkt.bth = s.qp.attr.rqPsn) (hcalloc : pkt.calloc = true)
    (hreq : recvRequest { s with qp.resp.inPsnNak := false } pkt = .ok (0, s1)) (hcan : CanAck s1) :
    ∃ msn acks, roceRecvRc s pkt = .ok (0, s1.counted msn acks) := by
  have hdone : ∃ msn acks, recvInSequence s pkt = .ok (0, s1.counted msn acks) := by
    unfold recvInSequence
    rw [hreq]
    simp only [bind, Except.bind, ne_eq, not_true_eq_false, if_false, hcalloc]
    split
    · obtain ⟨q, hack⟩ := hcan.acknowledge .ack 0x1f (ibBthGetPsn pkt.bth)
      rw [hack]
      exact ⟨_, _, rfl⟩
    · refine ⟨s1.qp.resp.msn, [], ?_⟩
      unfold St.counted St.emit
      rw [List.append_nil]
      rfl
  rw [roceRecvRc_inSequence hop (by rw [hpsn, roceComparePsn_self])]
  exact hdone

/-- A request that moves the PSN was carried out, and at most acknowledged. -/
theorem roceRecvRc_carriedOut {s t : St} {pkt : Inbound}
    (hop : ibBthGetOpcode pkt.bth ≠ ibOpcodeAcknowledge) (h : roceRecvRc s pkt = .ok (0, t))
    (hpsn : t.qp.attr.rqPsn = roceQpPsnInc s.qp.attr.rqPsn) :
    ∃ s1 msn, ∃ acks : List RoceNetpkt, RequestStep { s with qp.resp.inPsnNak := false } pkt 0 s1 ∧
      t = s1.counted msn (acks.map .netXmit) := by
  unfold roceRecvRc at h
  rw [if_neg hop] at h
  simp only at h
  split at h
  · obtain ⟨-, rfl⟩ := Prod.mk.inj (Except.ok.inj h)
    exact absurd hpsn.symm (roceQpPsnInc_ne _)
  · split at h
    · obtain ⟨s1, hseq, h⟩ := bind_eq_ok.mp h
      obtain ⟨-, rfl⟩ := Prod.mk.inj (Except.ok.inj h)
      have hkeep : s1.qp.attr.rqPsn = s.qp.attr.rqPsn := by
        unfold roceOutOfSeq at hseq
        split at hseq
        · rw [Except.ok.inj hseq]
        · split at hseq
          · cases hseq
          · next hack =>
            obtain ⟨q, rfl, -⟩ := roceNetpktAcknowledge_ok hack
            obtain rfl := Except.ok.inj hseq
            rfl
      exact absurd (hpsn.symm.trans hkeep) (roceQpPsnInc_ne _)
    · rcases recvInSequence_ok h with ⟨hne, -⟩ | ⟨-, s1, s2, hstep, hack, rfl⟩
      · exact absurd rfl hne
      · rcases hack with ⟨-, rfl⟩ | ⟨-, hack⟩
        · refine ⟨s2, s2.qp.resp.msn, [], hstep, ?_⟩
          unfold St.counted St.emit
          rw [List.map_nil, List.append_nil]
        · obtain ⟨q, rfl, -⟩ := roceNetpktAcknowledge_ok hack
          exact ⟨s1, s1.qp.resp.msn + 1, [q], hstep, rfl⟩

theorem respStep_recv {s t : St} {pkt : Inbound} {ret : Int} (h : roceRecvRc s pkt = .ok (ret, t)) :
    respStep s (.recv pkt) = .ok t := by
  unfold respStep
  simp only [h]

theorem respStep_recv_ok {s t : St} {pkt : Inbound} (h : respStep s (.recv pkt) = .ok t) :
    ∃ ret, roceRecvRc s pkt = .ok (ret, t) := by
  unfold respStep at h
  cases hr : roceRecvRc s pkt with
  | error e =>
    simp only [hr] at h
    cases h
  | ok r =>
    simp only [hr] at h
    obtain rfl := Except.ok.inj h
    exact ⟨r.1, rfl⟩

/-- Packets that are accepted one after the other: each does its work and is counted. -/
inductive Accepts : St → List Inbound → St → Prop where
  | nil (s : St) : Accepts s [] s
  | cons {s t u : St} {pkt : Inbound} {pkts : List Inbound} (h : roceRecvRc s pkt = .ok (0, t))
      (hpsn : t.qp.attr.rqPsn = roceQpPsnInc s.qp.attr.rqPsn) (hrest : Accepts t pkts u) :
      Accepts s (pkt :: pkts) u

theorem Accepts.run {s t : St} {pkts : List Inbound} (h : Accepts s pkts t) :
    Machine.run respStep s (pkts.map .recv) = .ok t := by
  induction h with
  | nil s => rfl
  | cons h hpsn hrest ih => rw [List.map_cons, Machine.run_cons_ok _ _ (respStep_recv h), ih]

theorem Accepts.rqPsn {s t : St} {pkts : List Inbound} (h : Accepts s pkts t) :
    t.qp.attr.rqPsn = roceQpPsnInc^[pkts.length] s.qp.attr.rqPsn := by
  induction h with
  | nil s => rfl
  | cons h hpsn hrest ih => rw [ih, hpsn, List.length_cons, Function.iterate_succ_apply]

theorem Env.counted (s : St) (msn : UInt32) (acks : List Event) : Env s (s.counted msn acks) :=
  ⟨rfl, rfl, mrsKept_of_eq rfl, id⟩

/-- A SEND packet in sequence, up to its completion. -/
theorem SendReady.recvRequest {s : St} {m : Message} {first last : Bool} {p : UInt64} {wr : RecvWr}
    {rest : List UInt64} {n : Nat} {psn : UInt32} {c : List UInt8} {pkt : Inbound}
    (h : SendReady s first p wr rest n) (hm : m.reth = none) (hc : Carries m first last psn c pkt)
    (hfit : n + c.length ≤ sgeTotal wr.sge) (hne : c ≠ [] ∨ n = 0)
    (hland : ∀ dst cursor, roceSgeAdvance wr.sge c.length wr.sgeIdx wr.sgeOff = .ok (dst, cursor) →
      Placeable s.ctx s.qp true roceAccessLocalWrite dst) :
    ∃ iovs dst idx off dsts dmamap, iovs.flatten = c ∧
      roceSgeAdvance wr.sge c.length wr.sgeIdx wr.sgeOff = .ok (dst, idx, off) ∧
      RecvWr.At { wr with
        sgeIdx := idx, sgeOff := off, byteLen := wr.byteLen + roceIovLen iovs } (n + c.length) ∧
      recvRequest s pkt =
        recvFinish (((s.taking first p rest).place dsts c dmamap).setRecvWr p
          { wr with sgeIdx := idx, sgeOff := off }) p { wr with sgeIdx := idx, sgeOff := off }
          (roceIovLen iovs) (if last then m.imm else none) (m.opcode first last) := by
  obtain ⟨iovs, hreq, rfl⟩ := hc.request
  obtain ⟨-, htake⟩ := h.taking
  obtain ⟨dst, idx, off, dsts, dmamap, hcut, hat, heq⟩ := recvPayloadWr_eq (p := p)
    (if last then m.imm else none) (m.opcode first last) h.cursor hfit hne
    fun dst cursor hcut => (Env.taking s first p rest).placeable (hland dst cursor hcut)
  refine ⟨iovs, dst, idx, off, dsts, dmamap, rfl, hcut, hat, ?_⟩
  unfold Message.request at hreq
  rw [hm] at hreq
  rw [recvRequest_eq, hreq, hc.opcode]
  exact (htake iovs _ _).trans heq

end Libroce
