import Libroce.Placement
import Libroce.ResponderMessage

/-!
# What accepted packets leave

A message that arrives as a stream of packets, each with as many bytes as it
likes, and what is seen of it at the receive queue.

    Message.Stream   the packets of a message, PSN after PSN
    recvSince        the receive WRs taken, completed and freed between two states
    Message.wc       the completion of a message
-/

namespace Libroce

open Machine (bind_eq_ok)

/-! ## The receive queue -/

/-- The events that concern receive WRs. -/
def Event.recv : Event → Bool
  | .popRecv _ => true
  | .cqComp _ _ => true
  | .freeRecv _ => true
  | _ => false

def recvEvents (es : List Event) : List Event := es.filter Event.recv

theorem recvEvents_append (es fs : List Event) : recvEvents (es ++ fs) = recvEvents es ++ recvEvents fs :=
  List.filter_append es fs

theorem recvEvents_xmits (pkts : List RoceNetpkt) : recvEvents (pkts.map .netXmit) = [] := by
  induction pkts with
  | nil => rfl
  | cons pkt pkts ih => exact ih

theorem recvEvents_copyEvents (dsts : List Iovec) (bytes : List UInt8) :
    recvEvents (copyEvents dsts bytes) = [] := by
  induction dsts generalizing bytes with
  | nil => rfl
  | cons dst dsts ih => exact ih _

theorem recvEvents_unmap (dmamap : Bool) (iovs : List Iovec) :
    recvEvents (roceMrUnmapSge dmamap iovs) = [] := by
  unfold roceMrUnmapSge
  cases dmamap with
  | false => rfl
  | true =>
    induction iovs with
    | nil => rfl
    | cons iov iovs ih => exact ih

/-- What happened at the receive queue between two states. -/
def recvSince (s t : St) : List Event := recvEvents (t.ctx.trace.drop s.ctx.trace.length)

/-- On the way from `s` to `t` requests came in; `es` happened at the receive
queue, and the numbers of the QP stayed. -/
structure Serves (s t : St) (es : List Event) : Prop where
  trace : ∃ fs, t.ctx.trace = s.ctx.trace ++ fs ∧ recvEvents fs = es
  qp : t.qp = { s.qp with attr.rqPsn := t.qp.attr.rqPsn, rq := t.qp.rq, resp := t.qp.resp }

theorem Serves.refl (s : St) : Serves s s [] := ⟨⟨[], (List.append_nil _).symm, rfl⟩, rfl⟩

theorem Serves.trans {s t u : St} {es fs : List Event} (h1 : Serves s t es) (h2 : Serves t u fs) :
    Serves s u (es ++ fs) := by
  obtain ⟨as, has, rfl⟩ := h1.trace
  obtain ⟨bs, hbs, rfl⟩ := h2.trace
  refine ⟨⟨as ++ bs, ?_, recvEvents_append as bs⟩, ?_⟩
  · rw [hbs, has, List.append_assoc]
  · rw [h2.qp, h1.qp]

theorem Serves.recvSince {s t : St} {es : List Event} (h : Serves s t es) : recvSince s t = es := by
  obtain ⟨fs, hfs, rfl⟩ := h.trace
  unfold Libroce.recvSince
  rw [hfs, List.drop_left]

/-- A step that says nothing, and changes the receive queue and the responder's
own fields at most. -/
theorem Serves.quiet {s t : St} (htrace : t.ctx.trace = s.ctx.trace)
    (hqp : t.qp = { s.qp with attr.rqPsn := t.qp.attr.rqPsn, rq := t.qp.rq, resp := t.qp.resp }) :
    Serves s t [] := ⟨⟨[], htrace.trans (List.append_nil _).symm, rfl⟩, hqp⟩

theorem Serves.place (s : St) (dsts : List Iovec) (bytes : List UInt8) (dmamap : Bool) :
    Serves s (s.place dsts bytes dmamap) [] := by
  refine ⟨⟨copyEvents dsts bytes ++ roceMrUnmapSge dmamap dsts, List.append_assoc _ _ _, ?_⟩, rfl⟩
  rw [recvEvents_append, recvEvents_copyEvents, recvEvents_unmap]
  rfl

theorem Serves.written (s : St) (dsts : List Iovec) (iovs : List (List UInt8)) (dmamap : Bool) :
    Serves s (s.written dsts iovs dmamap) [] := ⟨(Serves.place s dsts iovs.flatten dmamap).trace, rfl⟩

theorem Serves.setRecvWr (s : St) (p : UInt64) (wr : RecvWr) : Serves s (s.setRecvWr p wr) [] :=
  .quiet rfl rfl

theorem Serves.counted (s : St) (msn : UInt32) (acks : List RoceNetpkt) :
    Serves s (s.counted msn (acks.map .netXmit)) [] := ⟨⟨_, rfl, recvEvents_xmits acks⟩, rfl⟩

/-! ## Streams -/

/-- `pkt` carries a payload of the message. -/
structure Bears (m : Message) (first last : Bool) (psn : UInt32) (payload : List UInt8)
    (pkt : Inbound) : Prop where
  opcode : ibBthGetOpcode pkt.bth = m.opcode first last
  psn : ibBthGetPsn pkt.bth = psn
  body : pkt.iovs.flatten = m.ext first last ++ payload

/-- The packets that carry a message from one payload on, in PSN order: ONLY, or
FIRST, MIDDLE.., LAST.  Only a packet that is alone may be empty. -/
inductive Message.Stream (m : Message) : Bool → UInt32 → List (List UInt8) → List Inbound → Prop where
  | last {first : Bool} {psn : UInt32} {c : List UInt8} {pkt : Inbound} (hc : c ≠ [] ∨ first = true)
      (h : Bears m first true psn c pkt) : Stream m first psn [c] [pkt]
  | more {first : Bool} {psn : UInt32} {c : List UInt8} {cs : List (List UInt8)} {pkt : Inbound}
      {pkts : List Inbound} (hc : c ≠ []) (h : Bears m first false psn c pkt)
      (hrest : Stream m false (roceQpPsnInc psn) cs pkts) : Stream m first psn (c :: cs) (pkt :: pkts)

/-- A header that was decoded is the one that was encoded. -/
theorem roceGetEth_some {α : Type} {c : Bytes.Codec α} {a a' : α} {iovs iovs' : List (List UInt8)}
    {rest : List UInt8} (h : roceGetEth c iovs = some (a', iovs')) (hb : iovs.flatten = c.enc a ++ rest) :
    a' = a ∧ iovs'.flatten = rest := by
  unfold roceGetEth at h
  split at h
  · cases h
  · obtain ⟨rfl, rfl⟩ := Prod.mk.inj (Option.some.inj h)
    constructor
    · rw [roceIovAdvance_fst, hb, c.take_enc, c.dec_enc_self]
    · rw [roceIovAdvance_snd, hb, c.drop_enc]

theorem decodeImm_bears {iovs : List (List UInt8)} {imm : UInt32} {rest : List UInt8}
    {f : UInt32 → List (List UInt8) → Request} {r : Request} (h : decodeImm iovs f = some r)
    (hb : iovs.flatten = ibImmdtCodec.enc imm ++ rest) : ∃ iovs', r = f imm iovs' ∧ iovs'.flatten = rest := by
  unfold decodeImm at h
  split at h
  · cases h
  · next heth =>
    obtain ⟨rfl, hrest⟩ := roceGetEth_some heth hb
    exact ⟨_, (Option.some.inj h).symm, hrest⟩

theorem decodeReth_bears {iovs : List (List UInt8)} {reth : IbReth} {rest : List UInt8}
    {f : IbReth → List (List UInt8) → Option Request} {r : Request} (h : decodeReth iovs f = some r)
    (hb : iovs.flatten = ibRethCodec.enc reth ++ rest) :
    ∃ iovs', f reth iovs' = some r ∧ iovs'.flatten = rest := by
  unfold decodeReth at h
  split at h
  · cases h
  · next heth =>
    obtain ⟨rfl, hrest⟩ := roceGetEth_some heth hb
    exact ⟨_, h, hrest⟩

/-- A packet that is decoded is decoded to the request of its message. -/
theorem Bears.request {m : Message} {first last : Bool} {psn : UInt32} {payload : List UInt8}
    {pkt : Inbound} (h : Bears m first last psn payload pkt) {r : Request} (hreq : pkt.request = some r) :
    ∃ iovs, r = m.request first last iovs ∧ iovs.flatten = payload := by
  obtain ⟨hop, -, hbody⟩ := h
  obtain ⟨reth, imm, payloads⟩ := m
  unfold Inbound.request at hreq
  rw [hop] at hreq
  unfold Message.request
  unfold Message.opcode at hreq
  unfold Message.ext at hbody
  cases reth with
  | none =>
    cases last with
    | false => cases first <;> exact ⟨pkt.iovs, (Option.some.inj hreq).symm, hbody⟩
    | true =>
      cases imm with
      | none => cases first <;> exact ⟨pkt.iovs, (Option.some.inj hreq).symm, hbody⟩
      | some imm => cases first <;> exact decodeImm_bears hreq hbody
  | some reth =>
    cases first with
    | false =>
      cases last with
      | false => exact ⟨pkt.iovs, (Option.some.inj hreq).symm, hbody⟩
      | true =>
        cases imm with
        | none => exact ⟨pkt.iovs, (Option.some.inj hreq).symm, hbody⟩
        | some imm => exact decodeImm_bears hreq hbody
    | true =>
      -- the RETH comes off first, then the immediate
      rw [List.append_assoc] at hbody
      have hplain :
          (decodeReth pkt.iovs fun reth iovs => some (.write false (some reth) none iovs)) = some r →
          pkt.iovs.flatten = ibRethCodec.enc reth ++ ([] ++ payload) →
          ∃ iovs, r = .write false (some reth) none iovs ∧ iovs.flatten = payload := by
        intro hdec hb
        obtain ⟨iovs, hr, hiovs⟩ := decodeReth_bears hdec hb
        exact ⟨iovs, (Option.some.inj hr).symm, hiovs⟩
      cases last with
      | false => exact hplain hreq hbody
      | true =>
        cases imm with
        | none => exact hplain hreq hbody
        | some imm =>
          have hboth : (decodeReth pkt.iovs fun reth iovs =>
              decodeImm iovs fun immdt iovs => .write false (some reth) (some immdt) iovs) = some r := hreq
          obtain ⟨iovs, himm, hiovs⟩ := decodeReth_bears hboth hbody
          exact decodeImm_bears himm hiovs

/-! ## Completions -/

/-- The completion of a message. -/
def Message.wc (m : Message) (qp : RoceQp) (wrId : UInt64) (byteLen : UInt32) : RoceWc where
  wrId := wrId
  status := roceWcSuccess
  opcode := if m.reth.isSome then .recvRdmaWithImm else .recv
  byteLen := byteLen
  localQpn := qp.handle
  remoteQpn := qp.attr.destQpNum
  immData := m.imm.getD 0
  wcFlags := if m.imm.isSome then roceWcWithImm else 0

theorem roceRecvWrOpcodeToWc_message :
    ∀ write imm first, write = false ∨ imm = true →
      roceRecvWrOpcodeToWc (messageOpcode write imm first true) =
        (if write then .recvRdmaWithImm else .recv, if imm then roceWcWithImm else 0, true) := by
  decide

/-- The last packet reports it, for a SEND and for a WRITE with an immediate. -/
theorem Message.roceRecvCqComp {m : Message} {qp : RoceQp} (hrc : qp.qpType = .rc)
    (hcloses : m.reth.isSome = false ∨ m.imm.isSome = true) (first : Bool) (wrId : UInt64)
    (byteLen : UInt32) :
    roceRecvCqComp qp (m.opcode first true) wrId byteLen m.imm =
      some (.cqComp (m.wc qp wrId byteLen) qp.rcq) := by
  have hgrh : ¬(qp.qpType = .gsi ∨ qp.qpType = .ud) := by
    rw [hrc]
    decide
  have hwith : roceWcWithImm ≠ 0 := by decide
  unfold Libroce.roceRecvCqComp Message.opcode Message.wc
  rw [roceRecvWrOpcodeToWc_message _ _ first hcloses]
  cases m.imm with
  | none => simp [hgrh]
  | some imm => simp [hgrh, hwith]

end Libroce
