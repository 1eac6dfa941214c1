import Libroce.ResponderMessage

/-!
# Between messages

After a message the responder should be idle: no WR in the union, no bytes
counted.  A SEND gets there, and a WRITE with an immediate; a plain WRITE
leaves its address and its length behind.

Main statement: `respRun_idle` — after each message of a run the responder is
idle exactly when every one of them `Closes` and its payloads land.
-/

namespace Libroce

open Machine (bind_eq_ok)

/-- `qp->resp.wr` is NULL and nothing is counted: the first packet of any
message passes the checks of `roce_pop_recv_wr` and `roce_rdma_write_payload`. -/
structure RespIdle (s : St) : Prop where
  word : s.qp.resp.word.bits = 0
  writtenlen : s.qp.resp.writtenlen = 0

/-! ## SENDs -/

/-- The parts of the SGEs that payloads of these sizes go to one after the other,
from a cursor on. -/
def recvPieces (sges : List RoceSge) : Nat → Nat → List Nat → List (List RoceSge)
  | _, _, [] => []
  | idx, off, len :: lens =>
    match roceSgeAdvance sges len idx off with
    | .error _ => []
    | .ok (dst, idx, off) => dst :: recvPieces sges idx off lens

theorem recvPieces_cons {sges dst : List RoceSge} {idx off idx' off' len : Nat} {lens : List Nat}
    (h : roceSgeAdvance sges len idx off = .ok (dst, idx', off')) :
    recvPieces sges idx off (len :: lens) = dst :: recvPieces sges idx' off' lens := by
  rw [recvPieces, h]

theorem mem_recvPieces {sges dst : List RoceSge} {idx off len : Nat} {cursor : Nat × Nat} {lens : List Nat}
    (h : roceSgeAdvance sges len idx off = .ok (dst, cursor)) :
    dst ∈ recvPieces sges idx off (len :: lens) := by
  rw [recvPieces_cons h]
  exact List.mem_cons_self

/-- Only a packet that is alone may be empty. -/
theorem SendReady.nonempty {s : St} {first : Bool} {p : UInt64} {wr : RecvWr} {rest : List UInt64} {n : Nat}
    (h : SendReady s first p wr rest n) {c : List UInt8} (hc : c ≠ [] ∨ first = true) : c ≠ [] ∨ n = 0 := by
  rcases hc with hc | hfirst
  · exact Or.inl hc
  · rcases h.state with ⟨-, -, -, hn⟩ | ⟨hfalse, -⟩
    · exact Or.inr hn
    · rw [hfirst] at hfalse
      cases hfalse

/-- One SEND packet. -/
theorem SendReady.step {s : St} {m : Message} {first last : Bool} {p : UInt64} {wr : RecvWr}
    {rest : List UInt64} {n : Nat} {c : List UInt8} {pkt : Inbound}
    (h : SendReady s first p wr rest n) (hm : m.reth = none)
    (hc : Carries m first last s.qp.attr.rqPsn c pkt) (hfit : n + c.length ≤ sgeTotal wr.sge)
    (hne : c ≠ [] ∨ n = 0)
    (hland : ∀ dst cursor, roceSgeAdvance wr.sge c.length wr.sgeIdx wr.sgeOff = .ok (dst, cursor) →
      Placeable s.ctx s.qp true roceAccessLocalWrite dst)
    (hpds : PdsLive s.ctx) (hcan : CanAck s) :
    ∃ t dst idx off, roceRecvRc s pkt = .ok (0, t) ∧
      roceSgeAdvance wr.sge c.length wr.sgeIdx wr.sgeOff = .ok (dst, idx, off) ∧ Env s t ∧
      t.qp.attr.rqPsn = roceQpPsnInc s.qp.attr.rqPsn ∧ t.qp.rq = rest ∧
      t.qp.resp.writtenlen = s.qp.resp.writtenlen ∧
      (∀ q, q ≠ p → t.ctx.recvWrs q = s.ctx.recvWrs q) ∧
      (last = true → t.qp.resp.word = .wr 0) ∧
      (last = false → ∃ wr', wr'.sge = wr.sge ∧ wr'.sgeIdx = idx ∧ wr'.sgeOff = off ∧
        SendReady t false p wr' rest (n + c.length)) := by
  have h0 : SendReady { s with qp.resp.inPsnNak := false } first p wr rest n :=
    ⟨h.state, h.nonnull, h.live, h.cursor⟩
  obtain ⟨iovs, dst, idx, off, dsts, dmamap, -, hcut, hat, hreq⟩ := h0.recvRequest hm hc hfit hne
    fun dst cursor hcut => (Env.nak s false).placeable (hland dst cursor hcut)
  obtain ⟨hqp, -⟩ := h0.taking
  have henv := (Env.nak s false).trans (Env.taking _ first p rest)
  have hwrs : (({ s with qp.resp.inPsnNak := false } : St).taking first p rest).ctx.recvWrs =
      s.ctx.recvWrs := St.taking_recvWrs _ first p rest
  generalize ({ s with qp.resp.inPsnNak := false } : St).taking first p rest = s0 at *
  have hends : (roceRecvWrOpcodeToWc (m.opcode first last)).2.2 = last := Message.completes hm first last
  have hop : ibBthGetOpcode pkt.bth ≠ ibOpcodeAcknowledge := by
    rw [hc.opcode]
    exact messageOpcode_ne_acknowledge _ _ first last
  have henv1 : Env s ((s0.place dsts c dmamap).setRecvWr p { wr with sgeIdx := idx, sgeOff := off }) :=
    (henv.trans (Env.place s0 dsts c dmamap)).trans (Env.setRecvWr _ p _)
  cases last with
  | false =>
    rw [recvFinish_goesOn _ p _ _ _ hends, setRecvWr_setRecvWr] at hreq
    have henv2 : Env s _ := (henv.trans (Env.place s0 dsts c dmamap)).trans (Env.setRecvWr _ p
      { wr with sgeIdx := idx, sgeOff := off, byteLen := wr.byteLen + roceIovLen iovs })
    obtain ⟨msn, acks, hstep⟩ := roceRecvRc_done hop hc.psn hc.calloc hreq (henv2.canAck hcan)
    refine ⟨_, dst, idx, off, hstep, hcut, henv2.trans (Env.counted _ msn acks), ?_, ?_, ?_, ?_, ?_, ?_⟩
    · show roceQpPsnInc s0.qp.attr.rqPsn = _
      rw [hqp]
    · show s0.qp.rq = rest
      rw [hqp]
    · show s0.qp.resp.writtenlen = _
      rw [hqp]
    · intro q hq
      show (if q = p then _ else s0.ctx.recvWrs q) = _
      rw [if_neg hq, hwrs]
    · intro hlast
      cases hlast
    · refine fun _ => ⟨{ wr with
        sgeIdx := idx, sgeOff := off, byteLen := wr.byteLen + roceIovLen iovs }, rfl, rfl, rfl,
        ⟨Or.inr ⟨rfl, ?_, ?_⟩, h.nonnull, if_pos rfl, hat⟩⟩
      · show s0.qp.resp.word = _
        rw [hqp]
      · show s0.qp.rq = rest
        rw [hqp]
  | true =>
    obtain ⟨t, hfin, henv2, hqpt, hwrst⟩ := recvFinish_done (henv1.pds hpds) p
      { wr with sgeIdx := idx, sgeOff := off } (roceIovLen iovs) (if true then m.imm else none) hends
    rw [hfin] at hreq
    obtain ⟨msn, acks, hstep⟩ := roceRecvRc_done hop hc.psn hc.calloc hreq ((henv1.trans henv2).canAck hcan)
    refine ⟨_, dst, idx, off, hstep, hcut, (henv1.trans henv2).trans (Env.counted _ msn acks), ?_, ?_,
      ?_, ?_, ?_, ?_⟩
    · show roceQpPsnInc t.qp.attr.rqPsn = _
      rw [hqpt]
      show roceQpPsnInc s0.qp.attr.rqPsn = _
      rw [hqp]
    · show t.qp.rq = rest
      rw [hqpt]
      show s0.qp.rq = rest
      rw [hqp]
    · show t.qp.resp.writtenlen = _
      rw [hqpt]
      show s0.qp.resp.writtenlen = _
      rw [hqp]
    · intro q hq
      show t.ctx.recvWrs q = _
      rw [hwrst q hq]
      show (if q = p then _ else s0.ctx.recvWrs q) = _
      rw [if_neg hq, hwrs]
    · intro _
      show t.qp.resp.word = _
      rw [hqpt]
    · intro hlast
      cases hlast

/-- A SEND packet that is tried reaches the receive WR. -/
theorem sendPacket_tried {s : St} {m : Message} {first last : Bool} {p : UInt64} {wr : RecvWr}
    {rest : List UInt64} {c : List UInt8} {pkt : Inbound} {r : Int × St} (hm : m.reth = none)
    (hc : Carries m first last s.qp.attr.rqPsn c pkt)
    (hstate : first = true ∧ s.qp.resp.word.bits = 0 ∧ s.qp.rq = p :: rest ∨
      first = false ∧ s.qp.resp.word = .wr p ∧ s.qp.rq = rest)
    (hnull : p ≠ 0) (hlive : s.ctx.recvWrs p = some wr) (h : roceRecvRc s pkt = .ok r) :
    ∃ u iovs q, Env s u ∧ iovs.flatten = c ∧
      recvPayloadWr u iovs (if last then m.imm else none) (m.opcode first last) p wr = .ok q := by
  have hop : ibBthGetOpcode pkt.bth ≠ ibOpcodeAcknowledge := by
    rw [hc.opcode]
    exact messageOpcode_ne_acknowledge _ _ first last
  obtain ⟨iovs, hreq, rfl⟩ := hc.request
  obtain ⟨q, hq⟩ := roceRecvRc_tried hop hc.psn h
  have hlive0 : ({ s with qp.resp.inPsnNak := false } : St).ctx.recvWrs p = some wr := hlive
  obtain ⟨-, htake⟩ := rocePopRecvWr_taking (s := { s with qp.resp.inPsnNak := false }) hstate hnull hlive0
  unfold Message.request at hreq
  rw [hm] at hreq
  rw [recvRequest_eq, hreq, hc.opcode] at hq
  exact ⟨_, iovs, q, (Env.nak s false).trans (Env.taking _ first p rest), rfl,
    (htake iovs _ _).symm.trans hq⟩

/-- The packets of a SEND, from one of them on. -/
theorem Message.Packets.send {m : Message} {first : Bool} {psn : UInt32} {cs : List (List UInt8)}
    {pkts : List Inbound} (hpkts : m.Packets first psn cs pkts) (hm : m.reth = none) {s : St}
    {p : UInt64} {wr : RecvWr} {rest : List UInt64} {n : Nat} (h : SendReady s first p wr rest n)
    (hpsn : psn = s.qp.attr.rqPsn) (hfit : n + cs.flatten.length ≤ sgeTotal wr.sge)
    (hland : ∀ d ∈ recvPieces wr.sge wr.sgeIdx wr.sgeOff (cs.map List.length),
      Placeable s.ctx s.qp true roceAccessLocalWrite d)
    (hpds : PdsLive s.ctx) (hcan : CanAck s) :
    ∃ t, Accepts s pkts t ∧ Env s t ∧ t.qp.rq = rest ∧
      t.qp.resp.writtenlen = s.qp.resp.writtenlen ∧
      (∀ q, q ≠ p → t.ctx.recvWrs q = s.ctx.recvWrs q) ∧ t.qp.resp.word = .wr 0 := by
  induction hpkts generalizing s wr n with
  | @last first psn c pkt hc hpkt =>
    subst hpsn
    rw [List.flatten_singleton] at hfit
    obtain ⟨t, dst, idx, off, hstep, -, henv, hpsn, hrq, hlen, hwrs, hdone, -⟩ :=
      h.step hm hpkt hfit (h.nonempty hc) (fun dst cursor hcut => hland dst (mem_recvPieces hcut)) hpds hcan
    exact ⟨t, .cons hstep hpsn (.nil t), henv, hrq, hlen, hwrs, hdone rfl⟩
  | @more first psn c cs pkt pkts hc hpkt hrest ih =>
    subst hpsn
    rw [List.flatten_cons, List.length_append] at hfit
    obtain ⟨t, dst, idx, off, hstep, hcut, henv, hpsn, hrq, hlen, hwrs, -, hmore⟩ :=
      h.step hm hpkt (by omega) (Or.inl hc) (fun dst cursor hcut => hland dst (mem_recvPieces hcut)) hpds hcan
    obtain ⟨wr', hsge, rfl, rfl, hready⟩ := hmore rfl
    rw [← hsge] at hfit
    rw [List.map_cons, recvPieces_cons hcut, ← hsge] at hland
    obtain ⟨u, hacc, henv', hrq', hlen', hwrs', hword⟩ := ih hready hpsn.symm (by omega)
      (fun d hd => henv.placeable (hland d (List.mem_cons_of_mem _ hd))) (henv.pds hpds) (henv.canAck hcan)
    refine ⟨u, .cons hstep hpsn hacc, henv.trans henv', hrq', hlen'.trans hlen, ?_, hword⟩
    intro q hq
    rw [hwrs' q hq, hwrs q hq]

/-- They can only go where they land, when the keys open it. -/
theorem Message.Packets.sendLands {m : Message} {first : Bool} {psn : UInt32} {cs : List (List UInt8)}
    {pkts : List Inbound} (hpkts : m.Packets first psn cs pkts) (hm : m.reth = none) {s t : St}
    {p : UInt64} {wr : RecvWr} {rest : List UInt64} {n : Nat} (h : SendReady s first p wr rest n)
    (hpsn : psn = s.qp.attr.rqPsn) (hfit : n + cs.flatten.length ≤ sgeTotal wr.sge)
    (hpow : rocePowerOf2 s.ctx.pageSize.toUInt64 = true)
    (hopen : ∀ d ∈ recvPieces wr.sge wr.sgeIdx wr.sgeOff (cs.map List.length),
      Opens s.ctx s.qp true roceAccessLocalWrite d)
    (hpds : PdsLive s.ctx) (hcan : CanAck s) (hrun : Machine.run respStep s (pkts.map .recv) = .ok t) :
    ∀ d ∈ recvPieces wr.sge wr.sgeIdx wr.sgeOff (cs.map List.length), SgesLand s.ctx d := by
  have hfirst : ∀ {first last c lens pkt wr n s r}, SendReady s first p wr rest n →
      Carries m first last s.qp.attr.rqPsn c pkt → n + c.length ≤ sgeTotal wr.sge →
      rocePowerOf2 s.ctx.pageSize.toUInt64 = true → roceRecvRc s pkt = .ok r →
      (∀ d ∈ recvPieces wr.sge wr.sgeIdx wr.sgeOff (c.length :: lens),
        Opens s.ctx s.qp true roceAccessLocalWrite d) →
      ∀ dst cursor, roceSgeAdvance wr.sge c.length wr.sgeIdx wr.sgeOff = .ok (dst, cursor) →
        SgesLand s.ctx dst := by
    intro first last c lens pkt wr n s r h hc hfit hpow hr hopen dst cursor hcut
    have hstate := h.state.imp_left fun hfirst => (⟨hfirst.1, hfirst.2.1, hfirst.2.2.1⟩ : _ ∧ _ ∧ _)
    obtain ⟨u, iovs, q, henv, rfl, hq⟩ := sendPacket_tried hm hc hstate h.nonnull h.live hr
    have hopen := hopen dst (mem_recvPieces hcut)
    rw [← henv.pageSize] at hpow
    have hroom : iovs.flatten.length ≤ sgeRest wr.sge wr.sgeIdx wr.sgeOff := by
      rw [h.cursor.rest]
      omega
    exact (henv.sgesLand hopen).mp (recvPayloadWr_taken hq hpow hroom hcut (henv.opens hopen))
  induction hpkts generalizing s wr n with
  | @last first psn c pkt hc hpkt =>
    subst hpsn
    rw [List.flatten_singleton] at hfit
    obtain ⟨u, hstep, -⟩ := Machine.run_cons_eq_ok _ hrun
    obtain ⟨ret, hr⟩ := respStep_recv_ok hstep
    have hland := hfirst h hpkt hfit hpow hr hopen
    intro d hd
    cases hcut : roceSgeAdvance wr.sge c.length wr.sgeIdx wr.sgeOff with
    | error e =>
      rw [List.map_singleton, recvPieces, hcut] at hd
      cases hd
    | ok r =>
      obtain ⟨dst, idx, off⟩ := r
      rw [List.map_singleton, recvPieces_cons hcut, recvPieces] at hd
      rw [List.mem_singleton.mp hd]
      exact hland dst (idx, off) hcut
  | @more first psn c cs pkt pkts hc hpkt hrest ih =>
    subst hpsn
    rw [List.flatten_cons, List.length_append] at hfit
    obtain ⟨u, hstep, hrun⟩ := Machine.run_cons_eq_ok _ hrun
    obtain ⟨ret, hr⟩ := respStep_recv_ok hstep
    have hland := hfirst h hpkt (by omega) hpow hr hopen
    obtain ⟨u', dst, idx, off, hok, hcut, henv, hpsn, -, -, -, -, hmore⟩ :=
      h.step hm hpkt (by omega) (Or.inl hc)
      (fun dst cursor hcut => ((hopen dst (mem_recvPieces hcut)).placeable_iff hpow).mpr
        (hland dst cursor hcut))
      hpds hcan
    obtain ⟨-, rfl⟩ := Prod.mk.inj (Except.ok.inj (hr.symm.trans hok))
    obtain ⟨wr', hsge, rfl, rfl, hready⟩ := hmore rfl
    have hdst := hland dst _ hcut
    rw [← hsge] at hfit
    rw [List.map_cons, recvPieces_cons hcut, ← hsge] at hopen ⊢
    obtain ⟨-, hopen⟩ := List.forall_mem_cons.mp hopen
    have hlands := ih hready hpsn.symm (by omega) (by rw [henv.pageSize]; exact hpow)
      (fun d hd => henv.opens (hopen d hd)) (henv.pds hpds) (henv.canAck hcan) hrun
    exact List.forall_mem_cons.mpr ⟨hdst, fun d hd => (henv.sgesLand (hopen d hd)).mp (hlands d hd)⟩

/-! ## WRITEs -/

/-- The receiver expects the first packet of a WRITE, or a later one, with `n`
bytes written. -/
def WriteReady (s : St) (first : Bool) (reth : IbReth) (n : Nat) : Prop :=
  first = true ∧ s.qp.resp.writtenlen = 0 ∧ n = 0 ∨
    first = false ∧ s.qp.resp.word = .iova reth.va ∧ s.qp.resp.rkey = reth.rkey ∧
      s.qp.resp.writtenlen = UInt32.ofNat n ∧ UInt32.ofNat n ≠ 0

/-- The SGE for `len` bytes of a WRITE behind the first `n`. -/
def writePiece (reth : IbReth) (n len : Nat) : RoceSge :=
  ⟨reth.va + (UInt32.ofNat n).toUInt64, UInt32.ofNat len, reth.rkey⟩

/-- Those for payloads of these sizes one after the other. -/
def writePieces (reth : IbReth) : Nat → List Nat → List (List RoceSge)
  | _, [] => []
  | n, len :: lens => [writePiece reth n len] :: writePieces reth (n + len) lens

theorem mem_writePieces {reth : IbReth} {n : Nat} {lens : List Nat} {d : List RoceSge}
    (h : d ∈ writePieces reth n lens) :
    ∃ ks len ls, lens = ks ++ len :: ls ∧ d = [writePiece reth (n + ks.sum) len] := by
  induction lens generalizing n with
  | nil => cases h
  | cons len lens ih =>
    rcases List.mem_cons.mp h with rfl | h
    · exact ⟨[], len, lens, rfl, rfl⟩
    · obtain ⟨ks, len', ls, rfl, rfl⟩ := ih h
      exact ⟨len :: ks, len', ls, rfl, by rw [List.sum_cons, Nat.add_assoc]⟩

/-- The state with the RETH stored. -/
def St.aiming (s : St) (first : Bool) (reth : IbReth) : St := if first then writeStart s reth else s

theorem Env.aiming (s : St) (first : Bool) (reth : IbReth) : Env s (s.aiming first reth) := by
  cases first with
  | false => exact .refl s
  | true => exact ⟨rfl, rfl, .refl _, id⟩

theorem WriteReady.aiming {s : St} {first : Bool} {reth : IbReth} {n : Nat}
    (h : WriteReady s first reth n) :
    (s.aiming first reth).ctx = s.ctx ∧ (s.aiming first reth).qp.rq = s.qp.rq ∧
      (s.aiming first reth).qp.attr.rqPsn = s.qp.attr.rqPsn ∧
      (s.aiming first reth).qp.resp.word = .iova reth.va ∧
      (s.aiming first reth).qp.resp.rkey = reth.rkey ∧
      (s.aiming first reth).qp.resp.writtenlen = UInt32.ofNat n ∧
      ∀ iovs immdt opcode calloc,
        roceRdmaWritePayload s iovs (if first then some reth else none) immdt (!first) opcode calloc =
          writePlace (s.aiming first reth) iovs immdt opcode := by
  unfold roceRdmaWritePayload
  rcases h with ⟨rfl, hlen, rfl⟩ | ⟨rfl, hword, hrkey, hlen, hne⟩
  · refine ⟨rfl, rfl, rfl, rfl, rfl, rfl, ?_⟩
    intro iovs immdt opcode calloc
    rw [hlen]
    rfl
  · refine ⟨rfl, rfl, rfl, hword, hrkey, hlen, ?_⟩
    intro iovs immdt opcode calloc
    have hbne : (UInt32.ofNat n != 0) = true := bne_iff_ne.mpr hne
    rw [hlen, hbne, if_neg (by decide), if_neg hne]
    rfl

theorem writePlace_eq {s : St} {iovs : List (List UInt8)} {dsts : List Iovec} {dmamap : Bool}
    (immdt : Option UInt32) (opcode : UInt8)
    (h : Places s.ctx s.qp [writeSge s.qp.resp (roceIovLen iovs)] false roceAccessRemoteWrite
      dsts dmamap) :
    writePlace s iovs immdt opcode = writeFinish (s.written dsts iovs dmamap) immdt opcode := by
  unfold writePlace
  simp only [bind, Except.bind, h.placePayload iovs]
  rfl

theorem Env.pop (s : St) (p : UInt64) (rest : List UInt64) :
    Env s (({ s with qp.rq := rest } : St).emit [.popRecv p]) := ⟨rfl, rfl, mrsKept_of_eq rfl, id⟩

theorem writeFinish_plain (s : St) (immdt : Option UInt32) {opcode : UInt8} (h : ¬ WithImm opcode) :
    writeFinish s immdt opcode = .ok (0, s) := if_neg h

theorem writeFinish_imm {s : St} {p : UInt64} {rest : List UInt64} (immdt : Option UInt32)
    {opcode : UInt8} (h : WithImm opcode) (hrq : s.qp.rq = p :: rest) :
    writeFinish s immdt opcode =
      writeComplete (({ s with qp.rq := rest } : St).emit [.popRecv p]) p immdt opcode := by
  unfold WithImm at h
  unfold writeFinish rqPop
  rw [if_pos h, hrq]

theorem writeComplete_done {s : St} (hpds : PdsLive s.ctx) {p : UInt64} {wr : RecvWr}
    (hlive : s.ctx.recvWrs p = some wr) (immdt : Option UInt32) {opcode : UInt8}
    (h : WithImm opcode) :
    ∃ t, writeComplete s p immdt opcode = .ok (0, t) ∧ Env s t ∧
      t.qp = { s.qp with resp.word := .wr 0, resp.writtenlen := 0 } ∧
      ∀ q, q ≠ p → t.ctx.recvWrs q = s.ctx.recvWrs q := by
  have hsome := roceRecvCqComp_isSome s.qp opcode wr.wrId s.qp.resp.writtenlen immdt
  rw [h.completes] at hsome
  obtain ⟨e, he⟩ := Option.isSome_iff_exists.mp hsome
  have hpds' : PdsLive (s.emit [e]).ctx := hpds
  obtain ⟨ctx, hfree, hctx⟩ := roceFreeRecvWr_live hpds' p wr
  obtain ⟨hkept, hrefs⟩ := roceFreeRecvWr_refs hfree
  obtain ⟨-, hrecv⟩ := roceFreeRecvWr_ok hfree
  refine ⟨{ ({ s with ctx := ctx } : St).setWord (.wr 0) with qp.resp.writtenlen := 0 }, ?_,
    ⟨rfl, ?_, ?_, fun _ => hctx⟩, rfl, ?_⟩
  · unfold writeComplete
    simp only [hlive, he, hfree]
  · show ctx = _
    rw [hrefs]
    rfl
  · exact MrsKept.trans (mrsKept_of_eq rfl) hkept
  · intro q hq
    show ctx.recvWrs q = _
    rw [hrecv, if_neg hq]
    rfl

/-- The packet closes its WRITE: the last one, with an immediate. -/
def Message.closing (m : Message) (last : Bool) : Bool := last && m.imm.isSome

/-- One WRITE packet. -/
theorem WriteReady.step {s : St} {m : Message} {reth : IbReth} {first last : Bool} {n : Nat}
    {c : List UInt8} {pkt : Inbound} (h : WriteReady s first reth n) (hm : m.reth = some reth)
    (hc : Carries m first last s.qp.attr.rqPsn c pkt)
    (hw : Placeable s.ctx s.qp false roceAccessRemoteWrite [writePiece reth n c.length])
    (hshort : n + c.length < 2 ^ 32)
    (hwr : m.closing last = true → ∃ p wr rest, s.qp.rq = p :: rest ∧ s.ctx.recvWrs p = some wr)
    (hpds : PdsLive s.ctx) (hcan : CanAck s) :
    ∃ t, roceRecvRc s pkt = .ok (0, t) ∧ Env s t ∧
      t.qp.attr.rqPsn = roceQpPsnInc s.qp.attr.rqPsn ∧ t.qp.resp.rkey = reth.rkey ∧
      t.qp.rq = (if m.closing last then s.qp.rq.tail else s.qp.rq) ∧
      t.qp.resp.word = (if m.closing last then .wr 0 else .iova reth.va) ∧
      t.qp.resp.writtenlen = (if m.closing last then 0 else UInt32.ofNat (n + c.length)) ∧
      ∀ q, (m.closing last = true → s.qp.rq.head? ≠ some q) → t.ctx.recvWrs q = s.ctx.recvWrs q := by
  obtain ⟨iovs, hreq, rfl⟩ := hc.request
  have h0 : WriteReady { s with qp.resp.inPsnNak := false } first reth n := h
  obtain ⟨hctx, hrq, hpsn, hword, hrkey, hlen, hpay⟩ := h0.aiming
  have henv := (Env.nak s false).trans (Env.aiming _ first reth)
  generalize ({ s with qp.resp.inPsnNak := false } : St).aiming first reth = s0 at *
  have hop : ibBthGetOpcode pkt.bth ≠ ibOpcodeAcknowledge := by
    rw [hc.opcode]
    exact messageOpcode_ne_acknowledge _ _ first last
  have himm : WithImm (m.opcode first last) ↔ m.closing last = true := by
    unfold Message.opcode Message.closing
    rw [hm, Bool.and_eq_true]
    exact messageOpcode_withImm m.imm.isSome first last
  obtain ⟨dsts, dmamap, hp⟩ := hw
  have hbuf : UInt32.ofNat iovs.flatten.length = roceIovLen iovs := by
    apply UInt32.toNat_inj.mp
    rw [roceIovLen_toNat, UInt32.toNat_ofNat']
  have hp' : Places s0.ctx s0.qp [writeSge s0.qp.resp (roceIovLen iovs)] false roceAccessRemoteWrite
      dsts dmamap := by
    unfold writeSge
    rw [hword, hrkey, hlen, ← hbuf]
    exact henv.places hp
  have hrun : recvRequest { s with qp.resp.inPsnNak := false } pkt =
      writeFinish (s0.written dsts iovs dmamap) (if last then m.imm else none)
        (m.opcode first last) := by
    unfold Message.request at hreq
    rw [hm] at hreq
    rw [recvRequest_eq, hreq, hc.opcode]
    exact (hpay iovs _ _ _).trans (writePlace_eq _ _ hp')
  have henv1 : Env s (s0.written dsts iovs dmamap) :=
    henv.trans ⟨rfl, rfl, mrsKept_of_eq rfl, id⟩
  cases hclose : m.closing last with
  | false =>
    have hno : ¬ WithImm (m.opcode first last) := by
      intro hwith
      rw [himm.mp hwith] at hclose
      cases hclose
    rw [writeFinish_plain _ _ hno] at hrun
    obtain ⟨msn, acks, hstep⟩ := roceRecvRc_done hop hc.psn hc.calloc hrun (henv1.canAck hcan)
    refine ⟨_, hstep, henv1.trans (Env.counted _ msn acks), ?_, ?_, ?_, ?_, ?_, ?_⟩
    · show roceQpPsnInc s0.qp.attr.rqPsn = _
      rw [hpsn]
    · exact hrkey
    · exact hrq
    · exact hword
    · show s0.qp.resp.writtenlen + roceIovLen iovs = _
      rw [hlen, ← hbuf, if_neg (by decide), UInt32.ofNat_add]
    · intro q _
      show s0.ctx.recvWrs q = _
      rw [hctx]
  | true =>
    obtain ⟨p, wr, rest, hqueue, hlive⟩ := hwr hclose
    have hyes : WithImm (m.opcode first last) := himm.mpr hclose
    have hqueue1 : (s0.written dsts iovs dmamap).qp.rq = p :: rest := hrq.trans hqueue
    have hlive1 : (({ s0.written dsts iovs dmamap with qp.rq := rest } : St).emit
        [.popRecv p]).ctx.recvWrs p = some wr := by
      show s0.ctx.recvWrs p = _
      rw [hctx]
      exact hlive
    obtain ⟨t, hfin, henv2, hqpt, hwrs⟩ := writeComplete_done
      (s := ({ s0.written dsts iovs dmamap with qp.rq := rest } : St).emit [.popRecv p])
      (henv1.pds hpds) hlive1 (if last then m.imm else none) hyes
    rw [writeFinish_imm _ hyes hqueue1, hfin] at hrun
    have henv3 : Env s t := henv1.trans ((Env.pop _ p rest).trans henv2)
    obtain ⟨msn, acks, hstep⟩ := roceRecvRc_done hop hc.psn hc.calloc hrun (henv3.canAck hcan)
    refine ⟨_, hstep, henv3.trans (Env.counted _ msn acks), ?_, ?_, ?_, ?_, ?_, ?_⟩
    · show roceQpPsnInc t.qp.attr.rqPsn = _
      rw [hqpt]
      show roceQpPsnInc s0.qp.attr.rqPsn = _
      rw [hpsn]
    · show t.qp.resp.rkey = _
      rw [hqpt]
      exact hrkey
    · show t.qp.rq = _
      rw [hqpt, hqueue]
      rfl
    · show t.qp.resp.word = _
      rw [hqpt]
      rfl
    · show t.qp.resp.writtenlen = _
      rw [hqpt]
      rfl
    · intro q hq
      have hne : q ≠ p := by
        rintro rfl
        apply hq rfl
        rw [hqueue]
        rfl
      show t.ctx.recvWrs q = _
      rw [hwrs q hne]
      show s0.ctx.recvWrs q = _
      rw [hctx]

/-- A WRITE packet that is tried reaches the mapping. -/
theorem writePacket_tried {s : St} {m : Message} {reth : IbReth} {first last : Bool} {n : Nat}
    {c : List UInt8} {pkt : Inbound} {r : Int × St} (h : WriteReady s first reth n) (hm : m.reth = some reth)
    (hc : Carries m first last s.qp.attr.rqPsn c pkt) (hr : roceRecvRc s pkt = .ok r) :
    ∃ u iovs q, Env s u ∧
      placePayload u [writePiece reth n c.length] false roceAccessRemoteWrite iovs = .ok q := by
  have hop : ibBthGetOpcode pkt.bth ≠ ibOpcodeAcknowledge := by
    rw [hc.opcode]
    exact messageOpcode_ne_acknowledge _ _ first last
  obtain ⟨iovs, hreq, rfl⟩ := hc.request
  obtain ⟨q, hq⟩ := roceRecvRc_tried hop hc.psn hr
  have h0 : WriteReady { s with qp.resp.inPsnNak := false } first reth n := h
  obtain ⟨-, -, -, hword, hrkey, hlen, hpay⟩ := h0.aiming
  have henv := (Env.nak s false).trans (Env.aiming _ first reth)
  generalize ({ s with qp.resp.inPsnNak := false } : St).aiming first reth = s0 at *
  have hbuf : UInt32.ofNat iovs.flatten.length = roceIovLen iovs := by
    apply UInt32.toNat_inj.mp
    rw [roceIovLen_toNat, UInt32.toNat_ofNat']
  have hsge : writeSge s0.qp.resp (roceIovLen iovs) = writePiece reth n iovs.flatten.length := by
    unfold writeSge writePiece
    rw [hword, hrkey, hlen, hbuf]
    rfl
  unfold Message.request at hreq
  rw [hm] at hreq
  rw [recvRequest_eq, hreq] at hq
  have hq := (hpay iovs _ _ _).symm.trans hq
  unfold writePlace at hq
  obtain ⟨placed, hplaced, -⟩ := bind_eq_ok.mp hq
  rw [hsge] at hplaced
  exact ⟨s0, iovs, placed, henv, hplaced⟩

/-- With more packets to come the next one continues the WRITE. -/
theorem WriteReady.next {t : St} {reth : IbReth} {n : Nat} {c : List UInt8}
    (hc : c ≠ []) (hshort : n + c.length < 2 ^ 32) (hword : t.qp.resp.word = .iova reth.va)
    (hrkey : t.qp.resp.rkey = reth.rkey) (hlen : t.qp.resp.writtenlen = UInt32.ofNat (n + c.length)) :
    WriteReady t false reth (n + c.length) := by
  refine Or.inr ⟨rfl, hword, hrkey, hlen, ?_⟩
  intro hzero
  have hpos := List.length_pos_iff.mpr hc
  have hnat := congrArg UInt32.toNat hzero
  rw [UInt32.toNat_ofNat', Nat.mod_eq_of_lt hshort] at hnat
  have hnat : n + c.length = 0 := hnat
  omega

/-- The packets of a WRITE, from one of them on, when `n` bytes are written. -/
theorem Message.Packets.write {m : Message} {first : Bool} {psn : UInt32} {cs : List (List UInt8)}
    {pkts : List Inbound} (hpkts : m.Packets first psn cs pkts) {reth : IbReth}
    (hm : m.reth = some reth) {s : St} {n : Nat} (h : WriteReady s first reth n)
    (hpsn : psn = s.qp.attr.rqPsn) (hshort : n + cs.flatten.length < 2 ^ 32)
    (hland : ∀ d ∈ writePieces reth n (cs.map List.length),
      Placeable s.ctx s.qp false roceAccessRemoteWrite d)
    (hwr : m.imm.isSome = true → ∃ p wr rest, s.qp.rq = p :: rest ∧ s.ctx.recvWrs p = some wr)
    (hpds : PdsLive s.ctx) (hcan : CanAck s) :
    ∃ t, Accepts s pkts t ∧ Env s t ∧
      t.qp.rq = (if m.imm.isSome then s.qp.rq.tail else s.qp.rq) ∧
      t.qp.resp.word = (if m.imm.isSome then .wr 0 else .iova reth.va) ∧
      t.qp.resp.writtenlen = (if m.imm.isSome then 0 else UInt32.ofNat (n + cs.flatten.length)) ∧
      ∀ q, (m.imm.isSome = true → s.qp.rq.head? ≠ some q) → t.ctx.recvWrs q = s.ctx.recvWrs q := by
  induction hpkts generalizing s n with
  | @last first psn c pkt hc hpkt =>
    subst hpsn
    rw [List.flatten_singleton] at hshort ⊢
    obtain ⟨t, hstep, henv, hpsn, -, hrq, hword, hlen, hwrs⟩ :=
      h.step hm hpkt (hland _ List.mem_cons_self) hshort hwr hpds hcan
    exact ⟨t, .cons hstep hpsn (.nil t), henv, hrq, hword, hlen, hwrs⟩
  | @more first psn c cs pkt pkts hc hpkt hrest ih =>
    subst hpsn
    rw [List.flatten_cons, List.length_append] at hshort ⊢
    obtain ⟨hfirst, hland⟩ := List.forall_mem_cons.mp hland
    obtain ⟨t, hstep, henv, hpsn, hrkey, hrq, hword, hlen, hwrs⟩ :=
      h.step hm hpkt hfirst (by omega) (fun hfalse => by cases hfalse) hpds hcan
    have hrq : t.qp.rq = s.qp.rq := hrq
    have hwrs : ∀ q, t.ctx.recvWrs q = s.ctx.recvWrs q :=
      fun q => hwrs q (fun hfalse => by cases hfalse)
    have hready := WriteReady.next hc (by omega) hword hrkey hlen
    have hwr' : m.imm.isSome = true →
        ∃ p wr rest, t.qp.rq = p :: rest ∧ t.ctx.recvWrs p = some wr := by
      intro himm
      obtain ⟨p, wr, rest, hqueue, hlive⟩ := hwr himm
      exact ⟨p, wr, rest, hrq.trans hqueue, (hwrs p).trans hlive⟩
    obtain ⟨u, hacc, henv', hrq', hword', hlen', hwrs'⟩ := ih hready hpsn.symm (by omega)
      (fun d hd => henv.placeable (hland d hd)) hwr' (henv.pds hpds) (henv.canAck hcan)
    refine ⟨u, .cons hstep hpsn hacc, henv.trans henv', ?_, hword', ?_, ?_⟩
    · rw [hrq', hrq]
    · rw [hlen', Nat.add_assoc]
    · intro q hq
      rw [hwrs' q (by rwa [hrq]), hwrs q]

/-- They can only go where they land, when the key opens it. -/
theorem Message.Packets.writeLands {m : Message} {first : Bool} {psn : UInt32} {cs : List (List UInt8)}
    {pkts : List Inbound} (hpkts : m.Packets first psn cs pkts) {reth : IbReth}
    (hm : m.reth = some reth) {s t : St} {n : Nat} (h : WriteReady s first reth n)
    (hpsn : psn = s.qp.attr.rqPsn) (hshort : n + cs.flatten.length < 2 ^ 32)
    (hpow : rocePowerOf2 s.ctx.pageSize.toUInt64 = true)
    (hopen : ∀ d ∈ writePieces reth n (cs.map List.length), Opens s.ctx s.qp false roceAccessRemoteWrite d)
    (hpds : PdsLive s.ctx) (hcan : CanAck s) (hrun : Machine.run respStep s (pkts.map .recv) = .ok t) :
    ∀ d ∈ writePieces reth n (cs.map List.length), SgesLand s.ctx d := by
  have hfirst : ∀ {first last c pkt n s r}, WriteReady s first reth n →
      Carries m first last s.qp.attr.rqPsn c pkt → rocePowerOf2 s.ctx.pageSize.toUInt64 = true →
      roceRecvRc s pkt = .ok r → Opens s.ctx s.qp false roceAccessRemoteWrite [writePiece reth n c.length] →
      SgesLand s.ctx [writePiece reth n c.length] := by
    intro first last c pkt n s r h hc hpow hr hopen
    obtain ⟨u, iovs, q, henv, hq⟩ := writePacket_tried h hm hc hr
    rw [← henv.pageSize] at hpow
    exact (henv.sgesLand hopen).mp ((henv.opens hopen).lands hpow hq)
  induction hpkts generalizing s n with
  | @last first psn c pkt hc hpkt =>
    subst hpsn
    obtain ⟨u, hstep, -⟩ := Machine.run_cons_eq_ok _ hrun
    obtain ⟨ret, hr⟩ := respStep_recv_ok hstep
    intro d hd
    rw [List.mem_singleton.mp hd]
    exact hfirst h hpkt hpow hr (hopen _ List.mem_cons_self)
  | @more first psn c cs pkt pkts hc hpkt hrest ih =>
    subst hpsn
    rw [List.flatten_cons, List.length_append] at hshort
    obtain ⟨u, hstep, hrun⟩ := Machine.run_cons_eq_ok _ hrun
    obtain ⟨ret, hr⟩ := respStep_recv_ok hstep
    obtain ⟨hopens, hopen⟩ := List.forall_mem_cons.mp hopen
    have hlands := hfirst h hpkt hpow hr hopens
    obtain ⟨u', hok, henv, hpsn, hrkey, -, hword, hlen, -⟩ := h.step hm hpkt
      ((hopens.placeable_iff hpow).mpr hlands) (by omega) (fun hfalse => by cases hfalse) hpds hcan
    obtain ⟨-, rfl⟩ := Prod.mk.inj (Except.ok.inj (hr.symm.trans hok))
    have hready := WriteReady.next hc (by omega) hword hrkey hlen
    have hrest' := ih hready hpsn.symm (by omega) (by rw [henv.pageSize]; exact hpow)
      (fun d hd => henv.opens (hopen d hd)) (henv.pds hpds) (henv.canAck hcan) hrun
    exact List.forall_mem_cons.mpr ⟨hlands, fun d hd => (henv.sgesLand (hopen d hd)).mp (hrest' d hd)⟩

/-! ## Messages one after the other -/

/-- A message up to its bytes: the range it writes, whether it has an immediate, and
how much its packets carry. -/
structure Outline where
  reth : Option IbReth
  imm : Bool
  sizes : List Nat

def Message.outline (m : Message) : Outline := ⟨m.reth, m.imm.isSome, m.payloads.map List.length⟩

@[simp] theorem Message.outline_reth (m : Message) : m.outline.reth = m.reth := rfl

@[simp] theorem Message.outline_imm (m : Message) : m.outline.imm = m.imm.isSome := rfl

theorem Message.sum_sizes (m : Message) : m.outline.sizes.sum = m.total := List.length_flatten.symm

/-- The receive WRs a message leaves. -/
def Outline.rest (o : Outline) (rq : List UInt64) : List UInt64 :=
  if o.reth.isNone ∨ o.imm then rq.tail else rq

/-- A message finds what it needs when `rq` is the receive queue: a receive WR that
is large enough for a SEND, one for the immediate of a WRITE, and keys that open
the memory. -/
def Provided (s : St) (o : Outline) (rq : List UInt64) : Prop :=
  match o.reth with
  | none => ∃ p wrId sge, rq.head? = some p ∧ s.ctx.recvWrs p = some (.fresh wrId sge) ∧
      o.sizes.sum ≤ sgeTotal sge ∧
      ∀ d ∈ recvPieces sge 0 0 o.sizes, Opens s.ctx s.qp true roceAccessLocalWrite d
  | some reth =>
    (∀ d ∈ writePieces reth 0 o.sizes, Opens s.ctx s.qp false roceAccessRemoteWrite d) ∧
      (o.imm = true → ∃ p wr, rq.head? = some p ∧ s.ctx.recvWrs p = some wr)

/-- `roce_sge_len` can measure the receive WR of a SEND, and the iovecs of the MRs
take each payload. -/
def MessageLands (s : St) (o : Outline) (rq : List UInt64) : Prop :=
  match o.reth with
  | none => ∀ p wrId sge, rq.head? = some p → s.ctx.recvWrs p = some (.fresh wrId sge) →
      sge ≠ [] ∧ sgeTotal sge < 2 ^ 32 ∧ ∀ d ∈ recvPieces sge 0 0 o.sizes, SgesLand s.ctx d
  | some reth => ∀ d ∈ writePieces reth 0 o.sizes, SgesLand s.ctx d

/-- `P` of each message, with the receive queue that those before it leave. -/
def EachFinds (P : Outline → List UInt64 → Prop) : List Outline → List UInt64 → Prop
  | [], _ => True
  | o :: os, rq => P o rq ∧ EachFinds P os (o.rest rq)

theorem RecvWr.fresh_inj {wrId wrId' : UInt64} {sge sge' : List RoceSge}
    (h : RecvWr.fresh wrId sge = .fresh wrId' sge') : wrId = wrId' ∧ sge = sge' :=
  ⟨congrArg RecvWr.wrId h, congrArg RecvWr.sge h⟩

section env

variable {s t : St} {o : Outline} {rq : List UInt64}

theorem Provided.env (h : Provided s o rq) (henv : Env s t)
    (hwrs : ∀ p ∈ rq, t.ctx.recvWrs p = s.ctx.recvWrs p) :
    Provided t o rq ∧ (MessageLands t o rq ↔ MessageLands s o rq) := by
  unfold Provided at h ⊢
  unfold MessageLands
  cases ho : o.reth with
  | none =>
    rw [ho] at h
    obtain ⟨p, wrId, sge, hhead, hlive, htotal, hopen⟩ := h
    have hsame := hwrs p (List.mem_of_mem_head? hhead)
    refine ⟨⟨p, wrId, sge, hhead, hsame.trans hlive, htotal, fun d hd => henv.opens (hopen d hd)⟩, ?_⟩
    have hlands : (∀ d ∈ recvPieces sge 0 0 o.sizes, SgesLand t.ctx d) ↔
        ∀ d ∈ recvPieces sge 0 0 o.sizes, SgesLand s.ctx d :=
      forall₂_congr fun d hd => henv.sgesLand (hopen d hd)
    constructor
    · intro h p' wrId' sge' hhead' hlive'
      obtain rfl := Option.some.inj (hhead.symm.trans hhead')
      obtain ⟨rfl, rfl⟩ := RecvWr.fresh_inj (Option.some.inj (hlive.symm.trans hlive'))
      obtain ⟨hne, hshort, hland⟩ := h p wrId sge hhead (hsame.trans hlive)
      exact ⟨hne, hshort, hlands.mp hland⟩
    · intro h p' wrId' sge' hhead' hlive'
      obtain rfl := Option.some.inj (hhead.symm.trans hhead')
      obtain ⟨rfl, rfl⟩ := RecvWr.fresh_inj (Option.some.inj ((hsame.trans hlive).symm.trans hlive'))
      obtain ⟨hne, hshort, hland⟩ := h p wrId sge hhead hlive
      exact ⟨hne, hshort, hlands.mpr hland⟩
  | some reth =>
    rw [ho] at h
    obtain ⟨hopen, himm⟩ := h
    refine ⟨⟨fun d hd => henv.opens (hopen d hd), ?_⟩, forall₂_congr fun d hd => henv.sgesLand (hopen d hd)⟩
    intro hsome
    obtain ⟨p, wr, hhead, hlive⟩ := himm hsome
    exact ⟨p, wr, hhead, (hwrs p (List.mem_of_mem_head? hhead)).trans hlive⟩

theorem Outline.rest_subset (o : Outline) (rq : List UInt64) : o.rest rq ⊆ rq := by
  unfold Outline.rest
  split
  · exact (List.tail_sublist rq).subset
  · exact List.Subset.refl rq

theorem eachFinds_env {os : List Outline} (h : EachFinds (Provided s) os rq) (henv : Env s t)
    (hwrs : ∀ p ∈ rq, t.ctx.recvWrs p = s.ctx.recvWrs p) :
    EachFinds (Provided t) os rq ∧ (EachFinds (MessageLands t) os rq ↔ EachFinds (MessageLands s) os rq) := by
  induction os generalizing rq with
  | nil => exact ⟨trivial, Iff.rfl⟩
  | cons o os ih =>
    obtain ⟨hfirst, hrest⟩ := h
    obtain ⟨hprov, hlands⟩ := hfirst.env henv hwrs
    obtain ⟨hprovs, hall⟩ := ih hrest fun p hp => hwrs p (o.rest_subset rq hp)
    exact ⟨⟨hprov, hprovs⟩, and_congr hlands hall⟩

end env

/-- Messages with their packets, PSN after PSN. -/
def InOrder : UInt32 → List (Message × List Inbound) → Prop
  | _, [] => True
  | psn, (m, pkts) :: ms => m.WellFormed psn pkts ∧ InOrder (roceQpPsnInc^[pkts.length] psn) ms

/-- The packets of a message arrive one after the other. -/
def recvMessage (s : St) (m : Message × List Inbound) : Except Fault St :=
  Machine.run respStep s (m.2.map .recv)

/-- What the messages of a run rely on: a connected QP that can answer, PDs in
place, each receive WR posted once. -/
structure Listening (s : St) : Prop where
  canAck : CanAck s
  pds : PdsLive s.ctx
  nodup : s.qp.rq.Nodup
  nonnull : 0 ∉ s.qp.rq

/-- The message resets the union when it ends, or had nothing to put there. -/
def Message.Closes (m : Message) : Prop :=
  m.reth = none ∨ m.imm.isSome = true ∨
    m.total = 0 ∧ ∀ reth, m.reth = some reth → reth.va = 0

theorem roceSgeLen_fresh {sges : List RoceSge} {len : UInt32} (h : roceSgeLen sges 0 0 = .ok len) :
    sges ≠ [] ∧ sgeTotal sges < 2 ^ 32 := by
  obtain ⟨⟨sge, rest, hdrop, -⟩, hlen⟩ := roceSgeLen_ok h
  rw [sgeRest_zero] at hlen
  refine ⟨?_, ?_⟩
  · rintro rfl
    cases hdrop
  · rw [← hlen]
    exact len.toNat_lt

/-- The first packet of a message. -/
theorem Message.Packets.head {m : Message} {first : Bool} {psn : UInt32} {cs : List (List UInt8)}
    {pkts : List Inbound} (h : m.Packets first psn cs pkts) :
    ∃ last c pkt pkts', pkts = pkt :: pkts' ∧ Carries m first last psn c pkt := by
  cases h with
  | last hc hpkt => exact ⟨_, _, _, _, rfl, hpkt⟩
  | more hc hpkt hrest => exact ⟨_, _, _, _, rfl, hpkt⟩

theorem Message.WellFormed.short {m : Message} {psn : UInt32} {pkts : List Inbound} {reth : IbReth}
    (h : m.WellFormed psn pkts) (hm : m.reth = some reth) : 0 + m.payloads.flatten.length < 2 ^ 32 := by
  have hdma := h.dmalen reth hm
  have hlt := reth.dmalen.toNat_lt
  unfold Message.total at hdma
  omega

/-- One message on an idle responder. -/
theorem recvMessage_ok {s : St} {m : Message} {pkts : List Inbound} (hl : Listening s)
    (hidle : RespIdle s) (hwf : m.WellFormed s.qp.attr.rqPsn pkts)
    (hpow : rocePowerOf2 s.ctx.pageSize.toUInt64 = true) (hprov : Provided s m.outline s.qp.rq)
    (hlands : MessageLands s m.outline s.qp.rq) :
    ∃ t, Accepts s pkts t ∧ Env s t ∧ Listening t ∧ t.qp.rq = m.outline.rest s.qp.rq ∧
      (∀ p ∈ t.qp.rq, t.ctx.recvWrs p = s.ctx.recvWrs p) ∧ (RespIdle t ↔ m.Closes) := by
  unfold Provided at hprov
  unfold MessageLands at hlands
  rw [m.outline_reth] at hprov hlands
  have hlisten : ∀ {t}, Env s t → t.qp.rq = m.outline.rest s.qp.rq → Listening t := by
    intro t henv hrq
    refine ⟨henv.canAck hl.canAck, henv.pds hl.pds, ?_, ?_⟩
    · rw [hrq]
      unfold Outline.rest
      split
      · exact hl.nodup.sublist (List.tail_sublist _)
      · exact hl.nodup
    · rw [hrq]
      exact fun h0 => hl.nonnull (m.outline.rest_subset _ h0)
  cases hm : m.reth with
  | none =>
    rw [hm] at hprov hlands
    obtain ⟨p, wrId, sge, hhead, hlive, htotal, hopen⟩ := hprov
    obtain ⟨hne, hshort, hland⟩ := hlands p wrId sge hhead hlive
    obtain ⟨rest, hqueue⟩ := List.head?_eq_some_iff.mp hhead
    have hready : SendReady s true p (.fresh wrId sge) rest 0 := by
      refine ⟨Or.inl ⟨rfl, hidle.word, hqueue, rfl⟩, ?_, hlive, RecvWr.at_fresh wrId hne hshort⟩
      rintro rfl
      exact hl.nonnull (List.mem_of_mem_head? hhead)
    have hfit : 0 + m.payloads.flatten.length ≤ sgeTotal (RecvWr.fresh wrId sge).sge := by
      rw [m.sum_sizes] at htotal
      rw [Nat.zero_add]
      exact htotal
    obtain ⟨t, hacc, henv, hrq, hlen, hwrs, hword⟩ :=
      hwf.packets.send hm hready rfl hfit
        (fun d hd => ((hopen d hd).placeable_iff hpow).mpr (hland d hd)) hl.pds hl.canAck
    have hrest : t.qp.rq = m.outline.rest s.qp.rq := by
      unfold Outline.rest
      rw [m.outline_reth, hm, if_pos (Or.inl (by decide)), hrq, hqueue, List.tail_cons]
    refine ⟨t, hacc, henv, hlisten henv hrest, hrest, ?_, ?_⟩
    · intro q hq
      apply hwrs
      rintro rfl
      have hnd := hl.nodup
      rw [hqueue] at hnd
      rw [hrq] at hq
      exact (List.nodup_cons.mp hnd).1 hq
    · refine iff_of_true ⟨?_, ?_⟩ (Or.inl hm)
      · rw [hword]
        rfl
      · rw [hlen, hidle.writtenlen]
  | some reth =>
    rw [hm] at hprov hlands
    obtain ⟨hopen, himm⟩ := hprov
    have hready : WriteReady s true reth 0 := Or.inl ⟨rfl, hidle.writtenlen, rfl⟩
    have hlen := hwf.short hm
    have hwr : m.imm.isSome = true → ∃ p wr rest, s.qp.rq = p :: rest ∧ s.ctx.recvWrs p = some wr := by
      intro hsome
      obtain ⟨p, wr, hhead, hlive⟩ := himm hsome
      obtain ⟨rest, hqueue⟩ := List.head?_eq_some_iff.mp hhead
      exact ⟨p, wr, rest, hqueue, hlive⟩
    obtain ⟨t, hacc, henv, hrq, hword, hwritten, hwrs⟩ :=
      hwf.packets.write hm hready rfl hlen
        (fun d hd => ((hopen d hd).placeable_iff hpow).mpr (hlands d hd)) hwr hl.pds hl.canAck
    have hrest : t.qp.rq = m.outline.rest s.qp.rq := by
      unfold Outline.rest
      rw [m.outline_reth, m.outline_imm, hm, hrq]
      cases m.imm <;> rfl
    refine ⟨t, hacc, henv, hlisten henv hrest, hrest, ?_, ?_⟩
    · intro q hq
      apply hwrs
      intro hsome hhead
      rw [hrq, if_pos hsome] at hq
      obtain ⟨rest, hqueue⟩ := List.head?_eq_some_iff.mp hhead
      have hnd := hl.nodup
      rw [hqueue] at hnd hq
      exact (List.nodup_cons.mp hnd).1 hq
    · by_cases hsome : m.imm.isSome = true
      · rw [if_pos hsome] at hword hwritten
        exact iff_of_true ⟨by rw [hword]; rfl, hwritten⟩ (Or.inr (Or.inl hsome))
      · rw [if_neg hsome] at hword hwritten
        have htotal : t.qp.resp.writtenlen = 0 ↔ m.total = 0 := by
          unfold Message.total
          rw [hwritten, ← UInt32.toNat_inj, UInt32.toNat_ofNat', Nat.mod_eq_of_lt hlen, Nat.zero_add]
          rfl
        constructor
        · rintro ⟨hbits, hzero⟩
          refine Or.inr (Or.inr ⟨htotal.mp hzero, ?_⟩)
          intro reth' hm'
          rw [hword] at hbits
          obtain rfl := Option.some.inj (hm.symm.trans hm')
          exact hbits
        · rintro (hnone | himm' | ⟨hzero, hva⟩)
          · rw [hm] at hnone
            cases hnone
          · exact absurd himm' hsome
          · refine ⟨?_, htotal.mpr hzero⟩
            rw [hword]
            exact hva reth hm

/-- A message that the responder takes without a fault lands. -/
theorem recvMessage_lands {s t : St} {m : Message} {pkts : List Inbound} (hl : Listening s)
    (hidle : RespIdle s) (hwf : m.WellFormed s.qp.attr.rqPsn pkts)
    (hpow : rocePowerOf2 s.ctx.pageSize.toUInt64 = true) (hprov : Provided s m.outline s.qp.rq)
    (h : recvMessage s (m, pkts) = .ok t) : MessageLands s m.outline s.qp.rq := by
  unfold Provided at hprov
  unfold MessageLands
  rw [m.outline_reth] at hprov ⊢
  cases hm : m.reth with
  | none =>
    rw [hm] at hprov
    obtain ⟨p, wrId, sge, hhead, hlive, htotal, hopen⟩ := hprov
    obtain ⟨rest, hqueue⟩ := List.head?_eq_some_iff.mp hhead
    have hnull : p ≠ 0 := by
      rintro rfl
      exact hl.nonnull (List.mem_of_mem_head? hhead)
    -- the first packet measures the receive WR
    have hcounts : sge ≠ [] ∧ sgeTotal sge < 2 ^ 32 := by
      obtain ⟨last, c, pkt, pkts', rfl, hc⟩ := hwf.packets.head
      obtain ⟨u, hstep, -⟩ := Machine.run_cons_eq_ok _ h
      obtain ⟨ret, hr⟩ := respStep_recv_ok hstep
      obtain ⟨v, iovs, q, -, -, hq⟩ :=
        sendPacket_tried hm hc (Or.inl ⟨rfl, hidle.word, hqueue⟩) hnull hlive hr
      unfold recvPayloadWr at hq
      obtain ⟨len, hlen, -⟩ := bind_eq_ok.mp hq
      exact roceSgeLen_fresh hlen
    intro p' wrId' sge' hhead' hlive'
    obtain rfl := Option.some.inj (hhead.symm.trans hhead')
    obtain ⟨rfl, rfl⟩ := RecvWr.fresh_inj (Option.some.inj (hlive.symm.trans hlive'))
    have hready : SendReady s true p (.fresh wrId sge) rest 0 :=
      ⟨Or.inl ⟨rfl, hidle.word, hqueue, rfl⟩, hnull, hlive, RecvWr.at_fresh wrId hcounts.1 hcounts.2⟩
    have hfit : 0 + m.payloads.flatten.length ≤ sgeTotal (RecvWr.fresh wrId sge).sge := by
      rw [m.sum_sizes] at htotal
      rw [Nat.zero_add]
      exact htotal
    exact ⟨hcounts.1, hcounts.2, hwf.packets.sendLands hm hready rfl hfit hpow hopen hl.pds hl.canAck h⟩
  | some reth =>
    rw [hm] at hprov
    obtain ⟨hopen, himm⟩ := hprov
    have hwr : m.imm.isSome = true → ∃ p wr rest, s.qp.rq = p :: rest ∧ s.ctx.recvWrs p = some wr := by
      intro hsome
      obtain ⟨p, wr, hhead, hlive⟩ := himm hsome
      obtain ⟨rest, hqueue⟩ := List.head?_eq_some_iff.mp hhead
      exact ⟨p, wr, rest, hqueue, hlive⟩
    exact hwf.packets.writeLands hm (Or.inl ⟨rfl, hidle.writtenlen, rfl⟩) rfl (hwf.short hm) hpow hopen hl.pds
      hl.canAck h

/-- **Between messages.**  After each message of a run the responder is idle exactly
when each of them closes and lands. -/
theorem respRun_idle {s : St} {ms : List (Message × List Inbound)} (hl : Listening s)
    (hpow : rocePowerOf2 s.ctx.pageSize.toUInt64 = true) (hidle : RespIdle s)
    (hord : InOrder s.qp.attr.rqPsn ms) (hprov : EachFinds (Provided s) (ms.map (·.1.outline)) s.qp.rq) :
    (∀ js ks, ms = js ++ ks → ∃ t, Machine.run recvMessage s js = .ok t ∧ RespIdle t) ↔
      (∀ m ∈ ms, m.1.Closes) ∧ EachFinds (MessageLands s) (ms.map (·.1.outline)) s.qp.rq := by
  induction ms generalizing s with
  | nil =>
    refine iff_of_true ?_ ⟨fun m hm => absurd hm List.not_mem_nil, trivial⟩
    intro js ks hjk
    obtain ⟨rfl, -⟩ := List.append_eq_nil_iff.mp hjk.symm
    exact ⟨s, rfl, hidle⟩
  | cons m ms ih =>
    obtain ⟨m, pkts⟩ := m
    obtain ⟨hwf, hord'⟩ := hord
    obtain ⟨hfirst, hprov'⟩ := hprov
    -- behind a message that lands the run goes on with the others
    have hstep : MessageLands s m.outline s.qp.rq → ∃ t, recvMessage s (m, pkts) = .ok t ∧
        (RespIdle t ↔ m.Closes) ∧
        (RespIdle t → ((∀ js ks, ms = js ++ ks → ∃ u, Machine.run recvMessage t js = .ok u ∧ RespIdle u) ↔
          (∀ m ∈ ms, m.1.Closes) ∧
            EachFinds (MessageLands s) (ms.map (·.1.outline)) (m.outline.rest s.qp.rq))) := by
      intro hlands
      obtain ⟨t, hacc, henv, hl', hrq, hwrs, hcloses⟩ := recvMessage_ok hl hidle hwf hpow hfirst hlands
      rw [← hacc.rqPsn] at hord'
      refine ⟨t, hacc.run, hcloses, fun hidle' => ?_⟩
      rw [hrq] at hwrs
      obtain ⟨hprovs, hall⟩ := eachFinds_env hprov' henv hwrs
      rw [← hrq] at hprovs hall
      rw [ih hl' (by rw [henv.pageSize]; exact hpow) hidle' hord' hprovs, hall, hrq]
    constructor
    · intro h
      obtain ⟨u, hrun, hidle'⟩ := h [(m, pkts)] ms rfl
      obtain ⟨v, hmsg, -⟩ := Machine.run_cons_eq_ok _ hrun
      have hlands := recvMessage_lands hl hidle hwf hpow hfirst hmsg
      obtain ⟨t, hok, hcloses, hrest⟩ := hstep hlands
      rw [Machine.run_cons_ok _ _ hok] at hrun
      obtain rfl := Except.ok.inj hrun
      obtain ⟨hcl, hls⟩ := (hrest hidle').mp fun js ks hjk => by
        obtain ⟨v, hrun', hidle''⟩ := h ((m, pkts) :: js) ks (by rw [hjk, List.cons_append])
        rw [Machine.run_cons_ok _ _ hok] at hrun'
        exact ⟨v, hrun', hidle''⟩
      exact ⟨List.forall_mem_cons.mpr ⟨hcloses.mp hidle', hcl⟩, hlands, hls⟩
    · rintro ⟨hcl, hlands, hls⟩ js ks hjk
      obtain ⟨hclose, hcl⟩ := List.forall_mem_cons.mp hcl
      cases js with
      | nil => exact ⟨s, rfl, hidle⟩
      | cons j js =>
        rw [List.cons_append, List.cons.injEq] at hjk
        obtain ⟨rfl, hjk⟩ := hjk
        obtain ⟨t, hok, hcloses, hrest⟩ := hstep hlands
        have hidle' := hcloses.mpr hclose
        obtain ⟨u, hrun, hidle''⟩ := (hrest hidle').mpr ⟨hcl, hls⟩ js ks hjk
        exact ⟨u, by rw [Machine.run_cons_ok _ _ hok, hrun], hidle''⟩

theorem smallRecv_mappable : Mappable (smallRecv 2 1).ctx (smallRecv 2 1).qp [⟨0x10000, 2, 0⟩] := by
  intro bytes idx off dst idx' off' _ hcut
  have hplace : ∀ o n : Nat, o + n ≤ 2 → 0 < n → ∃ dsts dmamap,
      Places (smallRecv 2 1).ctx (smallRecv 2 1).qp [⟨0x10000 + UInt64.ofNat o, UInt32.ofNat n, 0⟩]
        true roceAccessLocalWrite dsts dmamap ∧
      iovTotal (dsts.map some) = sgeTotal [⟨0x10000 + UInt64.ofNat o, UInt32.ofNat n, 0⟩] := by
    intro o n hle hpos
    have ho : o = 0 ∧ n = 1 ∨ o = 0 ∧ n = 2 ∨ o = 1 ∧ n = 1 := by omega
    rcases ho with ⟨rfl, rfl⟩ | ⟨rfl, rfl⟩ | ⟨rfl, rfl⟩
    · exact ⟨[⟨0x10000, 1⟩], false, ⟨rfl, rfl, by decide⟩, rfl⟩
    · exact ⟨[⟨0x10000, 2⟩], false, ⟨rfl, rfl, by decide⟩, rfl⟩
    · exact ⟨[⟨0x10001, 1⟩], false, ⟨rfl, rfl, by decide⟩, rfl⟩
  have hlen : (2 : UInt32).toNat = 2 := rfl
  unfold roceSgeAdvance at hcut
  cases idx with
  | succ idx =>
    rw [List.drop_succ_cons, List.drop_nil] at hcut
    cases hcut
  | zero =>
    rw [List.drop_zero] at hcut
    simp only [hlen, sgeAdvanceLoop] at hcut
    split at hcut
    · next hoff =>
      split at hcut
      · obtain ⟨rfl, -⟩ := Prod.mk.inj (Except.ok.inj hcut)
        exact ⟨[], false, ⟨rfl, rfl, by decide⟩, rfl⟩
      · split at hcut
        · cases hcut
        · next r hr =>
          obtain rfl := Except.ok.inj hcut
          split at hr
          · obtain ⟨rfl, -⟩ := Prod.mk.inj (Option.some.inj hr)
            exact hplace off bytes (by omega) (by omega)
          · split at hr
            · obtain ⟨rfl, -⟩ := Prod.mk.inj (Option.some.inj hr)
              exact hplace off bytes (by omega) (by omega)
            · cases hr
    · cases hcut

/-- With one MR the PDs are in place when its PD is. -/
theorem pdsLive_one {ctx : RoceCtx} {mr : RoceMr} (hmrs : ctx.mrs = [some mr, none])
    (hpd : roceResourceGet ctx.pds mr.pd ≠ none) : PdsLive ctx := by
  intro i mr' hmr
  unfold roceGetMrNoref roceResourceGet at hmr
  rw [hmrs] at hmr
  match i with
  | 0 =>
    obtain rfl := Option.some.inj hmr
    exact hpd
  | 1 => cases hmr
  | i + 2 => cases hmr

theorem smallRecv_listening : Listening (smallRecv 2 1) :=
  ⟨⟨rfl, smallPort, Vector.replicate 16 0, rfl, rfl⟩, pdsLive_one rfl (Option.some_ne_none _),
    List.nodup_singleton 0x1000, by decide⟩

/-- The MR of the small systems. -/
def pageMr (ref : UInt32) : RoceMr where
  ref := ref
  pd := 0
  state := .valid
  type := .mem
  iova := 0x10000
  length := 4096
  lkey := 0
  rkey := 0
  access := 3
  pageSize := 4096
  iovs := [⟨0x10000, 4096⟩]

section pageMr

variable {ctx : RoceCtx} {ref len : UInt32} {addr : UInt64}

/-- Its page is open to everyone, -/
theorem pageMr_opens {qp : RoceQp} {isLocal : Bool} {access : UInt32}
    (hlive : roceGetMrNoref ctx (roceKeyToIndex 0) = some (pageMr ref)) (hpd : qp.pd = 0)
    (haccess : access &&& 3 = access)
    (hlo : 0x10000 ≤ addr.toNat) (hhi : addr.toNat + len.toNat ≤ 0x11000) :
    Opens ctx qp isLocal access [⟨addr, len, 0⟩] := by
  refine ⟨.mem, fun sge hsge => ?_⟩
  rw [List.mem_singleton.mp hsge]
  refine ⟨pageMr ref, ⟨hlive, by cases isLocal <;> rfl, hpd.symm, rfl, haccess⟩, rfl, ?_⟩
  rw [if_neg (by decide)]
  constructor
  · rw [UInt64.le_iff_toNat_le]
    exact hlo
  · have hend : ((pageMr ref).iova + (pageMr ref).length.toUInt64).toNat = 0x11000 := by
      show ((0x10000 : UInt64) + (4096 : UInt32).toUInt64).toNat = _
      decide
    rw [UInt64.le_iff_toNat_le, hend, UInt64.toNat_add, UInt32.toNat_toUInt64]
    exact Nat.le_trans (Nat.mod_le _ _) hhi

/-- and takes every payload. -/
theorem pageMr_lands (hlive : roceGetMrNoref ctx (roceKeyToIndex 0) = some (pageMr ref))
    (hpage : ctx.pageSize = 4096)
    (hne : len ≠ 0) (hlo : 0x10000 ≤ addr.toNat) (hhi : addr.toNat + len.toNat ≤ 0x11000) :
    SgesLand ctx [⟨addr, len, 0⟩] := by
  have hpos : 0 < len.toNat := Nat.pos_of_ne_zero fun h0 => hne (UInt32.toNat_inj.mp h0)
  have hsize : ctx.pageSize.toNat = 4096 := by rw [hpage]; rfl
  have hbelow : rangeWraps 4096 addr.toNat len.toNat = 0 := by
    unfold rangeWraps
    omega
  have hord : Ordinary ctx ⟨addr, len, 0⟩ (pageMr ref) := by
    have hmem : (pageMr ref).type ≠ .dma := by
      show MrType.mem ≠ .dma
      decide
    refine ⟨hlive, hmem, hpage.symm, ?_, hlo, ?_, by show 1 < 2 ^ 32; decide, fun h0 => absurd h0 hne, ?_⟩
    · intro iov hiov
      rw [List.mem_singleton.mp hiov, hsize]
    · have hend : ((pageMr ref).iova.toNat / 4096 + (pageMr ref).iovs.length) * 4096 = 0x11000 := by
        show ((0x10000 : UInt64).toNat / 4096 + 1) * 4096 = _
        decide
      rw [hsize, hend]
      exact hhi
    · rw [hsize]
      exact hbelow
  have hcount : sgePageCount ctx.pageSize ⟨addr, len, 0⟩ = 1 := by
    unfold sgePageCount rangePages
    rw [hsize]
    show (addr.toNat + len.toNat + 4096 - 1) / 4096 - addr.toNat / 4096 +
      rangeWraps 4096 addr.toNat len.toNat * _ = 1
    rw [hbelow]
    omega
  refine sgesLand_of_ordinary (by rw [hpage]; decide) ?_ ?_
  · intro sge hsge
    rw [List.mem_singleton.mp hsge]
    exact ⟨hne, pageMr ref, hord⟩
  · rw [List.map_singleton, List.sum_singleton, hcount]
    decide

theorem pageMr_placeable {qp : RoceQp} {isLocal : Bool} {access : UInt32}
    (hlive : roceGetMrNoref ctx (roceKeyToIndex 0) = some (pageMr ref)) (hpage : ctx.pageSize = 4096)
    (hpd : qp.pd = 0) (haccess : access &&& 3 = access) (hne : len ≠ 0) (hlo : 0x10000 ≤ addr.toNat)
    (hhi : addr.toNat + len.toNat ≤ 0x11000) : Placeable ctx qp isLocal access [⟨addr, len, 0⟩] :=
  ((pageMr_opens hlive hpd haccess hlo hhi).placeable_iff (by rw [hpage]; decide)).mpr
    (pageMr_lands hlive hpage hne hlo hhi)

end pageMr

/-- An RDMA WRITE of four bytes. -/
def plainWrite : Message × List Inbound :=
  (⟨some ⟨0x10000, 0, 4⟩, none, [[1, 2, 3, 4]]⟩,
    [smallPkt ibOpcodeRdmaWriteOnly 0 [ibRethCodec.enc ⟨0x10000, 0, 4⟩, [1, 2, 3, 4]]])

/-- Its payload lands, and its length and its address stay behind. -/
theorem respRun_idle_write :
    Listening (smallRecv 2 1) ∧ RespIdle (smallRecv 2 1) ∧
      InOrder (smallRecv 2 1).qp.attr.rqPsn [plainWrite] ∧
      EachFinds (Provided (smallRecv 2 1)) [plainWrite.1.outline] (smallRecv 2 1).qp.rq ∧
      EachFinds (MessageLands (smallRecv 2 1)) [plainWrite.1.outline] (smallRecv 2 1).qp.rq ∧
      ∃ t, Machine.run recvMessage (smallRecv 2 1) [plainWrite] = .ok t ∧
        t.qp.resp.writtenlen = 4 ∧ t.qp.resp.word = .iova 0x10000 ∧ ¬ RespIdle t := by
  have hlive : roceGetMrNoref (smallRecv 2 1).ctx (roceKeyToIndex 0) = some (pageMr 1) := rfl
  refine ⟨smallRecv_listening, ⟨rfl, rfl⟩, ⟨⟨.last (Or.inr rfl) ⟨rfl, rfl, rfl, by decide, rfl⟩, ?_⟩,
    trivial⟩, ⟨⟨?_, ?_⟩, trivial⟩, ⟨?_, trivial⟩, ⟨_, rfl, rfl, rfl, ?_⟩⟩
  · intro reth hreth
    obtain rfl := Option.some.inj hreth
    rfl
  · intro d hd
    rw [List.mem_singleton.mp hd]
    exact pageMr_opens hlive rfl (by decide) (by decide) (by decide)
  · intro himm
    cases himm
  · intro d hd
    rw [List.mem_singleton.mp hd]
    exact pageMr_lands hlive rfl (by decide) (by decide) (by decide)
  · intro hidle
    cases hidle.writtenlen

/-- A SEND of two bytes in two packets. -/
def halvedSend : Message × List Inbound :=
  (⟨none, none, [[1], [2]]⟩, [smallPkt ibOpcodeSendFirst 0 [[1]], smallPkt ibOpcodeSendLast 1 [[2]]])

theorem halvedSend_pieces {d : List RoceSge}
    (h : d ∈ recvPieces [⟨0x10000, 2, 0⟩] 0 0 halvedSend.1.outline.sizes) :
    d = [⟨0x10000, 1, 0⟩] ∨ d = [⟨0x10001, 1, 0⟩] := by
  have hpieces : recvPieces [⟨0x10000, 2, 0⟩] 0 0 halvedSend.1.outline.sizes =
      [[⟨0x10000, 1, 0⟩], [⟨0x10001, 1, 0⟩]] := by decide
  rw [hpieces] at h
  rcases List.mem_cons.mp h with h | h
  · exact Or.inl h
  · exact Or.inr (List.mem_singleton.mp h)

/-- An RDMA WRITE of three bytes with an immediate. -/
def markedWrite : Message × List Inbound :=
  (⟨some ⟨0x10004, 0, 3⟩, some 7, [[3, 4, 5]]⟩,
    [smallPkt ibOpcodeRdmaWriteOnlyWithImmediate 2
      [ibRethCodec.enc ⟨0x10004, 0, 3⟩, ibImmdtCodec.enc 7, [3, 4, 5]]])

/-- One after the other, with two receive WRs. -/
theorem respRun_idle_two :
    ∃ t, Machine.run recvMessage (smallRecv 2 2) [halvedSend, markedWrite] = .ok t ∧ RespIdle t := by
  have hlisten : Listening (smallRecv 2 2) :=
    ⟨⟨rfl, smallPort, Vector.replicate 16 0, rfl, rfl⟩, pdsLive_one rfl (Option.some_ne_none _), by decide,
      by decide⟩
  have hlive : roceGetMrNoref (smallRecv 2 2).ctx (roceKeyToIndex 0) = some (pageMr 2) := rfl
  have hord : InOrder (smallRecv 2 2).qp.attr.rqPsn [halvedSend, markedWrite] := by
    refine ⟨⟨.more (List.cons_ne_nil _ _) ⟨rfl, rfl, rfl, by decide, rfl⟩
      (.last (Or.inl (List.cons_ne_nil _ _)) ⟨rfl, rfl, rfl, by decide, rfl⟩), ?_⟩,
      ⟨.last (Or.inr rfl) ⟨rfl, rfl, rfl, by decide, rfl⟩, ?_⟩, trivial⟩
    · intro reth hreth
      cases hreth
    · intro reth hreth
      obtain rfl := Option.some.inj hreth
      rfl
  have hprov : EachFinds (Provided (smallRecv 2 2)) [halvedSend.1.outline, markedWrite.1.outline]
    (smallRecv 2 2).qp.rq := by
    refine ⟨⟨0x1000, 0, [⟨0x10000, 2, 0⟩], rfl, rfl, by decide, ?_⟩,
      ⟨?_, fun _ => ⟨0x2000, _, rfl, rfl⟩⟩, trivial⟩
    · intro d hd
      rcases halvedSend_pieces hd with rfl | rfl
      · exact pageMr_opens hlive rfl (by decide) (by decide) (by decide)
      · exact pageMr_opens hlive rfl (by decide) (by decide) (by decide)
    · intro d hd
      rw [List.mem_singleton.mp hd]
      exact pageMr_opens hlive rfl (by decide) (by decide) (by decide)
  have hlands : EachFinds (MessageLands (smallRecv 2 2)) [halvedSend.1.outline, markedWrite.1.outline]
      (smallRecv 2 2).qp.rq := by
    refine ⟨?_, ?_, trivial⟩
    · intro p wrId sge hhead hwr
      obtain rfl := Option.some.inj hhead
      obtain ⟨rfl, rfl⟩ := RecvWr.fresh_inj (Option.some.inj hwr)
      refine ⟨List.cons_ne_nil _ _, by decide, ?_⟩
      intro d hd
      rcases halvedSend_pieces hd with rfl | rfl
      · exact pageMr_lands hlive rfl (by decide) (by decide) (by decide)
      · exact pageMr_lands hlive rfl (by decide) (by decide) (by decide)
    · intro d hd
      rw [List.mem_singleton.mp hd]
      exact pageMr_lands hlive rfl (by decide) (by decide) (by decide)
  have hcloses : ∀ m ∈ [halvedSend, markedWrite], m.1.Closes := by
    intro m hm
    rcases List.mem_cons.mp hm with rfl | hm
    · exact Or.inl rfl
    · obtain rfl := List.mem_singleton.mp hm
      exact Or.inr (Or.inl rfl)
  exact (respRun_idle hlisten (by decide) ⟨rfl, rfl⟩ hord hprov).mpr ⟨hcloses, hlands⟩
    [halvedSend, markedWrite] [] rfl

end Libroce
