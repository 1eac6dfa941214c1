import Libroce.ResponderStep

/-!
# What a request does not read

A request packet is handled without a look at the trace, at the message number,
at the NAK flag, or at which member of the union was stored last.  `Agree`
relates the states that differ in nothing else.

    recvInSequence answers the same in states that agree, and leaves such states
                                                            (recvInSequence_agree)
-/

namespace Libroce

/-! ## States that agree -/

/-- The parts of a state that no request reads: the trace, the message number,
the NAK flag, and which member of the union was stored. -/
def St.relabel (s : St) (trace : List Event) (word : RespWord) (msn : UInt32) (nak : Bool) : St :=
  { s with
    ctx.trace := trace
    qp.resp.word := word
    qp.resp.msn := msn
    qp.resp.inPsnNak := nak }

/-- The same state but for these parts. -/
def Agree (s t : St) : Prop :=
  ∃ trace word msn nak, word.bits = s.qp.resp.word.bits ∧ t = s.relabel trace word msn nak

/-- The same fault, or the same answer in states that agree. -/
def AgreeResult : Except Fault (Int × St) → Except Fault (Int × St) → Prop
  | .error e, .error e' => e = e'
  | .ok (ret, s), .ok (ret', t) => ret = ret' ∧ Agree s t
  | _, _ => False

theorem Agree.refl (s : St) : Agree s s := ⟨_, _, _, _, rfl, rfl⟩

theorem Agree.trans {s t u : St} (h1 : Agree s t) (h2 : Agree t u) : Agree s u := by
  obtain ⟨_, _, _, _, hb, rfl⟩ := h1
  obtain ⟨_, _, _, _, hb', rfl⟩ := h2
  exact ⟨_, _, _, _, hb'.trans hb, rfl⟩

theorem Agree.sameMrs {s t : St} (h : Agree s t) : SameMrs s.ctx s.qp t.ctx t.qp := by
  obtain ⟨_, _, _, _, -, rfl⟩ := h
  exact ⟨rfl, rfl, rfl, rfl⟩

/-! ### References -/

/-- The references are counted without a look at the trace. -/
theorem assertPutPd_trace (ctx : RoceCtx) (pd : Nat) (trace : List Event) :
    assertPutPd { ctx with trace := trace } pd =
      (assertPutPd ctx pd).map fun c => { c with trace := trace } := by
  unfold assertPutPd rocePutPd
  cases roceResourceGet ctx.pds pd with
  | none => rfl
  | some r => rfl

theorem roceDestroyMr_trace (ctx : RoceCtx) (i : Nat) (trace : List Event) :
    roceDestroyMr { ctx with trace := trace } i =
      (roceDestroyMr ctx i).map fun r => (r.1, { r.2 with trace := trace }) := by
  unfold roceDestroyMr roceGetMrNoref
  cases roceResourceGet ctx.mrs i with
  | none => rfl
  | some mr =>
    simp only
    by_cases href : mr.ref ≠ 0
    · rw [if_pos href, if_pos href]
      rfl
    · rw [if_neg href, if_neg href]
      have hpd := assertPutPd_trace { ctx with mrs := ctx.mrs.set i none } mr.pd trace
      rw [hpd]
      cases assertPutPd { ctx with mrs := ctx.mrs.set i none } mr.pd with
      | error e => rfl
      | ok c => rfl

theorem rocePutMr_trace (ctx : RoceCtx) (i : Nat) (trace : List Event) :
    rocePutMr { ctx with trace := trace } i =
      (rocePutMr ctx i).map fun c => { c with trace := trace } := by
  unfold rocePutMr roceGetMrNoref
  cases roceResourceGet ctx.mrs i with
  | none => rfl
  | some mr =>
    simp only
    by_cases hst : mr.state = .destroyed
    · rw [if_pos hst, if_pos hst]
      have hdestroy := roceDestroyMr_trace (setMr ctx i { mr with ref := mr.ref - 1 }) i trace
      unfold setMr at hdestroy ⊢
      rw [hdestroy]
      cases roceDestroyMr { ctx with mrs := ctx.mrs.set i (some { mr with ref := mr.ref - 1 }) } i with
      | error e => rfl
      | ok c => rfl
    · rw [if_neg hst, if_neg hst]
      rfl

theorem rocePutMrs_trace (ctx : RoceCtx) (sges : List RoceSge) (trace : List Event) :
    rocePutMrs { ctx with trace := trace } sges =
      (rocePutMrs ctx sges).map fun c => { c with trace := trace } := by
  induction sges generalizing ctx with
  | nil => rfl
  | cons sge sges ih =>
    rw [rocePutMrs, rocePutMrs, rocePutMr_trace]
    cases rocePutMr ctx (roceKeyToIndex sge.lkey) with
    | error e => rfl
    | ok c => exact ih c

/-- The context after a receive WR is freed, but for the trace. -/
theorem roceFreeRecvWr_trace (ctx : RoceCtx) (p : UInt64) (wr : RecvWr) (trace : List Event) :
    roceFreeRecvWr { ctx with trace := trace } p wr =
      (roceFreeRecvWr ctx p wr).map fun c => { c with trace := trace ++ [.freeRecv p] } := by
  unfold roceFreeRecvWr
  rw [rocePutMrs_trace]
  cases hput : rocePutMrs ctx wr.sge with
  | error e => rfl
  | ok c => rfl

/-! ### The two functions -/

theorem copyLoop_agree {s t : St} (h : Agree s t) (dsts : List (Option Iovec))
    (iovs : List (List UInt8)) :
    (∃ e, copyLoop s dsts iovs = .error e ∧ copyLoop t dsts iovs = .error e) ∨
      ∃ s' t', copyLoop s dsts iovs = .ok s' ∧ copyLoop t dsts iovs = .ok t' ∧ Agree s' t' := by
  induction dsts generalizing s t iovs with
  | nil => exact Or.inr ⟨s, t, rfl, rfl, h⟩
  | cons d dsts ih =>
    cases d with
    | none => exact Or.inl ⟨_, rfl, rfl⟩
    | some d =>
      obtain ⟨trace, word, msn, nak, hb, rfl⟩ := h
      have hstep : ∀ bytes, Agree
          (({ s with ctx.mem := writeMem s.ctx.mem d.base bytes } : St).emit [.copy d.base bytes])
          (({ s.relabel trace word msn nak with
              ctx.mem := writeMem s.ctx.mem d.base bytes } : St).emit [.copy d.base bytes]) :=
        fun bytes => ⟨_, word, msn, nak, hb, rfl⟩
      exact ih (hstep _) _

theorem placePayload_agree {s t : St} (h : Agree s t) (sges : List RoceSge) (isLocal : Bool)
    (access : UInt32) (iovs : List (List UInt8)) :
    (∃ e, placePayload s sges isLocal access iovs = .error e ∧
      placePayload t sges isLocal access iovs = .error e) ∨
    (placePayload s sges isLocal access iovs = .ok none ∧
      placePayload t sges isLocal access iovs = .ok none) ∨
    ∃ s' t', placePayload s sges isLocal access iovs = .ok (some s') ∧
      placePayload t sges isLocal access iovs = .ok (some t') ∧ Agree s' t' := by
  have hpage : t.ctx.pageSize = s.ctx.pageSize := by
    obtain ⟨_, _, _, _, -, rfl⟩ := h
    rfl
  unfold placePayload
  rw [h.sameMrs.roceMrMapSge, hpage]
  cases roceMrMapSge s.ctx s.qp sges isLocal access with
  | error e => exact Or.inl ⟨e, rfl, rfl⟩
  | ok r =>
    simp only [bind, Except.bind]
    by_cases hfits : r.iovs.length > 2 * roceMaxSge
    · rw [if_pos hfits, if_pos hfits]
      exact Or.inl ⟨_, rfl, rfl⟩
    rw [if_neg hfits, if_neg hfits]
    by_cases hret : r.ret < 0
    · rw [if_pos hret, if_pos hret]
      exact Or.inr (Or.inl ⟨rfl, rfl⟩)
    rw [if_neg hret, if_neg hret]
    cases roceSgePages sges s.ctx.pageSize with
    | error e => exact Or.inl ⟨e, rfl, rfl⟩
    | ok pages =>
      simp only
      cases roceAssert (UInt32.ofInt r.ret == pages) .recvPages with
      | error e => exact Or.inl ⟨e, rfl, rfl⟩
      | ok u =>
        simp only
        rcases copyLoop_agree h r.iovs iovs with ⟨e, h1, h2⟩ | ⟨s', t', h1, h2, hag⟩
        · rw [h1, h2]
          exact Or.inl ⟨e, rfl, rfl⟩
        · rw [h1, h2]
          obtain ⟨trace, word, msn, nak, hb, rfl⟩ := hag
          exact Or.inr (Or.inr ⟨_, _, rfl, rfl, _, word, msn, nak, hb, rfl⟩)

theorem Agree.emit {s t : St} (h : Agree s t) (es : List Event) : Agree (s.emit es) (t.emit es) := by
  obtain ⟨_, word, msn, nak, hb, rfl⟩ := h
  exact ⟨_, word, msn, nak, hb, rfl⟩

theorem Agree.setRecvWr {s t : St} (h : Agree s t) (p : UInt64) (wr : RecvWr) :
    Agree (s.setRecvWr p wr) (t.setRecvWr p wr) := by
  obtain ⟨trace, word, msn, nak, hb, rfl⟩ := h
  exact ⟨trace, word, msn, nak, hb, rfl⟩

theorem Agree.roceRecvCqComp {s t : St} (h : Agree s t) :
    roceRecvCqComp t.qp = roceRecvCqComp s.qp := by
  obtain ⟨_, _, _, _, -, rfl⟩ := h
  rfl

theorem Agree.recvWrs {s t : St} (h : Agree s t) : t.ctx.recvWrs = s.ctx.recvWrs := by
  obtain ⟨_, _, _, _, -, rfl⟩ := h
  rfl

theorem Agree.clear {s t : St} (h : Agree s t) :
    Agree { s with qp.resp.writtenlen := 0 } { t with qp.resp.writtenlen := 0 } := by
  obtain ⟨trace, word, msn, nak, hb, rfl⟩ := h
  exact ⟨trace, word, msn, nak, hb, rfl⟩

/-- Freeing a receive WR and clearing the union. -/
theorem Agree.free {s t : St} (h : Agree s t) (p : UInt64) (wr : RecvWr) :
    (∃ e, roceFreeRecvWr s.ctx p wr = .error e ∧ roceFreeRecvWr t.ctx p wr = .error e) ∨
      ∃ c c', roceFreeRecvWr s.ctx p wr = .ok c ∧ roceFreeRecvWr t.ctx p wr = .ok c' ∧
        Agree ((⟨c, s.qp⟩ : St).setWord (.wr 0)) ((⟨c', t.qp⟩ : St).setWord (.wr 0)) := by
  obtain ⟨trace, word, msn, nak, -, rfl⟩ := h
  have hfree := roceFreeRecvWr_trace s.ctx p wr trace
  cases hc : roceFreeRecvWr s.ctx p wr with
  | error e =>
    rw [hc] at hfree
    exact Or.inl ⟨e, rfl, hfree⟩
  | ok c =>
    rw [hc] at hfree
    exact Or.inr ⟨c, _, rfl, hfree, _, .wr 0, msn, nak, rfl, rfl⟩

theorem recvFinish_agree {s t : St} (h : Agree s t) (p : UInt64) (wr : RecvWr) (bufLen : UInt32)
    (immdt : Option UInt32) (opcode : UInt8) :
    AgreeResult (recvFinish s p wr bufLen immdt opcode) (recvFinish t p wr bufLen immdt opcode) := by
  have hset := h.setRecvWr p { wr with byteLen := wr.byteLen + bufLen }
  unfold recvFinish
  simp only
  rw [hset.roceRecvCqComp]
  split
  · exact ⟨rfl, hset⟩
  · next e _ =>
    rcases (hset.emit [e]).free p { wr with byteLen := wr.byteLen + bufLen } with
      ⟨e', h1, h2⟩ | ⟨c, c', h1, h2, hag⟩
    · rw [h1, h2]
      exact rfl
    · rw [h1, h2]
      exact ⟨rfl, hag⟩

theorem recvPayloadWr_agree {s t : St} (h : Agree s t) (iovs : List (List UInt8))
    (immdt : Option UInt32) (opcode : UInt8) (p : UInt64) (wr : RecvWr) :
    AgreeResult (recvPayloadWr s iovs immdt opcode p wr) (recvPayloadWr t iovs immdt opcode p wr) := by
  unfold recvPayloadWr
  cases roceSgeLen wr.sge wr.sgeIdx wr.sgeOff with
  | error e => exact rfl
  | ok len =>
    simp only [bind, Except.bind]
    split
    · exact ⟨rfl, h⟩
    · cases roceSgeAdvance wr.sge (roceIovLen iovs).toNat wr.sgeIdx wr.sgeOff with
      | error e => exact rfl
      | ok cut =>
        obtain ⟨sges, idx, off⟩ := cut
        simp only
        have hset := h.setRecvWr p { wr with sgeIdx := idx, sgeOff := off }
        rcases placePayload_agree hset sges true roceAccessLocalWrite iovs with
          ⟨e, h1, h2⟩ | ⟨h1, h2⟩ | ⟨s', t', h1, h2, hag⟩
        · rw [h1, h2]
          exact rfl
        · rw [h1, h2]
          exact ⟨rfl, hset⟩
        · rw [h1, h2]
          exact recvFinish_agree hag p _ _ immdt opcode

theorem roceRecvPayload_agree {s t : St} (h : Agree s t) (iovs : List (List UInt8))
    (immdt : Option UInt32) (inprocess : Bool) (opcode : UInt8) :
    AgreeResult (roceRecvPayload s iovs immdt inprocess opcode)
      (roceRecvPayload t iovs immdt inprocess opcode) := by
  obtain ⟨trace, word, msn, nak, hb, rfl⟩ := h
  have hword : (s.relabel trace word msn nak).qp.resp.word.bits = s.qp.resp.word.bits := hb
  have hrq : (s.relabel trace word msn nak).qp.rq = s.qp.rq := rfl
  unfold roceRecvPayload rocePopRecvWr rqPop
  rw [hword, hrq]
  split_ifs with hin hbits
  · exact ⟨rfl, trace, word, msn, nak, hb, rfl⟩
  · simp only
    have hag : Agree s (s.relabel trace word msn nak) := ⟨trace, word, msn, nak, hb, rfl⟩
    rw [hag.recvWrs]
    cases s.ctx.recvWrs s.qp.resp.word.bits with
    | none => exact rfl
    | some wr => exact recvPayloadWr_agree hag iovs immdt opcode _ wr
  · cases s.qp.rq with
    | nil => exact ⟨rfl, trace, .wr 0, msn, nak, rfl, rfl⟩
    | cons p rq =>
      simp only
      have hag : Agree ((({ s with qp.rq := rq } : St).emit [.popRecv p]).setWord (.wr p))
          ((({ s.relabel trace word msn nak with qp.rq := rq } : St).emit [.popRecv p]).setWord
            (.wr p)) := ⟨_, .wr p, msn, nak, rfl, rfl⟩
      rw [hag.recvWrs]
      cases ((({ s with qp.rq := rq } : St).emit [.popRecv p]).setWord (.wr p)).ctx.recvWrs p with
      | none => exact rfl
      | some wr => exact recvPayloadWr_agree hag iovs immdt opcode p wr

theorem Agree.ackPkt {s t : St} (h : Agree s t) (syndrome : Syndrome) (val : UInt8) (psn : UInt32)
    (calloc : Bool) :
    (∃ e, acknowledgePkt s.ctx s.qp syndrome val psn calloc = .error e ∧
      acknowledgePkt t.ctx t.qp syndrome val psn calloc = .error e) ∨
    ∃ pkt pkt', acknowledgePkt s.ctx s.qp syndrome val psn calloc = .ok pkt ∧
      acknowledgePkt t.ctx t.qp syndrome val psn calloc = .ok pkt' := by
  have heth : ∀ (pkt pkt' : RoceNetpkt) (port : RocePort) (ahAttr : RoceAhAttr),
      (∃ e, roceNetpktSetEth pkt port ahAttr = .error e ∧
        roceNetpktSetEth pkt' port ahAttr = .error e) ∨
      ∃ q q', roceNetpktSetEth pkt port ahAttr = .ok q ∧
        roceNetpktSetEth pkt' port ahAttr = .ok q' := by
    intro pkt pkt' port ahAttr
    unfold roceNetpktSetEth
    cases port.gids[ahAttr.sgidIndex.toNat]? with
    | none => exact Or.inl ⟨_, rfl, rfl⟩
    | some sgid =>
      simp only
      split
      · exact Or.inr ⟨_, _, rfl, rfl⟩
      · exact Or.inr ⟨_, _, rfl, rfl⟩
  obtain ⟨trace, word, msn, nak, -, rfl⟩ := h
  unfold acknowledgePkt
  have halloc : roceNetpktAlloc (s.relabel trace word msn nak).ctx (s.relabel trace word msn nak).qp
      none 0 calloc = roceNetpktAlloc s.ctx s.qp none 0 calloc := rfl
  have hport : portAt (s.relabel trace word msn nak).ctx
      (s.relabel trace word msn nak).qp.attr.portNum = portAt s.ctx s.qp.attr.portNum := rfl
  rw [halloc, hport]
  rcases roceNetpktAlloc s.ctx s.qp none 0 calloc with e | alloc
  · exact Or.inl ⟨e, rfl, rfl⟩
  · cases alloc with
    | none => exact Or.inl ⟨_, rfl, rfl⟩
    | some pkt =>
      simp only
      cases portAt s.ctx s.qp.attr.portNum with
      | error e => exact Or.inl ⟨e, rfl, rfl⟩
      | ok port => exact heth _ _ port _

theorem roceNetpktAcknowledge_agree {s t : St} (h : Agree s t) (syndrome : Syndrome) (val : UInt8)
    (psn : UInt32) (calloc : Bool) :
    (∃ e, roceNetpktAcknowledge s syndrome val psn calloc = .error e ∧
      roceNetpktAcknowledge t syndrome val psn calloc = .error e) ∨
    ∃ s' t', roceNetpktAcknowledge s syndrome val psn calloc = .ok s' ∧
      roceNetpktAcknowledge t syndrome val psn calloc = .ok t' ∧ Agree s' t' := by
  have hpkt := h.ackPkt syndrome val psn calloc
  have htype : t.qp.qpType = s.qp.qpType := h.sameMrs.qpType
  unfold roceNetpktAcknowledge
  rw [htype]
  split
  · rcases hpkt with ⟨e, h1, h2⟩ | ⟨pkt, pkt', h1, h2⟩
    · rw [h1, h2]
      exact Or.inl ⟨e, rfl, rfl⟩
    · rw [h1, h2]
      obtain ⟨_, word, _, nak, hb, rfl⟩ := h
      exact Or.inr ⟨_, _, rfl, rfl, _, word, _, nak, hb, rfl⟩
  · exact Or.inl ⟨_, rfl, rfl⟩

theorem writeComplete_agree {s t : St} (h : Agree s t) (p : UInt64) (immdt : Option UInt32)
    (opcode : UInt8) : AgreeResult (writeComplete s p immdt opcode) (writeComplete t p immdt opcode) := by
  have hwritten : t.qp.resp.writtenlen = s.qp.resp.writtenlen := by
    obtain ⟨_, _, _, _, -, rfl⟩ := h
    rfl
  unfold writeComplete
  rw [h.recvWrs, h.roceRecvCqComp, hwritten]
  cases s.ctx.recvWrs p with
  | none => exact rfl
  | some wr =>
    simp only
    split
    · exact ⟨rfl, h⟩
    · next e _ =>
      rcases (h.emit [e]).free p wr with ⟨e', h1, h2⟩ | ⟨c, c', h1, h2, hfree⟩
      · rw [h1, h2]
        exact rfl
      · rw [h1, h2]
        exact ⟨rfl, hfree.clear⟩

theorem writeFinish_agree {s t : St} (h : Agree s t) (immdt : Option UInt32) (opcode : UInt8) :
    AgreeResult (writeFinish s immdt opcode) (writeFinish t immdt opcode) := by
  unfold writeFinish
  split
  · obtain ⟨trace, word, msn, nak, hb, rfl⟩ := h
    have hrq : (s.relabel trace word msn nak).qp.rq = s.qp.rq := rfl
    unfold rqPop
    rw [hrq]
    cases s.qp.rq with
    | nil => exact ⟨rfl, trace, word, msn, nak, hb, rfl⟩
    | cons p rq =>
      have hag : Agree (({ s with qp.rq := rq } : St).emit [.popRecv p])
          (({ s.relabel trace word msn nak with qp.rq := rq } : St).emit [.popRecv p]) :=
        ⟨_, word, msn, nak, hb, rfl⟩
      exact writeComplete_agree hag p immdt opcode
  · exact ⟨rfl, h⟩

theorem writePlace_agree {s t : St} (h : Agree s t) (iovs : List (List UInt8))
    (immdt : Option UInt32) (opcode : UInt8) :
    AgreeResult (writePlace s iovs immdt opcode) (writePlace t iovs immdt opcode) := by
  have hsge : writeSge t.qp.resp (roceIovLen iovs) = writeSge s.qp.resp (roceIovLen iovs) := by
    obtain ⟨_, word, _, _, hb, rfl⟩ := h
    unfold writeSge
    show RoceSge.mk (word.bits + _) _ _ = _
    rw [hb]
    rfl
  unfold writePlace
  simp only [bind, Except.bind]
  rw [hsge]
  rcases placePayload_agree h [writeSge s.qp.resp (roceIovLen iovs)] false roceAccessRemoteWrite iovs
    with ⟨e, h1, h2⟩ | ⟨h1, h2⟩ | ⟨s', t', h1, h2, hag⟩
  · rw [h1, h2]
    exact rfl
  · rw [h1, h2]
    exact ⟨rfl, h⟩
  · rw [h1, h2]
    refine writeFinish_agree ?_ immdt opcode
    obtain ⟨trace, word, msn, nak, hb, rfl⟩ := hag
    exact ⟨trace, word, msn, nak, hb, rfl⟩

theorem roceRdmaWritePayload_agree {s t : St} (h : Agree s t) (iovs : List (List UInt8))
    (reth : Option IbReth) (immdt : Option UInt32) (inprocess : Bool) (opcode : UInt8) (calloc : Bool) :
    AgreeResult (roceRdmaWritePayload s iovs reth immdt inprocess opcode calloc)
      (roceRdmaWritePayload t iovs reth immdt inprocess opcode calloc) := by
  have hwritten : t.qp.resp.writtenlen = s.qp.resp.writtenlen := by
    obtain ⟨_, _, _, _, -, rfl⟩ := h
    rfl
  have hpsn : t.qp.attr.rqPsn = s.qp.attr.rqPsn := by
    obtain ⟨_, _, _, _, -, rfl⟩ := h
    rfl
  unfold roceRdmaWritePayload
  rw [hwritten, hpsn]
  split
  · rcases roceNetpktAcknowledge_agree h .nak 1 s.qp.attr.rqPsn calloc with
      ⟨e, h1, h2⟩ | ⟨s', t', h1, h2, hag⟩
    · rw [h1, h2]
      exact rfl
    · rw [h1, h2]
      exact ⟨rfl, hag⟩
  · split
    · cases reth with
      | none => exact rfl
      | some r =>
        refine writePlace_agree ?_ iovs immdt opcode
        obtain ⟨trace, _, msn, nak, -, rfl⟩ := h
        exact ⟨trace, .iova r.va, msn, nak, rfl, rfl⟩
    · exact writePlace_agree h iovs immdt opcode

/-- A request does the same in states that agree. -/
theorem recvRequest_agree {s t : St} (h : Agree s t) (pkt : Inbound) :
    AgreeResult (recvRequest s pkt) (recvRequest t pkt) := by
  rw [recvRequest_eq, recvRequest_eq]
  cases pkt.request with
  | none => exact ⟨rfl, h⟩
  | some r =>
    cases r with
    | send inprocess immdt iovs => exact roceRecvPayload_agree h iovs immdt inprocess _
    | write inprocess reth immdt iovs =>
      exact roceRdmaWritePayload_agree h iovs reth immdt inprocess _ _

theorem recvInSequence_agree {s t : St} (h : Agree s t) (pkt : Inbound) :
    AgreeResult (recvInSequence s pkt) (recvInSequence t pkt) := by
  have hnak : Agree { s with qp.resp.inPsnNak := false } { t with qp.resp.inPsnNak := false } := by
    obtain ⟨trace, word, msn, _, hb, rfl⟩ := h
    exact ⟨trace, word, msn, false, hb, rfl⟩
  have hnext : ∀ {s t : St}, Agree s t →
      Agree { s with qp.attr.rqPsn := roceQpPsnInc s.qp.attr.rqPsn }
        { t with qp.attr.rqPsn := roceQpPsnInc t.qp.attr.rqPsn } := by
    rintro s t ⟨trace, word, msn, nak, hb, rfl⟩
    exact ⟨trace, word, msn, nak, hb, rfl⟩
  have hreq := recvRequest_agree hnak pkt
  unfold recvInSequence
  cases h1 : recvRequest { s with qp.resp.inPsnNak := false } pkt with
  | error e =>
    cases h2 : recvRequest { t with qp.resp.inPsnNak := false } pkt with
    | error e' =>
      rw [h1, h2] at hreq
      exact hreq
    | ok r =>
      rw [h1, h2] at hreq
      exact hreq.elim
  | ok r =>
    obtain ⟨ret, s1⟩ := r
    cases h2 : recvRequest { t with qp.resp.inPsnNak := false } pkt with
    | error e' =>
      rw [h1, h2] at hreq
      exact hreq.elim
    | ok r' =>
      obtain ⟨ret', t1⟩ := r'
      rw [h1, h2] at hreq
      obtain ⟨rfl, hag⟩ := hreq
      simp only [bind, Except.bind]
      split
      · exact ⟨rfl, hag⟩
      · split
        · rcases roceNetpktAcknowledge_agree hag .ack 0x1f (ibBthGetPsn pkt.bth) pkt.calloc with
            ⟨e, h3, h4⟩ | ⟨s2, t2, h3, h4, hack⟩
          · rw [h3, h4]
            exact rfl
          · rw [h3, h4]
            exact ⟨rfl, hnext hack⟩
        · exact ⟨rfl, hnext hag⟩

end Libroce
