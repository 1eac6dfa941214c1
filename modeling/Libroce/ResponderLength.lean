import Libroce.ResponderUnion

/-!
# The announced length

A RETH announces how many bytes its RDMA WRITE will bring.  The responder
stores the number and never looks at it again, so the bytes it places are
whatever the packets bring.

Main statement: `recvRun_length` — a message stays within its announced length,
and ends at it, along every run whose packets bring no more than what is left
of it.
-/

namespace Libroce

open Machine (Along Throughout)

/-! ## Counting the bytes placed -/

/-- The bytes one event copies to host memory. -/
def Event.copyLen : Event → Nat
  | .copy _ bytes => bytes.length
  | _ => 0

def copied (trace : List Event) : Nat := (trace.map Event.copyLen).sum

theorem copied_append (es fs : List Event) : copied (es ++ fs) = copied es + copied fs := by
  unfold copied
  rw [List.map_append, List.sum_append]

theorem copied_copyEvents (dsts : List Iovec) (bytes : List UInt8) :
    copied (copyEvents dsts bytes) = min bytes.length (iovTotal (dsts.map some)) := by
  induction dsts generalizing bytes with
  | nil => simp [copyEvents, copied, iovTotal]
  | cons d dsts ih =>
    have hcons : copied (copyEvents (d :: dsts) bytes) =
        (bytes.take d.len).length + copied (copyEvents dsts (bytes.drop d.len)) := rfl
    rw [hcons, ih, List.length_take, List.length_drop, List.map_cons, iovTotal_cons]
    show min d.len bytes.length + min (bytes.length - d.len) (iovTotal (dsts.map some)) =
      min bytes.length (d.len + iovTotal (dsts.map some))
    omega

theorem copied_unmap (dmamap : Bool) (dsts : List Iovec) : copied (roceMrUnmapSge dmamap dsts) = 0 := by
  unfold roceMrUnmapSge copied
  cases dmamap with
  | false => rfl
  | true =>
    induction dsts with
    | nil => rfl
    | cons d dsts ih =>
      simp only [if_true, List.map_cons, List.sum_cons] at ih ⊢
      rw [ih]
      rfl

theorem copied_place (s : St) (dsts : List Iovec) (bytes : List UInt8) (dmamap : Bool) :
    copied (s.place dsts bytes dmamap).ctx.trace =
      copied s.ctx.trace + min bytes.length (iovTotal (dsts.map some)) := by
  show copied (s.ctx.trace ++ copyEvents dsts bytes ++ roceMrUnmapSge dmamap dsts) = _
  rw [copied_append, copied_append, copied_copyEvents, copied_unmap, Nat.add_zero]

/-! ## The message in progress -/

/-- The announced length of the message in progress, the bytes placed since its
first packet, and whether the last step accepted its last packet. -/
structure WriteLog where
  announced : Nat
  placed : Nat
  accepted : Bool

/-- A WRITE packet whose turn it is: it has the next PSN and starts a message,
with its RETH, or goes on with one. -/
def writeTurn (s : St) (pkt : Inbound) : Option (Option IbReth × List (List UInt8)) :=
  if ibBthGetOpcode pkt.bth = ibOpcodeAcknowledge then none
  else if roceComparePsn s.qp.attr.rqPsn (ibBthGetPsn pkt.bth) ≠ 0 then none
  else
    match pkt.request with
    | some (.write inprocess reth _ iovs) =>
      if inprocess ≠ (s.qp.resp.writtenlen != 0) then none
      else some (if inprocess then none else reth, iovs)
    | _ => none

/-- The opcode ends a WRITE. -/
def endsWrite (opcode : UInt8) : Bool :=
  opcode == ibOpcodeRdmaWriteOnly || opcode == ibOpcodeRdmaWriteOnlyWithImmediate ||
    opcode == ibOpcodeRdmaWriteLast || opcode == ibOpcodeRdmaWriteLastWithImmediate

/-- The log before the packet's own bytes: a RETH opens a new message. -/
def WriteLog.opened (log : WriteLog) : Option IbReth → WriteLog
  | some reth => ⟨reth.dmalen.toNat, 0, false⟩
  | none => { log with accepted := false }

/-- The log after a step from `s` to `s'`. -/
def WriteLog.after (log : WriteLog) (s : St) (pkt : Inbound) (ret : Int) (s' : St) : WriteLog :=
  match writeTurn s pkt with
  | none => { log with accepted := false }
  | some (reth, _) =>
    { log.opened reth with
      placed := (log.opened reth).placed + (copied s'.ctx.trace - copied s.ctx.trace)
      accepted := endsWrite (ibBthGetOpcode pkt.bth) && ret == 0 }

/-- One inbound packet, with the log kept beside. -/
def recvLogged (m : St × WriteLog) (pkt : Inbound) : Except Fault (St × WriteLog) :=
  match roceRecvRc m.1 pkt with
  | .error e => .error e
  | .ok (ret, s) => .ok (s, m.2.after m.1 pkt ret s)

/-- The message stays within its announced length, and ends at it. -/
def WithinLength (m : St × WriteLog) : Prop :=
  m.2.placed ≤ m.2.announced ∧ (m.2.accepted = true → m.2.placed = m.2.announced)

/-- The state that maps the payload of a packet. -/
def St.writeTarget (s : St) : Option IbReth → St
  | some reth => writeStart s reth
  | none => s

/-- A packet that is carried out brings no more than what is left of the
announced length, to a range that is backed by memory; one that ends its message
brings all of it. -/
def KeepsLength (m : St × WriteLog) (pkt : Inbound) : Prop :=
  ∀ reth iovs dsts dmamap, writeTurn m.1 pkt = some (reth, iovs) →
    Places (m.1.writeTarget reth).ctx (m.1.writeTarget reth).qp
      [writeSge (m.1.writeTarget reth).qp.resp (roceIovLen iovs)] false roceAccessRemoteWrite
      dsts dmamap →
    iovTotal (dsts.map some) = iovs.flatten.length ∧
      (m.2.opened reth).placed + iovs.flatten.length ≤ (m.2.opened reth).announced ∧
      (endsWrite (ibBthGetOpcode pkt.bth) = true →
        (WithImm (ibBthGetOpcode pkt.bth) → m.1.qp.rq ≠ []) →
        (m.2.opened reth).placed + iovs.flatten.length = (m.2.opened reth).announced)

/-! ## One packet -/

/-- A completion copies nothing. -/
theorem copied_report {qp : RoceQp} {opcode : UInt8} {wrId : UInt64} {byteLen : UInt32}
    {immdt : Option UInt32} {e : Event} (h : roceRecvCqComp qp opcode wrId byteLen immdt = some e)
    (p : UInt64) : copied [.popRecv p, e] = 0 := by
  obtain ⟨wc, rfl⟩ := roceRecvCqComp_some h
  rfl

theorem PlaceStep.copies {s s' : St} {iovs : List (List UInt8)} {immdt : Option UInt32} {opcode : UInt8}
    {ret : Int} (h : PlaceStep s iovs immdt opcode ret s') :
    ret ≠ 0 ∧ copied s'.ctx.trace = copied s.ctx.trace ∨
      ∃ dsts dmamap, Places s.ctx s.qp [writeSge s.qp.resp (roceIovLen iovs)] false
        roceAccessRemoteWrite dsts dmamap ∧
        copied s'.ctx.trace = copied s.ctx.trace + min iovs.flatten.length (iovTotal (dsts.map some)) ∧
        (ret = 0 → WithImm opcode → s.qp.rq ≠ []) := by
  cases h with
  | refused hmap hr => exact Or.inl ⟨by decide, rfl⟩
  | plain himm hmap =>
    exact Or.inr ⟨_, _, hmap, copied_place s _ _ _, fun _ hwith => absurd hwith himm⟩
  | noWr himm hrq hmap =>
    exact Or.inr ⟨_, _, hmap, copied_place s _ _ _, fun hzero => absurd hzero (by decide)⟩
  | done himm hrq hwr hmap he hfree =>
    refine Or.inr ⟨_, _, hmap, ?_, fun _ _ => ?_⟩
    · obtain ⟨htrace, -⟩ := roceFreeRecvWr_ok hfree
      rw [htrace, copied_append, St.emit_trace, copied_append, copied_report he]
      exact copied_place s _ _ _
    · rw [hrq]
      exact List.cons_ne_nil _ _

/-- A packet whose turn it is to write goes to `PlaceStep`. -/
theorem roceRecvRc_write {s s' : St} {pkt : Inbound} {ret : Int} {reth : Option IbReth}
    {iovs : List (List UInt8)} (h : roceRecvRc s pkt = .ok (ret, s'))
    (hturn : writeTurn s pkt = some (reth, iovs)) :
    ∃ immdt s1, PlaceStep (St.writeTarget { s with qp.resp.inPsnNak := false } reth) iovs immdt
        (ibBthGetOpcode pkt.bth) ret s1 ∧ copied s'.ctx.trace = copied s1.ctx.trace := by
  unfold writeTurn at hturn
  unfold roceRecvRc at h
  by_cases hop : ibBthGetOpcode pkt.bth = ibOpcodeAcknowledge
  · rw [if_pos hop] at hturn
    cases hturn
  rw [if_neg hop] at hturn h
  by_cases hpsn : roceComparePsn s.qp.attr.rqPsn (ibBthGetPsn pkt.bth) = 0
  swap
  · rw [if_pos hpsn] at hturn
    cases hturn
  rw [if_neg (not_not.mpr hpsn)] at hturn
  rw [hpsn] at h
  have hseq : recvInSequence s pkt = .ok (ret, s') := h
  -- the request is a WRITE in order, so only the placing is left
  have hreq : ∀ {r : Int} {s1 : St}, RequestStep { s with qp.resp.inPsnNak := false } pkt r s1 →
      ∃ immdt, PlaceStep (St.writeTarget { s with qp.resp.inPsnNak := false } reth) iovs immdt
        (ibBthGetOpcode pkt.bth) r s1 := by
    intro r s1 hstep
    cases hstep with
    | malformed hnone =>
      rw [hnone] at hturn
      cases hturn
    | send hsome =>
      rw [hsome] at hturn
      cases hturn
    | @write inprocess reth' immdt iovs' _ _ hsome hw =>
      rw [hsome] at hturn
      simp only at hturn
      cases hw with
      | outOfOrder hne =>
        rw [if_pos hne] at hturn
        cases hturn
      | first hin hlen hreth hplace =>
        have hlen' : s.qp.resp.writtenlen = 0 := hlen
        rw [hlen', hin] at hturn
        obtain ⟨rfl, rfl⟩ := Prod.mk.inj (Option.some.inj hturn)
        rw [hreth]
        exact ⟨immdt, hplace⟩
      | next hin hlen hplace =>
        have hne : (s.qp.resp.writtenlen != 0) = true := bne_iff_ne.mpr hlen
        rw [hne, hin] at hturn
        obtain ⟨rfl, rfl⟩ := Prod.mk.inj (Option.some.inj hturn)
        exact ⟨immdt, hplace⟩
  rcases recvInSequence_ok hseq with ⟨-, hstep⟩ | ⟨rfl, s1, s2, hstep, hack, rfl⟩
  · obtain ⟨immdt, hplace⟩ := hreq hstep
    exact ⟨immdt, s', hplace, rfl⟩
  · obtain ⟨immdt, hplace⟩ := hreq hstep
    refine ⟨immdt, s1, hplace, ?_⟩
    rcases hack with ⟨-, rfl⟩ | ⟨-, hack⟩
    · rfl
    · obtain ⟨q, rfl, -⟩ := roceNetpktAcknowledge_ok hack
      show copied (s1.ctx.trace ++ [.netXmit q]) = _
      rw [copied_append]
      rfl

/-- One packet, when those before kept to the length. -/
theorem recvLogged_within {m m' : St × WriteLog} {pkt : Inbound} (h : WithinLength m)
    (hkeeps : KeepsLength m pkt) (hs : recvLogged m pkt = .ok m') : WithinLength m' := by
  obtain ⟨s, log⟩ := m
  unfold recvLogged at hs
  split at hs
  · cases hs
  next ret s' hrecv =>
  obtain rfl := Except.ok.inj hs
  unfold WithinLength WriteLog.after
  cases hturn : writeTurn s pkt with
  | none => exact ⟨h.1, fun hfalse => by cases hfalse⟩
  | some r =>
    obtain ⟨reth, iovs⟩ := r
    have hopened : (log.opened reth).placed ≤ (log.opened reth).announced := by
      cases reth with
      | none => exact h.1
      | some reth => exact Nat.zero_le _
    have htrace : ∀ nak, copied (St.writeTarget { s with qp.resp.inPsnNak := nak } reth).ctx.trace =
        copied s.ctx.trace := by
      intro nak
      cases reth <;> rfl
    obtain ⟨immdt, s1, hplace, hcopied⟩ := roceRecvRc_write hrecv hturn
    simp only [hcopied]
    rcases hplace.copies with ⟨hret, hsame⟩ | ⟨dsts, dmamap, hp, hmore, hqueue⟩
    · rw [hsame, htrace, Nat.sub_self, Nat.add_zero]
      refine ⟨hopened, ?_⟩
      intro haccept
      rw [Bool.and_eq_true, beq_iff_eq] at haccept
      exact absurd haccept.2 hret
    · have hp' : Places (s.writeTarget reth).ctx (s.writeTarget reth).qp
          [writeSge (s.writeTarget reth).qp.resp (roceIovLen iovs)] false roceAccessRemoteWrite
          dsts dmamap := by
        cases reth <;> exact ⟨hp.map, hp.pages, hp.fits⟩
      obtain ⟨hbacked, hleft, hends⟩ := hkeeps reth iovs dsts dmamap hturn hp'
      have hbytes : copied s1.ctx.trace - copied s.ctx.trace = iovs.flatten.length := by
        rw [hmore, htrace, hbacked, Nat.min_self]
        omega
      rw [hbytes]
      refine ⟨hleft, ?_⟩
      intro haccept
      rw [Bool.and_eq_true, beq_iff_eq] at haccept
      apply hends haccept.1
      intro hwith
      have hrq : (St.writeTarget { s with qp.resp.inPsnNak := false } reth).qp.rq = s.qp.rq := by
        cases reth <;> rfl
      rw [← hrq]
      exact hqueue haccept.2 hwith

/-- The log of a QP that no WRITE has reached yet. -/
def WriteLog.empty : WriteLog := ⟨0, 0, false⟩

/-- **The announced length.**  Along every run whose packets keep to it, no
message places more bytes than its RETH announces, and one that is accepted to
its end places exactly as many. -/
theorem recvRun_length {s : St} {pkts : List Inbound}
    (h : Along recvLogged KeepsLength (s, .empty) pkts) :
    Throughout recvLogged WithinLength (s, .empty) pkts := by
  have hstep : ∀ m pkt m', WithinLength m → KeepsLength m pkt → recvLogged m pkt = .ok m' →
      WithinLength m' := fun _ _ _ hm hk hs => recvLogged_within hm hk hs
  exact Machine.throughout_of_along hstep ⟨Nat.le_refl 0, fun hfalse => by cases hfalse⟩ h

/-- A WRITE that announces one byte and brings four. -/
def longWrite : Inbound :=
  smallPkt ibOpcodeRdmaWriteOnly 0 [ibRethCodec.enc ⟨0x10000, 0, 1⟩, [1, 2, 3, 4]]

/-- All four are placed, and the message is accepted. -/
theorem recvRun_length_over :
    ∃ m, recvLogged (smallRecv 16 1, .empty) longWrite = .ok m ∧
      m.2.announced = 1 ∧ m.2.placed = 4 ∧ m.2.accepted = true ∧ ¬ WithinLength m := by
  refine ⟨_, rfl, rfl, rfl, rfl, ?_⟩
  rintro ⟨hle, -⟩
  exact absurd hle (by decide)

/-- A WRITE of the length it announces. -/
theorem recvRun_length_four : Throughout recvLogged WithinLength (smallRecv 16 1, .empty)
    [smallPkt ibOpcodeRdmaWriteOnly 0 [ibRethCodec.enc ⟨0x10000, 0, 4⟩, [1, 2, 3, 4]]] := by
  refine recvRun_length ⟨?_, fun _ _ => trivial⟩
  intro reth iovs dsts dmamap hturn hp
  obtain ⟨rfl, rfl⟩ := Prod.mk.inj (Option.some.inj hturn)
  have hdsts : dsts.map some = [some ⟨0x10000, 4⟩] :=
    (MapRes.mk.inj (Except.ok.inj hp.map)).2.1.symm
  rw [hdsts]
  exact ⟨rfl, Nat.le_refl 4, fun _ _ => rfl⟩

end Libroce
