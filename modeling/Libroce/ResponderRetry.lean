import Libroce.ResponderAgree

/-!
# A request that fails

A request packet that is refused comes again, with the same PSN.  The retry
finds the receiver as the first arrival did, unless the failure comes after a
WR was popped, a cursor moved or a RETH stored.

Main statement: `roceRecvRc_restores` — a failed request leaves the receive
state as it was exactly when not `Spoils`.
-/

namespace Libroce

/-! ## The receive state -/

/-- The receive state is the one before: the queue, the union and what goes with
it, the WR in progress with its cursor, and the PSN. -/
structure Unchanged (s s' : St) : Prop where
  rq : s'.qp.rq = s.qp.rq
  word : s'.qp.resp.word.bits = s.qp.resp.word.bits
  rkey : s'.qp.resp.rkey = s.qp.resp.rkey
  dmalen : s'.qp.resp.dmalen = s.qp.resp.dmalen
  writtenlen : s'.qp.resp.writtenlen = s.qp.resp.writtenlen
  rqPsn : s'.qp.attr.rqPsn = s.qp.attr.rqPsn
  cursor : s.qp.resp.word.bits ≠ 0 →
    s'.ctx.recvWrs s.qp.resp.word.bits = s.ctx.recvWrs s.qp.resp.word.bits

/-- Every packet in sequence is handled in `s'` as it would have been in `s`. -/
def Replays (s s' : St) : Prop :=
  ∀ pkt, AgreeResult (recvInSequence s pkt) (recvInSequence s' pkt)

theorem Agree.unchanged {s s' : St} (h : Agree s s') : Unchanged s s' := by
  obtain ⟨trace, word, msn, nak, hb, rfl⟩ := h
  exact ⟨rfl, hb, rfl, rfl, rfl, rfl, fun _ => rfl⟩

theorem Agree.replays {s s' : St} (h : Agree s s') : Replays s s' := fun pkt =>
  recvInSequence_agree h pkt

/-! ## Which failures show -/

/-- The RETH is the one already stored. -/
def Stored (resp : RoceResponder) (reth : IbReth) : Prop :=
  reth.va = resp.word.bits ∧ reth.rkey = resp.rkey ∧ reth.dmalen = resp.dmalen

/-- A WRITE packet that is placed and counted before its immediate finds no receive WR. -/
def Unanswered (s : St) (immdt : Option UInt32) (iovs : List (List UInt8)) : Prop :=
  immdt.isSome = true ∧ s.qp.rq = [] ∧ roceIovLen iovs ≠ 0 ∧ WriteMapped s (roceIovLen iovs)

/-- The rest of the WR at `p` takes `bufLen` bytes. -/
def Takes (s : St) (p : UInt64) (bufLen : UInt32) : Prop :=
  ∃ wr len, s.ctx.recvWrs p = some wr ∧ roceSgeLen wr.sge wr.sgeIdx wr.sgeOff = .ok len ∧ bufLen ≤ len

/-- A failure of this packet shows: the first packet of a SEND pops a WR, a
later one moves the cursor before the mapping is refused, the first packet of a
WRITE stores its RETH, and the bytes of a WRITE are counted before the receive
WR of its immediate is popped. -/
def Spoils (s : St) (pkt : Inbound) : Prop :=
  match pkt.request with
  | none => False
  | some (.send false _ _) => s.qp.resp.word.bits = 0 ∧ s.qp.rq ≠ []
  | some (.send true _ iovs) =>
    s.qp.resp.word.bits ≠ 0 ∧ Takes s s.qp.resp.word.bits (roceIovLen iovs)
  | some (.write _ (some reth) immdt iovs) =>
    s.qp.resp.writtenlen = 0 ∧ (¬ Stored s.qp.resp reth ∨ Unanswered (writeStart s reth) immdt iovs)
  | some (.write _ none immdt iovs) => s.qp.resp.writtenlen ≠ 0 ∧ Unanswered s immdt iovs

/-- The failure shows, or the states agree. -/
def Verdict (s : St) (pkt : Inbound) (s' : St) : Prop :=
  Agree s s' ∧ ¬ Spoils s pkt ∨ ¬ Unchanged s s' ∧ Spoils s pkt

/-- A payload that does not fit or is not mapped: what shows is the moved cursor. -/
theorem PayloadStep.cursor {s s' : St} {iovs : List (List UInt8)} {immdt : Option UInt32}
    {opcode : UInt8} {p : UInt64} {wr : RecvWr} {ret : Int}
    (h : PayloadStep s iovs immdt opcode p wr ret s') (hret : ret < 0)
    (hwr : s.ctx.recvWrs p = some wr) :
    s'.qp = s.qp ∧ (s' = s ∧ ¬ Takes s p (roceIovLen iovs) ∨
      s'.ctx.recvWrs p ≠ s.ctx.recvWrs p ∧ Takes s p (roceIovLen iovs)) := by
  cases h with
  | short hlen hlt =>
    refine ⟨rfl, Or.inl ⟨rfl, ?_⟩⟩
    rintro ⟨wr', len', hwr', hlen', hle⟩
    obtain rfl := Option.some.inj (hwr.symm.trans hwr')
    obtain rfl := Except.ok.inj (hlen.symm.trans hlen')
    exact absurd hlt (UInt32.not_lt.mpr hle)
  | @refused len sges idx off r hlen hle hcut hmap href =>
    refine ⟨rfl, Or.inr ⟨?_, wr, len, hwr, hlen, hle⟩⟩
    intro hsame
    have hset : (s.setRecvWr p { wr with sgeIdx := idx, sgeOff := off }).ctx.recvWrs p =
        some { wr with sgeIdx := idx, sgeOff := off } := if_pos rfl
    have hmk := Option.some.inj (hset.symm.trans (hsame.trans hwr))
    have hidx : idx = wr.sgeIdx := congrArg RecvWr.sgeIdx hmk
    have hoff : off = wr.sgeOff := congrArg RecvWr.sgeOff hmk
    obtain ⟨hcursor, hrest⟩ := roceSgeLen_ok hlen
    rw [hidx, hoff] at hcut
    have hle' : (roceIovLen iovs).toNat ≤ sgeRest wr.sge wr.sgeIdx wr.sgeOff := by
      rw [← hrest]
      exact UInt32.le_iff_toNat_le.mp hle
    -- nothing was cut off, and the mapping of no SGE is not refused
    obtain rfl := roceSgeAdvance_still hcursor hle' hcut
    obtain rfl := Except.ok.inj hmap
    cases href
  | placed _ _ _ _ _ => exact absurd hret (Int.lt_irrefl 0)

theorem SendStep.verdict {s s' : St} {pkt : Inbound} {iovs : List (List UInt8)}
    {immdt : Option UInt32} {inprocess : Bool} {opcode : UInt8} {ret : Int}
    (hreq : pkt.request = some (.send inprocess immdt iovs))
    (h : SendStep s iovs immdt inprocess opcode ret s') (hret : ret < 0) : Verdict s pkt s' := by
  unfold Verdict Spoils
  rw [hreq]
  cases h with
  | outOfOrder h =>
    refine Or.inl ⟨.refl _, ?_⟩
    cases inprocess with
    | false =>
      rintro ⟨hbits, -⟩
      rw [hbits] at h
      exact h rfl
    | true =>
      rintro ⟨hbits, -⟩
      exact h (bne_iff_ne.mpr hbits).symm
  | noWr hin hword h =>
    subst hin
    refine Or.inl ⟨⟨_, .wr 0, _, _, hword.symm, rfl⟩, ?_⟩
    rintro ⟨-, hrq⟩
    exact hrq h
  | @first p rq wr _ _ hin hword hrq hwr h =>
    subst hin
    obtain ⟨hqp, -⟩ := h.cursor hret hwr
    refine Or.inr ⟨?_, hword, by rw [hrq]; exact List.cons_ne_nil p rq⟩
    intro hun
    have hlen := congrArg List.length (hun.rq)
    rw [hqp, hrq] at hlen
    exact absurd hlen (Nat.ne_of_lt (Nat.lt_succ_self rq.length))
  | next hin hword hwr h =>
    subst hin
    obtain ⟨-, ⟨rfl, hnot⟩ | ⟨hmoved, htakes⟩⟩ := h.cursor hret hwr
    · exact Or.inl ⟨.refl _, fun hspoil => hnot hspoil.2⟩
    · exact Or.inr ⟨fun hun => hmoved (hun.cursor hword), hword, htakes⟩

/-- Placing no bytes changes no memory. -/
theorem placeMem_nil (mem : Nat → UInt8) {dsts : List Iovec} (bytes : List UInt8)
    (h : iovTotal (dsts.map some) = 0) : placeMem mem dsts bytes = mem := by
  induction dsts generalizing bytes with
  | nil => rfl
  | cons d dsts ih =>
    rw [List.map_cons, iovTotal_cons] at h
    have hd : d.len = 0 := Nat.eq_zero_of_add_eq_zero_right h
    have hrest : iovTotal (dsts.map some) = 0 := Nat.eq_zero_of_add_eq_zero_left h
    have hwrite : writeMem mem d.base [] = mem := by
      funext a
      unfold writeMem
      rw [List.getD_nil, ite_self]
    rw [placeMem, hd, List.take_zero, hwrite, ih _ hrest]

/-- A WRITE packet that is refused changes nothing; one that is counted and finds
no receive WR shows. -/
theorem PlaceStep.unanswered {s s' : St} {iovs : List (List UInt8)} {immdt : Option UInt32}
    {opcode : UInt8} {ret : Int} (h : PlaceStep s iovs immdt opcode ret s') (hret : ret < 0)
    (himm : WithImm opcode ↔ immdt.isSome = true) :
    Agree s s' ∧ ¬ Unanswered s immdt iovs ∨
      s'.qp.resp.writtenlen ≠ s.qp.resp.writtenlen ∧ Unanswered s immdt iovs := by
  cases h with
  | refused hmap href =>
    refine Or.inl ⟨.refl _, ?_⟩
    rintro ⟨-, -, -, r, hr, hok⟩
    obtain rfl := Except.ok.inj (hmap.symm.trans hr)
    rw [href] at hok
    cases hok
  | plain _ _ => exact absurd hret (Int.lt_irrefl 0)
  | @noWr dsts dmamap hwith hrq hmap =>
    by_cases hlen : roceIovLen iovs = 0
    · refine Or.inl ⟨?_, fun hun => hun.2.2.1 hlen⟩
      have htotal := mrMapLoop_total hmap.map
      have hzero : iovTotal (dsts.map some) = 0 := by
        have hsge : sgeTotal [writeSge s.qp.resp (roceIovLen iovs)] = 0 := by
          rw [hlen]
          rfl
        rw [hsge] at htotal
        exact Nat.le_zero.mp htotal
      refine ⟨(s.written dsts iovs dmamap).ctx.trace, s.qp.resp.word, s.qp.resp.msn,
        s.qp.resp.inPsnNak, rfl, ?_⟩
      unfold St.written St.place
      rw [placeMem_nil _ _ hzero, hlen, UInt32.add_zero]
      rfl
    · refine Or.inr ⟨?_, himm.mp hwith, hrq, hlen, _, hmap.map, rfl⟩
      show s.qp.resp.writtenlen + roceIovLen iovs ≠ _
      intro heq
      exact hlen (UInt32.add_eq_left.mp heq)
  | done _ _ _ _ _ _ => exact absurd hret (Int.lt_irrefl 0)

theorem WriteStep.verdict {s s' : St} {pkt : Inbound} {iovs : List (List UInt8)}
    {reth : Option IbReth} {immdt : Option UInt32} {inprocess : Bool} {ret : Int}
    (hreq : pkt.request = some (.write inprocess reth immdt iovs))
    (h : WriteStep s iovs reth immdt inprocess (ibBthGetOpcode pkt.bth) ret s') (hret : ret < 0) :
    Verdict s pkt s' := by
  obtain ⟨hin, himm⟩ := decodeRequest_write hreq
  unfold Verdict Spoils
  rw [hreq]
  cases h with
  | outOfOrder h =>
    refine Or.inl ⟨⟨_, s.qp.resp.word, _, _, rfl, rfl⟩, ?_⟩
    cases reth with
    | none =>
      rintro ⟨hlen, -⟩
      exact h (hin.trans (bne_iff_ne.mpr hlen).symm)
    | some r =>
      rintro ⟨hlen, -⟩
      rw [hlen] at h
      exact h hin
  | @first r _ _ hfalse hlen hreth h =>
    subst hreth
    simp only
    rcases h.unanswered hret himm with ⟨hag, hnot⟩ | ⟨hcount, hun⟩
    · by_cases hst : Stored s.qp.resp r
      · refine Or.inl ⟨Agree.trans ?_ hag, ?_⟩
        · obtain ⟨hva, hrkey, hdmalen⟩ := hst
          refine ⟨s.ctx.trace, .iova r.va, s.qp.resp.msn, s.qp.resp.inPsnNak, hva, ?_⟩
          unfold writeStart
          rw [hrkey, hdmalen, ← hlen]
          rfl
        · rintro ⟨-, hspoil | hspoil⟩
          · exact hspoil hst
          · exact hnot hspoil
      · refine Or.inr ⟨?_, hlen, Or.inl hst⟩
        intro hun
        have hsame := hag.unchanged
        exact hst ⟨hsame.word.symm.trans hun.word, hsame.rkey.symm.trans hun.rkey,
          hsame.dmalen.symm.trans hun.dmalen⟩
    · refine Or.inr ⟨?_, hlen, Or.inr hun⟩
      intro hsame
      exact hcount (hsame.writtenlen.trans hlen)
  | next htrue hlen h =>
    have hnone : reth = none := by
      rw [htrue] at hin
      cases reth with
      | none => rfl
      | some r => cases hin
    subst hnone
    simp only
    rcases h.unanswered hret himm with ⟨hag, hnot⟩ | ⟨hcount, hun⟩
    · exact Or.inl ⟨hag, fun hspoil => hnot hspoil.2⟩
    · exact Or.inr ⟨fun hsame => hcount hsame.writtenlen, hlen, hun⟩

theorem RequestStep.verdict {s s' : St} {pkt : Inbound} {ret : Int} (h : RequestStep s pkt ret s')
    (hret : ret < 0) : Verdict s pkt s' := by
  cases h with
  | malformed hreq =>
    refine Or.inl ⟨.refl _, ?_⟩
    unfold Spoils
    rw [hreq]
    exact id
  | send hreq h => exact h.verdict hreq hret
  | write hreq h => exact h.verdict hreq hret

/-- **A request that fails.**  It leaves the receive state as it was, and the
retry is handled like a first arrival, exactly when it does not spoil. -/
theorem roceRecvRc_restores {s s' : St} {pkt : Inbound} {ret : Int}
    (hreq : ibBthGetOpcode pkt.bth ≠ ibOpcodeAcknowledge)
    (hseq : roceComparePsn s.qp.attr.rqPsn (ibBthGetPsn pkt.bth) = 0)
    (h : roceRecvRc s pkt = .ok (ret, s')) (hret : ret < 0) :
    (Unchanged s s' ∧ Replays s s') ↔ ¬ Spoils s pkt := by
  unfold roceRecvRc at h
  rw [if_neg hreq] at h
  simp only [hseq] at h
  have hstep : RequestStep { s with qp.resp.inPsnNak := false } pkt ret s' := by
    rcases recvInSequence_ok h with ⟨-, hstep⟩ | ⟨hzero, -⟩
    · exact hstep
    · omega
  have hnak : Agree s { s with qp.resp.inPsnNak := false } :=
    ⟨s.ctx.trace, s.qp.resp.word, s.qp.resp.msn, false, rfl, rfl⟩
  rcases hstep.verdict hret with ⟨hag, hnot⟩ | ⟨hchanged, hspoil⟩
  · have hall := hnak.trans hag
    exact iff_of_true ⟨hall.unchanged, hall.replays⟩ hnot
  · refine iff_of_false ?_ (not_not.mpr hspoil)
    rintro ⟨hun, -⟩
    exact hchanged ⟨hun.rq, hun.word, hun.rkey, hun.dmalen, hun.writtenlen, hun.rqPsn, hun.cursor⟩

/-- A SEND of three bytes. -/
def smallLong : Inbound := smallPkt ibOpcodeSendOnly 0 [[1, 2, 3]]

/-- A payload one byte longer than its receive WR: the WR is popped and stays
in the union, so the retry is refused as a second FIRST. -/
theorem roceRecvRc_restores_short :
    ∃ s', roceRecvRc (smallRecv 2 1) smallLong = .ok (eFAULT, s') ∧
      ¬ Unchanged (smallRecv 2 1) s' := by
  refine ⟨_, rfl, ?_⟩
  intro h
  have hrq : ([] : List UInt64) = [0x1000] := h.rq
  cases hrq

/-- Without a receive WR nothing changes. -/
theorem roceRecvRc_restores_noWr :
    ∃ s', roceRecvRc (smallRecv 2 0) smallLong = .ok (eAGAIN, s') ∧
      Unchanged (smallRecv 2 0) s' ∧ Replays (smallRecv 2 0) s' := by
  have hstep : ∃ s', roceRecvRc (smallRecv 2 0) smallLong = .ok (eAGAIN, s') :=
    ⟨_, rfl⟩
  obtain ⟨s', hstep⟩ := hstep
  have hspoil : ¬ Spoils (smallRecv 2 0) smallLong := by
    rintro ⟨-, hrq⟩
    exact hrq rfl
  exact ⟨s', hstep, (roceRecvRc_restores (by decide) (by decide) hstep (by decide)).mpr hspoil⟩

end Libroce
