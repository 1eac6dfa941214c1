import Libroce.ResponderUnion

/-!
# The cursor of a receive WR

`roce_recv_payload` calls `roce_sge_len` and `roce_sge_advance` at the cursor
that the packet before left.  A packet that takes the last byte leaves it behind
the last SGE, where neither may be called.

    the cursor stands at an SGE unless the bytes are used up   (respStep_tidy)
    so the calls are safe exactly for a WR that is open        (RecvWr.Tidy.safe_iff)

Main statement: `respRun_sge`.
-/

namespace Libroce

open Machine (Along)

/-! ## The calls -/

/-- `roce_recv_payload` is called for `bufLen` bytes and finds the WR. -/
def Receives (s : St) (op : RespOp) (wr : RecvWr) (bufLen : UInt32) : Prop :=
  ∃ pkt inprocess immdt iovs p s1, op = .recv pkt ∧
    roceComparePsn s.qp.attr.rqPsn (ibBthGetPsn pkt.bth) = 0 ∧
    pkt.request = some (.send inprocess immdt iovs) ∧
    rocePopRecvWr s inprocess = (some p, s1) ∧ s1.ctx.recvWrs p = some wr ∧ bufLen = roceIovLen iovs

/-- The calls of `roce_sge_len` and `roce_sge_advance` for it do not abort. -/
def RecvWr.Safe (wr : RecvWr) (bufLen : UInt32) : Prop :=
  ∃ len, roceSgeLen wr.sge wr.sgeIdx wr.sgeOff = .ok len ∧
    (bufLen ≤ len → ∃ cut, roceSgeAdvance wr.sge bufLen.toNat wr.sgeIdx wr.sgeOff = .ok cut)

def SgeSafe (s : St) (op : RespOp) : Prop :=
  ∀ wr bufLen, Receives s op wr bufLen → wr.Safe bufLen

/-- The WR has an SGE, no more bytes than a `uint32_t` counts, and its bytes are
not used up.  After its last byte an empty SGE may still be left. -/
structure RecvWr.Open (wr : RecvWr) : Prop where
  nonempty : wr.sge ≠ []
  short : sgeTotal wr.sge < 2 ^ 32
  room : ¬UsedUp wr.sge wr.sgeIdx wr.sgeOff

def FindsOpen (s : St) (op : RespOp) : Prop :=
  ∀ wr bufLen, Receives s op wr bufLen → wr.Open

/-! ## The invariant -/

/-- The cursor of a WR that was posted, and that packets may have moved. -/
structure RecvWr.Tidy (wr : RecvWr) : Prop where
  settled : Settled wr.sge wr.sgeIdx wr.sgeOff
  counted : sgeTotal wr.sge < 2 ^ 32 ∨ wr.sgeIdx = 0 ∧ wr.sgeOff = 0

theorem RecvWr.tidy_fresh (wrId : UInt64) (sge : List RoceSge) : (RecvWr.fresh wrId sge).Tidy :=
  ⟨settled_zero sge, Or.inr ⟨rfl, rfl⟩⟩

theorem RecvWr.Tidy.short {wr : RecvWr} {len : UInt32} (h : wr.Tidy)
    (hlen : roceSgeLen wr.sge wr.sgeIdx wr.sgeOff = .ok len) : sgeTotal wr.sge < 2 ^ 32 := by
  rcases h.counted with hshort | ⟨hidx, hoff⟩
  · exact hshort
  · obtain ⟨-, hrest⟩ := roceSgeLen_ok hlen
    rw [hidx, hoff, sgeRest_zero] at hrest
    have hlt := len.toNat_lt
    omega

/-- The helpers are safe exactly for an open WR. -/
theorem RecvWr.Tidy.safe_iff {wr : RecvWr} {bufLen : UInt32} (h : wr.Tidy) :
    wr.Safe bufLen ↔ wr.Open := by
  constructor
  · rintro ⟨len, hlen, -⟩
    obtain ⟨hcur, -⟩ := roceSgeLen_ok hlen
    refine ⟨?_, h.short hlen, h.settled.mp hcur⟩
    intro hnil
    obtain ⟨sge, rest, hd, -⟩ := hcur
    rw [hnil, List.drop_nil] at hd
    cases hd
  · intro hopen
    have hcur := h.settled.mpr hopen.room
    have hrest : sgeRest wr.sge wr.sgeIdx wr.sgeOff ≤ sgeTotal wr.sge := by
      unfold sgeRest
      have hsplit := congrArg sgeTotal (List.take_append_drop wr.sgeIdx wr.sge)
      unfold sgeTotal at hsplit ⊢
      rw [List.map_append, List.sum_append] at hsplit
      omega
    have hshort := hopen.short
    have hlt : sgeRest wr.sge wr.sgeIdx wr.sgeOff < 2 ^ 32 := by omega
    refine ⟨_, roceSgeLen_eq_ok hcur hlt, ?_⟩
    intro hle
    have hroom : bufLen.toNat ≤ sgeRest wr.sge wr.sgeIdx wr.sgeOff := by
      rw [UInt32.le_iff_toNat_le, UInt32.toNat_ofNat', Nat.mod_eq_of_lt hlt] at hle
      exact hle
    obtain ⟨dst, idx, off, hcut, -⟩ := roceSgeAdvance_spec hcur hroom
    exact ⟨_, hcut⟩

/-- A packet moves the cursor. -/
theorem RecvWr.Tidy.advance {wr : RecvWr} {len : UInt32} {bytes idx off : Nat} {dst : List RoceSge}
    (h : wr.Tidy) (hlen : roceSgeLen wr.sge wr.sgeIdx wr.sgeOff = .ok len)
    (hcut : roceSgeAdvance wr.sge bytes wr.sgeIdx wr.sgeOff = .ok (dst, idx, off)) (byteLen : UInt32) :
    RecvWr.Tidy { wr with sgeIdx := idx, sgeOff := off, byteLen := byteLen } :=
  ⟨roceSgeAdvance_settled h.settled hcut, Or.inl (h.short hlen)⟩

/-- The receive WRs that are there. -/
def AllWrs (P : RecvWr → Prop) (s : St) : Prop := ∀ p wr, s.ctx.recvWrs p = some wr → P wr

section

variable {P : RecvWr → Prop}

theorem AllWrs.setRecvWr {s : St} {wr : RecvWr} (h : AllWrs P s) (p : UInt64) (hwr : P wr) :
    AllWrs P (s.setRecvWr p wr) := by
  intro q wr' hq
  by_cases hqp : q = p
  · subst hqp
    obtain rfl : wr = wr' := Option.some.inj ((if_pos rfl).symm.trans hq)
    exact hwr
  · exact h q wr' ((if_neg hqp).symm.trans hq)

theorem AllWrs.emit {s : St} (h : AllWrs P s) (es : List Event) : AllWrs P (s.emit es) := h

theorem AllWrs.free {s : St} {ctx : RoceCtx} {p : UInt64} {wr : RecvWr} (h : AllWrs P s)
    (hfree : roceFreeRecvWr s.ctx p wr = .ok ctx) : AllWrs P { s with ctx := ctx } := by
  obtain ⟨-, hwrs⟩ := roceFreeRecvWr_ok hfree
  intro q wr' hq
  have hq' : ctx.recvWrs q = some wr' := hq
  rw [hwrs] at hq'
  split at hq'
  · cases hq'
  · exact h q wr' hq'

theorem AllWrs.post {s s' : St} {p : UInt64} {wr : RecvWr} {ret : Int} (h : AllWrs P s) (hwr : P wr)
    (hs : rocePostRecv s p wr = .ok (ret, s')) : AllWrs P s' := by
  unfold rocePostRecv at hs
  split at hs
  · cases hs
  · next ret1 ctx1 hget =>
    have hrefs : AllWrs P { s with ctx := ctx1 } := by
      intro q wr' hq
      have hsame : ctx1.recvWrs = s.ctx.recvWrs := by rw [roceGetMrs_refsOnly hget]
      exact h q wr' (by rw [← hsame]; exact hq)
    split at hs
    · split at hs
      · cases hs
      · next ctx2 hfree =>
        obtain ⟨-, rfl⟩ := Prod.mk.inj (Except.ok.inj hs)
        exact hrefs.free hfree
    · obtain ⟨-, rfl⟩ := Prod.mk.inj (Except.ok.inj hs)
      exact hrefs.setRecvWr p hwr

end

/-! ## One call -/

theorem PayloadStep.tidy {s s' : St} {iovs : List (List UInt8)} {immdt : Option UInt32} {opcode : UInt8}
    {p : UInt64} {wr : RecvWr} {ret : Int} (hs : PayloadStep s iovs immdt opcode p wr ret s')
    (h : AllWrs RecvWr.Tidy s) (hwr : s.ctx.recvWrs p = some wr) : AllWrs RecvWr.Tidy s' := by
  have htidy := h p wr hwr
  cases hs with
  | short hlen hlt => exact h
  | refused hlen hle hcut hmap hr => exact h.setRecvWr p (htidy.advance hlen hcut wr.byteLen)
  | @placed len sges idx off dsts dmamap _ hlen hle hcut hmap hfin =>
    have hplace : AllWrs RecvWr.Tidy (s.place dsts iovs.flatten dmamap) := h
    have hset := hplace.setRecvWr p (htidy.advance hlen hcut (wr.byteLen + roceIovLen iovs))
    cases hfin with
    | goesOn _ => exact hset
    | @done e ctx hcomp hfree =>
      have hemit := hset.emit [e]
      exact hemit.free hfree

theorem SendStep.tidy {s s' : St} {iovs : List (List UInt8)} {immdt : Option UInt32} {inprocess : Bool}
    {opcode : UInt8} {ret : Int} (hs : SendStep s iovs immdt inprocess opcode ret s')
    (h : AllWrs RecvWr.Tidy s) : AllWrs RecvWr.Tidy s' := by
  cases hs with
  | outOfOrder _ => exact h
  | noWr _ _ _ => exact h
  | first hin hword hrq hwr hs => exact hs.tidy h hwr
  | next hin hword hwr hs => exact hs.tidy h hwr

/-- The packets are neither acknowledgements nor WRITEs. -/
def RespOp.Sends : RespOp → Prop
  | .recv pkt => ibBthGetOpcode pkt.bth ≠ ibOpcodeAcknowledge ∧
      ∀ inprocess reth immdt iovs, pkt.request ≠ some (.write inprocess reth immdt iovs)
  | .postRecv _ _ _ => True

theorem recvInSequence_tidy {s s' : St} {pkt : Inbound} {ret : Int} (hsend : (RespOp.recv pkt).Sends)
    (h : AllWrs RecvWr.Tidy s) (hs : recvInSequence s pkt = .ok (ret, s')) : AllWrs RecvWr.Tidy s' := by
  have hreq : ∀ {r u}, RequestStep { s with qp.resp.inPsnNak := false } pkt r u → AllWrs RecvWr.Tidy u := by
    intro r u hstep
    cases hstep with
    | malformed _ => exact h
    | send hreq hstep => exact hstep.tidy h
    | write hreq _ => exact absurd hreq (hsend.2 _ _ _ _)
  rcases recvInSequence_ok hs with ⟨-, hstep⟩ | ⟨-, s1, s2, hstep, hack, rfl⟩
  · exact hreq hstep
  · have h1 := hreq hstep
    rcases hack with ⟨-, rfl⟩ | ⟨-, hack⟩
    · exact h1
    · obtain ⟨ack, rfl, -⟩ := roceNetpktAcknowledge_ok hack
      exact h1

theorem roceRecvRc_tidy {s s' : St} {pkt : Inbound} {ret : Int} (hsend : (RespOp.recv pkt).Sends)
    (h : AllWrs RecvWr.Tidy s) (hs : roceRecvRc s pkt = .ok (ret, s')) : AllWrs RecvWr.Tidy s' := by
  unfold roceRecvRc at hs
  rw [if_neg hsend.1] at hs
  simp only at hs
  split at hs
  · obtain ⟨-, rfl⟩ := Prod.mk.inj (Except.ok.inj hs)
    exact h
  · split at hs
    · obtain ⟨u, hout, hs⟩ := Machine.bind_eq_ok.mp hs
      obtain ⟨-, rfl⟩ := Prod.mk.inj (Except.ok.inj hs)
      unfold roceOutOfSeq at hout
      split at hout
      · obtain rfl := Except.ok.inj hout
        exact h
      · split at hout
        · cases hout
        · next v hack =>
          obtain rfl := Except.ok.inj hout
          obtain ⟨nak, rfl, -⟩ := roceNetpktAcknowledge_ok hack
          exact h
    · exact recvInSequence_tidy hsend h hs

/-- **One call.** -/
theorem respStep_tidy {s s' : St} {op : RespOp} (h : AllWrs RecvWr.Tidy s) (hsend : op.Sends)
    (hs : respStep s op = .ok s') : AllWrs RecvWr.Tidy s' := by
  unfold respStep at hs
  cases op with
  | recv pkt =>
    simp only at hs
    split at hs
    · cases hs
    · next ret u hrecv =>
      obtain rfl := Except.ok.inj hs
      exact roceRecvRc_tidy hsend h hrecv
  | postRecv p wrId sge =>
    simp only at hs
    split at hs
    · cases hs
    · next ret u hpost =>
      obtain rfl := Except.ok.inj hs
      exact h.post (RecvWr.tidy_fresh wrId sge) hpost

/-! ## Runs -/

/-- A WR as it was posted. -/
def RecvWr.AsPosted (wr : RecvWr) : Prop := ∃ wrId sge, wr = .fresh wrId sge

theorem AllWrs.tidy {s : St} (h : AllWrs RecvWr.AsPosted s) : AllWrs RecvWr.Tidy s := by
  intro p wr hwr
  obtain ⟨wrId, sge, rfl⟩ := h p wr hwr
  exact RecvWr.tidy_fresh wrId sge

/-- The WR that is found is one of those that are there. -/
theorem Receives.tidy {s : St} {op : RespOp} {wr : RecvWr} {bufLen : UInt32} (h : AllWrs RecvWr.Tidy s)
    (hr : Receives s op wr bufLen) : wr.Tidy := by
  obtain ⟨pkt, inprocess, immdt, iovs, p, s1, -, -, -, hpop, hwr, -⟩ := hr
  have hsame : s1.ctx.recvWrs = s.ctx.recvWrs := by
    unfold rocePopRecvWr rqPop at hpop
    split at hpop
    · cases hpop
    · split at hpop
      · obtain ⟨-, rfl⟩ := Prod.mk.inj hpop
        rfl
      · cases hrq : s.qp.rq with
        | nil =>
          rw [hrq] at hpop
          cases hpop
        | cons q rq =>
          rw [hrq] at hpop
          obtain ⟨-, rfl⟩ := Prod.mk.inj hpop
          rfl
  exact h p wr (by rw [← hsame]; exact hwr)

theorem AllWrs.sgeSafe_iff {s : St} (h : AllWrs RecvWr.Tidy s) (op : RespOp) :
    SgeSafe s op ↔ FindsOpen s op := by
  constructor
  · exact fun hsafe wr bufLen hr => (hr.tidy h).safe_iff.mp (hsafe wr bufLen hr)
  · exact fun hopen wr bufLen hr => (hr.tidy h).safe_iff.mpr (hopen wr bufLen hr)

/-- **The cursor.**  Along every run of posted WRs and SEND packets the helpers
are called safely exactly when no packet finds a WR without SGEs, one of 2^32
bytes or more, or one whose bytes are used up. -/
theorem respRun_sge (s : St) (h : AllWrs RecvWr.AsPosted s) (ops : List RespOp)
    (hsend : ∀ op ∈ ops, op.Sends) :
    Along respStep SgeSafe s ops ↔ Along respStep FindsOpen s ops := by
  have htidy := h.tidy
  clear h
  induction ops generalizing s with
  | nil => exact Iff.rfl
  | cons op ops ih =>
    have hrest : ∀ s', respStep s op = .ok s' →
        (Along respStep SgeSafe s' ops ↔ Along respStep FindsOpen s' ops) := by
      intro s' hs
      refine ih s' (fun op' hmem => hsend op' (List.mem_cons_of_mem _ hmem)) ?_
      exact respStep_tidy htidy (hsend op List.mem_cons_self) hs
    constructor
    · rintro ⟨hsafe, hmore⟩
      exact ⟨(htidy.sgeSafe_iff op).mp hsafe, fun s' hs => (hrest s' hs).mp (hmore s' hs)⟩
    · rintro ⟨hopen, hmore⟩
      exact ⟨(htidy.sgeSafe_iff op).mpr hopen, fun s' hs => (hrest s' hs).mpr (hmore s' hs)⟩

/-- A SEND of three bytes, in two packets. -/
def twoThenOne : List RespOp :=
  [.recv (smallPkt ibOpcodeSendFirst 0 [[1, 2]]), .recv (smallPkt ibOpcodeSendLast 1 [[3]])]

theorem smallRecv_asPosted (len : UInt32) (n : Nat) : AllWrs RecvWr.AsPosted (smallRecv len n) := by
  induction n with
  | zero => rintro p wr ⟨⟩
  | succ n ih =>
    unfold smallRecv
    split
    · next hpost => exact ih.post ⟨_, _, rfl⟩ hpost
    · exact ih

theorem twoThenOne_sends : ∀ op ∈ twoThenOne, op.Sends := by
  intro op hmem
  rcases List.mem_cons.mp hmem with rfl | hmem
  · exact ⟨by decide, fun _ _ _ _ h => by cases h⟩
  · obtain rfl := List.mem_singleton.mp hmem
    exact ⟨by decide, fun _ _ _ _ h => by cases h⟩

/-- The first packet fills a WR of two bytes, and the second aborts. -/
theorem respRun_sge_usedUp : ¬Along respStep SgeSafe (smallRecv 2 1) twoThenOne ∧
    (∃ s, respStep (smallRecv 2 1) (.recv (smallPkt ibOpcodeSendFirst 0 [[1, 2]])) = .ok s ∧
      roceRecvRc s (smallPkt ibOpcodeSendLast 1 [[3]]) = .error (.abort .sgeLenIdx)) := by
  obtain ⟨s, s1, wr, hstep, hpsn, hpop, hwr, hlen, habort⟩ : ∃ s s1 wr,
      respStep (smallRecv 2 1) (.recv (smallPkt ibOpcodeSendFirst 0 [[1, 2]])) = .ok s ∧
      roceComparePsn s.qp.attr.rqPsn 1 = 0 ∧ rocePopRecvWr s true = (some 0x1000, s1) ∧
      s1.ctx.recvWrs 0x1000 = some wr ∧
      roceSgeLen wr.sge wr.sgeIdx wr.sgeOff = .error (.abort .sgeLenIdx) ∧
      roceRecvRc s (smallPkt ibOpcodeSendLast 1 [[3]]) = .error (.abort .sgeLenIdx) :=
    ⟨_, _, _, rfl, rfl, rfl, rfl, rfl, rfl⟩
  refine ⟨?_, s, hstep, habort⟩
  rintro ⟨-, hrest⟩
  obtain ⟨hsafe, -⟩ := hrest s hstep
  obtain ⟨len, hok, -⟩ := hsafe wr _ ⟨_, true, none, [[3]], 0x1000, s1, rfl, hpsn, rfl, hpop, hwr, rfl⟩
  rw [hlen] at hok
  cases hok

/-- A WR of 16 bytes stays open. -/
theorem respRun_sge_open : Along respStep SgeSafe (smallRecv 16 1) twoThenOne := by
  have hopen : ∀ {s s1 : St} {pkt : Inbound} {inprocess : Bool} {p : UInt64} {wr : RecvWr}
      {iovs : List (List UInt8)}, pkt.request = some (.send inprocess none iovs) →
      rocePopRecvWr s inprocess = (some p, s1) → s1.ctx.recvWrs p = some wr → wr.Open →
      FindsOpen s (.recv pkt) := by
    rintro s s1 pkt inprocess p wr iovs hreq hpop hwr hopen wr' bufLen
      ⟨pkt', inprocess', immdt', iovs', p', s1', hop, -, hreq', hpop', hwr', -⟩
    obtain rfl := RespOp.recv.inj hop
    obtain ⟨rfl, rfl, rfl⟩ := Request.send.inj (Option.some.inj (hreq.symm.trans hreq'))
    obtain ⟨hp, rfl⟩ := Prod.mk.inj (hpop.symm.trans hpop')
    obtain rfl := Option.some.inj hp
    obtain rfl := Option.some.inj (hwr.symm.trans hwr')
    exact hopen
  refine (respRun_sge (smallRecv 16 1) (smallRecv_asPosted 16 1) twoThenOne twoThenOne_sends).mpr ⟨?_, ?_⟩
  · exact hopen rfl rfl rfl ⟨by decide, by decide, fun h => absurd h.1 (by decide)⟩
  · intro s hs
    obtain ⟨u, s1, wr, hstep, hpop, hwr, hsge, hidx, hoff⟩ : ∃ u s1 wr,
        respStep (smallRecv 16 1) (.recv (smallPkt ibOpcodeSendFirst 0 [[1, 2]])) = .ok u ∧
        rocePopRecvWr u true = (some 0x1000, s1) ∧ s1.ctx.recvWrs 0x1000 = some wr ∧
        wr.sge = [⟨0x10000, 16, 0⟩] ∧ wr.sgeIdx = 0 ∧ wr.sgeOff = 2 :=
      ⟨_, _, _, rfl, rfl, rfl, rfl, rfl, rfl⟩
    obtain rfl := Except.ok.inj (hstep.symm.trans hs)
    refine ⟨hopen rfl hpop hwr ⟨?_, ?_, ?_⟩, fun _ _ => trivial⟩
    · rw [hsge]
      decide
    · rw [hsge]
      decide
    · rw [hsge, hidx, hoff]
      exact fun h => absurd h.1 (by decide)

end Libroce
