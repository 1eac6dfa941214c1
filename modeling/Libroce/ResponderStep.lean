import Libroce.Lib.Machine
import Libroce.Responder

/-!
# What a request does to the responder

The switch of `roce_recv_rc` takes the extension headers off and hands the rest
to `roce_recv_payload` or `roce_rdma_write_payload`.  `decodeRequest` is the
first half of it, `execRequest` the second; the lemmas on the functions behind
say everything that each of them can do.

    recvRequest s pkt = the decoded request, executed          (recvRequest_eq)
    roceRecvPayload ..  → SendStep                             (roceRecvPayload_ok)
    roceRdmaWritePayload ..  → WriteStep                       (roceRdmaWritePayload_ok)
-/

namespace Libroce

open Machine (bind_eq_ok)

/-! ## Decoding -/

/-- A request without its extension headers. -/
inductive Request where
  | send (inprocess : Bool) (immdt : Option UInt32) (iovs : List (List UInt8))
  | write (inprocess : Bool) (reth : Option IbReth) (immdt : Option UInt32)
      (iovs : List (List UInt8))
  deriving DecidableEq

/-- A request with an immediate. -/
def decodeImm (iovs : List (List UInt8)) (f : UInt32 → List (List UInt8) → Request) :
    Option Request :=
  match roceGetEth ibImmdtCodec iovs with
  | none => none
  | some (immdt, iovs) => some (f immdt iovs)

/-- A request with a RETH. -/
def decodeReth (iovs : List (List UInt8)) (f : IbReth → List (List UInt8) → Option Request) :
    Option Request :=
  match roceGetEth ibRethCodec iovs with
  | none => none
  | some (reth, iovs) => f reth iovs

/-- What `roce_recv_rc` makes of a packet; `none` is `-EPROTO`. -/
def decodeRequest (opcode : UInt8) (iovs : List (List UInt8)) : Option Request :=
  if opcode = ibOpcodeSendFirst then some (.send false none iovs)
  else if opcode = ibOpcodeSendMiddle then some (.send true none iovs)
  else if opcode = ibOpcodeSendLastWithImmediate then
    decodeImm iovs fun immdt iovs => .send true (some immdt) iovs
  else if opcode = ibOpcodeSendLast then some (.send true none iovs)
  else if opcode = ibOpcodeSendOnlyWithImmediate then
    decodeImm iovs fun immdt iovs => .send false (some immdt) iovs
  else if opcode = ibOpcodeSendOnly then some (.send false none iovs)
  else if opcode = ibOpcodeRdmaWriteOnly then
    decodeReth iovs fun reth iovs => some (.write false (some reth) none iovs)
  else if opcode = ibOpcodeRdmaWriteOnlyWithImmediate then
    decodeReth iovs fun reth iovs =>
      decodeImm iovs fun immdt iovs => .write false (some reth) (some immdt) iovs
  else if opcode = ibOpcodeRdmaWriteFirst then
    decodeReth iovs fun reth iovs => some (.write false (some reth) none iovs)
  else if opcode = ibOpcodeRdmaWriteMiddle then some (.write true none none iovs)
  else if opcode = ibOpcodeRdmaWriteLast then some (.write true none none iovs)
  else if opcode = ibOpcodeRdmaWriteLastWithImmediate then
    decodeImm iovs fun immdt iovs => .write true none (some immdt) iovs
  else none

/-- The request packet `pkt`, decoded. -/
def Inbound.request (pkt : Inbound) : Option Request :=
  decodeRequest (ibBthGetOpcode pkt.bth) pkt.iovs

/-- The function that a decoded request goes to. -/
def execRequest (s : St) (opcode : UInt8) (calloc : Bool) : Option Request → Except Fault (Int × St)
  | none => .ok (ePROTO, s)
  | some (.send inprocess immdt iovs) => roceRecvPayload s iovs immdt inprocess opcode
  | some (.write inprocess reth immdt iovs) =>
    roceRdmaWritePayload s iovs reth immdt inprocess opcode calloc

theorem execRequest_decodeImm (s : St) (opcode : UInt8) (calloc : Bool) (iovs : List (List UInt8))
    (f : UInt32 → List (List UInt8) → Request) :
    execRequest s opcode calloc (decodeImm iovs f) =
      match roceGetEth ibImmdtCodec iovs with
      | none => .ok (ePROTO, s)
      | some (immdt, iovs) => execRequest s opcode calloc (some (f immdt iovs)) := by
  unfold decodeImm
  cases roceGetEth ibImmdtCodec iovs with
  | none => rfl
  | some r => rfl

theorem execRequest_decodeReth (s : St) (opcode : UInt8) (calloc : Bool) (iovs : List (List UInt8))
    (f : IbReth → List (List UInt8) → Option Request) :
    execRequest s opcode calloc (decodeReth iovs f) =
      match roceGetEth ibRethCodec iovs with
      | none => .ok (ePROTO, s)
      | some (reth, iovs) => execRequest s opcode calloc (f reth iovs) := by
  unfold decodeReth
  cases roceGetEth ibRethCodec iovs with
  | none => rfl
  | some r => rfl

/-- The switch decodes and executes. -/
theorem recvRequest_eq (s : St) (pkt : Inbound) :
    recvRequest s pkt = execRequest s (ibBthGetOpcode pkt.bth) pkt.calloc pkt.request := by
  unfold recvRequest Inbound.request decodeRequest
  simp only [apply_ite (execRequest s (ibBthGetOpcode pkt.bth) pkt.calloc), execRequest_decodeImm,
    execRequest_decodeReth]
  rfl

theorem decodeImm_some {iovs : List (List UInt8)} {f : UInt32 → List (List UInt8) → Request}
    {r : Request} (h : decodeImm iovs f = some r) : ∃ immdt iovs', r = f immdt iovs' := by
  unfold decodeImm at h
  split at h
  · cases h
  · next immdt iovs' _ => exact ⟨immdt, iovs', (Option.some.inj h).symm⟩

theorem decodeReth_some {iovs : List (List UInt8)} {f : IbReth → List (List UInt8) → Option Request}
    {r : Request} (h : decodeReth iovs f = some r) : ∃ reth iovs', f reth iovs' = some r := by
  unfold decodeReth at h
  split at h
  · cases h
  · next reth iovs' _ => exact ⟨reth, iovs', h⟩

/-- The WRITE opcodes that take a receive WR. -/
def WithImm (opcode : UInt8) : Prop :=
  opcode = ibOpcodeRdmaWriteOnlyWithImmediate ∨ opcode = ibOpcodeRdmaWriteLastWithImmediate

instance (opcode : UInt8) : Decidable (WithImm opcode) := by
  unfold WithImm
  infer_instance

/-- A WRITE packet has a RETH exactly when it is the first of its message, and
an immediate exactly when its opcode says so. -/
theorem decodeRequest_write {opcode : UInt8} {iovs iovs' : List (List UInt8)} {inprocess : Bool}
    {reth : Option IbReth} {immdt : Option UInt32}
    (h : decodeRequest opcode iovs = some (.write inprocess reth immdt iovs')) :
    (inprocess = !reth.isSome) ∧ (WithImm opcode ↔ immdt.isSome = true) := by
  have himm : ∀ {iovs : List (List UInt8)} {f : UInt32 → List (List UInt8) → Request},
      decodeImm iovs f = some (.write inprocess reth immdt iovs') →
      ∃ immdt' iovs'', Request.write inprocess reth immdt iovs' = f immdt' iovs'' := decodeImm_some
  unfold decodeRequest at h
  -- the six SEND opcodes
  rcases ite_eq_iff.mp h with ⟨-, h⟩ | ⟨-, h⟩
  · cases h
  rcases ite_eq_iff.mp h with ⟨-, h⟩ | ⟨-, h⟩
  · cases h
  rcases ite_eq_iff.mp h with ⟨-, h⟩ | ⟨-, h⟩
  · obtain ⟨_, _, hr⟩ := himm h
    cases hr
  rcases ite_eq_iff.mp h with ⟨-, h⟩ | ⟨-, h⟩
  · cases h
  rcases ite_eq_iff.mp h with ⟨-, h⟩ | ⟨-, h⟩
  · obtain ⟨_, _, hr⟩ := himm h
    cases hr
  rcases ite_eq_iff.mp h with ⟨-, h⟩ | ⟨-, h⟩
  · cases h
  -- the six WRITE opcodes
  rcases ite_eq_iff.mp h with ⟨hop, h⟩ | ⟨-, h⟩
  · subst hop
    obtain ⟨_, _, hr⟩ := decodeReth_some h
    cases hr
    exact ⟨rfl, by decide⟩
  rcases ite_eq_iff.mp h with ⟨hop, h⟩ | ⟨-, h⟩
  · subst hop
    obtain ⟨_, _, hr⟩ := decodeReth_some h
    obtain ⟨_, _, hr⟩ := himm hr
    cases hr
    exact ⟨rfl, iff_of_true (by decide) rfl⟩
  rcases ite_eq_iff.mp h with ⟨hop, h⟩ | ⟨-, h⟩
  · subst hop
    obtain ⟨_, _, hr⟩ := decodeReth_some h
    cases hr
    exact ⟨rfl, by decide⟩
  rcases ite_eq_iff.mp h with ⟨hop, h⟩ | ⟨-, h⟩
  · subst hop
    cases h
    exact ⟨rfl, by decide⟩
  rcases ite_eq_iff.mp h with ⟨hop, h⟩ | ⟨-, h⟩
  · subst hop
    cases h
    exact ⟨rfl, by decide⟩
  rcases ite_eq_iff.mp h with ⟨hop, h⟩ | ⟨-, h⟩
  · subst hop
    obtain ⟨_, _, hr⟩ := himm h
    cases hr
    exact ⟨rfl, iff_of_true (by decide) rfl⟩
  · cases h

/-! ## Placing payload -/

/-- The copies of a payload to mapped iovecs. -/
def copyEvents : List Iovec → List UInt8 → List Event
  | [], _ => []
  | dst :: dsts, bytes => .copy dst.base (bytes.take dst.len) :: copyEvents dsts (bytes.drop dst.len)

/-- Host memory after them. -/
def placeMem (mem : Nat → UInt8) : List Iovec → List UInt8 → Nat → UInt8
  | [], _ => mem
  | dst :: dsts, bytes =>
    placeMem (writeMem mem dst.base (bytes.take dst.len)) dsts (bytes.drop dst.len)

/-- The state with a payload placed and its iovecs unmapped. -/
def St.place (s : St) (dsts : List Iovec) (bytes : List UInt8) (dmamap : Bool) : St :=
  { s with
    ctx.mem := placeMem s.ctx.mem dsts bytes
    ctx.trace := s.ctx.trace ++ copyEvents dsts bytes ++ roceMrUnmapSge dmamap dsts }

/-- A loop that ends has written every entry. -/
theorem copyLoop_ok {s s' : St} {dsts : List (Option Iovec)} {iovs : List (List UInt8)}
    (h : copyLoop s dsts iovs = .ok s') :
    ∃ ds, dsts = ds.map some ∧ s' =
      { s with
        ctx.mem := placeMem s.ctx.mem ds iovs.flatten
        ctx.trace := s.ctx.trace ++ copyEvents ds iovs.flatten } := by
  induction dsts generalizing s iovs with
  | nil =>
    obtain rfl := Except.ok.inj h
    refine ⟨[], rfl, ?_⟩
    rw [copyEvents, List.append_nil]
    rfl
  | cons d dsts ih =>
    cases d with
    | none => cases h
    | some d =>
      rw [copyLoop] at h
      simp only at h
      obtain ⟨ds, rfl, rfl⟩ := ih h
      refine ⟨d :: ds, rfl, ?_⟩
      rw [roceIovAdvance_fst, roceIovAdvance_snd, copyEvents]
      simp only [placeMem, St.emit, List.append_assoc, List.singleton_append]

/-- Written entries are all copied to. -/
theorem copyLoop_map_some (s : St) (ds : List Iovec) (iovs : List (List UInt8)) :
    copyLoop s (ds.map some) iovs = .ok
      { s with
        ctx.mem := placeMem s.ctx.mem ds iovs.flatten
        ctx.trace := s.ctx.trace ++ copyEvents ds iovs.flatten } := by
  induction ds generalizing s iovs with
  | nil =>
    rw [copyEvents, List.append_nil]
    rfl
  | cons d ds ih =>
    rw [List.map_cons, copyLoop]
    simp only
    rw [ih, roceIovAdvance_fst, roceIovAdvance_snd, copyEvents]
    simp only [placeMem, St.emit, List.append_assoc, List.singleton_append]

theorem roceAssert_ok {a b : UInt32} {site : Assertion} (h : roceAssert (a == b) site = .ok ()) :
    b = a := by
  unfold roceAssert at h
  split at h
  · next heq => exact (beq_iff_eq.mp heq).symm
  · cases h

/-- A granted mapping returns the number of its iovecs. -/
theorem ret_granted (ds : List Iovec) (dmamap : Bool) :
    UInt32.ofInt (MapRes.ret ⟨false, ds.map some, dmamap⟩) = UInt32.ofNat ds.length := by
  show UInt32.ofInt ((ds.map some).length : Int) = _
  unfold UInt32.ofInt
  apply UInt32.toNat_inj.mp
  rw [List.length_map, UInt32.toNat_ofNat', UInt32.toNat_ofNat']
  omega

theorem filterMap_id_map_some {α : Type} (xs : List α) : (xs.map some).filterMap id = xs := by
  simp

/-- A mapping that the responder can place payload through: granted, each
iovec written, as many as the SGEs have pages, no more than its array holds. -/
structure Places (ctx : RoceCtx) (qp : RoceQp) (sges : List RoceSge) (isLocal : Bool)
    (access : UInt32) (dsts : List Iovec) (dmamap : Bool) : Prop where
  map : roceMrMapSge ctx qp sges isLocal access = .ok ⟨false, dsts.map some, dmamap⟩
  pages : roceSgePages sges ctx.pageSize = .ok (UInt32.ofNat dsts.length)
  fits : dsts.length ≤ 2 * roceMaxSge

theorem Places.congr {ctx ctx' : RoceCtx} {qp qp' : RoceQp} {sges : List RoceSge} {isLocal : Bool}
    {access : UInt32} {dsts : List Iovec} {dmamap : Bool}
    (h : Places ctx' qp' sges isLocal access dsts dmamap) (hsame : SameMrs ctx qp ctx' qp')
    (hpage : ctx'.pageSize = ctx.pageSize) : Places ctx qp sges isLocal access dsts dmamap :=
  ⟨by rw [← h.map, hsame.roceMrMapSge], by rw [← h.pages, hpage], h.fits⟩

theorem placePayload_ok {s s' : St} {sges : List RoceSge} {isLocal : Bool} {access : UInt32}
    {iovs : List (List UInt8)} (h : placePayload s sges isLocal access iovs = .ok (some s')) :
    ∃ dsts dmamap, Places s.ctx s.qp sges isLocal access dsts dmamap ∧
      s' = s.place dsts iovs.flatten dmamap := by
  unfold placePayload at h
  obtain ⟨r, hr, h⟩ := bind_eq_ok.mp h
  split at h
  · cases h
  · next hfits =>
    split at h
    · cases h
    · next hret =>
      obtain ⟨pages, hpages, h⟩ := bind_eq_ok.mp h
      obtain ⟨⟨⟩, hassert, h⟩ := bind_eq_ok.mp h
      obtain ⟨s1, hcopy, h⟩ := bind_eq_ok.mp h
      obtain ⟨ds, hds, rfl⟩ := copyLoop_ok hcopy
      obtain rfl := Option.some.inj (Except.ok.inj h)
      have hok : r.refused = false := (ret_nonneg r).mp (Int.not_lt.mp hret)
      obtain ⟨refused, riovs, dmamap⟩ := r
      simp only at hok hds hfits
      subst hok hds
      rw [filterMap_id_map_some]
      rw [List.length_map] at hfits
      refine ⟨ds, dmamap, ⟨hr, ?_, by omega⟩, rfl⟩
      rw [hpages, roceAssert_ok hassert, ret_granted]

theorem Places.placePayload {s : St} {sges : List RoceSge} {isLocal : Bool} {access : UInt32}
    {dsts : List Iovec} {dmamap : Bool} (h : Places s.ctx s.qp sges isLocal access dsts dmamap)
    (iovs : List (List UInt8)) :
    placePayload s sges isLocal access iovs = .ok (some (s.place dsts iovs.flatten dmamap)) := by
  unfold Libroce.placePayload
  rw [h.map]
  have hfits : ¬ (dsts.map some).length > 2 * roceMaxSge := by
    rw [List.length_map]
    exact Nat.not_lt.mpr h.fits
  have hret : ¬ MapRes.ret ⟨false, dsts.map some, dmamap⟩ < 0 := Int.not_lt.mpr ((ret_nonneg _).mpr rfl)
  simp only [bind, Except.bind, if_neg hfits, if_neg hret, h.pages, ret_granted, beq_self_eq_true,
    roceAssert, if_true, copyLoop_map_some, filterMap_id_map_some]
  rfl

theorem placePayload_none {s : St} {sges : List RoceSge} {isLocal : Bool} {access : UInt32}
    {iovs : List (List UInt8)} (h : placePayload s sges isLocal access iovs = .ok none) :
    ∃ r, roceMrMapSge s.ctx s.qp sges isLocal access = .ok r ∧ r.refused = true := by
  unfold placePayload at h
  obtain ⟨r, hr, h⟩ := bind_eq_ok.mp h
  split at h
  · cases h
  · split at h
    · next hret =>
      refine ⟨r, hr, ?_⟩
      have hneg : ¬ r.refused = false := by
        rw [← ret_nonneg]
        omega
      simpa using hneg
    · obtain ⟨pages, -, h⟩ := bind_eq_ok.mp h
      obtain ⟨-, -, h⟩ := bind_eq_ok.mp h
      obtain ⟨s1, -, h⟩ := bind_eq_ok.mp h
      cases h

/-! ## SEND -/

/-- Completing a receive WR; `none` frees nothing. -/
inductive Finish (s : St) (p : UInt64) (wr : RecvWr) (byteLen : UInt32) (immdt : Option UInt32)
    (opcode : UInt8) : St → Prop where
  | goesOn (h : roceRecvCqComp s.qp opcode wr.wrId byteLen immdt = none) :
      Finish s p wr byteLen immdt opcode s
  | done {e : Event} {ctx : RoceCtx}
      (h : roceRecvCqComp s.qp opcode wr.wrId byteLen immdt = some e)
      (hfree : roceFreeRecvWr (s.emit [e]).ctx p wr = .ok ctx) :
      Finish s p wr byteLen immdt opcode (({ s with ctx := ctx } : St).setWord (.wr 0))

theorem recvFinish_ok {s s' : St} {p : UInt64} {wr : RecvWr} {bufLen : UInt32}
    {immdt : Option UInt32} {opcode : UInt8} {ret : Int}
    (h : recvFinish s p wr bufLen immdt opcode = .ok (ret, s')) :
    ret = 0 ∧ Finish (s.setRecvWr p { wr with byteLen := wr.byteLen + bufLen }) p
      { wr with byteLen := wr.byteLen + bufLen } (wr.byteLen + bufLen) immdt opcode s' := by
  unfold recvFinish at h
  simp only at h
  split at h
  · next hcomp =>
    obtain ⟨rfl, rfl⟩ := Prod.mk.inj (Except.ok.inj h)
    exact ⟨rfl, .goesOn hcomp⟩
  · next e hcomp =>
    split at h
    · cases h
    · next ctx hfree =>
      obtain ⟨rfl, rfl⟩ := Prod.mk.inj (Except.ok.inj h)
      exact ⟨rfl, .done hcomp hfree⟩

/-- What `roce_recv_payload` does with the receive WR it found at `p`. -/
inductive PayloadStep (s : St) (iovs : List (List UInt8)) (immdt : Option UInt32) (opcode : UInt8)
    (p : UInt64) (wr : RecvWr) : Int → St → Prop where
  | short {len : UInt32} (hlen : roceSgeLen wr.sge wr.sgeIdx wr.sgeOff = .ok len)
      (h : len < roceIovLen iovs) : PayloadStep s iovs immdt opcode p wr eFAULT s
  | refused {len : UInt32} {sges : List RoceSge} {idx off : Nat} {r : MapRes}
      (hlen : roceSgeLen wr.sge wr.sgeIdx wr.sgeOff = .ok len) (hle : roceIovLen iovs ≤ len)
      (hcut : roceSgeAdvance wr.sge (roceIovLen iovs).toNat wr.sgeIdx wr.sgeOff = .ok (sges, idx, off))
      (hmap : roceMrMapSge s.ctx s.qp sges true roceAccessLocalWrite = .ok r) (h : r.refused = true) :
      PayloadStep s iovs immdt opcode p wr eACCES
        (s.setRecvWr p { wr with sgeIdx := idx, sgeOff := off })
  | placed {len : UInt32} {sges : List RoceSge} {idx off : Nat} {dsts : List Iovec} {dmamap : Bool}
      {s' : St} (hlen : roceSgeLen wr.sge wr.sgeIdx wr.sgeOff = .ok len)
      (hle : roceIovLen iovs ≤ len)
      (hcut : roceSgeAdvance wr.sge (roceIovLen iovs).toNat wr.sgeIdx wr.sgeOff = .ok (sges, idx, off))
      (hmap : Places s.ctx s.qp sges true roceAccessLocalWrite dsts dmamap)
      (hfin : Finish ((s.place dsts iovs.flatten dmamap).setRecvWr p
        { wr with sgeIdx := idx, sgeOff := off, byteLen := wr.byteLen + roceIovLen iovs }) p
        { wr with sgeIdx := idx, sgeOff := off, byteLen := wr.byteLen + roceIovLen iovs }
        (wr.byteLen + roceIovLen iovs) immdt opcode s') :
      PayloadStep s iovs immdt opcode p wr 0 s'

theorem setRecvWr_setRecvWr (s : St) (p : UInt64) (wr wr' : RecvWr) :
    (s.setRecvWr p wr).setRecvWr p wr' = s.setRecvWr p wr' := by
  unfold St.setRecvWr
  simp only
  congr 2
  funext q
  split <;> rfl

theorem recvPayloadWr_ok {s s' : St} {iovs : List (List UInt8)} {immdt : Option UInt32}
    {opcode : UInt8} {p : UInt64} {wr : RecvWr} {ret : Int}
    (h : recvPayloadWr s iovs immdt opcode p wr = .ok (ret, s')) :
    PayloadStep s iovs immdt opcode p wr ret s' := by
  unfold recvPayloadWr at h
  obtain ⟨len, hlen, h⟩ := bind_eq_ok.mp h
  split at h
  · next hlt =>
    obtain ⟨rfl, rfl⟩ := Prod.mk.inj (Except.ok.inj h)
    exact .short hlen hlt
  · next hge =>
    obtain ⟨⟨sges, idx, off⟩, hcut, h⟩ := bind_eq_ok.mp h
    obtain ⟨placed, hplaced, h⟩ := bind_eq_ok.mp h
    have hle := UInt32.not_lt.mp hge
    cases placed with
    | none =>
      obtain ⟨rfl, rfl⟩ := Prod.mk.inj (Except.ok.inj h)
      obtain ⟨r, hmap, hr⟩ := placePayload_none hplaced
      have hsame : SameMrs s.ctx s.qp (s.setRecvWr p { wr with sgeIdx := idx, sgeOff := off }).ctx
        s.qp := ⟨rfl, rfl, rfl, rfl⟩
      exact .refused hlen hle hcut ((hsame.roceMrMapSge sges true _).symm.trans hmap) hr
    | some s1 =>
      obtain ⟨dsts, dmamap, hmap, rfl⟩ := placePayload_ok hplaced
      obtain ⟨rfl, hfin⟩ := recvFinish_ok h
      refine .placed hlen hle hcut (hmap.congr ⟨rfl, rfl, rfl, rfl⟩ rfl) ?_
      rw [show (_ : St).place dsts iovs.flatten dmamap =
        (s.place dsts iovs.flatten dmamap).setRecvWr p { wr with sgeIdx := idx, sgeOff := off }
        from rfl, setRecvWr_setRecvWr] at hfin
      exact hfin

/-- What `roce_recv_payload` does: the WR in progress or the next one of the
queue takes the payload, or there is none. -/
inductive SendStep (s : St) (iovs : List (List UInt8)) (immdt : Option UInt32) (inprocess : Bool)
    (opcode : UInt8) : Int → St → Prop where
  | outOfOrder (h : inprocess ≠ (s.qp.resp.word.bits != 0)) :
      SendStep s iovs immdt inprocess opcode eAGAIN s
  | noWr (hin : inprocess = false) (hword : s.qp.resp.word.bits = 0) (h : s.qp.rq = []) :
      SendStep s iovs immdt inprocess opcode eAGAIN (s.setWord (.wr 0))
  | first {p : UInt64} {rq : List UInt64} {wr : RecvWr} {ret : Int} {s' : St}
      (hin : inprocess = false) (hword : s.qp.resp.word.bits = 0) (hrq : s.qp.rq = p :: rq)
      (hwr : s.ctx.recvWrs p = some wr)
      (h : PayloadStep ((({ s with qp.rq := rq } : St).emit [.popRecv p]).setWord (.wr p)) iovs immdt
        opcode p wr ret s') :
      SendStep s iovs immdt inprocess opcode ret s'
  | next {wr : RecvWr} {ret : Int} {s' : St} (hin : inprocess = true)
      (hword : s.qp.resp.word.bits ≠ 0) (hwr : s.ctx.recvWrs s.qp.resp.word.bits = some wr)
      (h : PayloadStep s iovs immdt opcode s.qp.resp.word.bits wr ret s') :
      SendStep s iovs immdt inprocess opcode ret s'

theorem roceRecvPayload_ok {s s' : St} {iovs : List (List UInt8)} {immdt : Option UInt32}
    {inprocess : Bool} {opcode : UInt8} {ret : Int}
    (h : roceRecvPayload s iovs immdt inprocess opcode = .ok (ret, s')) :
    SendStep s iovs immdt inprocess opcode ret s' := by
  unfold roceRecvPayload rocePopRecvWr rqPop at h
  by_cases hin : inprocess ≠ (s.qp.resp.word.bits != 0)
  · rw [if_pos hin] at h
    obtain ⟨rfl, rfl⟩ := Prod.mk.inj (Except.ok.inj h)
    exact .outOfOrder hin
  rw [if_neg hin] at h
  by_cases hword : s.qp.resp.word.bits = 0
  · have hfalse : inprocess = false := by
      rw [not_not.mp hin, hword]
      rfl
    rw [if_neg (not_not.mpr hword)] at h
    cases hrq : s.qp.rq with
    | nil =>
      rw [hrq] at h
      obtain ⟨rfl, rfl⟩ := Prod.mk.inj (Except.ok.inj h)
      exact .noWr hfalse hword hrq
    | cons p rq =>
      rw [hrq] at h
      simp only at h
      split at h
      · cases h
      · next wr hwr => exact .first hfalse hword hrq hwr (recvPayloadWr_ok h)
  · have htrue : inprocess = true := by
      rw [not_not.mp hin]
      exact bne_iff_ne.mpr hword
    rw [if_pos hword] at h
    simp only at h
    split at h
    · cases h
    · next wr hwr => exact .next htrue hword hwr (recvPayloadWr_ok h)

/-! ## RDMA WRITE -/

/-- An opcode that completes leaves a report. -/
theorem roceRecvCqComp_isSome (qp : RoceQp) (opcode : UInt8) (wrId : UInt64) (byteLen : UInt32)
    (immdt : Option UInt32) :
    (roceRecvCqComp qp opcode wrId byteLen immdt).isSome = (roceRecvWrOpcodeToWc opcode).2.2 := by
  unfold roceRecvCqComp
  simp only
  split
  · next h => rw [h]; rfl
  · next h => rw [Bool.eq_false_iff.mpr h]; rfl

/-- The report is a completion in the receive CQ. -/
theorem roceRecvCqComp_some {qp : RoceQp} {opcode : UInt8} {wrId : UInt64} {byteLen : UInt32}
    {immdt : Option UInt32} {e : Event} (h : roceRecvCqComp qp opcode wrId byteLen immdt = some e) :
    ∃ wc, e = .cqComp wc qp.rcq := by
  unfold roceRecvCqComp at h
  simp only at h
  split at h
  · exact ⟨_, (Option.some.inj h).symm⟩
  · cases h

theorem WithImm.completes {opcode : UInt8} (h : WithImm opcode) :
    (roceRecvWrOpcodeToWc opcode).2.2 = true := by
  rcases h with rfl | rfl
  · rfl
  · rfl

/-- The state with a WRITE packet of `bufLen` bytes placed. -/
def St.written (s : St) (dsts : List Iovec) (iovs : List (List UInt8)) (dmamap : Bool) : St :=
  { s.place dsts iovs.flatten dmamap with
    qp.resp.writtenlen := s.qp.resp.writtenlen + roceIovLen iovs }

/-- The next `bufLen` bytes of a WRITE are mapped. -/
def WriteMapped (s : St) (bufLen : UInt32) : Prop :=
  ∃ r, roceMrMapSge s.ctx s.qp [writeSge s.qp.resp bufLen] false roceAccessRemoteWrite = .ok r ∧
    r.refused = false

/-- What `roce_rdma_write_payload` does after its sequence check. -/
inductive PlaceStep (s : St) (iovs : List (List UInt8)) (immdt : Option UInt32) (opcode : UInt8) :
    Int → St → Prop where
  | refused {r : MapRes}
      (hmap : roceMrMapSge s.ctx s.qp [writeSge s.qp.resp (roceIovLen iovs)] false
        roceAccessRemoteWrite = .ok r) (h : r.refused = true) : PlaceStep s iovs immdt opcode eACCES s
  | plain {dsts : List Iovec} {dmamap : Bool} (himm : ¬ WithImm opcode)
      (hmap : Places s.ctx s.qp [writeSge s.qp.resp (roceIovLen iovs)] false roceAccessRemoteWrite
        dsts dmamap) : PlaceStep s iovs immdt opcode 0 (s.written dsts iovs dmamap)
  | noWr {dsts : List Iovec} {dmamap : Bool} (himm : WithImm opcode) (hrq : s.qp.rq = [])
      (hmap : Places s.ctx s.qp [writeSge s.qp.resp (roceIovLen iovs)] false roceAccessRemoteWrite
        dsts dmamap) : PlaceStep s iovs immdt opcode eAGAIN (s.written dsts iovs dmamap)
  | done {dsts : List Iovec} {dmamap : Bool} {p : UInt64} {rq : List UInt64} {wr : RecvWr}
      {e : Event} {ctx : RoceCtx} (himm : WithImm opcode) (hrq : s.qp.rq = p :: rq)
      (hwr : s.ctx.recvWrs p = some wr)
      (hmap : Places s.ctx s.qp [writeSge s.qp.resp (roceIovLen iovs)] false roceAccessRemoteWrite
        dsts dmamap)
      (he : roceRecvCqComp s.qp opcode wr.wrId (s.qp.resp.writtenlen + roceIovLen iovs) immdt = some e)
      (hfree : roceFreeRecvWr ((s.written dsts iovs dmamap).emit [.popRecv p, e]).ctx p wr = .ok ctx) :
      PlaceStep s iovs immdt opcode 0
        ⟨ctx, { s.qp with rq := rq, resp.word := .wr 0, resp.writtenlen := 0 }⟩

theorem writePlace_ok {s s' : St} {iovs : List (List UInt8)} {immdt : Option UInt32} {opcode : UInt8}
    {ret : Int} (h : writePlace s iovs immdt opcode = .ok (ret, s')) :
    PlaceStep s iovs immdt opcode ret s' := by
  unfold writePlace at h
  obtain ⟨placed, hplaced, h⟩ := bind_eq_ok.mp h
  cases placed with
  | none =>
    obtain ⟨rfl, rfl⟩ := Prod.mk.inj (Except.ok.inj h)
    obtain ⟨r, hmap, hr⟩ := placePayload_none hplaced
    exact .refused hmap hr
  | some s1 =>
    obtain ⟨dsts, dmamap, hmap, rfl⟩ := placePayload_ok hplaced
    simp only at h
    rw [show { s.place dsts iovs.flatten dmamap with
        qp.resp.writtenlen := (s.place dsts iovs.flatten dmamap).qp.resp.writtenlen + roceIovLen iovs }
      = s.written dsts iovs dmamap from rfl] at h
    unfold writeFinish writeComplete rqPop at h
    by_cases himm : WithImm opcode
    · have himm' := himm
      unfold WithImm at himm'
      rw [if_pos himm'] at h
      have hrq0 : (s.written dsts iovs dmamap).qp.rq = s.qp.rq := rfl
      rw [hrq0] at h
      cases hrq : s.qp.rq with
      | nil =>
        rw [hrq] at h
        obtain ⟨rfl, rfl⟩ := Prod.mk.inj (Except.ok.inj h)
        exact .noWr himm hrq hmap
      | cons p rq =>
        rw [hrq] at h
        simp only at h
        split at h
        · cases h
        · next wr hwr =>
          split at h
          · next hnone =>
            have hsome := roceRecvCqComp_isSome s.qp opcode wr.wrId
              (s.qp.resp.writtenlen + roceIovLen iovs) immdt
            have hnone' : roceRecvCqComp s.qp opcode wr.wrId
              (s.qp.resp.writtenlen + roceIovLen iovs) immdt = none := hnone
            rw [himm.completes, hnone'] at hsome
            cases hsome
          · next e he =>
            split at h
            · cases h
            · next ctx hfree =>
              obtain ⟨rfl, rfl⟩ := Prod.mk.inj (Except.ok.inj h)
              rw [St.emit_emit] at hfree
              have hdone := PlaceStep.done himm hrq hwr hmap he hfree
              exact hdone
    · have himm' := himm
      unfold WithImm at himm'
      rw [if_neg himm'] at h
      obtain ⟨rfl, rfl⟩ := Prod.mk.inj (Except.ok.inj h)
      exact .plain himm hmap

/-- What `roce_rdma_write_payload` does. -/
inductive WriteStep (s : St) (iovs : List (List UInt8)) (reth : Option IbReth)
    (immdt : Option UInt32) (inprocess : Bool) (opcode : UInt8) : Int → St → Prop where
  | outOfOrder {pkt : RoceNetpkt} (h : inprocess ≠ (s.qp.resp.writtenlen != 0)) :
      WriteStep s iovs reth immdt inprocess opcode ePROTO
        (({ s with qp.resp.msn := s.qp.resp.msn + 1 } : St).emit [.netXmit pkt])
  | first {r : IbReth} {ret : Int} {s' : St} (hin : inprocess = false)
      (hlen : s.qp.resp.writtenlen = 0) (hreth : reth = some r)
      (h : PlaceStep (writeStart s r) iovs immdt opcode ret s') :
      WriteStep s iovs reth immdt inprocess opcode ret s'
  | next {ret : Int} {s' : St} (hin : inprocess = true) (hlen : s.qp.resp.writtenlen ≠ 0)
      (h : PlaceStep s iovs immdt opcode ret s') :
      WriteStep s iovs reth immdt inprocess opcode ret s'

theorem roceRdmaWritePayload_ok {s s' : St} {iovs : List (List UInt8)} {reth : Option IbReth}
    {immdt : Option UInt32} {inprocess : Bool} {opcode : UInt8} {calloc : Bool} {ret : Int}
    (h : roceRdmaWritePayload s iovs reth immdt inprocess opcode calloc = .ok (ret, s')) :
    WriteStep s iovs reth immdt inprocess opcode ret s' := by
  unfold roceRdmaWritePayload at h
  by_cases hin : inprocess ≠ (s.qp.resp.writtenlen != 0)
  · rw [if_pos hin] at h
    split at h
    · cases h
    · next hack =>
      obtain ⟨rfl, rfl⟩ := Prod.mk.inj (Except.ok.inj h)
      obtain ⟨pkt, rfl, -⟩ := roceNetpktAcknowledge_ok hack
      exact .outOfOrder hin
  rw [if_neg hin] at h
  by_cases hlen : s.qp.resp.writtenlen = 0
  · have hfalse : inprocess = false := by
      rw [not_not.mp hin, hlen]
      rfl
    rw [if_pos hlen] at h
    split at h
    · cases h
    · next r => exact .first hfalse hlen rfl (writePlace_ok h)
  · have htrue : inprocess = true := by
      rw [not_not.mp hin]
      exact bne_iff_ne.mpr hlen
    rw [if_neg hlen] at h
    exact .next htrue hlen (writePlace_ok h)

/-! ## One request -/

/-- What one request packet does, before the PSN moves. -/
inductive RequestStep (s : St) (pkt : Inbound) : Int → St → Prop where
  | malformed (h : pkt.request = none) : RequestStep s pkt ePROTO s
  | send {inprocess : Bool} {immdt : Option UInt32} {iovs : List (List UInt8)} {ret : Int} {s' : St}
      (hreq : pkt.request = some (.send inprocess immdt iovs))
      (h : SendStep s iovs immdt inprocess (ibBthGetOpcode pkt.bth) ret s') :
      RequestStep s pkt ret s'
  | write {inprocess : Bool} {reth : Option IbReth} {immdt : Option UInt32}
      {iovs : List (List UInt8)} {ret : Int} {s' : St}
      (hreq : pkt.request = some (.write inprocess reth immdt iovs))
      (h : WriteStep s iovs reth immdt inprocess (ibBthGetOpcode pkt.bth) ret s') :
      RequestStep s pkt ret s'

theorem recvRequest_ok {s s' : St} {pkt : Inbound} {ret : Int}
    (h : recvRequest s pkt = .ok (ret, s')) : RequestStep s pkt ret s' := by
  rw [recvRequest_eq] at h
  cases hreq : pkt.request with
  | none =>
    rw [hreq] at h
    obtain ⟨rfl, rfl⟩ := Prod.mk.inj (Except.ok.inj h)
    exact .malformed hreq
  | some r =>
    rw [hreq] at h
    cases r with
    | send inprocess immdt iovs => exact .send hreq (roceRecvPayload_ok h)
    | write inprocess reth immdt iovs => exact .write hreq (roceRdmaWritePayload_ok h)

/-- A request that has done its work is acknowledged when it asks for it. -/
theorem recvInSequence_ok {s s' : St} {pkt : Inbound} {ret : Int}
    (h : recvInSequence s pkt = .ok (ret, s')) :
    ret ≠ 0 ∧ RequestStep { s with qp.resp.inPsnNak := false } pkt ret s' ∨
      ret = 0 ∧ ∃ s1 s2, RequestStep { s with qp.resp.inPsnNak := false } pkt 0 s1 ∧
        (ibBthGetAck pkt.bth = false ∧ s2 = s1 ∨ ibBthGetAck pkt.bth = true ∧
          roceNetpktAcknowledge s1 .ack 0x1f (ibBthGetPsn pkt.bth) pkt.calloc = .ok s2) ∧
        s' = { s2 with qp.attr.rqPsn := roceQpPsnInc s2.qp.attr.rqPsn } := by
  unfold recvInSequence at h
  obtain ⟨⟨ret1, s1⟩, hreq, h⟩ := bind_eq_ok.mp h
  have hstep := recvRequest_ok hreq
  by_cases hret : ret1 ≠ 0
  · simp only [if_pos hret] at h
    obtain ⟨rfl, rfl⟩ := Prod.mk.inj (Except.ok.inj h)
    exact Or.inl ⟨hret, hstep⟩
  · simp only [if_neg hret] at h
    rw [not_not.mp hret] at hstep
    split at h
    · next hyes =>
      obtain ⟨s2, hack, h⟩ := bind_eq_ok.mp h
      obtain ⟨rfl, rfl⟩ := Prod.mk.inj (Except.ok.inj h)
      exact Or.inr ⟨rfl, s1, s2, hstep, Or.inr ⟨hyes, hack⟩, rfl⟩
    · next hno =>
      obtain ⟨rfl, rfl⟩ := Prod.mk.inj (Except.ok.inj h)
      exact Or.inr ⟨rfl, s1, s1, hstep, Or.inl ⟨Bool.eq_false_iff.mpr hno, rfl⟩, rfl⟩

/-- A request packet that asks for no acknowledgement. -/
def smallPkt (opcode : UInt8) (psn : UInt32) (iovs : List (List UInt8)) : Inbound :=
  ⟨⟨opcode, 0, rocePkey, 2, psn⟩, iovs, true⟩

end Libroce
