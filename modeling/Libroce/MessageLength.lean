import Libroce.ByteLen
import Libroce.Lib.Outcome
import Libroce.RoundTrip
import Libroce.UdStatus

/-!
# The length of a send WR

`roce_sge_len` adds the lengths of a list up; it asserts that there is an entry,
and that the sum has 32 bits.  `roce_alloc_send_wr` promises neither.

    Fault.OfLength       one of the assertions of `roce_sge_len`
    LengthSafe x         `x` ends with another fault, or with none
    LengthHandled        a post does not abort over the length of its WR
    LengthFits           an entry, and a sum below 2^32

Main statement: `rocePostSend_lengths`.
-/

namespace Libroce

open Outcome Machine

/-- An assertion of `roce_sge_len`. -/
def Fault.OfLength : Fault → Prop
  | .abort .sgeLenIdx => True
  | .abort .sgeLenOff => True
  | .abort .sgeLenTotal => True
  | _ => False

/-- What the lengths of the entries have to be. -/
def SumFits (sges : List RoceSge) : Prop := sges ≠ [] ∧ sgeTotal sges < 2 ^ 32

/-- A WR whose length is computed: on an RC QP, one whose opcode has a case in
`roce_rc_build_pkts`. -/
def Measures (qp : RoceQp) (wr : SendWr) : Prop :=
  qp.qpType = .rc → roceSendWrIsLocal wr = false ∧ ¬Unimplemented wr.opcode

/-- A WR that is not refused as inline data; the last of its packets completes
it. -/
def CompletesRc (qp : RoceQp) (wr : SendWr) : Prop :=
  qp.qpType = .rc ∧ (roceSendWrIsInline wr = true → inlineLen wr ≤ qp.attr.cap.maxInlineData)

/-- The WR as its QP leaves it, and the packets made for it. -/
def requestPkts (s : St) (wr : SendWr) (calloc : Nat → Bool) : Except Fault (SendWr × List RoceNetpkt) :=
  match s.qp.qpType with
  | .rc => do
    let (qp, wr) ← requestBuild s.ctx s.qp wr calloc
    return (wr, qp.req.pendingPkts.drop s.qp.req.pendingPkts.length)
  | _ => do
    let (t, wr, _) ← udRequest s wr (calloc 0)
    return (wr, sentSince s t)

/-- A WR that is measured is posted and completed without an abort over its
length: an empty list makes a packet without payload (or none, when the WR
fails or its AH is not there), and a sum that does not fit gives the WR an error. -/
structure LengthHandled (s : St) (wr : SendWr) (calloc : Nat → Bool) : Prop where
  posts : ∀ e, rocePostSend s wr.fresh calloc = .error e → ¬e.OfLength
  completes : CompletesRc s.qp wr → Measures s.qp wr →
    ∀ e, completionEvents s.qp wr = .error e → ¬e.OfLength
  empty : Measures s.qp wr → wr.sge = [] → ∀ s1 wr1 wr2 pkts, postGetMrs s wr.fresh = .ok (s1, wr1) →
    requestPkts s1 wr1 calloc = .ok (wr2, pkts) → wr2.error = 0 →
    (s.qp.qpType = .rc ∨ roceResourceGet s.ctx.ahs wr.ud.ah ≠ none) →
    ∃ pkt, pkts = [pkt] ∧ pkt.payload.flatten = []
  long : Measures s.qp wr → roceSendWrIsInline wr = false → 2 ^ 32 ≤ sgeTotal wr.sge →
    ∀ s1 wr1 wr2 pkts, postGetMrs s wr.fresh = .ok (s1, wr1) →
    requestPkts s1 wr1 calloc = .ok (wr2, pkts) → wr2.error ≠ 0

/-- The sum fits wherever it is computed: for the packets of SGEs, and for the
completion of a WR on an RC QP, where it is computed of inline data too. -/
def LengthFits (qp : RoceQp) (wr : SendWr) : Prop :=
  Measures qp wr → (roceSendWrIsInline wr = false ∨ CompletesRc qp wr ∧ wrSignaled qp wr = true) →
    SumFits wr.sge

/-! ## The helper -/

theorem roceSgeLen_fits {sges : List RoceSge} (h : SumFits sges) :
    ∃ len, roceSgeLen sges 0 0 = .ok len := by
  obtain ⟨len, hlen, -⟩ := (roceSgeLen_eq_total h.2).mpr ⟨h.1, rfl⟩
  exact ⟨len, hlen⟩

theorem roceSgeLen_aborts {sges : List RoceSge} (h : ¬SumFits sges) :
    ∃ e, roceSgeLen sges 0 0 = .error e ∧ e.OfLength := by
  cases sges with
  | nil => exact ⟨_, rfl, trivial⟩
  | cons sge rest =>
    have hlong : ¬sge.length.toNat - 0 + (rest.map (·.length.toNat)).sum < 2 ^ 32 := by
      intro hlt
      refine h ⟨List.cons_ne_nil sge rest, ?_⟩
      unfold sgeTotal
      rw [List.map_cons, List.sum_cons]
      omega
    refine ⟨.abort .sgeLenTotal, ?_, trivial⟩
    unfold roceSgeLen
    rw [List.drop_zero]
    dsimp only
    rw [if_pos (Nat.zero_le _), if_neg hlong]

/-! ## Calls that do not measure -/

/-- `x` ends with no fault of the length helper. -/
def LengthSafe {α : Type} (x : Except Fault α) : Prop :=
  Ends (fun _ => True) (fun e : Fault => ¬e.OfLength) x

section safe

variable {α β : Type} {x : Except Fault α} {f : α → Except Fault β}

theorem LengthSafe.bind (hx : LengthSafe x) (hf : ∀ a, x = .ok a → LengthSafe (f a)) :
    LengthSafe (x >>= f) := Ends.bind hx fun a ha _ => hf a ha

theorem LengthSafe.fault {e : Fault} (h : LengthSafe x) (hx : x = .error e) :
    LengthSafe (.error e : Except Fault β) := by
  rw [hx] at h
  exact h

theorem LengthSafe.not_ofLength {e : Fault} (h : LengthSafe x) (hx : x = .error e) : ¬e.OfLength := by
  rw [hx] at h
  exact h

theorem roceAssert_lengthSafe (c : Bool) {a : Assertion} (ha : ¬(Fault.abort a).OfLength) :
    LengthSafe (roceAssert c a) := by
  unfold roceAssert
  exact Ends.ite (fun _ => trivial) fun _ => ha

theorem rocePutMrs_lengthSafe (sges : List RoceSge) (ctx : RoceCtx) : LengthSafe (rocePutMrs ctx sges) := by
  have hpd : ∀ (ctx : RoceCtx) (pd : Nat), LengthSafe (assertPutPd ctx pd) := by
    intro ctx pd
    unfold assertPutPd
    split
    · exact id
    · exact trivial
  have hdestroy : ∀ (ctx : RoceCtx) (i : Nat), LengthSafe (roceDestroyMr ctx i) := by
    intro ctx i
    unfold roceDestroyMr
    split
    · exact trivial
    · refine Ends.ite (fun _ => trivial) fun _ => ?_
      split
      · next he => exact (hpd _ _).fault he
      · exact trivial
  have hput : ∀ (ctx : RoceCtx) (i : Nat), LengthSafe (rocePutMr ctx i) := by
    intro ctx i
    unfold rocePutMr
    split
    · exact trivial
    · refine Ends.ite (fun _ => ?_) fun _ => trivial
      split
      · next he => exact (hdestroy _ _).fault he
      · exact trivial
  induction sges generalizing ctx with
  | nil => exact trivial
  | cons sge sges ih =>
    unfold rocePutMrs
    split
    · next he => exact (hput _ _).fault he
    · exact ih _

theorem roceGetMrs_lengthSafe (ctx : RoceCtx) (sges : List RoceSge) : LengthSafe (roceGetMrs ctx sges) := by
  unfold roceGetMrs
  split
  · exact trivial
  · split
    · next he => exact (rocePutMrs_lengthSafe _ _).fault he
    · exact trivial

theorem roceFreeSendWr_lengthSafe (ctx : RoceCtx) (wr : SendWr) : LengthSafe (roceFreeSendWr ctx wr) := by
  unfold roceFreeSendWr
  exact Ends.ite (fun _ => rocePutMrs_lengthSafe _ _) fun _ => trivial

theorem mrIovCopy_lengthSafe (mr : RoceMr) (sge : RoceSge) : LengthSafe (mrIovCopy mr sge) := by
  unfold mrIovCopy roceIovCopy
  refine Ends.ite (fun _ => Ends.ite (fun _ => trivial) fun _ => id) fun _ => ?_
  exact Ends.ite (fun _ => id) fun _ => Ends.ite (fun _ => trivial) fun _ => trivial

theorem mrMapOne_lengthSafe (ctx : RoceCtx) (qp : RoceQp) (isLocal : Bool) (access : UInt32)
    (mrType : Option MrType) (sge : RoceSge) : LengthSafe (mrMapOne ctx qp isLocal access mrType sge) := by
  cases he : mrMapOne ctx qp isLocal access mrType sge with
  | ok r => exact trivial
  | error e =>
    obtain ⟨mr, -, -, -, hcopy⟩ := mrMapOne_error he
    exact (mrIovCopy_lengthSafe mr sge).fault hcopy

theorem roceMrMapSge_lengthSafe (ctx : RoceCtx) (qp : RoceQp) (sges : List RoceSge) (isLocal : Bool)
    (access : UInt32) : LengthSafe (roceMrMapSge ctx qp sges isLocal access) := by
  have hloop : ∀ sges mrType dmamap, LengthSafe (mrMapLoop ctx qp isLocal access sges mrType dmamap) := by
    intro sges
    induction sges with
    | nil => exact fun _ _ => trivial
    | cons sge sges ih =>
      intro mrType dmamap
      unfold mrMapLoop
      split
      · next he => exact (mrMapOne_lengthSafe _ _ _ _ _ _).fault he
      · exact trivial
      · split
        · next he => exact (ih _ _).fault he
        · exact trivial
  exact hloop sges none false

theorem roceSgePages_lengthSafe (sges : List RoceSge) (pageSize : UInt32) :
    LengthSafe (roceSgePages sges pageSize) := Ends.ite (fun _ => trivial) fun _ => id

theorem roceSgeAdvance_lengthSafe (sges : List RoceSge) (bytes i off : Nat) :
    LengthSafe (roceSgeAdvance sges bytes i off) := by
  unfold roceSgeAdvance
  split
  · exact id
  · refine Ends.ite (fun _ => ?_) fun _ => id
    refine Ends.ite (fun _ => trivial) fun _ => ?_
    split
    · exact id
    · exact trivial

theorem pktMapSge_lengthSafe (ctx : RoceCtx) (qp : RoceQp) (sges : List RoceSge) (pages : UInt32) :
    LengthSafe (pktMapSge ctx qp sges pages) := by
  unfold pktMapSge
  refine (roceMrMapSge_lengthSafe _ _ _ _ _).bind fun r _ => ?_
  refine Ends.ite (fun _ => trivial) fun _ => ?_
  exact Ends.ite (fun _ => trivial) fun _ => id

theorem onlyPages_lengthSafe (ctx : RoceCtx) (wr : SendWr) : LengthSafe (onlyPages ctx wr) :=
  Ends.ite (fun _ => trivial) fun _ => roceSgePages_lengthSafe _ _

theorem onlyPayload_lengthSafe (ctx : RoceCtx) (qp : RoceQp) (wr : SendWr) (payload pages : UInt32) :
    LengthSafe (onlyPayload ctx qp wr payload pages) :=
  Ends.ite (fun _ => trivial) fun _ => pktMapSge_lengthSafe _ _ _ _

theorem portAt_lengthSafe (ctx : RoceCtx) (portNum : UInt8) : LengthSafe (portAt ctx portNum) := by
  unfold portAt
  refine Ends.ite (fun _ => id) fun _ => ?_
  split
  · exact id
  · exact trivial

theorem roceGetMtu_lengthSafe (ctx : RoceCtx) (qp : RoceQp) : LengthSafe (roceGetMtu ctx qp) := by
  unfold roceGetMtu
  refine Ends.ite (fun _ => trivial) fun _ => ?_
  split
  · next he => exact (portAt_lengthSafe _ _).fault he
  · exact trivial

theorem roceNetpktAlloc_lengthSafe (ctx : RoceCtx) (qp : RoceQp) (opaquePtr : Option Nat) (padcnt : UInt8)
    (calloc : Bool) : LengthSafe (roceNetpktAlloc ctx qp opaquePtr padcnt calloc) := by
  unfold roceNetpktAlloc roceQpVnetHdr
  cases hport : portAt ctx qp.attr.portNum with
  | error e => exact (portAt_lengthSafe _ _).fault hport
  | ok port => exact Ends.ite (fun _ => trivial) fun _ => trivial

theorem requestHeaders_lengthSafe (ctx : RoceCtx) (qp : RoceQp) (pkt : RoceNetpkt) (opcode : UInt8)
    (se : Bool)
    (padcnt : UInt8) (destqp : UInt32) (ack : Bool) (psn : UInt32) (ahAttr : RoceAhAttr) :
    LengthSafe (requestHeaders ctx qp pkt opcode se padcnt destqp ack psn ahAttr) := by
  unfold requestHeaders
  refine (portAt_lengthSafe _ _).bind fun port _ => ?_
  unfold roceNetpktSetEth
  split
  · exact id
  · exact Ends.ite (fun _ => trivial) fun _ => trivial

end safe

/-! ## The builders -/

section build

variable {ctx : RoceCtx} {qp : RoceQp} {wr : SendWr} {calloc : Nat → Bool}

theorem rcOnly_lengthSafe (opcode : UInt8) (ext : List UInt8) (payload : UInt32) :
    LengthSafe (rcOnly ctx qp wr calloc opcode ext payload) := by
  unfold rcOnly
  refine (onlyPages_lengthSafe _ _).bind fun pages _ => ?_
  refine (roceNetpktAlloc_lengthSafe _ _ _ _ _).bind fun o _ => ?_
  cases o with
  | none => exact trivial
  | some pkt =>
    refine (onlyPayload_lengthSafe _ _ _ _ _).bind fun o _ => ?_
    cases o with
    | none => exact trivial
    | some bytes => exact (requestHeaders_lengthSafe _ _ _ _ _ _ _ _ _ _).bind fun _ _ => trivial

theorem multiPkt_lengthSafe (opaquePtr : Option Nat) (sges : List RoceSge) (opcode : UInt8) (ext : List UInt8)
    (se : Bool) (padcnt : UInt8) (ack : Bool) (psn : UInt32) (calloc : Bool) :
    LengthSafe (multiPkt ctx qp opaquePtr sges opcode ext se padcnt ack psn calloc) := by
  unfold multiPkt
  refine (roceSgePages_lengthSafe _ _).bind fun pages _ => ?_
  refine (roceNetpktAlloc_lengthSafe _ _ _ _ _).bind fun o _ => ?_
  cases o with
  | none => exact id
  | some pkt =>
    refine (pktMapSge_lengthSafe _ _ _ _).bind fun o _ => ?_
    cases o with
    | none => exact trivial
    | some bytes => exact (requestHeaders_lengthSafe _ _ _ _ _ _ _ _ _ _).bind fun _ _ => trivial

theorem multiStep_lengthSafe (opcode : UInt8) (ext : List UInt8) (mtu : UInt16) (m : MultiState) :
    LengthSafe (multiStep ctx qp wr calloc opcode ext mtu m) := by
  unfold multiStep
  refine (roceSgeAdvance_lengthSafe _ _ _ _).bind fun cursor _ => ?_
  refine (multiPkt_lengthSafe _ _ _ _ _ _ _ _ _).bind fun o _ => ?_
  cases o with
  | none => exact trivial
  | some pkt => exact trivial

theorem multiMiddle_lengthSafe (opcode : UInt8) (mtu : UInt16) (fuel : Nat) (m : MultiState) :
    LengthSafe (multiMiddle ctx qp wr calloc opcode mtu fuel m) := by
  induction fuel generalizing m with
  | zero => exact id
  | succ fuel ih =>
    unfold multiMiddle
    refine Ends.ite (fun _ => ?_) fun _ => trivial
    refine (multiStep_lengthSafe _ _ _ _).bind fun o _ => ?_
    cases o with
    | none => exact trivial
    | some m => exact ih m

theorem rcMulti_lengthSafe (kind : MultiKind) (payload : UInt32) (mtu : UInt16) :
    LengthSafe (rcMulti ctx qp wr calloc kind payload mtu) := by
  unfold rcMulti
  refine (multiStep_lengthSafe _ _ _ _).bind fun o _ => ?_
  cases o with
  | none => exact trivial
  | some m =>
    refine (multiMiddle_lengthSafe _ _ _ _).bind fun o _ => ?_
    cases o with
    | none => exact trivial
    | some m =>
      refine (roceSgeAdvance_lengthSafe _ _ _ _).bind fun cursor _ => ?_
      refine (multiPkt_lengthSafe _ _ _ _ _ _ _ _ _).bind fun o _ => ?_
      cases o with
      | none => exact trivial
      | some pkt => exact trivial

/-- A build measures once, before anything else can fail. -/
theorem roceRcBuildPkts_lengthSafe
    (hlen : roceSendWrIsLocal wr = false ∧ ¬Unimplemented wr.opcode → LengthSafe (requestLen wr)) :
    LengthSafe (roceRcBuildPkts ctx qp wr calloc) := by
  have honly := @rcOnly_lengthSafe ctx qp wr calloc
  have hsend : ∀ inv imm, LengthSafe (requestLen wr) →
      LengthSafe (roceRcSendPkts ctx qp wr calloc inv imm) := by
    intro inv imm hlen
    refine (roceGetMtu_lengthSafe _ _).bind fun mtu _ => ?_
    refine (roceAssert_lengthSafe _ id).bind fun _ _ => ?_
    refine hlen.bind fun payload _ => ?_
    refine Ends.ite (fun _ => ?_) fun _ => ?_
    · exact Ends.ite (fun _ => honly _ _ _) fun _ => Ends.ite (fun _ => honly _ _ _) fun _ => honly _ _ _
    · exact (roceAssert_lengthSafe _ id).bind fun _ _ => rcMulti_lengthSafe _ _ _
  have hwrite : ∀ imm, LengthSafe (requestLen wr) → LengthSafe (roceRcWritePkts ctx qp wr calloc imm) := by
    intro imm hlen
    refine (roceGetMtu_lengthSafe _ _).bind fun mtu _ => ?_
    refine hlen.bind fun payload _ => ?_
    refine Ends.ite (fun _ => ?_) fun _ => rcMulti_lengthSafe _ _ _
    exact Ends.ite (fun _ => honly _ _ _) fun _ => honly _ _ _
  unfold roceRcBuildPkts
  refine Ends.ite (fun _ => trivial) fun _ => ?_
  unfold roceSendWrIsLocal Unimplemented at hlen
  cases hop : wr.opcode with
  | sendWithImm => exact hsend _ _ (hlen (by simp [hop]))
  | sendWithInv => exact hsend _ _ (hlen (by simp [hop]))
  | send => exact hsend _ _ (hlen (by simp [hop]))
  | rdmaWriteWithImm => exact hwrite _ (hlen (by simp [hop]))
  | rdmaWrite => exact hwrite _ (hlen (by simp [hop]))
  | _ => exact trivial

/-- An RC build that fails in the helper. -/
theorem roceRcBuildPkts_aborts {e : Fault} (hop : roceSendWrIsLocal wr = false ∧ ¬Unimplemented wr.opcode)
    (hin : roceSendWrIsInline wr = false) (hrc : qp.qpType = .rc) (hlen : requestLen wr = .error e) :
    roceRcBuildPkts ctx qp wr calloc = .error e := by
  have hmtu : roceGetMtu ctx qp = .ok qp.attr.pathMtu := if_pos (Or.inl hrc)
  have hsend : ∀ inv imm, (inv && imm) = false → roceRcSendPkts ctx qp wr calloc inv imm = .error e := by
    intro inv imm hboth
    unfold roceRcSendPkts
    rw [hmtu, hlen, hboth]
    rfl
  have hwrite : ∀ imm, roceRcWritePkts ctx qp wr calloc imm = .error e := by
    intro imm
    unfold roceRcWritePkts
    rw [hmtu, hlen]
    rfl
  obtain ⟨hlocal, himpl⟩ := hop
  unfold roceRcBuildPkts
  rw [if_neg fun h => by rw [hin] at h; exact Bool.false_ne_true h.1]
  unfold roceSendWrIsLocal at hlocal
  unfold Unimplemented at himpl
  cases hop : wr.opcode with
  | sendWithImm => exact hsend _ _ rfl
  | sendWithInv => exact hsend _ _ rfl
  | send => exact hsend _ _ rfl
  | rdmaWriteWithImm => exact hwrite _
  | rdmaWrite => exact hwrite _
  | _ => simp [hop] at hlocal himpl

end build

/-! ## A post -/

section post

variable {s : St} {wr : SendWr}

theorem postGetMrs_lengthSafe (s : St) (wr : SendWr) : LengthSafe (postGetMrs s wr) := by
  unfold postGetMrs
  refine Ends.ite (fun _ => trivial) fun _ => ?_
  exact (roceGetMrs_lengthSafe _ _).bind fun _ _ => trivial

theorem roceXmitPkts_lengthSafe (s : St) : LengthSafe (roceXmitPkts s) := by
  unfold roceXmitPkts
  split
  · exact trivial
  · simp only
    generalize roceComparePsn _ _ = diff
    refine Ends.ite (fun _ => ?_) fun _ => id
    exact Ends.ite (fun _ => Ends.ite (fun _ => trivial) fun _ => trivial) fun _ => id

theorem roceRequestRc_lengthSafe (calloc : Nat → Bool) (h : LengthSafe (requestBuild s.ctx s.qp wr calloc)) :
    LengthSafe (roceRequestRc s wr calloc) := by
  have hqueue : LengthSafe (requestQueue s wr calloc) := h.bind fun _ _ => trivial
  exact hqueue.bind fun t _ => (roceXmitPkts_lengthSafe t).bind fun _ _ => trivial

theorem udPkt_lengthSafe (ctx : RoceCtx) (qp : RoceQp) (wr : SendWr) (calloc imm : Bool) (payload : UInt32)
    (ahAttr : RoceAhAttr) : LengthSafe (udPkt ctx qp wr calloc imm payload ahAttr) := by
  unfold udPkt
  refine (onlyPages_lengthSafe _ _).bind fun pages _ => ?_
  refine (roceNetpktAlloc_lengthSafe _ _ _ _ _).bind fun o _ => ?_
  cases o with
  | none => exact trivial
  | some pkt =>
    refine (onlyPayload_lengthSafe _ _ _ _ _).bind fun o _ => ?_
    cases o with
    | none => exact trivial
    | some bytes =>
      have hunmap : LengthSafe (onlyUnmap ctx qp wr) :=
        Ends.ite (fun _ => trivial) fun _ => (roceMrMapSge_lengthSafe _ _ _ _ _).bind fun _ _ => trivial
      refine hunmap.bind fun unmaps _ => ?_
      exact (requestHeaders_lengthSafe _ _ _ _ _ _ _ _ _ _).bind fun _ _ => trivial

theorem roceUdSendPkt_lengthSafe (s : St) (wr : SendWr) (calloc imm : Bool) (payload : UInt32) :
    LengthSafe (roceUdSendPkt s wr calloc imm payload) := by
  unfold roceUdSendPkt
  split
  · exact trivial
  · refine (udPkt_lengthSafe _ _ _ _ _ _ _).bind fun o _ => ?_
    cases o with
    | none => exact trivial
    | some r => exact trivial

theorem roceRequestUd_lengthSafe (calloc : Bool) (hlen : LengthSafe (requestLen wr)) :
    LengthSafe (roceRequestUd s wr calloc) := by
  have hswitch : LengthSafe (udSwitch s wr calloc) := by
    refine (roceGetMtu_lengthSafe _ _).bind fun mtu _ => ?_
    refine hlen.bind fun payload _ => ?_
    refine Ends.ite (fun _ => trivial) fun _ => ?_
    cases wr.opcode with
    | sendWithImm => exact (roceUdSendPkt_lengthSafe _ _ _ _ _).bind fun _ _ => trivial
    | send => exact (roceUdSendPkt_lengthSafe _ _ _ _ _).bind fun _ _ => trivial
    | _ => exact trivial
  have hrequest : LengthSafe (udRequest s wr calloc) := Ends.ite (fun _ => hswitch) fun _ => trivial
  unfold roceRequestUd
  refine hrequest.bind fun r _ => ?_
  obtain ⟨t, wr', byteLen⟩ := r
  exact (roceFreeSendWr_lengthSafe _ _).bind fun _ _ => trivial

/-- The references of a WR whose keys name MRs. -/
theorem postGetMrs_resolved (h : KeysResolve s wr) : ∃ s1 m,
    postGetMrs s wr.fresh = .ok (s1, { wr with error := 0, mapped := m }) ∧ s1.qp = s.qp ∧
      RefsOnly s.ctx s1.ctx := by
  obtain ⟨r, hr⟩ : ∃ r, postGetMrs s wr.fresh = .ok r := by
    unfold postGetMrs
    by_cases hin : roceSendWrIsInline wr = true
    · exact ⟨_, if_pos hin⟩
    · rw [if_neg (show ¬roceSendWrIsInline wr.fresh = true from hin)]
      have hloop := (getMrsLoop_fst s.ctx [] wr.sge).mpr (h (Bool.eq_false_iff.mpr hin))
      have hget : ∃ ctx, roceGetMrs s.ctx wr.sge = .ok (0, ctx) := by
        unfold roceGetMrs
        split
        · exact ⟨_, rfl⟩
        · next heq =>
          rw [heq] at hloop
          cases hloop
      obtain ⟨ctx, hget⟩ := hget
      rw [show roceGetMrs s.ctx wr.fresh.sge = .ok (0, ctx) from hget]
      exact ⟨_, rfl⟩
  obtain ⟨s1, wr1⟩ := r
  obtain ⟨hqp, hrefs, m, ⟨-, rfl⟩ | ⟨hno, -⟩⟩ := postGetMrs_outcome hr
  · exact ⟨s1, m, hr, hqp, hrefs⟩
  · exact absurd h hno

/-- A post that fails in the helper. -/
theorem rocePostSend_aborts {e : Fault} {calloc : Nat → Bool}
    (hqp : s.qp.qpType = .rc ∨ s.qp.qpType = .gsi ∨ s.qp.qpType = .ud) (hports : s.ctx.ports ≠ [])
    (hkeys : KeysResolve s wr) (hm : Measures s.qp wr) (hin : roceSendWrIsInline wr = false)
    (hlen : requestLen wr = .error e) : rocePostSend s wr.fresh calloc = .error e := by
  obtain ⟨s1, m, hget, hqp1, hrefs⟩ := postGetMrs_resolved hkeys
  have hrc : s.qp.qpType = .rc → roceRequestRc s1 { wr with error := 0, mapped := m } calloc = .error e := by
    intro htype
    have hbuild : requestBuild s1.ctx s1.qp { wr with error := 0, mapped := m } calloc = .error e := by
      unfold requestBuild
      rw [if_pos rfl]
      exact roceRcBuildPkts_aborts (hm htype) hin (by rw [hqp1, htype]) hlen
    unfold roceRequestRc requestQueue
    rw [hbuild]
    rfl
  have hud : s.qp.qpType ≠ .rc →
      roceRequestUd s1 { wr with error := 0, mapped := m } (calloc 0) = .error e := by
    intro htype
    obtain ⟨mtu, hmtu⟩ : ∃ mtu, roceGetMtu s1.ctx s1.qp = .ok mtu := by
      obtain ⟨port, ports, hcons⟩ := List.exists_cons_of_ne_nil hports
      have hport : portAt s.ctx 1 = .ok port := by
        unfold portAt
        rw [hcons]
        rfl
      rw [hrefs.roceGetMtu, hqp1]
      unfold roceGetMtu
      rw [hport]
      split
      · exact ⟨_, rfl⟩
      · exact ⟨_, rfl⟩
    have hreq : udRequest s1 { wr with error := 0, mapped := m } (calloc 0) = .error e := by
      unfold udRequest udSwitch
      rw [if_pos rfl, hmtu, show requestLen { wr with error := 0, mapped := m } = .error e from hlen]
      rfl
    unfold roceRequestUd
    rw [hreq]
    rfl
  unfold rocePostSend
  rw [hget]
  simp only [bind, Except.bind, hqp1]
  rcases hqp with htype | htype | htype
  · rw [htype]
    exact hrc htype
  · rw [htype]
    exact hud (by rw [htype]; decide)
  · rw [htype]
    exact hud (by rw [htype]; decide)

/-- A datagram of no bytes. -/
theorem UdBuilt.payload_le {pkt : RoceNetpkt} {len : UInt32} (h : UdBuilt s wr pkt)
    (hlen : requestLen wr = .ok len) : pkt.payload.flatten.length ≤ len.toNat := by
  cases h with
  | mk hmtu hlen' hle hah h =>
    obtain rfl := Except.ok.inj (hlen.symm.trans hlen')
    obtain ⟨pages, bytes, hbytes, -, -, hp⟩ := udPkt_ok h
    rw [hp.payload_eq]
    exact onlyPayload_total hlen hbytes

/-- The packet of an empty message on an RC QP. -/
theorem Shaped.empty {ctx : RoceCtx} {qp : RoceQp} {pkts : List RoceNetpkt} (h : Shaped ctx qp wr pkts)
    (hlen : requestLen wr = .ok 0) : ∃ pkt, pkts = [pkt] ∧ pkt.payload.flatten = [] := by
  cases h with
  | only hmtu hlen' hk hreq hb hin hle =>
    obtain rfl := Except.ok.inj (hlen.symm.trans hlen')
    refine ⟨_, rfl, ?_⟩
    rw [hreq.packet.payload_eq]
    exact List.eq_nil_of_length_eq_zero (Nat.le_zero.mp hb.le)
  | several hmtu hlen' hk hmulti =>
    obtain rfl := Except.ok.inj (hlen.symm.trans hlen')
    obtain ⟨first, mids, last, -, -, -, rest, psn, bytes, -, -, hpos, -, hsum⟩ := hmulti.parts
    have hzero : (0 : UInt32).toNat = 0 := rfl
    omega

/-- What `requestPkts` gives for an empty WR of inline data. -/
theorem requestPkts_empty {s1 : St} {wr1 wr2 : SendWr} {pkts : List RoceNetpkt} {calloc : Nat → Bool}
    (hm : Measures s1.qp wr1) (hin : roceSendWrIsInline wr1 = true) (hsge : wr1.sge = [])
    (herr : wr1.error = 0)
    (hreq : requestPkts s1 wr1 calloc = .ok (wr2, pkts)) (herr2 : wr2.error = 0)
    (hah : s1.qp.qpType = .rc ∨ roceResourceGet s1.ctx.ahs wr1.ud.ah ≠ none) :
    ∃ pkt, pkts = [pkt] ∧ pkt.payload.flatten = [] := by
  have hlen : requestLen wr1 = .ok 0 := by
    unfold requestLen inlineLen
    rw [if_pos hin, hsge]
    rfl
  have hud : ∀ r, s1.qp.qpType ≠ .rc → udRequest s1 wr1 (calloc 0) = .ok r → wr2 = r.2.1 →
      pkts = sentSince s1 r.1 → ∃ pkt, pkts = [pkt] ∧ pkt.payload.flatten = [] := by
    rintro ⟨t, wr', len⟩ htype hrun rfl rfl
    obtain ⟨-, es, hes, hbuilt⟩ := udRequest_sends hrun
    unfold udRequest at hrun
    rw [if_pos herr] at hrun
    cases udSwitch_outcome hrun with
    | refused he hqp htrace hfound =>
      have hzero : ¬(roceWcLocLenErr = 0) ∧ ¬(roceWcLocQpOpErr = 0) := by decide
      rcases he with rfl | rfl
      · exact absurd herr2 hzero.1
      · exact absurd herr2 hzero.2
    | dropped hlook hnone => exact absurd hnone (hah.resolve_left htype)
    | sent pkt unmaps hqp htrace hsilent hfound =>
      have hmem : Event.netXmit pkt ∈ es := by
        rw [htrace] at hes
        rw [← List.append_cancel_left hes]
        exact List.mem_cons_self
      refine ⟨pkt, ?_, List.eq_nil_of_length_eq_zero (Nat.le_zero.mp ((hbuilt pkt hmem).payload_le hlen))⟩
      have hquiet : sentPkts unmaps = [] := by
        refine List.filterMap_eq_nil_iff.mpr fun e he => ?_
        obtain ⟨iov, rfl⟩ := hsilent e he
        rfl
      unfold sentSince
      rw [htrace, List.drop_left]
      show pkt :: sentPkts unmaps = _
      rw [hquiet]
  unfold requestPkts at hreq
  cases htype : s1.qp.qpType with
  | rc =>
    simp only [htype] at hreq
    obtain ⟨⟨qp', wr'⟩, hbuild, hreq⟩ := bind_eq_ok.mp hreq
    obtain ⟨rfl, rfl⟩ := Prod.mk.inj (Except.ok.inj hreq)
    unfold requestBuild at hbuild
    rw [if_pos herr] at hbuild
    cases roceRcBuildPkts_ok hbuild with
    | failed e he => exact absurd herr2 he
    | skipped hskip =>
      obtain ⟨hlocal, himpl⟩ := hm htype
      rcases hskip with hskip | hskip
      · rw [hlocal] at hskip
        cases hskip
      · exact absurd hskip himpl
    | queued pkts htrain hop hshaped =>
      have hdrop : (s1.qp.push pkts).req.pendingPkts.drop s1.qp.req.pendingPkts.length = pkts :=
        List.drop_left
      rw [hdrop]
      exact hshaped.empty hlen
  | _ =>
    simp only [htype] at hreq
    obtain ⟨r, hrun, hreq⟩ := bind_eq_ok.mp hreq
    obtain ⟨hwr, hpkts⟩ := Prod.mk.inj (Except.ok.inj hreq)
    exact hud r (by rw [htype]; decide) hrun hwr.symm hpkts.symm

end post

/-- **The length of a send WR.**  On an RC, UD or GSI QP, a WR whose keys name
MRs is handled exactly when the sum of its lengths fits where it is computed. -/
theorem rocePostSend_lengths {s : St} {wr : SendWr} {calloc : Nat → Bool}
    (hqp : s.qp.qpType = .rc ∨ s.qp.qpType = .gsi ∨ s.qp.qpType = .ud) (hports : s.ctx.ports ≠ [])
    (hkeys : KeysResolve s wr) : LengthHandled s wr calloc ↔ LengthFits s.qp wr := by
  constructor
  · intro h hm hcase
    by_contra hno
    obtain ⟨e, he, hof⟩ := roceSgeLen_aborts hno
    rcases hcase with hin | ⟨hcomp, hsig⟩
    · have hlen : requestLen wr = .error e := by
        unfold requestLen
        rw [hin]
        exact he
      exact h.posts e (rocePostSend_aborts hqp hports hkeys hm hin hlen) hof
    · have hevents : completionEvents s.qp wr = .error e := by
        unfold completionEvents
        rw [if_pos hsig, he]
        rfl
      exact h.completes hcomp hm e hevents hof
  · intro h
    obtain ⟨s1, m, hget, hqp1, hrefs⟩ := postGetMrs_resolved hkeys
    have hinline : Measures s.qp wr → wr.sge = [] → roceSendWrIsInline wr = true := by
      intro hm hsge
      by_contra hin
      exact (h hm (Or.inl (Bool.eq_false_iff.mpr hin))).1 hsge
    have hlen : Measures s.qp wr → LengthSafe (requestLen wr) := by
      intro hm
      unfold requestLen
      by_cases hin : roceSendWrIsInline wr = true
      · rw [if_pos hin]
        exact trivial
      · obtain ⟨len, hok⟩ := roceSgeLen_fits (h hm (Or.inl (Bool.eq_false_iff.mpr hin)))
        rw [if_neg hin, hok]
        exact trivial
    have hpost : LengthSafe (rocePostSend s wr.fresh calloc) := by
      unfold rocePostSend
      refine (postGetMrs_lengthSafe _ _).bind fun r hr => ?_
      obtain rfl := Except.ok.inj (hget.symm.trans hr)
      simp only [hqp1]
      rcases hqp with htype | htype | htype
      · rw [htype]
        refine roceRequestRc_lengthSafe _ ?_
        unfold requestBuild
        exact Ends.ite (fun _ => roceRcBuildPkts_lengthSafe fun hop => hlen fun _ => hop) fun _ => trivial
      · rw [htype]
        refine roceRequestUd_lengthSafe _ (hlen fun hrc => ?_)
        rw [htype] at hrc
        cases hrc
      · rw [htype]
        refine roceRequestUd_lengthSafe _ (hlen fun hrc => ?_)
        rw [htype] at hrc
        cases hrc
    refine ⟨fun e he => hpost.not_ofLength he, fun hcomp hm e he => ?_, ?_, ?_⟩
    · unfold completionEvents at he
      by_cases hsig : wrSignaled s.qp wr = true
      · obtain ⟨len, hok⟩ := roceSgeLen_fits (h hm (Or.inr ⟨hcomp, hsig⟩))
        rw [if_pos hsig, hok] at he
        cases he
      · rw [if_neg hsig] at he
        cases he
    · intro hm hsge s2 wr1 wr2 pkts hget2 hreq herr hah
      obtain ⟨rfl, rfl⟩ := Prod.mk.inj (Except.ok.inj (hget.symm.trans hget2))
      have hahs : s1.ctx.ahs = s.ctx.ahs := by
        unfold RefsOnly at hrefs
        rw [hrefs]
      have hin := hinline hm hsge
      rw [← hqp1] at hm
      rw [← hqp1, ← hahs] at hah
      have hm1 : Measures s1.qp { wr with error := 0, mapped := m } := hm
      exact requestPkts_empty hm1 hin hsge rfl hreq herr hah
    · intro hm hin hlong
      have hfits := (h hm (Or.inl hin)).2
      omega

/-- A SEND of SGEs on a device with one MR, under the key 0. -/
def lengthSend (sges : List RoceSge) : SendWr :=
  { smallSend 5 .send with sendFlags := roceSendSignaled, sge := sges }

/-- An RC QP of that device, and a UD one. -/
def lengthRc : St := ⟨withMr smallCtx smallMr, smallQp⟩

def lengthUd : St := ⟨withMr smallCtx smallMr, { smallQp with qpType := .ud }⟩

/-- Sixteen bytes. -/
theorem rocePostSend_lengths_sixteen :
    LengthHandled lengthRc (lengthSend [⟨0x10000, 16, 0⟩]) (fun _ => true) := by
  refine (rocePostSend_lengths (Or.inl rfl) (List.cons_ne_nil _ _) ?_).mpr ?_
  · intro _ sge hsge
    rw [List.mem_singleton.mp hsge]
    exact Option.some_ne_none _
  · exact fun _ _ => ⟨List.cons_ne_nil _ _, by decide⟩

/-- No entry at all, two entries of 2 GiB, and inline data without an entry, of
which the completion asks for the length. -/
theorem rocePostSend_lengths_shapes :
    ¬LengthHandled lengthRc (lengthSend []) (fun _ => true) ∧
      ¬LengthHandled lengthUd (lengthSend (List.replicate 2 ⟨0x10000, 0x80000000, 0⟩)) (fun _ => true) ∧
      ¬LengthHandled lengthRc { smallSend 5 .send with sge := [] } (fun _ => true) := by
  refine ⟨fun h => ?_, fun h => ?_, fun h => ?_⟩
  · exact h.posts (.abort .sgeLenIdx) rfl trivial
  · exact h.posts (.abort .sgeLenTotal) rfl trivial
  · refine h.completes ⟨rfl, by decide⟩ (fun _ => ⟨rfl, ?_⟩) (.abort .sgeLenIdx) rfl trivial
    unfold Unimplemented
    decide

end Libroce
