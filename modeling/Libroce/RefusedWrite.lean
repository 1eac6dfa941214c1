import Libroce.ModifyQp
import Libroce.RequesterCalls

/-!
# After a refused RDMA WRITE

`roce_rdma_write_payload` refuses a packet that is not the next of its message
and one whose range no MR grants.  Both ways end in
`roce_set_qp_state(.., ROCE_QPS_ERR)`, and `roce_recv_bth` lets nothing in while
a QP is in that state.  The gate works, the setter is empty: the QP that refused
is in the state it was in, and expects the PSN it expected.

    in ERR  →  closed until the state is modified         (closed_of_err)
    the label `error` returns  ↔  a refused packet        (WriteRefusal.recvRequest, writeRefusal_of_ret)
    refused once  →  never closed by it                   (refusalsClose_iff)
    refused n times  →  as it was                         (refusals_stand)
-/

namespace Libroce

open Machine (bind_eq_ok run Along Until along_iff until_of_inv)

/-! ## What is refused -/

/-- An MR grants the next `bufLen` bytes of a WRITE: live and valid, of the QP's
PD, under the key of the RETH, writable from remote, its range around theirs as
the code compares them.  MRs for DMA are for the GSI only. -/
def WriteGranted (s : St) (bufLen : UInt32) : Prop :=
  ∃ mr, MrGrants s.ctx s.qp false roceAccessRemoteWrite (writeSge s.qp.resp bufLen) mr ∧
    mr.type ≠ .dma ∧ RangeChecked (writeSge s.qp.resp bufLen) mr

/-- The mapping refuses what no MR grants, before it stores an iovec. -/
theorem roceMrMapSge_ungranted {s : St} (hgsi : s.qp.qpType ≠ .gsi) {bufLen : UInt32}
    (hno : ¬WriteGranted s bufLen) :
    roceMrMapSge s.ctx s.qp [writeSge s.qp.resp bufLen] false roceAccessRemoteWrite =
      .ok ⟨true, [], false⟩ := by
  unfold roceMrMapSge
  cases hone : mrMapOne s.ctx s.qp false roceAccessRemoteWrite none (writeSge s.qp.resp bufLen) with
  | error e =>
    obtain ⟨mr, hg, hdma, hrange, -⟩ := mrMapOne_error hone
    exact absurd ⟨mr, hg, hdma, hrange⟩ hno
  | ok o =>
    cases o with
    | none => rw [mrMapLoop, hone]
    | some v =>
      obtain ⟨mr, hg, -, -, ⟨-, htype, -⟩ | ⟨hdma, hrange, -⟩⟩ := mrMapOne_ok hone
      · exact absurd htype hgsi
      · exact absurd ⟨mr, hg, hdma, hrange⟩ hno

/-- ... and nothing else. -/
theorem WriteRefuses.ungranted {s : St} {bufLen : UInt32} (h : WriteRefuses s bufLen) :
    ¬WriteGranted s bufLen := by
  obtain ⟨r, hmap, hr⟩ := h
  rintro ⟨mr, hg, hdma, hrange⟩
  rw [roceMrMapSge, mrMapLoop, hg.mrMapOne_eq hdma (Or.inl rfl) hrange] at hmap
  cases hcopy : mrIovCopy mr (writeSge s.qp.resp bufLen) with
  | error e =>
    rw [hcopy] at hmap
    cases hmap
  | ok iovs =>
    rw [hcopy] at hmap
    obtain rfl := Except.ok.inj hmap
    cases hr

/-- A WRITE packet that is refused: not the next of its message (and the NAK can
be built), or of a range that no MR grants. -/
inductive WriteRefusal (s : St) (pkt : Inbound) : Prop where
  | sequence {inprocess : Bool} {reth : Option IbReth} {immdt : Option UInt32}
      {iovs : List (List UInt8)} {nak : RoceNetpkt}
      (hreq : pkt.request = some (.write inprocess reth immdt iovs))
      (h : inprocess ≠ (s.qp.resp.writtenlen != 0))
      (hnak : acknowledgePkt s.ctx s.qp .nak 1 s.qp.attr.rqPsn pkt.calloc = .ok nak)
  | first {reth : IbReth} {immdt : Option UInt32} {iovs : List (List UInt8)}
      (hreq : pkt.request = some (.write false (some reth) immdt iovs))
      (hlen : s.qp.resp.writtenlen = 0) (h : ¬WriteGranted (writeStart s reth) (roceIovLen iovs))
  | next {immdt : Option UInt32} {iovs : List (List UInt8)}
      (hreq : pkt.request = some (.write true none immdt iovs))
      (hlen : s.qp.resp.writtenlen ≠ 0) (h : ¬WriteGranted s (roceIovLen iovs))

/-- Only the responder's fields and the trace changed. -/
structure Stands (s t : St) : Prop where
  ctx : t.ctx = { s.ctx with trace := t.ctx.trace }
  qp : t.qp = { s.qp with resp := t.qp.resp }

theorem Stands.refl (s : St) : Stands s s := ⟨rfl, rfl⟩

theorem Stands.trans {s t u : St} (h1 : Stands s t) (h2 : Stands t u) : Stands s u := by
  obtain ⟨hctx1, hqp1⟩ := h1
  obtain ⟨hctx2, hqp2⟩ := h2
  constructor
  · rw [hctx2, hctx1]
  · rw [hqp2, hqp1]

/-- A range that no MR grants ends the packet. -/
theorem writePlace_ungranted {s : St} (hgsi : s.qp.qpType ≠ .gsi) {iovs : List (List UInt8)}
    (hno : ¬WriteGranted s (roceIovLen iovs)) (immdt : Option UInt32) (opcode : UInt8) :
    writePlace s iovs immdt opcode = .ok (eACCES, s) := by
  unfold writePlace placePayload
  simp only [roceMrMapSge_ungranted hgsi hno]
  rfl

/-- `ret` is what the label `error` returns. -/
def IsRefusal (ret : Int) : Prop := ret = eACCES ∨ ret = ePROTO

theorem IsRefusal.ne_zero {ret : Int} (h : IsRefusal ret) : ret ≠ 0 := by
  rcases h with rfl | rfl
  · decide
  · decide

theorem qpType_ne_gsi {qp : RoceQp} (hrc : qp.qpType = .rc) : qp.qpType ≠ .gsi := by
  rw [hrc]
  decide

/-- A refusal returns, and changes nothing but the responder's fields. -/
theorem WriteRefusal.recvRequest {s : St} {pkt : Inbound} (hrc : s.qp.qpType = .rc)
    (h : WriteRefusal s pkt) : ∃ ret t, recvRequest s pkt = .ok (ret, t) ∧ IsRefusal ret ∧ Stands s t := by
  have hgsi := qpType_ne_gsi hrc
  rw [recvRequest_eq]
  cases h with
  | @sequence _ _ _ _ nak hreq hout hnak =>
    refine ⟨ePROTO, roceNetpktXmit { s with qp.resp.msn := s.qp.resp.msn + 1 } nak, ?_, Or.inr rfl,
      ⟨rfl, rfl⟩⟩
    rw [hreq]
    unfold execRequest roceRdmaWritePayload roceNetpktAcknowledge
    simp only [if_pos hout, if_pos hrc, hnak]
  | @first reth immdt iovs hreq hlen hno =>
    refine ⟨eACCES, writeStart s reth, ?_, Or.inl rfl, ⟨rfl, rfl⟩⟩
    have hin : ¬false ≠ (s.qp.resp.writtenlen != 0) := by
      rw [hlen]
      decide
    have hplace := writePlace_ungranted (s := writeStart s reth) hgsi hno immdt (ibBthGetOpcode pkt.bth)
    rw [hreq, execRequest, roceRdmaWritePayload, if_neg hin, if_pos hlen]
    exact hplace
  | @next immdt iovs hreq hlen hno =>
    refine ⟨eACCES, s, ?_, Or.inl rfl, .refl s⟩
    have hin : ¬true ≠ (s.qp.resp.writtenlen != 0) := by
      rw [bne_iff_ne.mpr hlen]
      decide
    have hplace := writePlace_ungranted hgsi hno immdt (ibBthGetOpcode pkt.bth)
    rw [hreq, execRequest, roceRdmaWritePayload, if_neg hin, if_neg hlen]
    exact hplace

/-- After the sequence check it is the mapping that refuses. -/
theorem PlaceStep.ungranted {s t : St} {iovs : List (List UInt8)} {immdt : Option UInt32}
    {opcode : UInt8} {ret : Int} (h : PlaceStep s iovs immdt opcode ret t) (hret : IsRefusal ret) :
    ¬WriteGranted s (roceIovLen iovs) := by
  cases h with
  | refused hmap hr => exact WriteRefuses.ungranted ⟨_, hmap, hr⟩
  | plain _ _ => exact absurd rfl hret.ne_zero
  | noWr _ _ _ =>
    rcases hret with h | h
    · exact absurd h (by decide)
    · exact absurd h (by decide)
  | done _ _ _ _ _ _ => exact absurd rfl hret.ne_zero

/-- What `roce_rdma_write_payload` goes to its label `error` with is a refusal. -/
theorem writeRefusal_of_ret {s t : St} {pkt : Inbound} {inprocess : Bool} {reth : Option IbReth}
    {immdt : Option UInt32} {iovs : List (List UInt8)} {ret : Int}
    (hreq : pkt.request = some (.write inprocess reth immdt iovs))
    (h : roceRdmaWritePayload s iovs reth immdt inprocess (ibBthGetOpcode pkt.bth) pkt.calloc =
      .ok (ret, t)) (hret : IsRefusal ret) : WriteRefusal s pkt := by
  by_cases hout : inprocess ≠ (s.qp.resp.writtenlen != 0)
  · unfold roceRdmaWritePayload at h
    rw [if_pos hout] at h
    cases hack : roceNetpktAcknowledge s .nak 1 s.qp.attr.rqPsn pkt.calloc with
    | error e =>
      rw [hack] at h
      cases h
    | ok u =>
      obtain ⟨nak, -, hnak⟩ := roceNetpktAcknowledge_ok hack
      exact .sequence hreq hout hnak
  · cases roceRdmaWritePayload_ok h with
    | outOfOrder hno => exact absurd hno hout
    | first hin hlen hreth hs =>
      subst hin hreth
      exact .first hreq hlen (hs.ungranted hret)
    | next hin hlen hs =>
      subst hin
      obtain ⟨hreth, -⟩ := decodeRequest_write hreq
      cases reth with
      | none => exact .next hreq hlen (hs.ungranted hret)
      | some r => cases hreth

/-! ## The gate -/

/-- The packet that `roce_recv_bth` hands to an RC QP, when it is a request with
the PSN that the QP expects. -/
def expectedRequest (s : St) (d : Decap) (calloc : Bool) : Option Inbound :=
  if ibBthGetDestqp d.bth = s.qp.handle ∧ ibBthGetDestqp d.bth ≠ 0 ∧ recvBthCheck s.qp d.bth = 0 ∧
      s.qp.qpType = .rc ∧ ibBthGetOpcode d.bth ≠ ibOpcodeAcknowledge ∧
      roceComparePsn s.qp.attr.rqPsn (ibBthGetPsn d.bth) = 0 then
    (dropPad (ibBthGetPadcnt d.bth) d.iovs).map fun iovs => ⟨d.bth, iovs, calloc⟩
  else none

/-- `roce_recv_bth` executes it. -/
theorem expectedRequest_recv {s : St} {d : Decap} {calloc : Bool} {pkt : Inbound}
    (h : expectedRequest s d calloc = some pkt) :
    s.qp.qpType = .rc ∧ recvBthCheck s.qp d.bth = 0 ∧
      roceRecvBth s d calloc = recvInSequence s pkt := by
  unfold expectedRequest at h
  split at h
  swap
  · cases h
  next hgate =>
  obtain ⟨hdest, hzero, hcheck, hrc, hopcode, hpsn⟩ := hgate
  obtain ⟨iovs, hdrop, rfl⟩ := Option.map_eq_some_iff.mp h
  refine ⟨hrc, hcheck, ?_⟩
  have hmax : ¬(ibBthGetDestqp d.bth = 1 ∧ s.qp.qpType = .max) := by
    rw [hrc]
    rintro ⟨-, hno⟩
    cases hno
  have hcmp : ¬roceComparePsn s.qp.attr.rqPsn (ibBthGetPsn d.bth) > 0 ∧
      ¬roceComparePsn s.qp.attr.rqPsn (ibBthGetPsn d.bth) < 0 := by
    rw [hpsn]
    decide
  unfold roceRecvBth
  simp only
  rw [if_neg (not_not.mpr hdest), if_neg hzero, if_neg hmax, if_neg (not_not.mpr hcheck), hdrop]
  simp only [hrc]
  unfold roceRecvRc
  rw [if_neg hopcode]
  simp only
  rw [if_neg hcmp.1, if_neg hcmp.2]

theorem recvBthCheck_err {qp : RoceQp} (herr : qp.attr.qpState = .err) (bth : IbBth) :
    recvBthCheck qp bth ≠ 0 := by
  unfold recvBthCheck
  rw [herr]
  exact show eACCES ≠ 0 by decide

/-- A QP in ERR takes nothing in. -/
theorem roceRecvBth_err {s t : St} {d : Decap} {calloc : Bool} {ret : Int}
    (herr : s.qp.attr.qpState = .err) (h : roceRecvBth s d calloc = .ok (ret, t)) : t = s := by
  have hcheck := recvBthCheck_err herr d.bth
  have hsame : ∀ r : Int, (.ok (r, s) : Except Fault (Int × St)) = .ok (ret, t) → t = s := by
    intro r heq
    exact (Prod.mk.inj (Except.ok.inj heq)).2.symm
  unfold roceRecvBth at h
  simp only [if_pos hcheck] at h
  split at h
  · exact hsame _ h
  · split at h
    · exact hsame _ h
    · split at h
      · exact hsame _ h
      · exact hsame _ h

/-! ## Runs -/

/-- The event is a WRITE packet that is executed and refused. -/
def QpEvent.RefusesWrite (s : St) : QpEvent → Prop
  | .call (.recv d calloc) => ∃ pkt, expectedRequest s d calloc = some pkt ∧ WriteRefusal s pkt
  | _ => False

/-- The event is an inbound request. -/
def QpEvent.IsRequest : QpEvent → Prop
  | .call (.recv d _) => ibBthGetOpcode d.bth ≠ ibOpcodeAcknowledge
  | _ => False

/-- The application changes the QP state. -/
def QpEvent.ChangesState : QpEvent → Prop
  | .call (.modify _ attrMask) => attrMask &&& roceQpState ≠ 0
  | _ => False

/-- No memory was modified, no receive WR consumed, `rq_psn` not advanced. -/
structure Untouched (s t : St) : Prop where
  mem : t.ctx.mem = s.ctx.mem
  rq : t.qp.rq = s.qp.rq
  rqPsn : t.qp.attr.rqPsn = s.qp.attr.rqPsn

/-- The QP is in ERR and requests leave it untouched, until the application
changes the state. -/
def ClosedUntilModified (s : St) (events : List QpEvent) : Prop :=
  Until qpEvent QpEvent.ChangesState (fun t => t.qp.attr.qpState = .err)
    (fun t e u => e.IsRequest → Untouched t u) s events

/-- Each refused WRITE of the run closes the QP. -/
def RefusalsClose (s : St) (events : List QpEvent) : Prop :=
  ∀ before e after t u, events = before ++ e :: after → run qpEvent s before = .ok t →
    e.RefusesWrite t → qpEvent t e = .ok u → ClosedUntilModified u after

/-- An RC QP in ERR. -/
def ClosedRc (s : St) : Prop := s.qp.qpType = .rc ∧ s.qp.attr.qpState = .err

/-- A mask without the state leaves the state. -/
theorem roceModifyQp_keepsState {ctx : RoceCtx} {qp qp' : RoceQp} {attr : RoceQpAttr}
    {attrMask : UInt32} {ret : Int} (hmask : attrMask &&& roceQpState = 0)
    (h : roceModifyQp ctx qp attr attrMask = .ok (ret, qp')) :
    qp'.qpType = qp.qpType ∧ qp'.attr.qpState = qp.attr.qpState := by
  have hbit : roceQpState ∉ storedBits ctx qp attr attrMask := by
    unfold storedBits acceptedBits passedBits
    split
    · exact List.not_mem_nil
    · intro hmem
      obtain ⟨-, hsel⟩ := List.mem_filter.mp ((List.takeWhile_prefix _).subset hmem)
      rw [selects_eq_false.mpr hmask] at hsel
      cases hsel
  rw [roceModifyQp_stored h]
  exact ⟨rfl, if_neg hbit⟩

/-- **One event.**  In ERR an RC QP stays there while its state is not modified. -/
theorem qpEvent_closed (s : St) (e : QpEvent) (t : St) (h : ClosedRc s) (hno : ¬e.ChangesState)
    (hs : qpEvent s e = .ok t) : ClosedRc t := by
  obtain ⟨hrc, herr⟩ := h
  cases e with
  | elsewhere ctx es =>
    obtain rfl := Except.ok.inj hs
    exact ⟨hrc, herr⟩
  | call call =>
    cases call with
    | modify attr attrMask =>
      obtain ⟨⟨ret, qp⟩, hm, hs⟩ := bind_eq_ok.mp hs
      obtain rfl := Except.ok.inj hs
      obtain ⟨htype, hstate⟩ := roceModifyQp_keepsState (not_not.mp hno) hm
      exact ⟨htype.trans hrc, hstate.trans herr⟩
    | postRecv p wrId sge =>
      obtain ⟨⟨ret, u⟩, hp, hs⟩ := bind_eq_ok.mp hs
      obtain rfl := Except.ok.inj hs
      unfold rocePostRecv at hp
      split at hp
      · cases hp
      · split at hp
        · split at hp
          · cases hp
          · obtain ⟨-, rfl⟩ := Prod.mk.inj (Except.ok.inj hp)
            exact ⟨hrc, herr⟩
        · obtain ⟨-, rfl⟩ := Prod.mk.inj (Except.ok.inj hp)
          exact ⟨hrc, herr⟩
    | postSend wr calloc =>
      have hpost : reqStep s (.post wr calloc) = .ok t := hs
      have honly := reqStep_requesterOnly hrc hpost
      unfold RequesterOnly at honly
      unfold ClosedRc
      rw [honly]
      exact ⟨hrc, herr⟩
    | recv d calloc =>
      obtain ⟨⟨ret, u⟩, hr, hs⟩ := bind_eq_ok.mp hs
      obtain rfl := Except.ok.inj hs
      rw [roceRecvBth_err herr hr]
      exact ⟨hrc, herr⟩

/-- In ERR a request leaves the QP untouched. -/
theorem qpEvent_untouched (s : St) (e : QpEvent) (t : St) (h : ClosedRc s) (hs : qpEvent s e = .ok t)
    (hreq : e.IsRequest) : Untouched s t := by
  cases e with
  | elsewhere ctx es => cases hreq
  | call call =>
    cases call with
    | modify attr attrMask => cases hreq
    | postRecv p wrId sge => cases hreq
    | postSend wr calloc => cases hreq
    | recv d calloc =>
      obtain ⟨⟨ret, u⟩, hr, hs⟩ := bind_eq_ok.mp hs
      obtain rfl := Except.ok.inj hs
      rw [roceRecvBth_err h.2 hr]
      exact ⟨rfl, rfl, rfl⟩

/-- **The gate.**  An RC QP that is in ERR is closed, whatever comes. -/
theorem closed_of_err {s : St} (hrc : s.qp.qpType = .rc) (herr : s.qp.attr.qpState = .err)
    (events : List QpEvent) : ClosedUntilModified s events :=
  until_of_inv qpEvent_closed (fun _ h => h.2) qpEvent_untouched events ⟨hrc, herr⟩

/-- The flag that an arriving packet clears is not looked at. -/
theorem WriteRefusal.clear {s : St} {pkt : Inbound} (h : WriteRefusal s pkt) (b : Bool) :
    WriteRefusal { s with qp.resp.inPsnNak := b } pkt := by
  have hgranted : ∀ (u : St) bufLen, WriteGranted { u with qp.resp.inPsnNak := b } bufLen →
      WriteGranted u bufLen := by
    rintro u bufLen ⟨mr, ⟨hlive, hkey, hpd, hvalid, hrights⟩, hdma, hrange⟩
    exact ⟨mr, ⟨hlive, hkey, hpd, hvalid, hrights⟩, hdma, hrange⟩
  cases h with
  | sequence hreq hout hnak => exact .sequence hreq hout hnak
  | first hreq hlen hno => exact .first hreq hlen fun hg => hno (hgranted _ _ hg)
  | next hreq hlen hno => exact .next hreq hlen fun hg => hno (hgranted _ _ hg)

/-- **One refusal.**  The step goes through, and the QP stands as it was: open. -/
theorem QpEvent.RefusesWrite.stands {s : St} {e : QpEvent} (h : e.RefusesWrite s) :
    ∃ t, qpEvent s e = .ok t ∧ Stands s t ∧ s.qp.qpType = .rc ∧ s.qp.attr.qpState ≠ .err := by
  cases e with
  | elsewhere ctx es => cases h
  | call call =>
    cases call with
    | modify attr attrMask => cases h
    | postRecv p wrId sge => cases h
    | postSend wr calloc => cases h
    | recv d calloc =>
      obtain ⟨pkt, hexec, hrefusal⟩ := h
      obtain ⟨hrc, hcheck, hrecv⟩ := expectedRequest_recv hexec
      obtain ⟨ret, t, hreq, hret, hstands⟩ :=
        WriteRefusal.recvRequest (s := { s with qp.resp.inPsnNak := false }) hrc (hrefusal.clear false)
      have hseq : recvInSequence s pkt = .ok (ret, t) := by
        rw [recvInSequence, hreq]
        show (if ret ≠ 0 then _ else _) = _
        rw [if_pos hret.ne_zero]
        rfl
      have hclear : Stands s { s with qp.resp.inPsnNak := false } := ⟨rfl, rfl⟩
      refine ⟨t, ?_, hclear.trans hstands, hrc, ?_⟩
      · show (roceRecvBth s d calloc >>= fun r => pure r.2) = .ok t
        rw [hrecv, hseq]
        rfl
      · intro herr
        exact recvBthCheck_err herr d.bth hcheck

/-- **One guess after the other.**  A run of refusals leaves the QP as it was
for the next packet: state, PSN, receive queue, memory and MRs. -/
theorem refusals_stand {s t : St} {events : List QpEvent}
    (h : Along qpEvent (fun u e => e.RefusesWrite u) s events) (hr : run qpEvent s events = .ok t) :
    Stands s t := by
  induction events generalizing s with
  | nil =>
    cases hr
    exact .refl _
  | cons e events ih =>
    obtain ⟨href, hrest⟩ := h
    obtain ⟨u, hu, hstands, -⟩ := href.stands
    obtain ⟨u', hu', hr⟩ := Machine.run_cons_eq_ok qpEvent hr
    rw [hu] at hu'
    obtain rfl := Except.ok.inj hu'
    exact hstands.trans (ih (hrest u hu) hr)

/-- Refusals close the QP exactly when each leaves it in ERR: the gate does the rest. -/
theorem refusalsClose_iff_err {s : St} {events : List QpEvent} :
    RefusalsClose s events ↔
      ∀ before e after t u, events = before ++ e :: after → run qpEvent s before = .ok t →
        e.RefusesWrite t → qpEvent t e = .ok u → u.qp.attr.qpState = .err := by
  constructor
  · intro h before e after t u hevents hr href hu
    exact (h before e after t u hevents hr href hu).start
  · intro h before e after t u hevents hr href hu
    have herr := h before e after t u hevents hr href hu
    obtain ⟨u', hu', hstands, hrc, -⟩ := href.stands
    rw [hu] at hu'
    obtain rfl := Except.ok.inj hu'
    have htype : u.qp.qpType = .rc := by
      rw [hstands.qp]
      exact hrc
    exact closed_of_err htype herr after

/-- **Every run.**  Refused WRITEs close the QP exactly when there are none: after
the first the QP is in the state it was in, and open. -/
theorem refusalsClose_iff (s : St) (events : List QpEvent) :
    RefusalsClose s events ↔ Along qpEvent (fun t e => ¬e.RefusesWrite t) s events := by
  rw [refusalsClose_iff_err, along_iff]
  constructor
  · intro h before e after t hevents hr href
    obtain ⟨u, hu, hstands, -, hopen⟩ := href.stands
    have herr := h before e after t u hevents hr href hu
    rw [hstands.qp] at herr
    exact hopen herr
  · intro h before e after t u hevents hr href hu
    exact absurd href (h before e after t hevents hr)

/-- A WRITE of four bytes to the only MR, whose remote key is 0, under the key
that the sender guessed. -/
def probe (rkey : UInt32) : QpEvent :=
  .call (.recv ⟨⟨ibOpcodeRdmaWriteOnly, 0, rocePkey, 2, 0⟩, .ip4 ⟨0, 0, 0, 0, 0, 0, 0, 0, 0, 0⟩,
    [ibRethCodec.enc ⟨0x10000, rkey, 4⟩, [1, 2, 3, 4]]⟩ true)

/-- A wrong key is refused, the QP stays in RTS, and the next guess is right. -/
theorem refusalsClose_probes :
    (probe 1).RefusesWrite ⟨withMr smallCtx smallMr, smallQp⟩ ∧
      (∃ t u, qpEvent ⟨withMr smallCtx smallMr, smallQp⟩ (probe 1) = .ok t ∧
        t.qp.attr.qpState = .rts ∧ t.ctx.mem 0x10000 = 0 ∧
        qpEvent t (probe 0) = .ok u ∧ u.ctx.mem 0x10000 = 1) ∧
      ¬RefusalsClose ⟨withMr smallCtx smallMr, smallQp⟩ [probe 1, probe 0] := by
  have hrefused : (probe 1).RefusesWrite ⟨withMr smallCtx smallMr, smallQp⟩ := by
    refine ⟨⟨⟨ibOpcodeRdmaWriteOnly, 0, rocePkey, 2, 0⟩,
      [ibRethCodec.enc ⟨0x10000, 1, 4⟩, [1, 2, 3, 4]], true⟩, rfl, ?_⟩
    refine @WriteRefusal.first _ _ ⟨0x10000, 1, 4⟩ _ _ rfl rfl ?_
    rintro ⟨mr, ⟨hlive, hkey, -, -, -⟩, -, -⟩
    obtain rfl := Option.some.inj hlive
    exact absurd hkey (by decide)
  refine ⟨hrefused, ⟨_, _, rfl, rfl, rfl, rfl, rfl⟩, ?_⟩
  intro h
  obtain ⟨t, ht, hstands, -, hopen⟩ := hrefused.stands
  have hclosed := h [] (probe 1) [probe 0] _ t rfl rfl hrefused ht
  have herr := hclosed.start
  rw [hstands.qp] at herr
  exact hopen herr

end Libroce
