import Libroce.RequesterRefusal
import Libroce.Transmit

/-!
# What a UD completion says

A UD or GSI WR is sent and reported in the call that posts it.  Its `error`
becomes the status; it is eight bits wide and holds what `roce_get_mrs`
returned, or a status, or 0 when the AH was not found and nothing was sent.

    UdOutcome      how `roce_request_ud` leaves the WR: refused, dropped or sent
    Honest         the statuses are statuses, and SUCCESS says that a packet went out
    Deserved       all keys name MRs, and no reported WR gets to an AH that is not there

Main statement: `rocePostSend_honest`.
-/

namespace Libroce

open Machine

/-- `roce_wc_status` -/
inductive RoceWcStatus where
  | success | locLenErr | locQpOpErr | locEecOpErr | locProtErr | wrFlushErr | mwBindErr | badRespErr
  | locAccessErr | remInvReqErr | remAccessErr | remOpErr | retryExcErr | rnrRetryExcErr | locRddViolErr
  | remInvRdReqErr | remAbortErr | invEecnErr | invEecStateErr | fatalErr | respTimeoutErr | generalErr
  deriving DecidableEq

/-- The values are numbered from 0. -/
def RoceWcStatus.code (status : RoceWcStatus) : UInt8 := UInt8.ofNat status.ctorIdx

theorem RoceWcStatus.code_le (status : RoceWcStatus) : status.code ≤ 21 := by
  cases status <;> decide

/-- What a call from `s` to `t` reports agrees with what it sent. -/
structure Honest (s t : St) : Prop where
  status : ∀ wc cq, .cqComp wc cq ∈ t.ctx.trace.drop s.ctx.trace.length →
    (∃ status : RoceWcStatus, wc.status = status.code) ∧
      (wc.status = RoceWcStatus.success.code ↔ sentSince s t ≠ [])
  psn : t.qp.req.psn = roceQpPsnInc s.qp.req.psn ↔ sentSince s t ≠ []

/-- An inline WR, or one whose keys all name MRs. -/
def KeysResolve (s : St) (wr : SendWr) : Prop :=
  roceSendWrIsInline wr = false → ∀ sge ∈ wr.sge, roceGetMrNoref s.ctx (roceKeyToIndex sge.lkey) ≠ none

/-- A datagram that fits the MTU, whose AH is looked up. -/
def LooksUpAh (s : St) (wr : SendWr) : Prop :=
  (wr.opcode = .send ∨ wr.opcode = .sendWithImm) ∧
    ∃ mtu payload, roceGetMtu s.ctx s.qp = .ok mtu ∧ requestLen wr = .ok payload ∧
      payload ≤ mtu.toUInt32

/-- Every key names an MR, and a WR whose completion is asked for finds its AH. -/
def Deserved (s : St) (wr : SendWr) : Prop :=
  KeysResolve s wr ∧
    ¬(wrSignaled s.qp wr = true ∧ LooksUpAh s wr ∧ roceResourceGet s.ctx.ahs wr.ud.ah = none)

/-! ## The outcomes -/

/-- The state and the WR that `roce_request_ud` reports by. -/
inductive UdOutcome (s : St) (wr : SendWr) : St → SendWr → Prop where
  | refused {t : St} {e : UInt8} (he : e = roceWcLocLenErr ∨ e = roceWcLocQpOpErr)
      (hqp : t.qp = s.qp) (htrace : t.ctx.trace = s.ctx.trace)
      (hfound : LooksUpAh s wr → roceResourceGet s.ctx.ahs wr.ud.ah ≠ none) :
      UdOutcome s wr t { wr with error := e }
  | dropped (hlook : LooksUpAh s wr) (hah : roceResourceGet s.ctx.ahs wr.ud.ah = none) :
      UdOutcome s wr s wr
  | sent {t : St} (pkt : RoceNetpkt) (unmaps : List Event)
      (hqp : t.qp = { s.qp with req.psn := roceQpPsnInc s.qp.req.psn })
      (htrace : t.ctx.trace = s.ctx.trace ++ .netXmit pkt :: unmaps)
      (hsilent : ∀ e ∈ unmaps, (∃ iov, e = .dmaUnmap iov))
      (hah : roceResourceGet s.ctx.ahs wr.ud.ah ≠ none) : UdOutcome s wr t wr

/-- After the packet there are only unmappings. -/
theorem udPkt_dmaUnmaps {ctx : RoceCtx} {qp : RoceQp} {wr : SendWr} {c imm : Bool} {payload : UInt32}
    {ahAttr : RoceAhAttr} {pkt : RoceNetpkt} {unmaps : List Event}
    (h : udPkt ctx qp wr c imm payload ahAttr = .ok (some (pkt, unmaps))) :
    ∀ e ∈ unmaps, ∃ iov, e = .dmaUnmap iov := by
  obtain ⟨-, -, -, hunmaps, -⟩ := udPkt_ok h
  exact onlyUnmap_ok hunmaps

theorem roceUdSendPkt_outcome {s t : St} {wr wr' : SendWr} {c imm : Bool} {payload : UInt32}
    (hlook : LooksUpAh s wr) (h : roceUdSendPkt s wr c imm payload = .ok (t, wr')) :
    UdOutcome s wr t wr' := by
  unfold roceUdSendPkt at h
  cases hget : roceGetAh s.ctx wr.ud.ah with
  | none =>
    simp only [hget] at h
    obtain ⟨rfl, rfl⟩ := Prod.mk.inj (Except.ok.inj h)
    exact .dropped hlook (roceGetAh_eq_none.mp hget)
  | some r =>
    obtain ⟨ah, ctx⟩ := r
    simp only [hget] at h
    have hfound : roceResourceGet s.ctx.ahs wr.ud.ah ≠ none := by
      rw [(roceGetAh_ok hget).1]
      exact Option.some_ne_none _
    obtain ⟨ahs, rfl⟩ := roceGetAh_withAhs hget
    obtain ⟨o, hpkt, h⟩ := bind_eq_ok.mp h
    cases o with
    | none =>
      obtain ⟨rfl, rfl⟩ := Prod.mk.inj (Except.ok.inj h)
      obtain ⟨ahs', hput⟩ := rocePutAh_withAhs (s.ctx.withAhs ahs) wr.ud.ah
      simp only [hput]
      exact .refused (Or.inr rfl) rfl rfl fun _ => hfound
    | some r =>
      obtain ⟨pkt, unmaps⟩ := r
      obtain ⟨rfl, rfl⟩ := Prod.mk.inj (Except.ok.inj h)
      refine .sent pkt unmaps rfl ?_ ?_ hfound
      · obtain ⟨ahs', hput⟩ := rocePutAh_withAhs
          (({ ctx := s.ctx.withAhs ahs, qp := { s.qp with req.psn := roceQpPsnInc s.qp.req.psn } } : St).emit
            (.netXmit pkt :: unmaps)).ctx wr.ud.ah
        simp only [hput]
        rfl
      · exact udPkt_dmaUnmaps hpkt

theorem udSwitch_outcome {s t : St} {wr wr' : SendWr} {c : Bool} {len : UInt32}
    (h : udSwitch s wr c = .ok (t, wr', len)) : UdOutcome s wr t wr' := by
  unfold udSwitch at h
  obtain ⟨mtu, hmtu, h⟩ := bind_eq_ok.mp h
  obtain ⟨payload, hlen, h⟩ := bind_eq_ok.mp h
  by_cases hlong : payload > mtu.toUInt32
  · rw [if_pos hlong] at h
    obtain ⟨rfl, hr⟩ := Prod.mk.inj (Except.ok.inj h)
    obtain ⟨rfl, -⟩ := Prod.mk.inj hr
    refine .refused (Or.inl rfl) rfl rfl ?_
    rintro ⟨-, mtu', payload', hmtu', hlen', hle⟩
    rw [hmtu] at hmtu'
    rw [hlen] at hlen'
    obtain rfl := Except.ok.inj hmtu'
    obtain rfl := Except.ok.inj hlen'
    exact absurd hlong (UInt32.not_lt.mpr hle)
  · rw [if_neg hlong] at h
    have hle : payload ≤ mtu.toUInt32 := UInt32.not_lt.mp hlong
    have hsend : ∀ imm, (wr.opcode = .send ∨ wr.opcode = .sendWithImm) →
        (∃ r, roceUdSendPkt s wr c imm payload = .ok r ∧
          (Except.ok (r.1, r.2, payload) : Except Fault (St × SendWr × UInt32)) = .ok (t, wr', len)) →
        UdOutcome s wr t wr' := by
      rintro imm hop ⟨⟨t1, wr1⟩, hsent, hdo⟩
      obtain ⟨rfl, hr⟩ := Prod.mk.inj (Except.ok.inj hdo)
      obtain ⟨rfl, -⟩ := Prod.mk.inj hr
      exact roceUdSendPkt_outcome ⟨hop, mtu, payload, hmtu, hlen, hle⟩ hsent
    have hother : (wr.opcode = .send ∨ wr.opcode = .sendWithImm → False) →
        (Except.ok (s, { wr with error := roceWcLocQpOpErr }, 0) : Except Fault (St × SendWr × UInt32)) =
          .ok (t, wr', len) → UdOutcome s wr t wr' := by
      intro hop hr
      obtain ⟨hs, hr⟩ := Prod.mk.inj (Except.ok.inj hr)
      obtain ⟨hwr, -⟩ := Prod.mk.inj hr
      rw [← hs, ← hwr]
      exact .refused (Or.inr rfl) rfl rfl fun hlook => (hop hlook.1).elim
    split at h
    · next hop => exact hsend true (Or.inr hop) (bind_eq_ok.mp h)
    · next hop => exact hsend false (Or.inl hop) (bind_eq_ok.mp h)
    · next himm hplain =>
      refine hother ?_ h
      rintro (hop | hop)
      · exact hplain hop
      · exact himm hop

/-- The report of `roce_request_ud` for a WR. -/
def udReport (qp : RoceQp) (wr : SendWr) (byteLen : UInt32) : List Event :=
  if wrSignaled qp wr || wr.error != 0 then [.cqComp (sendWc qp wr wr.error byteLen) qp.scq] else []

theorem mem_udReport {qp : RoceQp} {wr : SendWr} {byteLen : UInt32} {wc : RoceWc} {cq : Nat} :
    .cqComp wc cq ∈ udReport qp wr byteLen ↔
      (wrSignaled qp wr = true ∨ wr.error ≠ 0) ∧ wc = sendWc qp wr wr.error byteLen ∧ cq = qp.scq := by
  unfold udReport
  by_cases hdue : (wrSignaled qp wr || wr.error != 0) = true
  · rw [if_pos hdue, List.mem_singleton, Event.cqComp.injEq]
    rw [Bool.or_eq_true, bne_iff_ne] at hdue
    exact ⟨fun h => ⟨hdue, h⟩, fun h => h.2⟩
  · rw [if_neg hdue]
    rw [Bool.or_eq_true, bne_iff_ne] at hdue
    exact ⟨fun h => absurd h List.not_mem_nil, fun h => absurd h.1 hdue⟩

theorem sentPkts_udReport (qp : RoceQp) (wr : SendWr) (byteLen : UInt32) :
    sentPkts (udReport qp wr byteLen) = [] := by
  unfold udReport
  split
  · rfl
  · rfl

/-- What the call adds to the trace after that: the report that is due. -/
theorem roceRequestUd_trace {s t : St} {wr : SendWr} {c : Bool} (h : roceRequestUd s wr c = .ok t) :
    ∃ s1 wr1 byteLen, udRequest s wr c = .ok (s1, wr1, byteLen) ∧ t.qp = s1.qp ∧
      t.ctx.trace = s1.ctx.trace ++ udReport s1.qp wr1 byteLen := by
  unfold roceRequestUd at h
  obtain ⟨⟨s1, wr1, byteLen⟩, hreq, h⟩ := bind_eq_ok.mp h
  obtain ⟨ctx, hfree, h⟩ := bind_eq_ok.mp h
  obtain rfl := Except.ok.inj h
  refine ⟨s1, wr1, byteLen, hreq, ?_⟩
  have htrace := (roceFreeSendWr_refsOnly hfree).trace
  unfold udReport
  by_cases hdue : (wrSignaled s1.qp wr1 || wr1.error != 0) = true
  · rw [if_pos hdue] at htrace ⊢
    rw [if_pos hdue]
    exact ⟨rfl, htrace⟩
  · rw [if_neg hdue] at htrace ⊢
    rw [if_neg hdue, List.append_nil]
    exact ⟨rfl, htrace⟩

/-! ## The post -/

/-- The references taken first: the error is that of `roce_get_mrs`. -/
theorem postGetMrs_outcome {s s1 : St} {wr wr1 : SendWr} (h : postGetMrs s wr.fresh = .ok (s1, wr1)) :
    s1.qp = s.qp ∧ RefsOnly s.ctx s1.ctx ∧ ∃ m,
      (KeysResolve s wr ∧ wr1 = { wr with error := 0, mapped := m } ∨
        ¬KeysResolve s wr ∧ wr1 = { wr with error := UInt8.ofInt eACCES, mapped := m }) := by
  unfold postGetMrs at h
  by_cases hin : roceSendWrIsInline wr = true
  · rw [if_pos (show roceSendWrIsInline wr.fresh = true from hin)] at h
    obtain ⟨rfl, rfl⟩ := Prod.mk.inj (Except.ok.inj h)
    refine ⟨rfl, .refl _, false, Or.inl ⟨fun hout => ?_, rfl⟩⟩
    rw [hin] at hout
    cases hout
  · rw [if_neg (show ¬roceSendWrIsInline wr.fresh = true from hin)] at h
    obtain ⟨⟨ret, ctx⟩, hget, h⟩ := bind_eq_ok.mp h
    obtain ⟨rfl, rfl⟩ := Prod.mk.inj (Except.ok.inj h)
    have hzero := roceGetMrs_eq_zero hget
    refine ⟨rfl, roceGetMrs_refsOnly hget, UInt8.ofInt ret == 0 || wr.fresh.mapped, ?_⟩
    rcases roceGetMrs_ret hget with rfl | rfl
    · exact Or.inl ⟨fun _ => hzero.mp rfl, rfl⟩
    · right
      refine ⟨fun hres => ?_, rfl⟩
      have h0 := hzero.mpr (hres (Bool.eq_false_iff.mpr hin))
      exact absurd h0 (by decide)

theorem rocePostSend_udRequest {s t : St} {wr : SendWr} {calloc : Nat → Bool}
    (hud : s.qp.qpType = .ud ∨ s.qp.qpType = .gsi) (h : rocePostSend s wr.fresh calloc = .ok t) :
    ∃ s1 wr1, postGetMrs s wr.fresh = .ok (s1, wr1) ∧ roceRequestUd s1 wr1 (calloc 0) = .ok t := by
  unfold rocePostSend at h
  obtain ⟨⟨s1, wr1⟩, hget, h⟩ := bind_eq_ok.mp h
  refine ⟨s1, wr1, hget, ?_⟩
  have hqp := (postGetMrs_outcome hget).1
  simp only [hqp] at h
  rcases hud with hud | hud
  · rw [hud] at h
    exact h
  · rw [hud] at h
    exact h

/-- A post that sent and then reported. -/
theorem honest_iff {s t : St} {sent : List Event} {qp : RoceQp} {wr : SendWr} {byteLen : UInt32}
    (htrace : t.ctx.trace = s.ctx.trace ++ (sent ++ udReport qp wr byteLen))
    (hquiet : ∀ wc cq, .cqComp wc cq ∉ sent) :
    Honest s t ↔
      (wrSignaled qp wr = true ∨ wr.error ≠ 0 → (∃ status : RoceWcStatus, wr.error = status.code) ∧
        (wr.error = RoceWcStatus.success.code ↔ sentPkts sent ≠ [])) ∧
      (t.qp.req.psn = roceQpPsnInc s.qp.req.psn ↔ sentPkts sent ≠ []) := by
  have hdrop : t.ctx.trace.drop s.ctx.trace.length = sent ++ udReport qp wr byteLen := by
    rw [htrace, List.drop_left]
  have hsent : sentSince s t = sentPkts sent := by
    unfold sentSince
    rw [hdrop, sentPkts_append, sentPkts_udReport, List.append_nil]
  constructor
  · intro h
    rw [← hsent]
    refine ⟨fun hdue => h.status (sendWc qp wr wr.error byteLen) qp.scq ?_, h.psn⟩
    rw [hdrop]
    exact List.mem_append_right _ (mem_udReport.mpr ⟨hdue, rfl, rfl⟩)
  · rintro ⟨hstatus, hpsn⟩
    rw [← hsent] at hstatus hpsn
    refine ⟨fun wc cq hmem => ?_, hpsn⟩
    rw [hdrop] at hmem
    rcases List.mem_append.mp hmem with hmem | hmem
    · exact absurd hmem (hquiet wc cq)
    · obtain ⟨hdue, rfl, -⟩ := mem_udReport.mp hmem
      exact hstatus hdue

/-- A WR whose references were taken. -/
theorem UdOutcome.honest {s t u : St} {wr wr' : SendWr} {byteLen : UInt32} (h : UdOutcome s wr t wr')
    (herr : wr.error = 0) (hqp : u.qp = t.qp)
    (htrace : u.ctx.trace = t.ctx.trace ++ udReport t.qp wr' byteLen) :
    Honest s u ↔
      ¬(wrSignaled s.qp wr = true ∧ LooksUpAh s wr ∧ roceResourceGet s.ctx.ahs wr.ud.ah = none) := by
  have hkeep : s.qp.req.psn ≠ roceQpPsnInc s.qp.req.psn := fun he => roceQpPsnInc_ne _ he.symm
  have hnil : ¬(sentPkts [] ≠ []) := fun hne => hne rfl
  cases h with
  | refused he hqp' htrace' hfound =>
    rw [htrace'] at htrace
    refine iff_of_true ((honest_iff htrace fun _ _ => List.not_mem_nil).mpr ⟨fun _ => ?_, ?_⟩) ?_
    · have hlen : ¬(roceWcLocLenErr = RoceWcStatus.success.code) := by decide
      have hop : ¬(roceWcLocQpOpErr = RoceWcStatus.success.code) := by decide
      rcases he with rfl | rfl
      · exact ⟨⟨.locLenErr, rfl⟩, iff_of_false hlen hnil⟩
      · exact ⟨⟨.locQpOpErr, rfl⟩, iff_of_false hop hnil⟩
    · rw [hqp, hqp']
      exact iff_of_false hkeep hnil
    · rintro ⟨-, hlook, hnone⟩
      exact hfound hlook hnone
  | dropped hlook hah =>
    rw [honest_iff htrace fun _ _ => List.not_mem_nil, hqp]
    constructor
    · rintro ⟨hstatus, -⟩ ⟨hsig, -⟩
      exact hnil ((hstatus (Or.inl hsig)).2.mp herr)
    · intro hnot
      refine ⟨fun hdue => ?_, iff_of_false hkeep hnil⟩
      rcases hdue with hsig | hne
      · exact absurd ⟨hsig, hlook, hah⟩ hnot
      · exact absurd herr hne
  | sent pkt unmaps hqp' htrace' hsilent hah =>
    rw [htrace', List.append_assoc] at htrace
    have hsent : sentPkts (.netXmit pkt :: unmaps) ≠ [] := by
      show pkt :: sentPkts unmaps ≠ []
      exact List.cons_ne_nil _ _
    have hquiet : ∀ wc cq, Event.cqComp wc cq ∉ Event.netXmit pkt :: unmaps := by
      intro wc cq hmem
      rcases List.mem_cons.mp hmem with hmem | hmem
      · cases hmem
      · obtain ⟨iov, hiov⟩ := hsilent _ hmem
        cases hiov
    refine iff_of_true ((honest_iff htrace hquiet).mpr ⟨fun _ => ?_, ?_⟩) fun hno => hah hno.2.2
    · exact ⟨⟨.success, herr⟩, iff_of_true herr hsent⟩
    · rw [hqp, hqp']
      exact iff_of_true rfl hsent

/-- **UD and GSI posts.**  The statuses and the PSN agree with what was sent
exactly when every key names an MR and no WR that is to be reported gets to an
AH that is not there. -/
theorem rocePostSend_honest {s t : St} {wr : SendWr} {calloc : Nat → Bool}
    (hud : s.qp.qpType = .ud ∨ s.qp.qpType = .gsi) (h : rocePostSend s wr.fresh calloc = .ok t) :
    Honest s t ↔ Deserved s wr := by
  obtain ⟨s1, wr1, hget, hreq⟩ := rocePostSend_udRequest hud h
  obtain ⟨hqp1, hrefs, m, hwr1⟩ := postGetMrs_outcome hget
  obtain ⟨s2, wr2, byteLen, hrun, hqp2, htrace⟩ := roceRequestUd_trace hreq
  -- the references change nothing that counts here
  have hsame : Honest s t ↔ Honest s1 t := by
    constructor
    · intro hh
      refine ⟨?_, ?_⟩
      · have hst := hh.status
        unfold sentSince at hst ⊢
        rw [hrefs.trace]
        exact hst
      · have hpsn := hh.psn
        unfold sentSince at hpsn ⊢
        rw [hqp1, hrefs.trace]
        exact hpsn
    · intro hh
      refine ⟨?_, ?_⟩
      · have hst := hh.status
        unfold sentSince at hst ⊢
        rw [hrefs.trace] at hst
        exact hst
      · have hpsn := hh.psn
        unfold sentSince at hpsn ⊢
        rw [hqp1, hrefs.trace] at hpsn
        exact hpsn
  rw [hsame]
  unfold Deserved
  unfold udRequest at hrun
  rcases hwr1 with ⟨hres, rfl⟩ | ⟨hres, rfl⟩
  · rw [if_pos (show (0 : UInt8) = 0 from rfl)] at hrun
    have hlook : LooksUpAh s1 { wr with error := 0, mapped := m } ↔ LooksUpAh s wr := by
      unfold RefsOnly at hrefs
      unfold LooksUpAh
      rw [hqp1, hrefs]
      exact Iff.rfl
    have hahs : s1.ctx.ahs = s.ctx.ahs := by
      unfold RefsOnly at hrefs
      rw [hrefs]
    rw [(udSwitch_outcome hrun).honest rfl hqp2 htrace, hlook, hahs, hqp1]
    exact ⟨fun hno => ⟨hres, hno⟩, fun hboth => hboth.2⟩
  · have herr : ¬(UInt8.ofInt eACCES = 0) := by decide
    rw [if_neg herr] at hrun
    obtain ⟨hs2, hpair⟩ := Prod.mk.inj (Except.ok.inj hrun)
    obtain ⟨hwr2, -⟩ := Prod.mk.inj hpair
    subst hs2
    subst hwr2
    refine iff_of_false (fun hh => ?_) fun hboth => hres hboth.1
    obtain ⟨status, hcode⟩ :=
      (((honest_iff htrace fun _ _ => List.not_mem_nil).mp hh).1 (Or.inr herr)).1
    have hle := status.code_le
    rw [← hcode] at hle
    have hbig : ¬(UInt8.ofInt eACCES ≤ 21) := by decide
    exact hbig hle

/-- A GSI QP of a device without AHs. -/
def bareGsi : St := ⟨smallCtx, { smallQp with qpType := .gsi }⟩

/-- An inline SEND that asks for its completion, and one that does not. -/
theorem rocePostSend_honest_gsi :
    ∃ t u, rocePostSend bareGsi (smallSend 5 .rdmaRead).fresh (fun _ => true) = .ok t ∧
      rocePostSend bareGsi { smallSend 5 .send with sendFlags := roceSendInline }.fresh
        (fun _ => true) = .ok u ∧
      (Honest bareGsi t ↔ Deserved bareGsi (smallSend 5 .rdmaRead)) ∧
      (Honest bareGsi u ↔ Deserved bareGsi { smallSend 5 .send with sendFlags := roceSendInline }) := by
  obtain ⟨t, ht⟩ : ∃ t, rocePostSend bareGsi (smallSend 5 .rdmaRead).fresh (fun _ => true) = .ok t :=
    ⟨_, rfl⟩
  obtain ⟨u, hu⟩ : ∃ u, rocePostSend bareGsi { smallSend 5 .send with sendFlags := roceSendInline }.fresh
      (fun _ => true) = .ok u := ⟨_, rfl⟩
  exact ⟨t, u, ht, hu, rocePostSend_honest (Or.inr rfl) ht, rocePostSend_honest (Or.inr rfl) hu⟩

/-- Two posts whose completions are wrong: the handle 0 names no AH and the WC
says SUCCESS; the key 0 names no MR and the WC says 243. -/
theorem rocePostSend_honest_noAh :
    (∃ t, rocePostSend bareGsi (smallSend 5 .send).fresh (fun _ => true) = .ok t ∧
      (∃ wc cq, t.ctx.trace = [.cqComp wc cq] ∧ wc.status = RoceWcStatus.success.code) ∧
      ¬Honest bareGsi t) ∧
    ∃ t, rocePostSend bareGsi { smallSend 5 .send with sendFlags := 0 }.fresh (fun _ => true) = .ok t ∧
      (∃ wc cq, t.ctx.trace = [.cqComp wc cq] ∧ wc.status = 243) ∧ ¬Honest bareGsi t := by
  constructor
  · obtain ⟨t, hrun, wc, cq, htrace, hstatus⟩ : ∃ t,
        rocePostSend bareGsi (smallSend 5 .send).fresh (fun _ => true) = .ok t ∧
        ∃ wc cq, t.ctx.trace = [.cqComp wc cq] ∧ wc.status = RoceWcStatus.success.code :=
      ⟨_, rfl, _, _, rfl, rfl⟩
    refine ⟨t, hrun, ⟨wc, cq, htrace, hstatus⟩, fun hh => ?_⟩
    have hsent := (hh.status wc cq (by rw [htrace]; exact List.mem_singleton.mpr rfl)).2.mp hstatus
    unfold sentSince at hsent
    rw [htrace] at hsent
    exact hsent rfl
  · obtain ⟨t, hrun, wc, cq, htrace, hstatus⟩ : ∃ t,
        rocePostSend bareGsi { smallSend 5 .send with sendFlags := 0 }.fresh (fun _ => true) = .ok t ∧
        ∃ wc cq, t.ctx.trace = [.cqComp wc cq] ∧ wc.status = 243 :=
      ⟨_, rfl, _, _, rfl, rfl⟩
    refine ⟨t, hrun, ⟨wc, cq, htrace, hstatus⟩, fun hh => ?_⟩
    obtain ⟨status, hcode⟩ := (hh.status wc cq (by rw [htrace]; exact List.mem_singleton.mpr rfl)).1
    have hle := status.code_le
    rw [← hcode, hstatus] at hle
    exact absurd hle (by decide)

end Libroce
