import Libroce.ResponderUnion

/-!
# Datagrams

A UD or GSI QP receives datagrams by the path that also receives SENDs of many
packets.  No datagram should be in progress between two of them.

    netPayload s iovs = what reaches roce_recv_payload    (roceNetRecv_refused, _payload)
    one datagram on an idle QP                            (udStep_idle)

Main statement: `udRun_independent` — the QP is idle between the datagrams of a
run exactly when each datagram that takes a receive WR `Lands` on it.
-/

namespace Libroce

open Machine (bind_eq_ok Along Throughout)

/-! ## What reaches the payload path -/

/-- A datagram taken apart, its GRH in front. -/
structure Datagram where
  iovs : List (List UInt8)
  immdt : Option UInt32
  opcode : UInt8

/-- `roce_recv_ud` up to `roce_recv_payload`; `none` when it ends before. -/
def udPayload (pkt : Inbound) (ip : NetHdr) : Option Datagram :=
  match roceGetEth ibDethCodec pkt.iovs with
  | none => none
  | some (_, iovs) =>
    if ibBthGetOpcode pkt.bth = ibOpcodeSendOnlyWithImmediate then
      match roceGetEth ibImmdtCodec iovs with
      | none => none
      | some (immdt, iovs) => some ⟨roceBuildGrh ip :: iovs, some immdt, ibBthGetOpcode pkt.bth⟩
    else if ibBthGetOpcode pkt.bth = ibOpcodeSendOnly then
      some ⟨roceBuildGrh ip :: iovs, none, ibBthGetOpcode pkt.bth⟩
    else none

/-- `roce_recv_bth` up to there. -/
def bthPayload (qp : RoceQp) (d : Decap) : Option Datagram :=
  if ibBthGetDestqp d.bth ≠ qp.handle ∨ ibBthGetDestqp d.bth = 0 ∨ recvBthCheck qp d.bth ≠ 0 then none
  else
    match dropPad (ibBthGetPadcnt d.bth) d.iovs with
    | none => none
    | some iovs => udPayload ⟨d.bth, iovs, true⟩ d.ip

/-- `roce_net_recv` up to there. -/
def netPayload (s : St) (iovs : List (List UInt8)) : Except Fault (Option Datagram) :=
  match roceNetDecap s.ctx iovs with
  | .error e => .error e
  | .ok none => .ok none
  | .ok (some d) => .ok (bthPayload s.qp d)

/-- A QP for datagrams; the receive WRs it was given are no NULL pointers. -/
structure UdQp (s : St) : Prop where
  type : s.qp.qpType = .ud ∨ s.qp.qpType = .gsi
  nonnull : 0 ∉ s.qp.rq

/-- `s'` is `s` but for the attributes a datagram sets. -/
def Attrs (s s' : St) : Prop :=
  s' = { s with qp.attr.destQpNum := s'.qp.attr.destQpNum, qp.attr.rqPsn := s'.qp.attr.rqPsn }

theorem Attrs.refl (s : St) : Attrs s s := rfl

theorem roceRecvUd_refused (s : St) {pkt : Inbound} {ip : NetHdr} (h : udPayload pkt ip = none) :
    ∃ s', roceRecvUd s pkt ip = .ok (ePROTO, s') ∧ Attrs s s' := by
  unfold udPayload at h
  unfold roceRecvUd
  cases hdeth : roceGetEth ibDethCodec pkt.iovs with
  | none => exact ⟨s, rfl, .refl s⟩
  | some r =>
    obtain ⟨deth, iovs⟩ := r
    rw [hdeth] at h
    simp only at h ⊢
    by_cases himm : ibBthGetOpcode pkt.bth = ibOpcodeSendOnlyWithImmediate
    · rw [if_pos himm] at h ⊢
      cases hget : roceGetEth ibImmdtCodec iovs with
      | none => exact ⟨_, rfl, rfl⟩
      | some r =>
        rw [hget] at h
        cases h
    · rw [if_neg himm] at h ⊢
      by_cases honly : ibBthGetOpcode pkt.bth = ibOpcodeSendOnly
      · rw [if_pos honly] at h
        cases h
      · rw [if_neg honly]
        exact ⟨s, rfl, .refl s⟩

/-- The end of `roce_recv_ud` sets attributes and passes the result on. -/
theorem udFinish_spec {x : Except Fault (Int × St)} {f : Int × St → Int × St}
    (hf : ∀ ret t, (f (ret, t)).1 = ret ∧ Attrs t (f (ret, t)).2) :
    (∀ e, x = .error e → (do let r ← x; return f r) = .error e) ∧
      ∀ ret t, x = .ok (ret, t) → ∃ s', (do let r ← x; return f r) = .ok (ret, s') ∧ Attrs t s' := by
  refine ⟨?_, ?_⟩
  · rintro e rfl
    rfl
  · rintro ret t rfl
    obtain ⟨hret, hattrs⟩ := hf ret t
    exact ⟨(f (ret, t)).2, congrArg Except.ok (Prod.ext hret rfl), hattrs⟩

theorem roceRecvUd_payload (s : St) {pkt : Inbound} {ip : NetHdr} {d : Datagram}
    (h : udPayload pkt ip = some d) :
    (∀ e, roceRecvPayload s d.iovs d.immdt false d.opcode = .error e →
      roceRecvUd s pkt ip = .error e) ∧
    ∀ ret t, roceRecvPayload s d.iovs d.immdt false d.opcode = .ok (ret, t) →
      ∃ s', roceRecvUd s pkt ip = .ok (ret, s') ∧ Attrs t s' := by
  have hfinish : ∀ (srcqp : UInt32) ret (t : St),
      (if ret ≠ 0 then (ret, { t with qp.attr.destQpNum := srcqp })
        else (0, { t with
          qp.attr.destQpNum := srcqp
          qp.attr.rqPsn := roceQpPsnInc t.qp.attr.rqPsn }) : Int × St).1 = ret ∧
      Attrs t (if ret ≠ 0 then (ret, { t with qp.attr.destQpNum := srcqp })
        else (0, { t with
          qp.attr.destQpNum := srcqp
          qp.attr.rqPsn := roceQpPsnInc t.qp.attr.rqPsn }) : Int × St).2 := by
    intro srcqp ret t
    by_cases hret : ret = 0
    · rw [if_neg (not_not.mpr hret), hret]
      exact ⟨rfl, rfl⟩
    · rw [if_pos hret]
      exact ⟨rfl, rfl⟩
  unfold udPayload at h
  unfold roceRecvUd
  cases hdeth : roceGetEth ibDethCodec pkt.iovs with
  | none =>
    rw [hdeth] at h
    cases h
  | some r =>
    obtain ⟨deth, iovs⟩ := r
    rw [hdeth] at h
    simp only at h ⊢
    by_cases himm : ibBthGetOpcode pkt.bth = ibOpcodeSendOnlyWithImmediate
    · rw [if_pos himm] at h ⊢
      cases hget : roceGetEth ibImmdtCodec iovs with
      | none =>
        rw [hget] at h
        cases h
      | some r =>
        rw [hget] at h
        obtain rfl := Option.some.inj h
        exact udFinish_spec (hfinish _)
    · rw [if_neg himm] at h ⊢
      by_cases honly : ibBthGetOpcode pkt.bth = ibOpcodeSendOnly
      · rw [if_pos honly] at h ⊢
        obtain rfl := Option.some.inj h
        exact udFinish_spec (hfinish _)
      · rw [if_neg honly] at h
        cases h

theorem recvBthCheck_neg {qp : RoceQp} {bth : IbBth} (h : recvBthCheck qp bth ≠ 0) :
    recvBthCheck qp bth < 0 := by
  have hneg : ∀ (closed : Bool) (p q : Prop) [Decidable p] [Decidable q],
      (if closed then eACCES else if p then eNOTSUP else if q then ePROTO else 0) ≠ 0 →
        (if closed then eACCES else if p then eNOTSUP else if q then ePROTO else 0) < 0 := by
    intro closed p q _ _ hne
    split_ifs at hne ⊢
    · decide
    · decide
    · decide
    · exact absurd rfl hne
  exact hneg _ _ _ h

theorem roceRecvBth_refused {s : St} (htype : s.qp.qpType = .ud ∨ s.qp.qpType = .gsi) {d : Decap}
    (calloc : Bool)
    (h : bthPayload s.qp d = none) :
    ∃ ret s', roceRecvBth s d calloc = .ok (ret, s') ∧ ret < 0 ∧ Attrs s s' := by
  unfold bthPayload at h
  unfold roceRecvBth
  have hmax : s.qp.qpType ≠ .max := by
    rcases htype with htype | htype <;> rw [htype] <;> decide
  simp only
  by_cases hdest : ibBthGetDestqp d.bth = s.qp.handle
  swap
  · exact ⟨ePROTO, s, by rw [if_pos hdest], by decide, .refl s⟩
  rw [if_neg (not_not.mpr hdest)]
  by_cases hzero : ibBthGetDestqp d.bth = 0
  · exact ⟨eNOTSUP, s, by rw [if_pos hzero], by decide, .refl s⟩
  rw [if_neg hzero, if_neg (fun hgsi => hmax hgsi.2)]
  by_cases hcheck : recvBthCheck s.qp d.bth = 0
  swap
  · exact ⟨_, s, by rw [if_pos hcheck], recvBthCheck_neg hcheck, .refl s⟩
  rw [if_neg (not_not.mpr hcheck)]
  have hopen : ¬ (ibBthGetDestqp d.bth ≠ s.qp.handle ∨ ibBthGetDestqp d.bth = 0 ∨
      recvBthCheck s.qp d.bth ≠ 0) := by
    rintro (hne | hne | hne)
    · exact hne hdest
    · exact hzero hne
    · exact hne hcheck
  rw [if_neg hopen] at h
  cases hpad : dropPad (ibBthGetPadcnt d.bth) d.iovs with
  | none => exact ⟨ePROTO, s, rfl, by decide, .refl s⟩
  | some iovs =>
    rw [hpad] at h
    obtain ⟨s', hud, hattrs⟩ := roceRecvUd_refused s h
    refine ⟨ePROTO, s', ?_, by decide, hattrs⟩
    rcases htype with htype | htype
    · rw [htype]
      exact hud
    · rw [htype]
      exact hud

theorem roceRecvBth_payload {s : St} (htype : s.qp.qpType = .ud ∨ s.qp.qpType = .gsi) {d : Decap}
    (calloc : Bool) {g : Datagram}
    (h : bthPayload s.qp d = some g) :
    (∀ e, roceRecvPayload s g.iovs g.immdt false g.opcode = .error e →
      roceRecvBth s d calloc = .error e) ∧
    ∀ ret t, roceRecvPayload s g.iovs g.immdt false g.opcode = .ok (ret, t) →
      ∃ s', roceRecvBth s d calloc = .ok (ret, s') ∧ Attrs t s' := by
  unfold bthPayload at h
  have hmax : s.qp.qpType ≠ .max := by
    rcases htype with htype | htype <;> rw [htype] <;> decide
  by_cases hopen : ibBthGetDestqp d.bth ≠ s.qp.handle ∨ ibBthGetDestqp d.bth = 0 ∨
      recvBthCheck s.qp d.bth ≠ 0
  · rw [if_pos hopen] at h
    cases h
  rw [if_neg hopen] at h
  rw [not_or, not_or] at hopen
  obtain ⟨hdest, hzero, hcheck⟩ := hopen
  cases hpad : dropPad (ibBthGetPadcnt d.bth) d.iovs with
  | none =>
    rw [hpad] at h
    cases h
  | some iovs =>
    rw [hpad] at h
    have hbth : roceRecvBth s d calloc = roceRecvUd s ⟨d.bth, iovs, calloc⟩ d.ip := by
      unfold roceRecvBth
      simp only
      rw [if_neg hdest, if_neg hzero, if_neg (fun hgsi => hmax hgsi.2), if_neg hcheck, hpad]
      rcases htype with htype | htype
      · rw [htype]
      · rw [htype]
    rw [hbth]
    exact roceRecvUd_payload s h

theorem roceNetRecv_error {s : St} {iovs : List (List UInt8)} {calloc : Bool} {e : Fault}
    (h : netPayload s iovs = .error e) : roceNetRecv s iovs calloc = .error e := by
  unfold netPayload at h
  unfold roceNetRecv
  split at h
  · next e' he =>
    obtain rfl := Except.error.inj h
    rw [he]
    rfl
  · cases h
  · cases h

/-- A datagram that is refused on its way leaves the QP as it was. -/
theorem roceNetRecv_refused {s : St} (hq : UdQp s) {iovs : List (List UInt8)} (calloc : Bool)
    (h : netPayload s iovs = .ok none) :
    ∃ ret s', roceNetRecv s iovs calloc = .ok (ret, s') ∧ ret < 0 ∧ Attrs s s' := by
  unfold netPayload at h
  unfold roceNetRecv
  split at h
  · cases h
  · next hd =>
    rw [hd]
    exact ⟨ePROTO, s, rfl, by decide, .refl s⟩
  · next d hd =>
    obtain ⟨ret, s', hbth, hneg, hattrs⟩ := roceRecvBth_refused hq.type calloc (Except.ok.inj h)
    refine ⟨ret, s', ?_, hneg, hattrs⟩
    rw [hd]
    simp only [bind, Except.bind, hbth, if_pos hneg]
    rfl

/-- The others come as far as `roce_recv_payload`. -/
theorem roceNetRecv_payload {s : St} (hq : UdQp s) {iovs : List (List UInt8)} (calloc : Bool)
    {d : Datagram} (h : netPayload s iovs = .ok (some d)) :
    (∀ e, roceRecvPayload s d.iovs d.immdt false d.opcode = .error e →
      roceNetRecv s iovs calloc = .error e) ∧
    ∀ ret t, roceRecvPayload s d.iovs d.immdt false d.opcode = .ok (ret, t) →
      ∃ ret' s', roceNetRecv s iovs calloc = .ok (ret', s') ∧ (ret' < 0 ↔ ret < 0) ∧ Attrs t s' := by
  unfold netPayload at h
  unfold roceNetRecv
  split at h
  · cases h
  · cases h
  · next dec hd =>
    obtain ⟨herr, hok⟩ := roceRecvBth_payload hq.type calloc (Except.ok.inj h)
    rw [hd]
    refine ⟨?_, ?_⟩
    · intro e he
      simp only [bind, Except.bind, herr e he]
    · intro ret t ht
      obtain ⟨s', hbth, hattrs⟩ := hok ret t ht
      simp only [bind, Except.bind, hbth]
      by_cases hneg : ret < 0
      · rw [if_pos hneg]
        exact ⟨ret, s', rfl, Iff.rfl, hattrs⟩
      · rw [if_neg hneg]
        refine ⟨_, s', rfl, iff_of_false ?_ hneg, hattrs⟩
        exact Int.not_lt.mpr (Int.natCast_nonneg _)

/-! ## One datagram -/

/-- The receive WR takes the payload: there is room for it, and its SGEs are
not refused. -/
def LandsOn (s : St) (d : Datagram) (wr : RecvWr) : Prop :=
  ∀ len, roceSgeLen wr.sge wr.sgeIdx wr.sgeOff = .ok len →
    roceIovLen d.iovs ≤ len ∧
      ∀ sges idx off r,
        roceSgeAdvance wr.sge (roceIovLen d.iovs).toNat wr.sgeIdx wr.sgeOff = .ok (sges, idx, off) →
        roceMrMapSge s.ctx s.qp sges true roceAccessLocalWrite = .ok r →
        r.iovs.length ≤ 2 * roceMaxSge → r.refused = false

theorem LandsOn.congr {s t : St} (h : SameMrs s.ctx s.qp t.ctx t.qp) (d : Datagram) (wr : RecvWr) :
    LandsOn t d wr ↔ LandsOn s d wr := by
  unfold LandsOn
  simp only [h.roceMrMapSge]

/-- Should the datagram take a receive WR, it lands on it. -/
def Lands (s : St) (iovs : List (List UInt8)) : Prop :=
  ∀ d p rest wr, netPayload s iovs = .ok (some d) → s.qp.rq = p :: rest →
    s.ctx.recvWrs p = some wr → LandsOn s d wr

/-- The datagram finds a receive WR at the head of the queue, and lands on it. -/
def Delivers (s : St) (iovs : List (List UInt8)) : Prop :=
  ∃ d p rest wr, netPayload s iovs = .ok (some d) ∧ s.qp.rq = p :: rest ∧
    s.ctx.recvWrs p = some wr ∧ LandsOn s d wr

theorem udPayload_completes {pkt : Inbound} {ip : NetHdr} {d : Datagram} (h : udPayload pkt ip = some d) :
    (roceRecvWrOpcodeToWc d.opcode).2.2 = true := by
  unfold udPayload at h
  split at h
  · cases h
  · split at h
    · next himm =>
      split at h
      · cases h
      · obtain rfl := Option.some.inj h
        show (roceRecvWrOpcodeToWc (ibBthGetOpcode pkt.bth)).2.2 = true
        rw [himm]
        rfl
    · split at h
      · next honly =>
        obtain rfl := Option.some.inj h
        show (roceRecvWrOpcodeToWc (ibBthGetOpcode pkt.bth)).2.2 = true
        rw [honly]
        rfl
      · cases h

theorem netPayload_completes {s : St} {iovs : List (List UInt8)} {d : Datagram}
    (h : netPayload s iovs = .ok (some d)) : (roceRecvWrOpcodeToWc d.opcode).2.2 = true := by
  unfold netPayload at h
  split at h
  · cases h
  · cases h
  · have hbth := Except.ok.inj h
    unfold bthPayload at hbth
    split at hbth
    · cases hbth
    · split at hbth
      · cases hbth
      · exact udPayload_completes hbth

/-- The result says whether the payload landed. -/
theorem recvPayloadWr_lands {s t : St} {d : Datagram} {p : UInt64} {wr : RecvWr} {ret : Int}
    (h : recvPayloadWr s d.iovs d.immdt d.opcode p wr = .ok (ret, t)) :
    LandsOn s d wr ∧ ret = 0 ∨ ¬ LandsOn s d wr ∧ ret < 0 := by
  unfold recvPayloadWr at h
  obtain ⟨len, hlen, h⟩ := bind_eq_ok.mp h
  by_cases hshort : len < roceIovLen d.iovs
  · rw [if_pos hshort] at h
    obtain ⟨rfl, -⟩ := Prod.mk.inj (Except.ok.inj h)
    refine Or.inr ⟨?_, by decide⟩
    intro hland
    exact UInt32.not_lt.mpr (hland len hlen).1 hshort
  rw [if_neg hshort] at h
  obtain ⟨⟨sges, idx, off⟩, hcut, h⟩ := bind_eq_ok.mp h
  obtain ⟨placed, hplaced, h⟩ := bind_eq_ok.mp h
  unfold placePayload at hplaced
  obtain ⟨r, hmap, hplaced⟩ := bind_eq_ok.mp hplaced
  have hsame : SameMrs s.ctx s.qp (s.setRecvWr p { wr with sgeIdx := idx, sgeOff := off }).ctx
    (s.setRecvWr p { wr with sgeIdx := idx, sgeOff := off }).qp := ⟨rfl, rfl, rfl, rfl⟩
  rw [hsame.roceMrMapSge] at hmap
  by_cases hmany : r.iovs.length > 2 * roceMaxSge
  · rw [if_pos hmany] at hplaced
    cases hplaced
  rw [if_neg hmany] at hplaced
  by_cases hret : r.ret < 0
  · rw [if_pos hret] at hplaced
    obtain rfl := Except.ok.inj hplaced
    obtain ⟨rfl, -⟩ := Prod.mk.inj (Except.ok.inj h)
    refine Or.inr ⟨?_, by decide⟩
    intro hland
    have hgrant := (hland len hlen).2 sges idx off r hcut hmap (Nat.not_lt.mp hmany)
    exact absurd ((ret_nonneg r).mpr hgrant) (Int.not_le.mpr hret)
  · rw [if_neg hret] at hplaced
    obtain ⟨pages, -, hplaced⟩ := bind_eq_ok.mp hplaced
    obtain ⟨-, -, hplaced⟩ := bind_eq_ok.mp hplaced
    obtain ⟨s1, -, hplaced⟩ := bind_eq_ok.mp hplaced
    obtain rfl := Except.ok.inj hplaced
    obtain ⟨hzero, -⟩ := recvFinish_ok h
    refine Or.inl ⟨?_, hzero⟩
    intro len' hlen'
    obtain rfl := Except.ok.inj (hlen.symm.trans hlen')
    refine ⟨UInt32.not_lt.mp hshort, ?_⟩
    intro sges' idx' off' r' hcut' hmap' _
    obtain ⟨rfl, -⟩ := Prod.mk.inj (Except.ok.inj (hcut.symm.trans hcut'))
    obtain rfl := Except.ok.inj (hmap.symm.trans hmap')
    exact (ret_nonneg r).mp (Int.not_lt.mp hret)

/-- A payload that does not land is refused, not faulted on. -/
theorem recvPayloadWr_refused {s : St} {d : Datagram} {wr : RecvWr} (p : UInt64)
    (h : ¬ LandsOn s d wr) : ∃ ret t, recvPayloadWr s d.iovs d.immdt d.opcode p wr = .ok (ret, t) := by
  unfold LandsOn at h
  push Not at h
  obtain ⟨len, hlen, h⟩ := h
  unfold recvPayloadWr
  simp only [bind, Except.bind, hlen]
  by_cases hshort : len < roceIovLen d.iovs
  · rw [if_pos hshort]
    exact ⟨_, _, rfl⟩
  obtain ⟨sges, idx, off, r, hcut, hmap, hmany, hno⟩ := h (UInt32.not_lt.mp hshort)
  rw [if_neg hshort, hcut]
  have hsame : SameMrs s.ctx s.qp (s.setRecvWr p { wr with sgeIdx := idx, sgeOff := off }).ctx
    (s.setRecvWr p { wr with sgeIdx := idx, sgeOff := off }).qp := ⟨rfl, rfl, rfl, rfl⟩
  have hneg : r.ret < 0 := by
    apply Int.not_le.mp
    rw [ret_nonneg]
    exact hno
  refine ⟨eACCES, s.setRecvWr p { wr with sgeIdx := idx, sgeOff := off }, ?_⟩
  simp only [placePayload, bind, Except.bind, (hsame.roceMrMapSge sges true _).trans hmap,
    if_neg (Nat.not_lt.mpr hmany), if_pos hneg]
  rfl

theorem recvPayloadWr_queue {s t : St} {iovs : List (List UInt8)} {immdt : Option UInt32}
    {opcode : UInt8} {p : UInt64} {wr : RecvWr} {ret : Int}
    (h : recvPayloadWr s iovs immdt opcode p wr = .ok (ret, t))
    (hcomp : (roceRecvWrOpcodeToWc opcode).2.2 = true) :
    t.qp.rq = s.qp.rq ∧ t.qp.qpType = s.qp.qpType ∧
      (ret = 0 → t.qp.resp.word = .wr 0) ∧ (ret ≠ 0 → t.qp.resp.word = s.qp.resp.word) := by
  cases recvPayloadWr_ok h with
  | short => exact ⟨rfl, rfl, fun hret => absurd hret (by decide), fun _ => rfl⟩
  | refused => exact ⟨rfl, rfl, fun hret => absurd hret (by decide), fun _ => rfl⟩
  | placed _ _ _ _ hfin =>
    cases hfin with
    | goesOn hnone =>
      have hfalse := (congrArg Option.isSome hnone).symm.trans (roceRecvCqComp_isSome _ _ _ _ _)
      rw [hcomp] at hfalse
      cases hfalse
    | done => exact ⟨rfl, rfl, fun _ => rfl, fun hret => absurd rfl hret⟩

/-- The payload path on an idle QP: no receive WR, or one that the payload lands
on, or one that stays in the union. -/
theorem idlePayload {s t : St} (hq : UdQp s) (hidle : s.qp.resp.word.bits = 0) {d : Datagram} {ret : Int}
    (hcomp : (roceRecvWrOpcodeToWc d.opcode).2.2 = true)
    (h : roceRecvPayload s d.iovs d.immdt false d.opcode = .ok (ret, t)) :
    UdQp t ∧
      (s.qp.rq = [] ∧ ret < 0 ∧ t.qp.resp.word.bits = 0 ∨
        ∃ p rest wr, s.qp.rq = p :: rest ∧ s.ctx.recvWrs p = some wr ∧
          (LandsOn s d wr ∧ ret = 0 ∧ t.qp.resp.word.bits = 0 ∨
            ¬ LandsOn s d wr ∧ ret < 0 ∧ t.qp.resp.word.bits = p)) := by
  unfold roceRecvPayload rocePopRecvWr rqPop at h
  rw [hidle] at h
  cases hrq : s.qp.rq with
  | nil =>
    rw [hrq] at h
    obtain ⟨rfl, rfl⟩ := Prod.mk.inj (Except.ok.inj h)
    exact ⟨⟨hq.type, hq.nonnull⟩, Or.inl ⟨rfl, by decide, rfl⟩⟩
  | cons p rest =>
    rw [hrq] at h
    have hwrs : ((({ s with qp.rq := rest } : St).emit [.popRecv p]).setWord (.wr p)).ctx.recvWrs =
      s.ctx.recvWrs := rfl
    simp only [ne_eq, bne_self_eq_false, not_true_eq_false, if_false] at h
    rw [hwrs] at h
    cases hwr : s.ctx.recvWrs p with
    | none =>
      rw [hwr] at h
      cases h
    | some wr =>
      rw [hwr] at h
      simp only at h
      obtain ⟨hrq', htype, hzero, hneg⟩ := recvPayloadWr_queue h hcomp
      have hmrs : SameMrs s.ctx s.qp
          ((({ s with qp.rq := rest } : St).emit [.popRecv p]).setWord (.wr p)).ctx
          ((({ s with qp.rq := rest } : St).emit [.popRecv p]).setWord (.wr p)).qp :=
        ⟨rfl, rfl, rfl, rfl⟩
      have hsame := LandsOn.congr hmrs d wr
      refine ⟨⟨?_, ?_⟩, Or.inr ⟨p, rest, wr, rfl, hwr, ?_⟩⟩
      · rw [htype]
        exact hq.type
      · rw [hrq']
        intro h0
        apply hq.nonnull
        rw [hrq]
        exact List.mem_cons_of_mem _ h0
      · rcases recvPayloadWr_lands h with ⟨hland, hret⟩ | ⟨hno, hret⟩
        · refine Or.inl ⟨hsame.mp hland, hret, ?_⟩
          rw [hzero hret]
          rfl
        · refine Or.inr ⟨fun hland => hno (hsame.mpr hland), hret, ?_⟩
          rw [hneg (by omega)]
          rfl

/-! ## Runs -/

/-- What happens to a QP for datagrams. -/
inductive UdOp where
  | recv (iovs : List (List UInt8)) (calloc : Bool)
  | postRecv (p : UInt64) (hp : p ≠ 0) (wr : RecvWr)

def udStep (s : St) : UdOp → Except Fault St
  | .recv iovs calloc =>
    match roceNetRecv s iovs calloc with
    | .error e => .error e
    | .ok (_, s) => .ok s
  | .postRecv p _ wr =>
    match rocePostRecv s p wr with
    | .error e => .error e
    | .ok (_, s) => .ok s

/-- No datagram is in progress, and what becomes of the next one is decided by
it and by the receive WR at the head of the queue. -/
def Independent (s : St) : Prop :=
  s.qp.resp.word.bits = 0 ∧ ∀ iovs calloc ret s', roceNetRecv s iovs calloc = .ok (ret, s') →
    (0 ≤ ret ↔ Delivers s iovs)

/-- The datagram, should it take a receive WR, lands on it. -/
def UdOp.Lands (s : St) : UdOp → Prop
  | .recv iovs _ => Libroce.Lands s iovs
  | .postRecv _ _ _ => True

theorem Attrs.udQp {s s' : St} (h : Attrs s s') (hq : UdQp s) : UdQp s' := by
  unfold Attrs at h
  rw [h]
  exact ⟨hq.type, hq.nonnull⟩

theorem Attrs.word {s s' : St} (h : Attrs s s') : s'.qp.resp.word = s.qp.resp.word := by
  unfold Attrs at h
  rw [h]

/-- One datagram on an idle QP. -/
theorem roceNetRecv_idle {s s' : St} (hq : UdQp s) (hidle : s.qp.resp.word.bits = 0)
    {iovs : List (List UInt8)} {calloc : Bool} {ret : Int}
    (h : roceNetRecv s iovs calloc = .ok (ret, s')) :
    UdQp s' ∧ (s'.qp.resp.word.bits = 0 ↔ Lands s iovs) ∧ (0 ≤ ret ↔ Delivers s iovs) := by
  cases hnet : netPayload s iovs with
  | error e =>
    rw [roceNetRecv_error hnet] at h
    cases h
  | ok od =>
    cases od with
    | none =>
      obtain ⟨ret1, s1, hrecv, hneg, hattrs⟩ := roceNetRecv_refused hq calloc hnet
      obtain ⟨rfl, rfl⟩ := Prod.mk.inj (Except.ok.inj (hrecv.symm.trans h))
      refine ⟨hattrs.udQp hq, iff_of_true ?_ ?_, iff_of_false (Int.not_le.mpr hneg) ?_⟩
      · rw [hattrs.word, hidle]
      · intro d p rest wr hd
        rw [hnet] at hd
        cases hd
      · rintro ⟨d, p, rest, wr, hd, -⟩
        rw [hnet] at hd
        cases hd
    | some d =>
      obtain ⟨herr, hok⟩ := roceNetRecv_payload hq calloc hnet
      cases hpay : roceRecvPayload s d.iovs d.immdt false d.opcode with
      | error e =>
        rw [herr e hpay] at h
        cases h
      | ok r =>
        obtain ⟨ret0, t⟩ := r
        obtain ⟨ret1, s1, hrecv, hret, hattrs⟩ := hok ret0 t hpay
        obtain ⟨rfl, rfl⟩ := Prod.mk.inj (Except.ok.inj (hrecv.symm.trans h))
        obtain ⟨hqt, hcase⟩ := idlePayload hq hidle (netPayload_completes hnet) hpay
        have hsign : 0 ≤ ret1 ↔ 0 ≤ ret0 := by
          rw [← Int.not_lt, ← Int.not_lt, hret]
        rw [hattrs.word, hsign]
        refine ⟨hattrs.udQp hqt, ?_⟩
        rcases hcase with ⟨hrq, hneg, hbits⟩ | ⟨p, rest, wr, hrq, hwr, hcase⟩
        · refine ⟨iff_of_true hbits ?_, iff_of_false (Int.not_le.mpr hneg) ?_⟩
          · intro d' p rest wr _ hrq'
            rw [hrq] at hrq'
            cases hrq'
          · rintro ⟨d', p, rest, wr, -, hrq', -⟩
            rw [hrq] at hrq'
            cases hrq'
        · have hlands : Lands s iovs ↔ LandsOn s d wr := by
            constructor
            · exact fun hl => hl d p rest wr hnet hrq hwr
            · intro hl d' p' rest' wr' hd' hrq' hwr'
              obtain rfl := Option.some.inj (Except.ok.inj (hnet.symm.trans hd'))
              obtain ⟨rfl, -⟩ := List.cons.inj (hrq.symm.trans hrq')
              obtain rfl := Option.some.inj (hwr.symm.trans hwr')
              exact hl
          have hdelivers : Delivers s iovs ↔ LandsOn s d wr := by
            constructor
            · rintro ⟨d', p', rest', wr', hd', hrq', hwr', hl⟩
              obtain rfl := Option.some.inj (Except.ok.inj (hnet.symm.trans hd'))
              obtain ⟨rfl, -⟩ := List.cons.inj (hrq.symm.trans hrq')
              obtain rfl := Option.some.inj (hwr.symm.trans hwr')
              exact hl
            · exact fun hl => ⟨d, p, rest, wr, hnet, hrq, hwr, hl⟩
          rw [hlands, hdelivers]
          rcases hcase with ⟨hland, hzero, hbits⟩ | ⟨hno, hneg, hbits⟩
          · exact ⟨iff_of_true hbits hland, iff_of_true (by omega) hland⟩
          · refine ⟨iff_of_false ?_ hno, iff_of_false (by omega) hno⟩
            rw [hbits]
            rintro rfl
            apply hq.nonnull
            rw [hrq]
            exact List.mem_cons_self

theorem independent_iff {s : St} (hq : UdQp s) : Independent s ↔ s.qp.resp.word.bits = 0 :=
  ⟨fun h => h.1, fun h => ⟨h, fun _ _ _ _ hrecv => (roceNetRecv_idle hq h hrecv).2.2⟩⟩

theorem rocePostRecv_queue {s s' : St} {p : UInt64} {wr : RecvWr} {ret : Int} (hp : p ≠ 0)
    (hq : UdQp s) (h : rocePostRecv s p wr = .ok (ret, s')) :
    UdQp s' ∧ s'.qp.resp.word = s.qp.resp.word := by
  unfold rocePostRecv at h
  split at h
  · cases h
  · split at h
    · split at h
      · cases h
      · obtain ⟨-, rfl⟩ := Prod.mk.inj (Except.ok.inj h)
        exact ⟨⟨hq.type, hq.nonnull⟩, rfl⟩
    · obtain ⟨-, rfl⟩ := Prod.mk.inj (Except.ok.inj h)
      refine ⟨⟨hq.type, ?_⟩, rfl⟩
      intro h0
      rcases List.mem_append.mp h0 with h0 | h0
      · exact hq.nonnull h0
      · exact hp (List.mem_singleton.mp h0).symm

/-- A datagram that does not land is refused, not faulted on. -/
theorem roceNetRecv_spoiled {s : St} (hq : UdQp s) (hidle : s.qp.resp.word.bits = 0)
    {iovs : List (List UInt8)} (calloc : Bool) (h : ¬ Lands s iovs) :
    ∃ ret s', roceNetRecv s iovs calloc = .ok (ret, s') := by
  unfold Lands at h
  push Not at h
  obtain ⟨d, p, rest, wr, hnet, hrq, hwr, hno⟩ := h
  have hmrs : SameMrs s.ctx s.qp
      ((({ s with qp.rq := rest } : St).emit [.popRecv p]).setWord (.wr p)).ctx
      ((({ s with qp.rq := rest } : St).emit [.popRecv p]).setWord (.wr p)).qp :=
    ⟨rfl, rfl, rfl, rfl⟩
  obtain ⟨ret, t, hpay⟩ := recvPayloadWr_refused p (fun hl => hno ((LandsOn.congr hmrs d wr).mp hl))
  have hwrs : ((({ s with qp.rq := rest } : St).emit [.popRecv p]).setWord (.wr p)).ctx.recvWrs p =
    some wr := hwr
  have hrecv : roceRecvPayload s d.iovs d.immdt false d.opcode = .ok (ret, t) := by
    unfold roceRecvPayload rocePopRecvWr rqPop
    rw [hidle, hrq]
    simp only [ne_eq, bne_self_eq_false, not_true_eq_false, if_false]
    rw [hwrs]
    exact hpay
  obtain ⟨ret', s', hok, -⟩ := (roceNetRecv_payload hq calloc hnet).2 ret t hrecv
  exact ⟨ret', s', hok⟩

/-- **Datagrams.**  In a run on an idle QP no datagram is ever in progress, and
each is judged by itself and the receive WR at the head of the queue, exactly
when each that takes a receive WR lands on it. -/
theorem udRun_independent {s : St} {ops : List UdOp} (hq : UdQp s) (hidle : s.qp.resp.word.bits = 0) :
    Throughout udStep Independent s ops ↔ Along udStep UdOp.Lands s ops := by
  refine Machine.throughout_iff_along ?_ ?_ hq ((independent_iff hq).mpr hidle)
  · intro s op s' hq hind hs
    cases op with
    | recv iovs calloc =>
      simp only [udStep] at hs
      split at hs
      · cases hs
      · next ret s1 hrecv =>
        obtain rfl := Except.ok.inj hs
        obtain ⟨hq', hword, -⟩ := roceNetRecv_idle hq hind.1 hrecv
        exact ⟨hq', (independent_iff hq').trans hword⟩
    | postRecv p hp wr =>
      simp only [udStep] at hs
      split at hs
      · cases hs
      · next ret s1 hpost =>
        obtain rfl := Except.ok.inj hs
        obtain ⟨hq', hword⟩ := rocePostRecv_queue hp hq hpost
        refine ⟨hq', (independent_iff hq').trans (iff_of_true ?_ trivial)⟩
        rw [hword, hind.1]
  · intro s op hq hind hno
    cases op with
    | recv iovs calloc =>
      obtain ⟨ret, s', hrecv⟩ := roceNetRecv_spoiled hq hind.1 calloc hno
      exact ⟨s', by simp only [udStep, hrecv]⟩
    | postRecv p hp wr => exact absurd trivial hno

/-- A UD QP with one receive WR of `len` bytes, and one of 256. -/
def smallUd (len : UInt32) : St :=
  let s := smallRecv len 1
  match rocePostRecv { s with qp.qpType := .ud } 0x2000 (.fresh 1 [⟨0x10000, 256, 0⟩]) with
  | .ok (_, s) => s
  | .error _ => s

/-- The bytes of a SEND ONLY datagram of four bytes to it, over IPv6. -/
def smallDatagram : List (List UInt8) :=
  [[0, 0, 0, 0, 0, 0, 0, 0, 0, 0, 0, 0, 0x86, 0xdd],
    [0x60, 0, 0, 0, 0, 36, 17, 1] ++ List.replicate 32 0,
    [0x12, 0xb7, 0x12, 0xb7, 0, 36, 0, 0],
    [0x64, 0, 0xff, 0xff, 0, 0, 0, 2, 0, 0, 0, 0],
    [0, 0, 0, 0, 0, 0, 0, 2], [1, 2, 3, 4], [46, 64, 39, 239]]

/-- The datagram takes the receive WR of 16 bytes and does not fit; the same
datagram is then refused although 256 bytes wait for it. -/
theorem udRun_independent_short :
    (udStep (smallUd 16) (.recv smallDatagram true)).toOption.map (·.qp.resp.word) =
        some (.wr 0x1000) ∧
      (Machine.run udStep (smallUd 16) [.recv smallDatagram true, .recv smallDatagram true]).toOption.map
        (fun s => (s.qp.resp.word, s.qp.rq)) = some (.wr 0x1000, [0x2000]) ∧
      ¬ Throughout udStep Independent (smallUd 16) [.recv smallDatagram true] := by
  have hstep : (udStep (smallUd 16) (.recv smallDatagram true)).toOption.map (·.qp.resp.word) =
      some (.wr 0x1000) := by decide +kernel
  refine ⟨hstep, by decide +kernel, ?_⟩
  intro h
  cases hs : udStep (smallUd 16) (.recv smallDatagram true) with
  | error e =>
    rw [hs] at hstep
    cases hstep
  | ok s =>
    rw [hs] at hstep
    have hword : s.qp.resp.word = .wr 0x1000 := Option.some.inj hstep
    have hidle := (h.2 s hs).1
    rw [hword] at hidle
    cases hidle

/-- Received into 64 bytes. -/
theorem udRun_independent_fits :
    Throughout udStep Independent (smallUd 64) [.recv smallDatagram true] := by
  refine (udRun_independent ⟨Or.inl rfl, by decide⟩ rfl).mpr ⟨?_, fun _ _ => trivial⟩
  intro d p rest wr hd hrq hwr len hlen
  have hpay : (netPayload (smallUd 64) smallDatagram).toOption.join.map (roceIovLen ·.iovs) = some 44 := by
    decide +kernel
  rw [hd] at hpay
  have hpay : roceIovLen d.iovs = 44 := Option.some.inj hpay
  obtain ⟨rfl, -⟩ := List.cons.inj hrq
  obtain rfl := Option.some.inj hwr
  obtain rfl := Except.ok.inj hlen
  rw [hpay]
  refine ⟨by decide, ?_⟩
  intro sges idx off r hcut hmap _
  obtain ⟨rfl, -⟩ := Prod.mk.inj (Except.ok.inj hcut)
  obtain rfl := Except.ok.inj hmap
  rfl

end Libroce
