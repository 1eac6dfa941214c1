import Libroce.Decap
import Libroce.ResponderDatagram
import Libroce.SendReassembly

/-!
# What a datagram leaves

A datagram that is accepted is copied to the receive WR at the head of the
queue and reported.  The report takes the sender from `attr.dest_qp_num`, which
`roce_recv_ud` sets after the report.

    netOpen s iovs = the packet that reaches roce_recv_ud, and its IP header
    Took           = the receive WR, the copies and the report of an accepted datagram
    netSource      = the sender that a datagram leaves in the QP

Main statement: `udRun_remoteQpn`.
-/

namespace Libroce

open Machine (bind_eq_ok Along)

/-- `ib_deth_get_srcqp` -/
def ibDethGetSrcqp (deth : IbDeth) : UInt32 := deth.u32_1 &&& ibDethSrcqpMask

/-! ## The packet -/

/-- `roce_recv_bth` up to `roce_recv_ud`. -/
def bthOpen (qp : RoceQp) (d : Decap) : Option Inbound :=
  if ibBthGetDestqp d.bth ≠ qp.handle ∨ ibBthGetDestqp d.bth = 0 ∨ recvBthCheck qp d.bth ≠ 0 then none
  else (dropPad (ibBthGetPadcnt d.bth) d.iovs).map fun iovs => ⟨d.bth, iovs, true⟩

/-- `roce_net_recv` up to there. -/
def netOpen (s : St) (iovs : List (List UInt8)) : Option (Inbound × NetHdr) :=
  match roceNetDecap s.ctx iovs with
  | .ok (some d) => (bthOpen s.qp d).map fun pkt => (pkt, d.ip)
  | _ => none

/-- What does not reach `roce_recv_ud` is refused, and leaves all as it was. -/
theorem roceNetRecv_open {s t : St} {iovs : List (List UInt8)} {calloc : Bool} {ret : Int}
    (htype : s.qp.qpType = .ud ∨ s.qp.qpType = .gsi) (h : roceNetRecv s iovs calloc = .ok (ret, t)) :
    netOpen s iovs = none ∧ ret < 0 ∧ t = s ∨
      ∃ pkt ip r, netOpen s iovs = some (pkt, ip) ∧ roceRecvUd s pkt ip = .ok (r, t) ∧
        (ret < 0 ↔ r < 0) := by
  have hmax : s.qp.qpType ≠ .max := by
    rcases htype with htype | htype
    · rw [htype]
      decide
    · rw [htype]
      decide
  unfold roceNetRecv at h
  unfold netOpen
  obtain ⟨o, hd, h⟩ := bind_eq_ok.mp h
  rw [hd]
  cases o with
  | none =>
    obtain ⟨rfl, rfl⟩ := Prod.mk.inj (Except.ok.inj h)
    exact Or.inl ⟨rfl, by decide, rfl⟩
  | some d =>
    obtain ⟨⟨r, t1⟩, hbth, h⟩ := bind_eq_ok.mp h
    have hret : t = t1 ∧ (ret < 0 ↔ r < 0) := by
      by_cases hneg : r < 0
      · simp only [if_pos hneg] at h
        obtain ⟨rfl, rfl⟩ := Prod.mk.inj (Except.ok.inj h)
        exact ⟨rfl, Iff.rfl⟩
      · simp only [if_neg hneg] at h
        obtain ⟨rfl, rfl⟩ := Prod.mk.inj (Except.ok.inj h)
        exact ⟨rfl, iff_of_false (Int.not_lt.mpr (Int.natCast_nonneg _)) hneg⟩
    obtain ⟨rfl, hret⟩ := hret
    show (bthOpen s.qp d).map _ = none ∧ _ ∨ ∃ pkt ip r, (bthOpen s.qp d).map _ = some (pkt, ip) ∧ _
    unfold roceRecvBth at hbth
    unfold bthOpen
    simp only at hbth
    by_cases hdest : ibBthGetDestqp d.bth = s.qp.handle
    swap
    · rw [if_pos hdest] at hbth
      obtain ⟨rfl, rfl⟩ := Prod.mk.inj (Except.ok.inj hbth)
      rw [if_pos (Or.inl hdest)]
      exact Or.inl ⟨rfl, hret.mpr (by decide), rfl⟩
    rw [if_neg (not_not.mpr hdest)] at hbth
    by_cases hzero : ibBthGetDestqp d.bth = 0
    · rw [if_pos hzero] at hbth
      obtain ⟨rfl, rfl⟩ := Prod.mk.inj (Except.ok.inj hbth)
      rw [if_pos (Or.inr (Or.inl hzero))]
      exact Or.inl ⟨rfl, hret.mpr (by decide), rfl⟩
    rw [if_neg hzero, if_neg (fun hgsi => hmax hgsi.2)] at hbth
    by_cases hcheck : recvBthCheck s.qp d.bth = 0
    swap
    · rw [if_pos hcheck] at hbth
      obtain ⟨rfl, rfl⟩ := Prod.mk.inj (Except.ok.inj hbth)
      rw [if_pos (Or.inr (Or.inr hcheck))]
      exact Or.inl ⟨rfl, hret.mpr (recvBthCheck_neg hcheck), rfl⟩
    rw [if_neg (not_not.mpr hcheck)] at hbth
    have hopen : ¬(ibBthGetDestqp d.bth ≠ s.qp.handle ∨ ibBthGetDestqp d.bth = 0 ∨
        recvBthCheck s.qp d.bth ≠ 0) := by
      rintro (hne | hne | hne)
      · exact hne hdest
      · exact hzero hne
      · exact hne hcheck
    rw [if_neg hopen]
    cases hpad : dropPad (ibBthGetPadcnt d.bth) d.iovs with
    | none =>
      rw [hpad] at hbth
      obtain ⟨rfl, rfl⟩ := Prod.mk.inj (Except.ok.inj hbth)
      exact Or.inl ⟨rfl, hret.mpr (by decide), rfl⟩
    | some iovs =>
      rw [hpad] at hbth
      refine Or.inr ⟨⟨d.bth, iovs, true⟩, d.ip, r, rfl, ?_, hret⟩
      rcases htype with htype | htype
      · rw [htype] at hbth
        exact hbth
      · rw [htype] at hbth
        exact hbth

/-! ## The report -/

/-- The completion of a datagram. -/
def Datagram.wc (d : Datagram) (qp : RoceQp) (wr : RecvWr) : RoceWc where
  wrId := wr.wrId
  status := roceWcSuccess
  opcode := .recv
  byteLen := wr.byteLen + roceIovLen d.iovs
  localQpn := qp.handle
  remoteQpn := qp.attr.destQpNum
  immData := d.immdt.getD 0
  wcFlags := (if d.immdt.isSome then roceWcWithImm else 0) ||| roceWcGrh

/-- The opcode of a datagram tells whether it has an immediate. -/
theorem udPayload_opcode {pkt : Inbound} {ip : NetHdr} {d : Datagram} (h : udPayload pkt ip = some d) :
    ibBthGetOpcode pkt.bth = d.opcode ∧
      (d.opcode = ibOpcodeSendOnlyWithImmediate ∧ d.immdt.isSome = true ∨
        d.opcode = ibOpcodeSendOnly ∧ d.immdt = none) := by
  unfold udPayload at h
  cases heth : roceGetEth ibDethCodec pkt.iovs with
  | none =>
    rw [heth] at h
    cases h
  | some r =>
    obtain ⟨deth, iovs⟩ := r
    simp only [heth] at h
    by_cases himm : ibBthGetOpcode pkt.bth = ibOpcodeSendOnlyWithImmediate
    · rw [if_pos himm] at h
      cases hi : roceGetEth ibImmdtCodec iovs with
      | none =>
        rw [hi] at h
        cases h
      | some r =>
        rw [hi] at h
        obtain rfl := Option.some.inj h
        exact ⟨rfl, Or.inl ⟨himm, rfl⟩⟩
    · rw [if_neg himm] at h
      by_cases honly : ibBthGetOpcode pkt.bth = ibOpcodeSendOnly
      · rw [if_pos honly] at h
        obtain rfl := Option.some.inj h
        exact ⟨rfl, Or.inr ⟨honly, rfl⟩⟩
      · rw [if_neg honly] at h
        cases h

theorem Datagram.roceRecvCqComp {pkt : Inbound} {ip : NetHdr} {d : Datagram}
    (h : udPayload pkt ip = some d) {qp : RoceQp} (htype : qp.qpType = .ud ∨ qp.qpType = .gsi)
    (wr : RecvWr) :
    roceRecvCqComp qp d.opcode wr.wrId (wr.byteLen + roceIovLen d.iovs) d.immdt =
      some (.cqComp (d.wc qp wr) qp.rcq) := by
  have hgrh : qp.qpType = .gsi ∨ qp.qpType = .ud := htype.symm
  unfold Libroce.roceRecvCqComp Datagram.wc
  obtain ⟨-, ⟨hop, himm⟩ | ⟨hop, himm⟩⟩ := udPayload_opcode h
  · have hwc : roceRecvWrOpcodeToWc ibOpcodeSendOnlyWithImmediate = (.recv, roceWcWithImm, true) := by decide
    have hnone : d.immdt.isNone = false := by
      cases hd : d.immdt with
      | none =>
        rw [hd] at himm
        cases himm
      | some _ => rfl
    rw [hop, hwc, if_pos hgrh, himm, hnone]
    rfl
  · have hwc : roceRecvWrOpcodeToWc ibOpcodeSendOnly = (.recv, 0, true) := by decide
    rw [hop, hwc, if_pos hgrh, himm]
    rfl

/-- The datagram went to the receive WR at `p`, through the iovecs `dsts`. -/
structure Took (s : St) (d : Datagram) (p : UInt64) (rest : List UInt64) (wr : RecvWr)
    (dsts : List Iovec) (dmamap : Bool) (t : St) : Prop where
  idle : s.qp.resp.word.bits = 0
  queue : s.qp.rq = p :: rest
  live : s.ctx.recvWrs p = some wr
  fits : ∃ len, roceSgeLen wr.sge wr.sgeIdx wr.sgeOff = .ok len ∧ roceIovLen d.iovs ≤ len
  map : ∃ sges idx off,
    roceSgeAdvance wr.sge (roceIovLen d.iovs).toNat wr.sgeIdx wr.sgeOff = .ok (sges, idx, off) ∧
      Places s.ctx s.qp sges true roceAccessLocalWrite dsts dmamap
  trace : t.ctx.trace = s.ctx.trace ++ (.popRecv p ::
    (copyEvents dsts d.iovs.flatten ++ roceMrUnmapSge dmamap dsts ++
      [.cqComp (d.wc s.qp wr) s.qp.rcq, .freeRecv p]))
  mem : t.ctx.mem = placeMem s.ctx.mem dsts d.iovs.flatten

/-- Without a report. -/
def Quiet (s t : St) : Prop := ∃ es, t.ctx.trace = s.ctx.trace ++ es ∧ ∀ wc cq, .cqComp wc cq ∉ es

theorem Quiet.refl (s : St) : Quiet s s := ⟨[], (List.append_nil _).symm, fun _ _ => List.not_mem_nil⟩

theorem roceRecvPayload_took {s t : St} {pkt : Inbound} {ip : NetHdr} {d : Datagram}
    (hud : udPayload pkt ip = some d) (htype : s.qp.qpType = .ud ∨ s.qp.qpType = .gsi) {ret : Int}
    (h : roceRecvPayload s d.iovs d.immdt false d.opcode = .ok (ret, t)) :
    t.qp.attr = s.qp.attr ∧ t.qp.qpType = s.qp.qpType ∧
      (ret < 0 ∧ Quiet s t ∨
        ret = 0 ∧ ∃ p rest wr dsts dmamap, Took s d p rest wr dsts dmamap t) := by
  have hpopped : ∀ p, Quiet s ({ s with ctx.trace := s.ctx.trace ++ [.popRecv p] } : St) := by
    intro p
    refine ⟨[.popRecv p], rfl, fun wc cq hmem => ?_⟩
    cases List.mem_singleton.mp hmem
  cases roceRecvPayload_ok h with
  | outOfOrder _ => exact ⟨rfl, rfl, Or.inl ⟨by decide, .refl s⟩⟩
  | noWr _ _ _ => exact ⟨rfl, rfl, Or.inl ⟨by decide, .refl s⟩⟩
  | next hin _ _ _ => cases hin
  | @first p rest wr _ _ _ hword hrq hwr hstep =>
    cases hstep with
    | short _ _ => exact ⟨rfl, rfl, Or.inl ⟨by decide, hpopped p⟩⟩
    | refused _ _ _ _ _ => exact ⟨rfl, rfl, Or.inl ⟨by decide, hpopped p⟩⟩
    | @placed len sges idx off dsts dmamap _ hlen hle hcut hmap hfin =>
      have hsame : SameMrs s.ctx s.qp
          ((({ s with qp.rq := rest } : St).emit [.popRecv p]).setWord (.wr p)).ctx
          ((({ s with qp.rq := rest } : St).emit [.popRecv p]).setWord (.wr p)).qp := ⟨rfl, rfl, rfl, rfl⟩
      have hcomp := Datagram.roceRecvCqComp hud htype wr
      cases hfin with
      | goesOn hnone => cases hcomp.symm.trans hnone
      | @done e ctx he hfree =>
        obtain rfl := Option.some.inj (hcomp.symm.trans he)
        obtain ⟨htrace, -⟩ := roceFreeRecvWr_ok hfree
        obtain ⟨-, hrefs⟩ := roceFreeRecvWr_refs hfree
        refine ⟨rfl, rfl, Or.inr ⟨rfl, p, rest, wr, dsts, dmamap, hword, hrq, hwr, ⟨len, hlen, hle⟩,
          ⟨sges, idx, off, hcut, hmap.congr hsame rfl⟩, ?_, ?_⟩⟩
        · show ctx.trace = _
          rw [htrace]
          show s.ctx.trace ++ [.popRecv p] ++ copyEvents dsts d.iovs.flatten ++ roceMrUnmapSge dmamap dsts ++
            [.cqComp (d.wc s.qp wr) s.qp.rcq] ++ [.freeRecv p] = _
          simp only [List.append_assoc, List.cons_append, List.nil_append]
        · show ctx.mem = _
          rw [hrefs]
          rfl

/-! ## The sender -/

/-- The number that `roce_recv_ud` stores: it reads the DETH, and the opcode is
one of a datagram. -/
def udSource (pkt : Inbound) : Option UInt32 :=
  match roceGetEth ibDethCodec pkt.iovs with
  | none => none
  | some (deth, _) =>
    if ibBthGetOpcode pkt.bth = ibOpcodeSendOnlyWithImmediate ∨ ibBthGetOpcode pkt.bth = ibOpcodeSendOnly then
      some (ibDethGetSrcqp deth)
    else none

/-- The source QP number in the DETH of an inbound datagram. -/
def netSource (s : St) (iovs : List (List UInt8)) : Option UInt32 :=
  (netOpen s iovs).bind fun r => udSource r.1

/-- What `roce_recv_ud` leaves: the sender, and the report of what was taken. -/
structure UdLeft (s : St) (pkt : Inbound) (ip : NetHdr) (ret : Int) (t : St) : Prop where
  dest : t.qp.attr.destQpNum = (udSource pkt).getD s.qp.attr.destQpNum
  type : t.qp.qpType = s.qp.qpType
  report : ret < 0 ∧ Quiet s t ∨ ret = 0 ∧ ∃ d p rest wr dsts dmamap,
    udPayload pkt ip = some d ∧ Took s d p rest wr dsts dmamap t

/-- The sender is stored behind the call of `roce_recv_payload`. -/
theorem UdLeft.finish {s t u : St} {pkt : Inbound} {ip : NetHdr} {d : Datagram} {source : UInt32} {ret : Int}
    (hud : udPayload pkt ip = some d) (hsource : udSource pkt = some source)
    (htype : s.qp.qpType = .ud ∨ s.qp.qpType = .gsi)
    (h : roceRecvPayload s d.iovs d.immdt false d.opcode = .ok (ret, t))
    (hctx : u.ctx = t.ctx) (hdest : u.qp.attr.destQpNum = source) (hkind : u.qp.qpType = t.qp.qpType) :
    UdLeft s pkt ip ret u := by
  obtain ⟨-, hkeep, hout⟩ := roceRecvPayload_took hud htype h
  refine ⟨?_, hkind.trans hkeep, ?_⟩
  · rw [hdest, hsource]
    rfl
  · rcases hout with ⟨hneg, es, htrace, hnone⟩ | ⟨hzero, p, rest, wr, dsts, dmamap, htook⟩
    · exact Or.inl ⟨hneg, es, by rw [hctx, htrace], hnone⟩
    · refine Or.inr ⟨hzero, d, p, rest, wr, dsts, dmamap, hud, ?_⟩
      exact ⟨htook.idle, htook.queue, htook.live, htook.fits, htook.map, by rw [hctx, htook.trace],
        by rw [hctx, htook.mem]⟩

theorem udLeft_end {s t u : St} {pkt : Inbound} {ip : NetHdr} {d : Datagram} {source : UInt32} {ret r : Int}
    (hud : udPayload pkt ip = some d) (hsource : udSource pkt = some source)
    (htype : s.qp.qpType = .ud ∨ s.qp.qpType = .gsi)
    (hpay : roceRecvPayload s d.iovs d.immdt false d.opcode = .ok (r, u))
    (h : (Except.ok (if r ≠ 0 then (r, ({ u with qp.attr.destQpNum := source } : St))
      else (0, { u with
        qp.attr.destQpNum := source
        qp.attr.rqPsn := roceQpPsnInc u.qp.attr.rqPsn })) : Except Fault (Int × St)) = .ok (ret, t)) :
    UdLeft s pkt ip ret t := by
  by_cases hr : r = 0
  · rw [if_neg (not_not.mpr hr)] at h
    obtain ⟨rfl, rfl⟩ := Prod.mk.inj (Except.ok.inj h)
    rw [hr] at hpay
    exact UdLeft.finish (t := u) hud hsource htype hpay rfl rfl rfl
  · rw [if_pos hr] at h
    obtain ⟨rfl, rfl⟩ := Prod.mk.inj (Except.ok.inj h)
    exact UdLeft.finish (t := u) hud hsource htype hpay rfl rfl rfl

theorem roceRecvUd_left {s t : St} {pkt : Inbound} {ip : NetHdr} {ret : Int}
    (htype : s.qp.qpType = .ud ∨ s.qp.qpType = .gsi) (h : roceRecvUd s pkt ip = .ok (ret, t)) :
    UdLeft s pkt ip ret t := by
  unfold roceRecvUd at h
  cases hdeth : roceGetEth ibDethCodec pkt.iovs with
  | none =>
    simp only [hdeth] at h
    obtain ⟨rfl, rfl⟩ := Prod.mk.inj (Except.ok.inj h)
    have hsource : udSource pkt = none := by
      unfold udSource
      rw [hdeth]
    exact ⟨by rw [hsource]; rfl, rfl, Or.inl ⟨by decide, .refl s⟩⟩
  | some r =>
    obtain ⟨deth, iovs⟩ := r
    simp only [hdeth] at h
    by_cases himm : ibBthGetOpcode pkt.bth = ibOpcodeSendOnlyWithImmediate
    · rw [if_pos himm] at h
      have hsource : udSource pkt = some (ibDethGetSrcqp deth) := by
        unfold udSource
        rw [hdeth]
        exact if_pos (Or.inl himm)
      cases hget : roceGetEth ibImmdtCodec iovs with
      | none =>
        simp only [hget] at h
        obtain ⟨rfl, rfl⟩ := Prod.mk.inj (Except.ok.inj h)
        exact ⟨by rw [hsource]; rfl, rfl, Or.inl ⟨by decide, .refl s⟩⟩
      | some r =>
        obtain ⟨immdt, iovs⟩ := r
        simp only [hget] at h
        obtain ⟨⟨r, u⟩, hpay, h⟩ := bind_eq_ok.mp h
        have hud : udPayload pkt ip = some ⟨roceBuildGrh ip :: iovs, some immdt, ibBthGetOpcode pkt.bth⟩ := by
          unfold udPayload
          rw [hdeth]
          simp only [if_pos himm, hget]
        exact udLeft_end hud hsource htype hpay h
    · rw [if_neg himm] at h
      by_cases honly : ibBthGetOpcode pkt.bth = ibOpcodeSendOnly
      · rw [if_pos honly] at h
        have hsource : udSource pkt = some (ibDethGetSrcqp deth) := by
          unfold udSource
          rw [hdeth]
          exact if_pos (Or.inr honly)
        obtain ⟨⟨r, u⟩, hpay, h⟩ := bind_eq_ok.mp h
        have hud : udPayload pkt ip = some ⟨roceBuildGrh ip :: iovs, none, ibBthGetOpcode pkt.bth⟩ := by
          unfold udPayload
          rw [hdeth]
          simp only [if_neg himm, if_pos honly]
        exact udLeft_end hud hsource htype hpay h
      · rw [if_neg honly] at h
        obtain ⟨rfl, rfl⟩ := Prod.mk.inj (Except.ok.inj h)
        have hsource : udSource pkt = none := by
          unfold udSource
          rw [hdeth]
          exact if_neg (not_or.mpr ⟨himm, honly⟩)
        exact ⟨by rw [hsource]; rfl, rfl, Or.inl ⟨by decide, .refl s⟩⟩

/-- The datagram finds no other in progress, and is delivered. -/
def Taken (s : St) (iovs : List (List UInt8)) : Prop := s.qp.resp.word.bits = 0 ∧ Delivers s iovs

/-- Behind a datagram that is stuck in the union all are refused. -/
theorem roceNetRecv_stuck {s t : St} (hq : UdQp s) (hstuck : s.qp.resp.word.bits ≠ 0)
    {iovs : List (List UInt8)} {calloc : Bool} {ret : Int} (h : roceNetRecv s iovs calloc = .ok (ret, t)) :
    UdQp t ∧ ret < 0 := by
  cases hnet : netPayload s iovs with
  | error e =>
    rw [roceNetRecv_error hnet] at h
    cases h
  | ok od =>
    cases od with
    | none =>
      obtain ⟨ret1, s1, hrecv, hneg, hattrs⟩ := roceNetRecv_refused hq calloc hnet
      obtain ⟨rfl, rfl⟩ := Prod.mk.inj (Except.ok.inj (hrecv.symm.trans h))
      exact ⟨hattrs.udQp hq, hneg⟩
    | some d =>
      have hbusy : false ≠ (s.qp.resp.word.bits != 0) := by
        intro hfalse
        exact hstuck (bne_eq_false_iff_eq.mp hfalse.symm)
      have hpay : roceRecvPayload s d.iovs d.immdt false d.opcode = .ok (eAGAIN, s) := by
        unfold roceRecvPayload rocePopRecvWr
        rw [if_pos hbusy]
      obtain ⟨ret1, s1, hrecv, hret, hattrs⟩ := (roceNetRecv_payload hq calloc hnet).2 _ _ hpay
      obtain ⟨rfl, rfl⟩ := Prod.mk.inj (Except.ok.inj (hrecv.symm.trans h))
      exact ⟨hattrs.udQp hq, hret.mpr (by decide)⟩

theorem roceNetRecv_taken {s t : St} (hq : UdQp s) {iovs : List (List UInt8)} {calloc : Bool} {ret : Int}
    (h : roceNetRecv s iovs calloc = .ok (ret, t)) : UdQp t ∧ (0 ≤ ret ↔ Taken s iovs) := by
  by_cases hidle : s.qp.resp.word.bits = 0
  · obtain ⟨hqt, -, hret⟩ := roceNetRecv_idle hq hidle h
    exact ⟨hqt, hret.trans ⟨fun hd => ⟨hidle, hd⟩, fun hd => hd.2⟩⟩
  · obtain ⟨hqt, hneg⟩ := roceNetRecv_stuck hq hidle h
    exact ⟨hqt, iff_of_false (Int.not_le.mpr hneg) fun hd => hidle hd.1⟩

theorem mem_recvSince {s t : St} {es : List Event} (h : t.ctx.trace = s.ctx.trace ++ es) {e : Event} :
    e ∈ recvSince s t ↔ e ∈ es ∧ e.recv = true := by
  unfold recvSince recvEvents
  rw [h, List.drop_left, List.mem_filter]

/-- The only report is that of the datagram. -/
theorem Took.reports {s t : St} {d : Datagram} {p : UInt64} {rest : List UInt64} {wr : RecvWr}
    {dsts : List Iovec} {dmamap : Bool} (h : Took s d p rest wr dsts dmamap t) :
    recvSince s t = [.popRecv p, .cqComp (d.wc s.qp wr) s.qp.rcq, .freeRecv p] := by
  unfold recvSince
  rw [h.trace, List.drop_left]
  show recvEvents ([.popRecv p] ++ (copyEvents dsts d.iovs.flatten ++ roceMrUnmapSge dmamap dsts ++ _)) = _
  simp only [recvEvents_append, recvEvents_copyEvents, recvEvents_unmap]
  rfl

theorem Took.report_eq {s t : St} {d : Datagram} {p : UInt64} {rest : List UInt64} {wr : RecvWr}
    {dsts : List Iovec} {dmamap : Bool} (h : Took s d p rest wr dsts dmamap t) {wc : RoceWc} {cq : Nat}
    (hmem : .cqComp wc cq ∈ recvSince s t) : wc = d.wc s.qp wr := by
  rw [h.reports] at hmem
  rcases List.mem_cons.mp hmem with hmem | hmem
  · cases hmem
  · rcases List.mem_cons.mp hmem with hmem | hmem
    · exact (Event.cqComp.inj hmem).1
    · cases List.mem_singleton.mp hmem

/-- One datagram: it leaves its sender, and what is reported names the sender
that the one before it left. -/
theorem roceNetRecv_left {s t : St} (htype : s.qp.qpType = .ud ∨ s.qp.qpType = .gsi)
    {iovs : List (List UInt8)} {calloc : Bool} {ret : Int} (h : roceNetRecv s iovs calloc = .ok (ret, t)) :
    t.qp.attr.destQpNum = (netSource s iovs).getD s.qp.attr.destQpNum ∧
      (ret < 0 ∧ Quiet s t ∨ 0 ≤ ret ∧ ∃ pkt ip d p rest wr dsts dmamap, netOpen s iovs = some (pkt, ip) ∧
        udPayload pkt ip = some d ∧ Took s d p rest wr dsts dmamap t) := by
  unfold netSource
  rcases roceNetRecv_open htype h with ⟨hno, hneg, rfl⟩ | ⟨pkt, ip, r, hopen, hud, hret⟩
  · rw [hno]
    exact ⟨rfl, Or.inl ⟨hneg, .refl t⟩⟩
  · have hleft := roceRecvUd_left htype hud
    rw [hopen]
    refine ⟨hleft.dest, ?_⟩
    rcases hleft.report with ⟨hneg, hquiet⟩ | ⟨hzero, d, p, rest, wr, dsts, dmamap, hd, htook⟩
    · exact Or.inl ⟨hret.mpr hneg, hquiet⟩
    · exact Or.inr ⟨by omega, pkt, ip, d, p, rest, wr, dsts, dmamap, rfl, hd, htook⟩

/-! ## Runs -/

/-- What the step reports names the sender of the datagram it received. -/
def ReportsSource (s : St) : UdOp → Prop
  | .recv iovs calloc => ∀ ret t, roceNetRecv s iovs calloc = .ok (ret, t) →
      ∀ wc cq, .cqComp wc cq ∈ recvSince s t → netSource s iovs = some wc.remoteQpn
  | .postRecv _ _ _ => True

/-- A run together with the sender of the last datagram whose DETH was read. -/
def sourceStep (r : UInt32 × St) (op : UdOp) : Except Fault (UInt32 × St) :=
  match udStep r.2 op with
  | .error e => .error e
  | .ok t =>
    match op with
    | .recv iovs _ => .ok ((netSource r.2 iovs).getD r.1, t)
    | .postRecv _ _ _ => .ok (r.1, t)

/-- A datagram that is delivered comes from the same sender as the last one. -/
def FromLast (r : UInt32 × St) : UdOp → Prop
  | .recv iovs calloc => Taken r.2 iovs → (roceNetRecv r.2 iovs calloc).isOk = true →
      netSource r.2 iovs = some r.1
  | .postRecv _ _ _ => True

theorem reportsSource_iff {s : St} (hq : UdQp s) (op : UdOp) :
    ReportsSource s op ↔ FromLast (s.qp.attr.destQpNum, s) op := by
  cases op with
  | postRecv p hp wr => exact Iff.rfl
  | recv iovs calloc =>
    show (∀ ret t, roceNetRecv s iovs calloc = .ok (ret, t) → _) ↔
      (Taken s iovs → (roceNetRecv s iovs calloc).isOk = true → netSource s iovs = some s.qp.attr.destQpNum)
    cases hrun : roceNetRecv s iovs calloc with
    | error e => exact iff_of_true (fun ret t h => nomatch h) fun _ hok => nomatch hok
    | ok r =>
      obtain ⟨ret, t⟩ := r
      obtain ⟨-, htaken⟩ := roceNetRecv_taken hq hrun
      obtain ⟨-, hquiet | htook⟩ := roceNetRecv_left hq.type hrun
      · obtain ⟨hneg, es, htrace, hnone⟩ := hquiet
        refine iff_of_true ?_ fun htak => ?_
        · intro ret' t' h wc cq hmem
          obtain ⟨-, rfl⟩ := Prod.mk.inj (Except.ok.inj h)
          exact absurd ((mem_recvSince htrace).mp hmem).1 (hnone wc cq)
        · exact absurd (htaken.mpr htak) (Int.not_le.mpr hneg)
      · obtain ⟨hret, pkt, ip, d, p, rest, wr, dsts, dmamap, hopen, hud, htook⟩ := htook
        constructor
        · intro h _ _
          refine h ret t rfl (d.wc s.qp wr) s.qp.rcq ?_
          rw [htook.reports]
          exact List.mem_cons_of_mem _ (List.mem_cons_self ..)
        · intro h ret' t' ht wc cq hmem
          obtain ⟨-, rfl⟩ := Prod.mk.inj (Except.ok.inj ht)
          rw [htook.report_eq hmem]
          exact h (htaken.mp hret) rfl

theorem rocePostRecv_attr {s t : St} {p : UInt64} {wr : RecvWr} {ret : Int}
    (h : rocePostRecv s p wr = .ok (ret, t)) : t.qp.attr = s.qp.attr := by
  unfold rocePostRecv at h
  split at h
  · cases h
  · split at h
    · split at h
      · cases h
      · obtain ⟨-, rfl⟩ := Prod.mk.inj (Except.ok.inj h)
        rfl
    · obtain ⟨-, rfl⟩ := Prod.mk.inj (Except.ok.inj h)
      rfl

/-- The QP holds the sender that the run remembers. -/
theorem sourceStep_of_udStep {s t : St} (hq : UdQp s) {op : UdOp} (h : udStep s op = .ok t) :
    UdQp t ∧ sourceStep (s.qp.attr.destQpNum, s) op = .ok (t.qp.attr.destQpNum, t) := by
  unfold sourceStep
  simp only [h]
  cases op with
  | recv iovs calloc =>
    unfold udStep at h
    cases hrun : roceNetRecv s iovs calloc with
    | error e =>
      simp only [hrun] at h
      cases h
    | ok r =>
      obtain ⟨ret, u⟩ := r
      simp only [hrun] at h
      obtain rfl := Except.ok.inj h
      obtain ⟨hqt, -⟩ := roceNetRecv_taken hq hrun
      obtain ⟨hdest, -⟩ := roceNetRecv_left hq.type hrun
      rw [hdest]
      exact ⟨hqt, rfl⟩
  | postRecv p hp wr =>
    unfold udStep at h
    cases hrun : rocePostRecv s p wr with
    | error e =>
      simp only [hrun] at h
      cases h
    | ok r =>
      obtain ⟨ret, u⟩ := r
      simp only [hrun] at h
      obtain rfl := Except.ok.inj h
      obtain ⟨hqt, -⟩ := rocePostRecv_queue hp hq hrun
      refine ⟨hqt, ?_⟩
      have hattr : u.qp.attr = s.qp.attr := rocePostRecv_attr hrun
      rw [hattr]

/-- **Senders.**  In a run each completion names the sender of its datagram
exactly when each datagram that is delivered comes from the sender of the last
datagram whose DETH was read, and the first from the QP that was connected. -/
theorem udRun_remoteQpn {s : St} {ops : List UdOp} (hq : UdQp s) :
    Along udStep ReportsSource s ops ↔ Along sourceStep FromLast (s.qp.attr.destQpNum, s) ops := by
  induction ops generalizing s with
  | nil => exact Iff.rfl
  | cons op ops ih =>
    constructor
    · rintro ⟨hhead, hrest⟩
      refine ⟨(reportsSource_iff hq op).mp hhead, fun r hr => ?_⟩
      cases h : udStep s op with
      | error e =>
        unfold sourceStep at hr
        simp only [h] at hr
        cases hr
      | ok t =>
        obtain ⟨hqt, hsource⟩ := sourceStep_of_udStep hq h
        obtain rfl := Except.ok.inj (hsource.symm.trans hr)
        exact (ih hqt).mp (hrest t h)
    · rintro ⟨hhead, hrest⟩
      refine ⟨(reportsSource_iff hq op).mpr hhead, fun t h => ?_⟩
      obtain ⟨hqt, hsource⟩ := sourceStep_of_udStep hq h
      exact (ih hqt).mpr (hrest _ hsource)

/-- A datagram from the QP that is connected, which is number 2. -/
theorem udRun_remoteQpn_same :
    Along udStep ReportsSource { smallUd 64 with qp.attr.destQpNum := 2 } [.recv smallDatagram true] := by
  have hsource : netSource { smallUd 64 with qp.attr.destQpNum := 2 } smallDatagram = some 2 := by
    decide +kernel
  exact (udRun_remoteQpn ⟨Or.inl rfl, by decide⟩).mpr ⟨fun _ _ => hsource, fun _ _ => trivial⟩

/-- The same datagram to a new QP: its completion names QP 0. -/
theorem udRun_remoteQpn_first :
    netSource (smallUd 64) smallDatagram = some 2 ∧
      (∃ t wc cq, udStep (smallUd 64) (.recv smallDatagram true) = .ok t ∧
        .cqComp wc cq ∈ recvSince (smallUd 64) t ∧ wc.remoteQpn = 0) ∧
      ¬Along udStep ReportsSource (smallUd 64) [.recv smallDatagram true] := by
  have hsource : netSource (smallUd 64) smallDatagram = some 2 := by decide +kernel
  have hrun : (roceNetRecv (smallUd 64) smallDatagram true).toOption.map (fun r => decide (0 ≤ r.1)) =
      some true := by decide +kernel
  cases h : roceNetRecv (smallUd 64) smallDatagram true with
  | error e =>
    rw [h] at hrun
    cases hrun
  | ok r =>
    obtain ⟨ret, t⟩ := r
    rw [h] at hrun
    have hret : 0 ≤ ret := of_decide_eq_true (Option.some.inj hrun)
    obtain ⟨-, ⟨hneg, -⟩ | ⟨-, pkt, ip, d, p, rest, wr, dsts, dmamap, -, -, htook⟩⟩ :=
      roceNetRecv_left (Or.inl rfl) h
    · exact absurd hret (Int.not_le.mpr hneg)
    · have hmem : .cqComp (d.wc (smallUd 64).qp wr) (smallUd 64).qp.rcq ∈ recvSince (smallUd 64) t := by
        rw [htook.reports]
        exact List.mem_cons_of_mem _ (List.mem_cons_self ..)
      have hzero : (d.wc (smallUd 64).qp wr).remoteQpn = 0 := rfl
      refine ⟨hsource, ⟨t, _, _, ?_, hmem, hzero⟩, fun halong => ?_⟩
      · unfold udStep
        simp only [h]
      · have hnamed := halong.1 ret t h _ _ hmem
        rw [hsource, hzero] at hnamed
        exact absurd hnamed (by decide)

end Libroce
