import Libroce.Transmit

/-!
# A mapping that is refused while a request is built

Every builder maps the SGEs of a packet after it allocated the packet.  The
result goes to an unsigned variable, so the branch that would give the WR
`ROCE_WC_LOC_QP_OP_ERR` is dead, and what follows it is an assertion.  The error
code is left to the packet that is alone and is not allocated, for which the
SGEs are not mapped at all.

    PacketSges     the SGEs of one packet of a WR
    Refusal        a WR with a packet whose SGEs `roce_mr_map_sge` refuses
    FailsCleanly   the WR has the error and nothing else happened
    AllocFails     its only packet is not allocated

Main statement:
* `rocePostSend_refusal` — a post fails cleanly exactly when `AllocFails`.
-/

namespace Libroce

open Machine (bind_eq_ok)

/-! ## The statement -/

/-- The cursor after `k` packets of `mtu` bytes. -/
def packetCursor (sges : List RoceSge) (mtu : UInt16) : Nat → Except Fault (Nat × Nat)
  | 0 => .ok (0, 0)
  | k + 1 => do
    let (idx, off) ← packetCursor sges mtu k
    let (_, idx, off) ← roceSgeAdvance sges mtu.toNat idx off
    return (idx, off)

/-- The SGEs of one packet of a WR that is not inline. -/
inductive PacketSges (ctx : RoceCtx) (qp : RoceQp) (wr : SendWr) : List RoceSge → Prop where
  | only {mtu : UInt16} {payload : UInt32} (hmtu : roceGetMtu ctx qp = .ok mtu)
      (hlen : roceSgeLen wr.sge 0 0 = .ok payload) (hle : payload ≤ mtu.toUInt32) :
      PacketSges ctx qp wr wr.sge
  | several {mtu : UInt16} {payload : UInt32} {k idx off idx' off' : Nat} {dst : List RoceSge}
      (hrc : qp.qpType = .rc) (hmtu : roceGetMtu ctx qp = .ok mtu)
      (hlen : roceSgeLen wr.sge 0 0 = .ok payload) (hgt : ¬payload ≤ mtu.toUInt32)
      (hk : k * mtu.toNat < payload.toNat) (hcursor : packetCursor wr.sge mtu k = .ok (idx, off))
      (hcut : roceSgeAdvance wr.sge (min mtu.toNat (payload.toNat - k * mtu.toNat)) idx off =
        .ok (dst, idx', off')) : PacketSges ctx qp wr dst

/-- The requests that have packets, by the type of the QP. -/
def HasPackets (qp : RoceQp) (wr : SendWr) : Prop :=
  qp.qpType = .rc ∧ roceSendWrIsLocal wr = false ∧ ¬Unimplemented wr.opcode ∨
    (qp.qpType = .ud ∨ qp.qpType = .gsi) ∧ (wr.opcode = .send ∨ wr.opcode = .sendWithImm)

/-- The keys of a WR resolve, and `roce_mr_map_sge` refuses the SGEs of one of
its packets. -/
structure Refusal (s : St) (wr : SendWr) : Prop where
  inline : roceSendWrIsInline wr = false
  packets : HasPackets s.qp wr
  live : PdsLive s.ctx
  refused : ∃ ctx sges r, roceGetMrs s.ctx wr.sge = .ok (0, ctx) ∧ PacketSges ctx s.qp wr sges ∧
    roceMrMapSge ctx s.qp sges true 0 = .ok r ∧ r.refused = true

/-- A WR that holds its MRs and has no error. -/
def SendWr.held (wr : SendWr) : SendWr := { wr with error := 0, mapped := true }

/-- ... and with the error of a failed mapping. -/
def SendWr.marked (wr : SendWr) : SendWr := { wr with error := roceWcLocQpOpErr, mapped := true }

/-- The error of the WR, where it can be seen: in the send queue of an RC QP
until it is taken off the head, in the completion of the other types. -/
def Marked (s : St) (wr : SendWr) (t : St) : Prop :=
  if s.qp.qpType = .rc then t.qp.sq = (s.qp.sq ++ [wr.marked]).dropWhile completesAtHead
  else ∃ byteLen, .cqComp (sendWc s.qp wr roceWcLocQpOpErr byteLen) s.qp.scq ∈
    t.ctx.trace.drop s.ctx.trace.length

/-- The post returns, the WR has the error, no packet was queued and none was
sent that was not waiting before, and the PSN stayed. -/
def FailsCleanly (s : St) (wr : SendWr) (calloc : Nat → Bool) : Prop :=
  ∃ t, rocePostSend s wr.fresh calloc = .ok t ∧ Marked s wr t ∧ t.qp.req.psn = s.qp.req.psn ∧
    t.qp.req.queued = s.qp.req.queued ∧ ∀ pkt ∈ sentSince s t, pkt ∈ s.qp.req.pendingPkts

/-- The assertions at the head of `roce_xmit_pkts`. -/
def XmitFits (qp : RoceQp) : Prop :=
  ∀ pkt, qp.req.outgoingPkts.getLast? = some pkt →
    (roceNetpktPsn pkt ≥ qp.attr.sqPsn ∧ roceNetpktPsn pkt ≤ qp.req.psn) ∧
      roceComparePsn (qp.attr.sqPsn + roceMaxOutgoingPackets) (roceNetpktPsn pkt) ≥ 0

/-- The request is one packet, which is not allocated, and no other assertion is
in its way. -/
structure AllocFails (ctx : RoceCtx) (qp : RoceQp) (wr : SendWr) (calloc : Nat → Bool) : Prop where
  single : ∃ mtu payload, roceGetMtu ctx qp = .ok mtu ∧ roceSgeLen wr.sge 0 0 = .ok payload ∧
    payload ≤ mtu.toUInt32
  calloc : calloc 0 = false
  pages : rocePowerOf2 ctx.pageSize.toUInt64 = true
  vnet : ∃ vnetHdr, roceQpVnetHdr ctx qp = .ok vnetHdr
  xmit : qp.qpType = .rc → XmitFits qp
  ah : qp.qpType ≠ .rc → roceGetAh ctx wr.ud.ah ≠ none

/-- References do not matter to it. -/
theorem RefsOnly.allocFails {ctx ctx' : RoceCtx} {qp : RoceQp} {wr : SendWr} {calloc : Nat → Bool}
    (h : RefsOnly ctx ctx') : AllocFails ctx' qp wr calloc ↔ AllocFails ctx qp wr calloc := by
  have hmtu := h.roceGetMtu qp
  unfold RefsOnly at h
  have hvnet : roceQpVnetHdr ctx' qp = roceQpVnetHdr ctx qp := by
    rw [h]
    rfl
  have hpages : ctx'.pageSize = ctx.pageSize := by rw [h]
  have hah : roceGetAh ctx' wr.ud.ah ≠ none ↔ roceGetAh ctx wr.ud.ah ≠ none := by
    rw [ne_eq, ne_eq, roceGetAh_eq_none, roceGetAh_eq_none, h]
  constructor
  · rintro ⟨h1, h2, h3, h4, h5, h6⟩
    rw [hmtu] at h1
    rw [hpages] at h3
    rw [hvnet] at h4
    exact ⟨h1, h2, h3, h4, h5, fun hne => hah.mp (h6 hne)⟩
  · rintro ⟨h1, h2, h3, h4, h5, h6⟩
    rw [← hmtu] at h1
    rw [← hpages] at h3
    rw [← hvnet] at h4
    exact ⟨h1, h2, h3, h4, h5, fun hne => hah.mpr (h6 hne)⟩

/-! ## The assertions on the way -/

theorem roceXmitPkts_returns (s : St) : (∃ t, roceXmitPkts s = .ok t) ↔ XmitFits s.qp := by
  rw [roceXmitPkts_ok_iff]
  constructor
  · intro h pkt hlast
    exact ⟨h.psn pkt hlast, h.window pkt hlast⟩
  · intro h
    exact ⟨fun pkt hlast => (h pkt hlast).1, fun pkt hlast => (h pkt hlast).2⟩

/-- What a packet that is alone goes through before its allocation. -/
structure Allocable (ctx : RoceCtx) (qp : RoceQp) : Prop where
  pages : rocePowerOf2 ctx.pageSize.toUInt64 = true
  vnet : ∃ vnetHdr, roceQpVnetHdr ctx qp = .ok vnetHdr

section single

variable {ctx : RoceCtx} {qp qp' : RoceQp} {wr wr' : SendWr} {calloc : Nat → Bool}

theorem onlyPages_returns (hin : roceSendWrIsInline wr = false) :
    (∃ pages, onlyPages ctx wr = .ok pages) ↔ rocePowerOf2 ctx.pageSize.toUInt64 = true := by
  unfold onlyPages roceSgePages
  rw [if_neg (by rw [hin]; exact Bool.false_ne_true)]
  by_cases hp : rocePowerOf2 ctx.pageSize.toUInt64 = true
  · rw [if_pos hp]
    exact ⟨fun _ => hp, fun _ => ⟨_, rfl⟩⟩
  · rw [if_neg hp]
    constructor
    · rintro ⟨pages, h⟩
      cases h
    · intro h
      exact absurd h hp

theorem roceNetpktAlloc_returns {o : Option Nat} {padcnt : UInt8} {c : Bool} {alloc : Option RoceNetpkt}
    (h : roceNetpktAlloc ctx qp o padcnt c = .ok alloc) : ∃ vnetHdr, roceQpVnetHdr ctx qp = .ok vnetHdr := by
  unfold roceNetpktAlloc at h
  split at h
  · cases h
  · next vnetHdr hv => exact ⟨vnetHdr, hv⟩

theorem roceNetpktAlloc_none {o : Option Nat} {padcnt : UInt8}
    (h : ∃ vnetHdr, roceQpVnetHdr ctx qp = .ok vnetHdr) :
    roceNetpktAlloc ctx qp o padcnt false = .ok none := by
  obtain ⟨vnetHdr, hv⟩ := h
  unfold roceNetpktAlloc
  rw [hv]
  rfl

theorem Allocable.rcOnly {opcode : UInt8} {ext : List UInt8} {payload : UInt32} (h : Allocable ctx qp)
    (hin : roceSendWrIsInline wr = false) (hcalloc : calloc 0 = false) :
    rcOnly ctx qp wr calloc opcode ext payload = .ok (qp, { wr with error := roceWcLocQpOpErr }) := by
  obtain ⟨pages, hpages⟩ := (onlyPages_returns hin).mpr h.pages
  have halloc : roceNetpktAlloc ctx qp (some wr.addr) (padCount payload) false = .ok none :=
    roceNetpktAlloc_none h.vnet
  unfold Libroce.rcOnly
  rw [hpages, hcalloc]
  simp only [bind, Except.bind, halloc, pure, Except.pure]

theorem allocable_of_rcOnly {opcode : UInt8} {ext : List UInt8} {payload : UInt32}
    (hin : roceSendWrIsInline wr = false)
    (h : rcOnly ctx qp wr calloc opcode ext payload = .ok (qp', wr')) : Allocable ctx qp := by
  unfold rcOnly at h
  obtain ⟨pages, hpages, h⟩ := bind_eq_ok.mp h
  obtain ⟨alloc, halloc, h⟩ := bind_eq_ok.mp h
  exact ⟨(onlyPages_returns hin).mp ⟨pages, hpages⟩, roceNetpktAlloc_returns halloc⟩

end single

/-! ## The builders -/

section builders

variable {ctx : RoceCtx} {qp qp' : RoceQp} {wr wr' : SendWr} {calloc : Nat → Bool}

/-- A request that fits a packet is built as one. -/
theorem roceRcBuildPkts_single {mtu : UInt16} {payload : UInt32}
    (hop : roceSendWrIsLocal wr = false ∧ ¬Unimplemented wr.opcode)
    (hfit : roceSendWrIsInline wr = true → inlineLen wr ≤ qp.attr.cap.maxInlineData)
    (hmtu : roceGetMtu ctx qp = .ok mtu) (hreq : requestLen wr = .ok payload) (hle : payload ≤ mtu.toUInt32) :
    ∃ opcode ext, roceRcBuildPkts ctx qp wr calloc = rcOnly ctx qp wr calloc opcode ext payload := by
  have hsend : ∀ inv imm, (inv && imm) = false →
      roceRcSendPkts ctx qp wr calloc inv imm = roceRcSendOnly ctx qp wr calloc inv imm payload := by
    intro inv imm hnot
    unfold roceRcSendPkts
    rw [hmtu, hreq, hnot]
    simp only [bind, Except.bind, roceAssert, Bool.not_false, if_true, if_pos hle]
  have hwrite : ∀ imm, roceRcWritePkts ctx qp wr calloc imm =
      roceRcWriteOnly ctx qp wr calloc imm payload := by
    intro imm
    unfold roceRcWritePkts
    rw [hmtu, hreq]
    simp only [bind, Except.bind, if_pos hle]
  unfold roceRcBuildPkts
  rw [if_neg fun hlong => UInt32.not_lt.mpr (hfit hlong.1) hlong.2]
  unfold roceSendWrIsLocal Unimplemented at hop
  cases h : wr.opcode <;> simp [h] at hop
  case send => exact ⟨_, _, hsend false false rfl⟩
  case sendWithImm => exact ⟨_, _, hsend false true rfl⟩
  case sendWithInv => exact ⟨_, _, hsend true false rfl⟩
  case rdmaWrite => exact ⟨_, _, hwrite false⟩
  case rdmaWriteWithImm => exact ⟨_, _, hwrite true⟩

theorem requestLen_sges (hin : roceSendWrIsInline wr = false) : requestLen wr = roceSgeLen wr.sge 0 0 := by
  unfold requestLen
  rw [hin]
  rfl

theorem fits_of_not_inline (hin : roceSendWrIsInline wr = false) (hyes : roceSendWrIsInline wr = true) :
    inlineLen wr ≤ qp.attr.cap.maxInlineData := by
  rw [hin] at hyes
  cases hyes

/-- **A build that gives a WR an error.**  Its only packet is not allocated. -/
theorem roceRcBuildPkts_fails (hop : roceSendWrIsLocal wr = false ∧ ¬Unimplemented wr.opcode)
    (hin : roceSendWrIsInline wr = false) (hne : wr'.error ≠ wr.error)
    (h : roceRcBuildPkts ctx qp wr calloc = .ok (qp', wr')) :
    (∃ mtu payload, roceGetMtu ctx qp = .ok mtu ∧ roceSgeLen wr.sge 0 0 = .ok payload ∧
      payload ≤ mtu.toUInt32) ∧ calloc 0 = false ∧ Allocable ctx qp := by
  have hcause : ¬(calloc 0 = true ∨ ∀ mtu len, roceGetMtu ctx qp = .ok mtu →
      roceSgeLen wr.sge 0 0 = .ok len → mtu.toUInt32 < len) := by
    intro hc
    exact hne (by rw [roceRcBuildPkts_error h hin hc])
  have hcalloc : calloc 0 = false := by
    cases hc : calloc 0 with
    | false => rfl
    | true => exact absurd (Or.inl hc) hcause
  have hsingle : ∃ mtu payload, roceGetMtu ctx qp = .ok mtu ∧ roceSgeLen wr.sge 0 0 = .ok payload ∧
      payload ≤ mtu.toUInt32 := by
    by_contra hno
    apply hcause
    right
    intro mtu len hmtu hlen
    apply UInt32.not_le.mp
    intro hle
    exact hno ⟨mtu, len, hmtu, hlen, hle⟩
  obtain ⟨mtu, payload, hmtu, hlen, hle⟩ := id hsingle
  obtain ⟨opcode, ext, hbuild⟩ : ∃ opcode ext,
      roceRcBuildPkts ctx qp wr calloc = rcOnly ctx qp wr calloc opcode ext payload :=
    roceRcBuildPkts_single hop (fits_of_not_inline hin) hmtu ((requestLen_sges hin).trans hlen) hle
  rw [hbuild] at h
  exact ⟨hsingle, hcalloc, allocable_of_rcOnly hin h⟩

/-- A build either fails, and leaves the QP alone, or leaves the WR alone. -/
theorem Built.outcome (h : Built ctx qp wr qp' wr') (herr : wr.error = 0) :
    qp' = qp ∧ wr'.error ≠ wr.error ∨ wr' = wr := by
  cases h with
  | failed e he =>
    left
    rw [herr]
    exact ⟨rfl, he⟩
  | skipped _ => exact Or.inr rfl
  | queued _ _ _ _ => exact Or.inr rfl

/-- The packet of a datagram is missing when it is not allocated. -/
theorem udPkt_none {imm : Bool} {payload : UInt32} {ahAttr : RoceAhAttr} {c : Bool}
    (hin : roceSendWrIsInline wr = false) :
    udPkt ctx qp wr c imm payload ahAttr = .ok none ↔ c = false ∧ Allocable ctx qp := by
  constructor
  · intro h
    unfold udPkt at h
    obtain ⟨pages, hpages, h⟩ := bind_eq_ok.mp h
    obtain ⟨alloc, halloc, h⟩ := bind_eq_ok.mp h
    have hable : Allocable ctx qp :=
      ⟨(onlyPages_returns hin).mp ⟨pages, hpages⟩, roceNetpktAlloc_returns halloc⟩
    have hsome := roceNetpktAlloc_isSome halloc
    cases alloc with
    | none => exact ⟨hsome.symm, hable⟩
    | some pkt =>
      obtain ⟨bytes, hbytes, h⟩ := bind_eq_ok.mp h
      cases bytes with
      | none =>
        unfold onlyPayload at hbytes
        rw [if_neg (by rw [hin]; exact Bool.false_ne_true)] at hbytes
        exact absurd hbytes pktMapSge_ne_none
      | some bytes =>
        obtain ⟨unmaps, -, h⟩ := bind_eq_ok.mp h
        obtain ⟨pkt', -, h⟩ := bind_eq_ok.mp h
        cases h
  · rintro ⟨rfl, hable⟩
    obtain ⟨pages, hpages⟩ := (onlyPages_returns hin).mpr hable.pages
    have halloc : roceNetpktAlloc ctx qp (some wr.addr) (padCount payload) false = .ok none :=
      roceNetpktAlloc_none hable.vnet
    unfold udPkt
    rw [hpages]
    simp only [bind, Except.bind, halloc, pure, Except.pure]

end builders

/-! ## Posts -/

/-- The references are taken, and the WR has no error so far. -/
theorem postGetMrs_held {s : St} {wr : SendWr} {ctx : RoceCtx} (hin : roceSendWrIsInline wr = false)
    (hget : roceGetMrs s.ctx wr.sge = .ok (0, ctx)) :
    postGetMrs s wr.fresh = .ok ({ s with ctx := ctx }, wr.held) := by
  have hfresh : ¬roceSendWrIsInline wr.fresh = true := by
    show ¬roceSendWrIsInline wr = true
    rw [hin]
    exact Bool.false_ne_true
  have hget' : roceGetMrs s.ctx wr.fresh.sge = .ok (0, ctx) := hget
  unfold postGetMrs
  rw [if_neg hfresh, hget']
  rfl

/-- A post on an RC QP. -/
theorem rocePostSend_rc {s : St} {wr : SendWr} {ctx : RoceCtx} {calloc : Nat → Bool}
    (hrc : s.qp.qpType = .rc) (hin : roceSendWrIsInline wr = false)
    (hget : roceGetMrs s.ctx wr.sge = .ok (0, ctx)) :
    rocePostSend s wr.fresh calloc = (do
      let (qp, wr2) ← roceRcBuildPkts ctx s.qp wr.held calloc
      let u ← roceXmitPkts ⟨ctx, { qp with sq := s.qp.sq ++ [wr2] }⟩
      return roceCompleteHead u) := by
  unfold rocePostSend
  rw [postGetMrs_held hin hget]
  simp only [bind, Except.bind, hrc, roceRequestRc, requestQueue, requestBuild]
  rw [if_pos (show wr.held.error = 0 from rfl)]
  cases roceRcBuildPkts ctx s.qp wr.held calloc with
  | error e => rfl
  | ok r => rfl

/-- A datagram. -/
theorem rocePostSend_ud {s : St} {wr : SendWr} {ctx : RoceCtx} {calloc : Nat → Bool}
    (hud : s.qp.qpType = .ud ∨ s.qp.qpType = .gsi) (hin : roceSendWrIsInline wr = false)
    (hget : roceGetMrs s.ctx wr.sge = .ok (0, ctx)) :
    rocePostSend s wr.fresh calloc = roceRequestUd ⟨ctx, s.qp⟩ wr.held (calloc 0) := by
  unfold rocePostSend
  rw [postGetMrs_held hin hget]
  rcases hud with hud | hud
  · simp only [bind, Except.bind, hud]
  · simp only [bind, Except.bind, hud]

/-- A queue that takes a WR without an error shows it; one with the error never
ends in it. -/
theorem dropWhile_marked {sq : List SendWr} {wr wr2 : SendWr} (herr : wr2.error = 0)
    (hlocal : roceSendWrIsLocal wr2 = false) :
    (sq ++ [wr2]).dropWhile completesAtHead ≠ (sq ++ [wr.marked]).dropWhile completesAtHead := by
  have hstays : completesAtHead wr2 = false := by
    unfold completesAtHead
    rw [herr, hlocal]
    rfl
  have hgoes : completesAtHead wr.marked = true := by
    unfold completesAtHead
    exact Bool.or_eq_true_iff.mpr (Or.inr rfl)
  intro heq
  induction sq with
  | nil =>
    rw [List.nil_append, List.nil_append, List.dropWhile_cons_of_neg (by simp [hstays]),
      List.dropWhile_cons_of_pos hgoes] at heq
    cases heq
  | cons a sq ih =>
    by_cases ha : completesAtHead a = true
    · rw [List.cons_append, List.cons_append, List.dropWhile_cons_of_pos ha,
        List.dropWhile_cons_of_pos ha] at heq
      exact ih heq
    · rw [List.cons_append, List.cons_append, List.dropWhile_cons_of_neg ha,
        List.dropWhile_cons_of_neg ha] at heq
      have hlast := (List.append_inj' (List.cons.inj heq).2 rfl).2
      have hwr : wr2 = wr.marked := List.singleton_inj.mp hlast
      rw [hwr] at herr
      cases herr

/-- **An RC QP.** -/
theorem failsCleanly_rc {s : St} {wr : SendWr} {ctx : RoceCtx} {calloc : Nat → Bool}
    (hrc : s.qp.qpType = .rc) (hop : roceSendWrIsLocal wr = false ∧ ¬Unimplemented wr.opcode)
    (hin : roceSendWrIsInline wr = false) (hget : roceGetMrs s.ctx wr.sge = .ok (0, ctx)) :
    FailsCleanly s wr calloc ↔ AllocFails ctx s.qp wr calloc := by
  have hop' : roceSendWrIsLocal wr.held = false ∧ ¬Unimplemented wr.held.opcode := hop
  have hin' : roceSendWrIsInline wr.held = false := hin
  unfold FailsCleanly Marked
  simp only [if_pos hrc]
  rw [rocePostSend_rc hrc hin hget]
  constructor
  · rintro ⟨t, ht, hmarked, -, -, -⟩
    obtain ⟨⟨qp, wr2⟩, hbuild, ht⟩ := bind_eq_ok.mp ht
    obtain ⟨u, hxmit, ht⟩ := bind_eq_ok.mp ht
    obtain rfl := Except.ok.inj ht
    have hmoved := roceXmitPkts_ok hxmit
    have hsq : u.qp.sq = s.qp.sq ++ [wr2] := by rw [hmoved.qp]
    have hmark : u.qp.sq.dropWhile completesAtHead = _ := hmarked
    rw [hsq] at hmark
    have houtcome := (roceRcBuildPkts_ok hbuild).outcome rfl
    rcases houtcome with ⟨hqp, herr⟩ | hwr
    · obtain ⟨hsingle, hcalloc, hable⟩ := roceRcBuildPkts_fails hop' hin' herr hbuild
      have hfits := (roceXmitPkts_returns _).mp ⟨u, hxmit⟩
      rw [hqp] at hfits
      exact ⟨hsingle, hcalloc, hable.pages, hable.vnet, fun _ => hfits, fun hne => absurd hrc hne⟩
    · rw [hwr] at hmark
      exact absurd hmark (dropWhile_marked rfl hop'.1)
  · rintro ⟨⟨mtu, payload, hmtu, hlen, hle⟩, hcalloc, hpages, hvnet, hxmit, -⟩
    obtain ⟨opcode, ext, hbuild⟩ : ∃ opcode ext, roceRcBuildPkts ctx s.qp wr.held calloc =
        rcOnly ctx s.qp wr.held calloc opcode ext payload :=
      roceRcBuildPkts_single hop' (fits_of_not_inline hin') hmtu ((requestLen_sges hin').trans hlen) hle
    have hable : Allocable ctx s.qp := ⟨hpages, hvnet⟩
    have hfits : XmitFits { s.qp with sq := s.qp.sq ++ [wr.marked] } := hxmit hrc
    obtain ⟨u, hu⟩ := (roceXmitPkts_returns ⟨ctx, { s.qp with sq := s.qp.sq ++ [wr.marked] }⟩).mpr hfits
    rw [hbuild, hable.rcOnly hin' hcalloc]
    refine ⟨roceCompleteHead u, ?_, ?_, ?_, ?_, ?_⟩
    · show (do
        let u ← roceXmitPkts ⟨ctx, { s.qp with sq := s.qp.sq ++ [wr.marked] }⟩
        return roceCompleteHead u) = _
      rw [hu]
      rfl
    · show u.qp.sq.dropWhile completesAtHead = _
      rw [(roceXmitPkts_ok hu).qp]
    · rw [roceCompleteHead_req, (roceXmitPkts_ok hu).qp]
    · rw [roceCompleteHead_req, (roceXmitPkts_ok hu).queued]
    · obtain ⟨moved, hmoves⟩ := roceXmitPkts_moves hu
      have hctx : Acts s ⟨ctx, s.qp⟩ [] := (roceGetMrs_refsOnly hget).acts
      have hq : Acts s ⟨ctx, { s.qp with sq := s.qp.sq ++ [wr.marked] }⟩ [] := hctx.silent (.requester rfl)
      have hall := (hq.silent hmoves.acts).trans (roceCompleteHead_acts u)
      rw [List.append_nil] at hall
      intro pkt hpkt
      rw [hall.sentSince] at hpkt
      have hpending : s.qp.req.pendingPkts = moved ++ u.qp.req.pendingPkts := hmoves.pending
      rw [hpending]
      exact List.mem_append_left _ hpkt

/-! ### Datagrams -/

theorem roceGetAh_withAhs {ctx ctx' : RoceCtx} {i : Nat} {a : RoceAh} (h : roceGetAh ctx i = some (a, ctx')) :
    ∃ ahs, ctx' = ctx.withAhs ahs := ⟨_, (roceGetAh_ok h).2⟩

/-- The outcomes of `roce_ud_send_pkt`. -/
inductive UdSent (s : St) (wr : SendWr) (c : Bool) : St → SendWr → Prop where
  | noAh (h : roceGetAh s.ctx wr.ud.ah = none) : UdSent s wr c s wr
  | failed (ahs : List (Option RoceAh)) (h : roceGetAh s.ctx wr.ud.ah ≠ none) (hc : c = false)
      (hable : Allocable s.ctx s.qp) :
      UdSent s wr c { s with ctx := s.ctx.withAhs ahs } { wr with error := roceWcLocQpOpErr }
  | sent {t : St} (hpsn : t.qp.req.psn = roceQpPsnInc s.qp.req.psn) : UdSent s wr c t wr

theorem Allocable.withAhs {ctx : RoceCtx} {qp : RoceQp} {ahs : List (Option RoceAh)} :
    Allocable (ctx.withAhs ahs) qp ↔ Allocable ctx qp :=
  ⟨fun h => ⟨h.pages, h.vnet⟩, fun h => ⟨h.pages, h.vnet⟩⟩

theorem roceUdSendPkt_ok {s s' : St} {wr wr' : SendWr} {c imm : Bool} {payload : UInt32}
    (hin : roceSendWrIsInline wr = false) (h : roceUdSendPkt s wr c imm payload = .ok (s', wr')) :
    UdSent s wr c s' wr' := by
  unfold roceUdSendPkt at h
  split at h
  · next hah =>
    obtain ⟨rfl, rfl⟩ := Prod.mk.inj (Except.ok.inj h)
    exact .noAh hah
  · next a ctx1 hah =>
    obtain ⟨ahs, rfl⟩ := roceGetAh_withAhs hah
    obtain ⟨o, hpkt, h⟩ := bind_eq_ok.mp h
    cases o with
    | none =>
      obtain ⟨rfl, rfl⟩ := Prod.mk.inj (Except.ok.inj h)
      obtain ⟨ahs', hput⟩ := rocePutAh_withAhs (s.ctx.withAhs ahs) wr.ud.ah
      obtain ⟨hc, hable⟩ := (udPkt_none hin).mp hpkt
      have hne : roceGetAh s.ctx wr.ud.ah ≠ none := by
        rw [hah]
        exact Option.some_ne_none _
      simp only [hput]
      exact .failed ahs' hne hc (Allocable.withAhs.mp hable)
    | some r =>
      obtain ⟨pkt, unmaps⟩ := r
      obtain ⟨rfl, rfl⟩ := Prod.mk.inj (Except.ok.inj h)
      exact .sent rfl

theorem roceUdSendPkt_fails {s : St} {wr : SendWr} {imm : Bool} {payload : UInt32}
    (hin : roceSendWrIsInline wr = false) (hah : roceGetAh s.ctx wr.ud.ah ≠ none)
    (hable : Allocable s.ctx s.qp) :
    ∃ ahs, roceUdSendPkt s wr false imm payload =
      .ok ({ s with ctx := s.ctx.withAhs ahs }, { wr with error := roceWcLocQpOpErr }) := by
  unfold roceUdSendPkt
  cases hget : roceGetAh s.ctx wr.ud.ah with
  | none => exact absurd hget hah
  | some r =>
    obtain ⟨a, ctx1⟩ := r
    obtain ⟨ahs, rfl⟩ := roceGetAh_withAhs hget
    obtain ⟨ahs', hput⟩ := rocePutAh_withAhs (s.ctx.withAhs ahs) wr.ud.ah
    have hnone : udPkt (s.ctx.withAhs ahs) s.qp wr false imm payload a.attr = .ok none :=
      (udPkt_none hin).mpr ⟨rfl, Allocable.withAhs.mpr hable⟩
    refine ⟨ahs', ?_⟩
    simp only [bind, Except.bind, hnone, hput, pure, Except.pure]
    rfl

/-- A datagram that fits the MTU is sent as one packet. -/
theorem udRequest_single {s : St} {wr : SendWr} {c : Bool} {mtu : UInt16} {payload : UInt32}
    (hop : wr.opcode = .send ∨ wr.opcode = .sendWithImm) (hin : roceSendWrIsInline wr = false)
    (herr : wr.error = 0) (hmtu : roceGetMtu s.ctx s.qp = .ok mtu)
    (hlen : roceSgeLen wr.sge 0 0 = .ok payload) (hle : payload ≤ mtu.toUInt32) :
    ∃ imm, udRequest s wr c = (do
      let (s, wr) ← roceUdSendPkt s wr c imm payload
      return (s, wr, payload)) := by
  have hreq : requestLen wr = .ok payload := by
    unfold requestLen
    rw [hin]
    exact hlen
  unfold udRequest udSwitch
  rw [if_pos herr, hmtu, hreq]
  rcases hop with hop | hop
  · refine ⟨false, ?_⟩
    simp only [bind, Except.bind, if_neg (UInt32.not_lt.mpr hle), hop]
  · refine ⟨true, ?_⟩
    simp only [bind, Except.bind, if_neg (UInt32.not_lt.mpr hle), hop]

/-- A completion without the error is not the one of a failed mapping. -/
theorem sendWc_status {qp : RoceQp} {wr wr' : SendWr} {e e' : UInt8} {n n' : UInt32} {cq cq' : Nat}
    (h : Event.cqComp (sendWc qp wr e n) cq = .cqComp (sendWc qp wr' e' n') cq') : e = e' := by
  have hwc := (Event.cqComp.inj h).1
  have hstatus : (sendWc qp wr e n).status = (sendWc qp wr' e' n').status := by rw [hwc]
  exact hstatus

/-- The end of `roce_request_ud`: at most one completion, and the references dropped. -/
theorem roceRequestUd_ok {s t : St} {wr : SendWr} {c : Bool} (h : roceRequestUd s wr c = .ok t) :
    ∃ s1 wr1 byteLen es, udRequest s wr c = .ok (s1, wr1, byteLen) ∧
      (∀ e ∈ es, e = .cqComp (sendWc s1.qp wr1 wr1.error byteLen) s1.qp.scq) ∧
      t.qp = s1.qp ∧ t.ctx.trace = s1.ctx.trace ++ es := by
  unfold roceRequestUd at h
  obtain ⟨⟨s1, wr1, byteLen⟩, hreq, h⟩ := bind_eq_ok.mp h
  obtain ⟨ctx, hfree, h⟩ := bind_eq_ok.mp h
  obtain rfl := Except.ok.inj h
  have hrefs := roceFreeSendWr_refsOnly hfree
  unfold RefsOnly at hrefs
  by_cases hdue : (wrSignaled s1.qp wr1 || wr1.error != 0) = true
  · rw [if_pos hdue] at hrefs ⊢
    refine ⟨s1, wr1, byteLen, [_], hreq, fun e he => List.mem_singleton.mp he, rfl, ?_⟩
    show ctx.trace = _
    rw [hrefs]
    rfl
  · rw [if_neg hdue] at hrefs ⊢
    refine ⟨s1, wr1, byteLen, [], hreq, fun e he => absurd he List.not_mem_nil, rfl, ?_⟩
    show ctx.trace = _
    rw [hrefs, List.append_nil]

/-- A WR with an error is reported, and its references are dropped. -/
theorem roceRequestUd_reports {s s1 : St} {wr wr1 : SendWr} {c : Bool} {byteLen : UInt32}
    (hreq : udRequest s wr c = .ok (s1, wr1, byteLen)) (herr : wr1.error ≠ 0) (hlive : PdsLive s1.ctx) :
    ∃ t, roceRequestUd s wr c = .ok t ∧ t.qp = s1.qp ∧
      t.ctx.trace = s1.ctx.trace ++ [.cqComp (sendWc s1.qp wr1 wr1.error byteLen) s1.qp.scq] := by
  have hdue : (wrSignaled s1.qp wr1 || wr1.error != 0) = true :=
    Bool.or_eq_true_iff.mpr (Or.inr (bne_iff_ne.mpr herr))
  have hlive' : PdsLive (s1.emit [.cqComp (sendWc s1.qp wr1 wr1.error byteLen) s1.qp.scq]).ctx := hlive
  obtain ⟨ctx, hfree⟩ : ∃ ctx, roceFreeSendWr
      (s1.emit [.cqComp (sendWc s1.qp wr1 wr1.error byteLen) s1.qp.scq]).ctx wr1 = .ok ctx := by
    unfold roceFreeSendWr
    by_cases hm : wr1.mapped = true
    · obtain ⟨ctx, hput, -⟩ := rocePutMrs_live hlive' wr1.sge
      exact ⟨ctx, by rw [if_pos hm, hput]⟩
    · exact ⟨_, if_neg hm⟩
  have hrefs := roceFreeSendWr_refsOnly hfree
  unfold RefsOnly at hrefs
  refine ⟨⟨ctx, s1.qp⟩, ?_, rfl, ?_⟩
  · unfold roceRequestUd
    rw [hreq]
    simp only [bind, Except.bind, if_pos hdue, hfree]
    rfl
  · show ctx.trace = _
    rw [hrefs]
    rfl

/-- **A UD or GSI QP.** -/
theorem failsCleanly_ud {s : St} {wr : SendWr} {ctx : RoceCtx} {calloc : Nat → Bool} {mtu : UInt16}
    {payload : UInt32} (hud : s.qp.qpType = .ud ∨ s.qp.qpType = .gsi)
    (hop : wr.opcode = .send ∨ wr.opcode = .sendWithImm) (hin : roceSendWrIsInline wr = false)
    (hlive : PdsLive s.ctx) (hget : roceGetMrs s.ctx wr.sge = .ok (0, ctx))
    (hmtu : roceGetMtu ctx s.qp = .ok mtu) (hlen : roceSgeLen wr.sge 0 0 = .ok payload)
    (hle : payload ≤ mtu.toUInt32) : FailsCleanly s wr calloc ↔ AllocFails ctx s.qp wr calloc := by
  have hin' : roceSendWrIsInline wr.held = false := hin
  have hnrc : s.qp.qpType ≠ .rc := by
    rcases hud with hud | hud
    · rw [hud]
      decide
    · rw [hud]
      decide
  have htrace : ctx.trace = s.ctx.trace := by
    have hrefs := roceGetMrs_refsOnly hget
    unfold RefsOnly at hrefs
    rw [hrefs]
  obtain ⟨imm, hreq⟩ : ∃ imm, udRequest ⟨ctx, s.qp⟩ wr.held (calloc 0) = (do
      let (s, wr) ← roceUdSendPkt ⟨ctx, s.qp⟩ wr.held (calloc 0) imm payload
      return (s, wr, payload)) := udRequest_single hop hin' rfl hmtu hlen hle
  unfold FailsCleanly Marked
  simp only [if_neg hnrc]
  rw [rocePostSend_ud hud hin hget]
  constructor
  · rintro ⟨t, ht, ⟨byteLen, hmarked⟩, hpsn, -, -⟩
    obtain ⟨s2, wr2, byteLen2, es, hsend, hes, hqp, ht⟩ := roceRequestUd_ok ht
    rw [hreq] at hsend
    obtain ⟨⟨s1, wr1⟩, hsent, hsend⟩ := bind_eq_ok.mp hsend
    obtain ⟨rfl, hpair⟩ := Prod.mk.inj (Except.ok.inj hsend)
    obtain ⟨rfl, rfl⟩ := Prod.mk.inj hpair
    cases roceUdSendPkt_ok hin' hsent with
    | noAh h =>
      have htr : t.ctx.trace = s.ctx.trace ++ es := by rw [ht, htrace]
      rw [htr, List.drop_left] at hmarked
      have herr : roceWcLocQpOpErr = 0 := sendWc_status (hes _ hmarked)
      exact absurd herr (by decide)
    | failed ahs hah hc hable =>
      exact ⟨⟨mtu, payload, hmtu, hlen, hle⟩, hc, hable.pages, hable.vnet,
        fun hrc => absurd hrc hnrc, fun _ => hah⟩
    | sent hinc =>
      rw [hqp, hinc] at hpsn
      exact absurd hpsn (roceQpPsnInc_ne _)
  · rintro ⟨-, hcalloc, hpages, hvnet, -, hah⟩
    have hable : Allocable ctx s.qp := ⟨hpages, hvnet⟩
    have hah' : roceGetAh ctx wr.held.ud.ah ≠ none := hah hnrc
    obtain ⟨ahs, hsend⟩ : ∃ ahs, roceUdSendPkt ⟨ctx, s.qp⟩ wr.held false imm payload =
        .ok (⟨ctx.withAhs ahs, s.qp⟩, wr.marked) := roceUdSendPkt_fails hin' hah' hable
    rw [hcalloc, hsend] at hreq
    have hheld : PdsLive ctx := roceGetMrs_live hlive hget
    have hlive' : PdsLive (ctx.withAhs ahs) := hheld
    have herr : wr.marked.error ≠ 0 := by
      show roceWcLocQpOpErr ≠ 0
      decide
    rw [hcalloc]
    obtain ⟨t, ht, hqp, htr⟩ : ∃ t, roceRequestUd ⟨ctx, s.qp⟩ wr.held false = .ok t ∧ t.qp = s.qp ∧
        t.ctx.trace = ctx.trace ++ [.cqComp (sendWc s.qp wr.marked roceWcLocQpOpErr payload) s.qp.scq] :=
      roceRequestUd_reports hreq herr hlive'
    rw [htrace] at htr
    refine ⟨t, ht, ⟨payload, ?_⟩, by rw [hqp], by rw [hqp], ?_⟩
    · rw [htr, List.drop_left]
      exact List.mem_singleton.mpr rfl
    · unfold sentSince
      rw [htr, List.drop_left]
      intro pkt hpkt
      cases hpkt

/-- **A refused mapping.**  The post fails cleanly exactly when the packet was
not allocated, so that nothing was mapped. -/
theorem rocePostSend_refusal {s : St} {wr : SendWr} (calloc : Nat → Bool) (h : Refusal s wr) :
    FailsCleanly s wr calloc ↔ AllocFails s.ctx s.qp wr calloc := by
  obtain ⟨ctx, sges, r, hget, hsges, -, -⟩ := h.refused
  rw [← (roceGetMrs_refsOnly hget).allocFails]
  rcases h.packets with ⟨hrc, hop⟩ | ⟨hud, hop⟩
  · exact failsCleanly_rc hrc hop h.inline hget
  · cases hsges with
    | only hmtu hlen hle => exact failsCleanly_ud hud hop h.inline h.live hget hmtu hlen hle
    | several hrc _ _ _ _ _ _ =>
      rw [hrc] at hud
      rcases hud with hud | hud
      · cases hud
      · cases hud

/-- The small page with a QP, and a SEND whose key has a wrong last byte. -/
def keySend : SendWr :=
  { smallSend 0x2000 .send with sendFlags := roceSendSignaled, sge := [⟨0x10000, 64, 1⟩] }

theorem keySend_refusal : Refusal (smallRecv 64 0) keySend := by
  refine ⟨rfl, Or.inl ⟨rfl, rfl, by simp [Unimplemented, keySend, smallSend]⟩, ?_, ?_⟩
  · intro i mr hmr
    rcases i with _ | _ | i
    · obtain rfl := Option.some.inj hmr
      exact Option.some_ne_none _
    · cases hmr
    · cases hmr
  · have hret : ((roceGetMrs (smallRecv 64 0).ctx keySend.sge).toOption.map fun r =>
        (r.1, (roceMrMapSge r.2 (smallRecv 64 0).qp keySend.sge true 0).toOption.map (·.refused))) =
        some (0, some true) := by
      decide +kernel
    cases hget : roceGetMrs (smallRecv 64 0).ctx keySend.sge with
    | error e =>
      rw [hget] at hret
      cases hret
    | ok g =>
      obtain ⟨ret, ctx⟩ := g
      rw [hget] at hret
      obtain ⟨hzero, hmapped⟩ := Prod.mk.inj (Option.some.inj hret)
      simp only at hzero
      subst hzero
      cases hmap : roceMrMapSge ctx (smallRecv 64 0).qp keySend.sge true 0 with
      | error e =>
        simp only [hmap] at hmapped
        cases hmapped
      | ok r =>
        simp only [hmap] at hmapped
        exact ⟨ctx, _, r, rfl, .only rfl rfl (by decide), hmap, Option.some.inj hmapped⟩

/-- It fails cleanly where its packet is not allocated, and only there. -/
theorem rocePostSend_refusal_unallocated :
    FailsCleanly (smallRecv 64 0) keySend (fun _ => false) ∧
      ¬FailsCleanly (smallRecv 64 0) keySend (fun _ => true) := by
  constructor
  · refine (rocePostSend_refusal _ keySend_refusal).mpr ?_
    exact
      { single := ⟨_, _, rfl, rfl, by decide⟩
        calloc := rfl
        pages := by decide
        vnet := ⟨_, rfl⟩
        xmit := fun _ pkt hlast => by cases hlast
        ah := fun hne => absurd rfl hne }
  · intro hclean
    cases ((rocePostSend_refusal _ keySend_refusal).mp hclean).calloc

/-- The post aborts where the mapping is refused. -/
theorem rocePostSend_refusal_aborts :
    Refusal (smallRecv 64 0) keySend ∧
      (∃ e, rocePostSend (smallRecv 64 0) keySend.fresh (fun _ => true) = .error e ∧ e = .abort .mapPages) ∧
      ¬FailsCleanly (smallRecv 64 0) keySend (fun _ => true) := by
  have habort : (rocePostSend (smallRecv 64 0) keySend.fresh (fun _ => true)).map (fun _ => ()) =
      .error (.abort .mapPages) := by
    decide +kernel
  refine ⟨keySend_refusal, ?_⟩
  cases hpost : rocePostSend (smallRecv 64 0) keySend.fresh (fun _ => true) with
  | error e =>
    rw [hpost] at habort
    refine ⟨⟨e, rfl, Except.error.inj habort⟩, ?_⟩
    rintro ⟨t, ht, -⟩
    rw [hpost] at ht
    cases ht
  | ok t =>
    rw [hpost] at habort
    cases habort

end Libroce
