import Libroce.LossyPair

/-!
# What a posted SEND puts on the queue

A post of a SEND that gets no error queues one train: the fragments of a
message whose bytes are those of the WR, of which the last points back to it.

    SendTrain   the packets of a posted SEND

Main statement: `rocePostSend_train`.
-/

namespace Libroce

open Machine (bind_eq_ok)

/-! ## SGEs -/

section sgeIn

variable {ctx ctx' : RoceCtx} {qp : RoceQp} {sge : RoceSge} {sges : List RoceSge} {mr : RoceMr}

/-- The SGE denotes the same bytes, whatever the counts of the MRs. -/
theorem SgeIn.kept (h : SgeIn ctx qp sge mr) (hk : MrsKept ctx ctx') :
    (∃ mr', SgeIn ctx' qp sge mr') ∧ Libroce.sgeHost ctx' sge = Libroce.sgeHost ctx sge := by
  have hg := h.grants
  obtain ⟨ref, hmr⟩ := hk _ mr hg.live hg.valid
  have hpaged : RoceMr.Paged { mr with ref := ref } := ⟨h.paged.type, h.paged.pages, h.paged.covers⟩
  have hin : SgeIn ctx' qp sge { mr with ref := ref } :=
    ⟨⟨hmr, hg.key, hg.pd, hg.valid, hg.rights⟩, hpaged, h.range, h.space⟩
  refine ⟨⟨_, hin⟩, ?_⟩
  rw [hin.sgeHost, h.sgeHost]
  rfl

theorem sgesIn_kept (h : ∀ g ∈ sges, ∃ mr, SgeIn ctx qp g mr) (hk : MrsKept ctx ctx') :
    (∀ g ∈ sges, ∃ mr, SgeIn ctx' qp g mr) ∧
      sges.flatMap (sgeHost ctx') = sges.flatMap (sgeHost ctx) := by
  constructor
  · intro g hg
    obtain ⟨mr, hmr⟩ := h g hg
    exact (hmr.kept hk).1
  · apply List.flatMap_congr
    intro g hg
    obtain ⟨mr, hmr⟩ := h g hg
    exact (hmr.kept hk).2

end sgeIn

/-! ## The packets -/

/-- The packets of a SEND of `d`, to the peer of `s`. -/
structure SendTrain (s : St) (d : SendData) (pkts : List RoceNetpkt) : Prop where
  fragments : Fragments ⟨none, d.imm, pkts.map (·.payload.flatten)⟩ true pkts
  bytes : (pkts.map (·.payload.flatten)).flatten = d.bytes
  short : d.bytes.length < 2 ^ 32
  owners : ∃ addr, pkts.map (·.opaquePtr) = List.replicate (pkts.length - 1) none ++ [some addr]
  requests : ∀ pkt ∈ pkts, pkt.isRequest = true ∧ ∃ opcode, Addressed s opcode pkt

section build

variable {ctx : RoceCtx} {qp qp' : RoceQp} {wr wr' : SendWr} {calloc : Nat → Bool}

/-- What the opcode of a SEND excludes. -/
theorem sends_opcode (hop : wr.opcode = .send ∨ wr.opcode = .sendWithImm) :
    roceSendWrIsLocal wr = false ∧ ¬Unimplemented wr.opcode ∧ wr.opcode ≠ .sendWithInv ∧
      (∃ ops, pktOps wr.opcode = some ops) ∧ ∀ payload, wr.reth payload = none := by
  unfold roceSendWrIsLocal Unimplemented SendWr.reth
  rcases hop with hop | hop
  · rw [hop]
    exact ⟨rfl, by decide, by decide, ⟨_, rfl⟩, fun _ => rfl⟩
  · rw [hop]
    exact ⟨rfl, by decide, by decide, ⟨_, rfl⟩, fun _ => rfl⟩

/-- An inline SEND fits a packet, which holds the array as it is. -/
theorem inlineSend_only (hop : wr.opcode = .send ∨ wr.opcode = .sendWithImm)
    (hinline : roceSendWrIsInline wr = true) (herr : wr'.error = 0)
    (h : roceRcBuildPkts ctx qp wr calloc = .ok (qp', wr')) :
    ∃ mtu payload pkt, roceGetMtu ctx qp = .ok mtu ∧ requestLen wr = .ok payload ∧
      payload ≤ mtu.toUInt32 ∧ qp' = qp.push [pkt] ∧
      pkt.payload.flatten = (sgeBytes wr.sge).take payload.toNat := by
  unfold roceRcBuildPkts at h
  by_cases hlong : roceSendWrIsInline wr = true ∧ inlineLen wr > qp.attr.cap.maxInlineData
  · rw [if_pos hlong] at h
    obtain ⟨-, rfl⟩ := Prod.mk.inj (Except.ok.inj h)
    have hfail : (roceWcLocLenErr : UInt8) ≠ 0 := by decide
    exact absurd herr hfail
  rw [if_neg hlong] at h
  obtain ⟨imm, h⟩ : ∃ imm, roceRcSendPkts ctx qp wr calloc false imm = .ok (qp', wr') := by
    rcases hop with hop | hop
    · rw [hop] at h
      exact ⟨_, h⟩
    · rw [hop] at h
      exact ⟨_, h⟩
  unfold roceRcSendPkts at h
  obtain ⟨mtu, hmtu, h⟩ := bind_eq_ok.mp h
  obtain ⟨_, -, h⟩ := bind_eq_ok.mp h
  obtain ⟨payload, hlen, h⟩ := bind_eq_ok.mp h
  by_cases hle : payload ≤ mtu.toUInt32
  · rw [if_pos hle] at h
    obtain ⟨opcode, ext, h⟩ : ∃ opcode ext, rcOnly ctx qp wr calloc opcode ext payload = .ok (qp', wr') := by
      cases imm with
      | false => exact ⟨_, _, h⟩
      | true => exact ⟨_, _, h⟩
    rcases rcOnly_cases h with ⟨-, rfl⟩ | ⟨rfl, pkt, bytes, pages, pkt0, rfl, -, hbytes, halloc, hpkt⟩
    · have hfail : (roceWcLocQpOpErr : UInt8) ≠ 0 := by decide
      exact absurd herr hfail
    · obtain ⟨-, -, hpacket⟩ := requestHeaders_ok halloc (onlyPayload_inMemory hbytes) hpkt
      unfold onlyPayload at hbytes
      rw [if_pos hinline] at hbytes
      obtain rfl := Option.some.inj (Except.ok.inj hbytes)
      refine ⟨mtu, payload, pkt, hmtu, hlen, hle, rfl, ?_⟩
      rw [hpacket.payload_eq, List.flatten_singleton]
  · rw [if_neg hle] at h
    obtain ⟨_, hassert, -⟩ := bind_eq_ok.mp h
    rw [hinline] at hassert
    cases hassert

/-- The bytes of the packets are those of the WR, and the memory they lie in is there. -/
theorem roceRcBuildPkts_bytes {pkts : List RoceNetpkt} (hrc : qp.qpType = .rc)
    (hop : wr.opcode = .send ∨ wr.opcode = .sendWithImm)
    (hin : roceSendWrIsInline wr = false → ∀ g ∈ wr.sge, ∃ mr, SgeIn ctx qp g mr)
    (h : roceRcBuildPkts ctx qp wr calloc = .ok (qp.push pkts, wr')) (herr : wr'.error = 0) :
    SenderBacked ctx qp wr ∧ (pkts.map (·.payload.flatten)).flatten = (wr.data ctx).bytes := by
  have hpush : ∀ {qs : List RoceNetpkt}, qp.push pkts = qp.push qs → pkts = qs := by
    intro qs heq
    have hpend : qp.req.pendingPkts ++ pkts = qp.req.pendingPkts ++ qs :=
      congrArg (fun q : RoceQp => q.req.pendingPkts) heq
    exact List.append_cancel_left hpend
  unfold SendWr.data
  cases hinline : roceSendWrIsInline wr with
  | true =>
    obtain ⟨mtu, payload, pkt, hmtu, hlen, hle, hqp, hbytes⟩ := inlineSend_only hop hinline herr h
    obtain rfl := hpush hqp
    have hn := requestLen_ok hlen
    refine ⟨Or.inl ⟨hinline, ?_⟩, ?_⟩
    · have hle' := UInt32.le_iff_toNat_le.mp hle
      unfold roceGetMtu at hmtu
      rw [if_pos (Or.inl hrc)] at hmtu
      rwa [UInt16.toNat_toUInt32, hn, ← Except.ok.inj hmtu] at hle'
    · rw [List.map_singleton, List.flatten_singleton, hbytes, hn]
      rfl
  | false =>
    obtain ⟨-, -, -, ⟨ops, hops⟩, -⟩ := sends_opcode hop
    refine ⟨Or.inr (allBacked_of_sgeIn (hin hinline)), ?_⟩
    obtain ⟨-, ⟨_, hlen⟩, mtu, qs, hmtu, hqp, hheaded, hcarried⟩ := roceRcBuildPkts_headed hops herr h
    obtain rfl := hpush hqp
    have hfit : wr.len < 2 ^ 32 := by
      rw [← requestLen_ok hlen]
      exact UInt32.toNat_lt _
    rcases hcarried with ⟨hyes, -⟩ | ⟨-, hmapped⟩
    · rw [hinline] at hyes
      cases hyes
    · have hseg := hmapped.segmented hheaded hinline hfit (hin hinline)
      rw [← List.flatMap_def, hseg.bytes]
      rfl

/-- **A build.**  The packets of a SEND carry what it sends. -/
theorem roceRcBuildPkts_train (hrc : qp.qpType = .rc) (hv : MtusValid ⟨ctx, qp⟩)
    (hop : wr.opcode = .send ∨ wr.opcode = .sendWithImm)
    (hin : roceSendWrIsInline wr = false → ∀ g ∈ wr.sge, ∃ mr, SgeIn ctx qp g mr)
    (h : roceRcBuildPkts ctx qp wr calloc = .ok (qp', wr')) (herr : wr'.error = 0) :
    ∃ pkts, qp' = qp.push pkts ∧ SendTrain ⟨ctx, qp⟩ (wr.data ctx) pkts ∧
      (wr.data ctx).bytes.length = wr.len := by
  obtain ⟨hlocal, himpl, hinv, -, hreth⟩ := sends_opcode hop
  cases roceRcBuildPkts_ok h with
  | failed e he => exact absurd herr he
  | skipped hs =>
    rcases hs with hs | hs
    · rw [hlocal] at hs
      cases hs
    · exact absurd hs himpl
  | queued pkts htrain _ hshape =>
    obtain ⟨hbacked, hcarried⟩ := roceRcBuildPkts_bytes hrc hop hin h herr
    obtain ⟨payload, hlen, hfrag, hout⟩ := hshape.fragments hrc hv hbacked hinv
    have hlength : (wr.data ctx).bytes.length = wr.len := by
      rw [← hcarried]
      exact SendWr.outline_total hout
    refine ⟨pkts, rfl, ⟨?_, hcarried, ?_, ⟨_, htrain.owners⟩, ?_⟩, hlength⟩
    · unfold SendWr.message at hfrag
      rw [hreth] at hfrag
      exact hfrag
    · rw [hlength, ← requestLen_ok hlen]
      exact UInt32.toNat_lt _
    · intro pkt hmem
      obtain ⟨opcode, hne, haddr⟩ := hshape.addressed (s := ⟨ctx, qp⟩) hv pkt hmem
      exact ⟨haddr.isRequest hne, opcode, haddr⟩

end build

/-! ## The post -/

theorem postGetMrs_kept {s s1 : St} {wr wr1 : SendWr} (h : postGetMrs s wr = .ok (s1, wr1)) :
    MrsKept s.ctx s1.ctx := by
  unfold postGetMrs at h
  split at h
  · obtain ⟨rfl, -⟩ := Prod.mk.inj (Except.ok.inj h)
    exact .refl _
  · obtain ⟨⟨ret, ctx⟩, hg, h⟩ := bind_eq_ok.mp h
    obtain ⟨rfl, -⟩ := Prod.mk.inj (Except.ok.inj h)
    exact roceGetMrs_kept hg

/-- The post queued the packets `pkts` of the SEND, and sent some of the queue. -/
structure Queues (s t : St) (wr : SendWr) (pkts : List RoceNetpkt) : Prop where
  train : SendTrain s (wr.data s.ctx) pkts
  length : (wr.data s.ctx).bytes.length = wr.len
  queued : t.qp.req.queued = s.qp.req.queued ++ pkts
  acts : ∃ sent, Acts s t sent ∧ ∀ pkt ∈ sent, pkt ∈ t.qp.req.queued
  sq : ∃ wr2, wr2.fresh = wr.fresh ∧ completesAtHead wr2 = false ∧ t.qp.sq = s.qp.sq ++ [wr2]
  sqPsn : t.qp.attr.sqPsn = s.qp.attr.sqPsn
  unreported : reportedWcs (eventsSince s t) = []

theorem reportedWcs_xmits (pkts : List RoceNetpkt) : reportedWcs (pkts.map .netXmit) = [] := by
  unfold reportedWcs
  rw [List.filterMap_eq_nil_iff]
  intro e he
  obtain ⟨pkt, -, rfl⟩ := List.mem_map.mp he
  rfl

section post

variable {s t u v : St} {wr wr2 : SendWr} {calloc : Nat → Bool} {ctx : RoceCtx}

/-- The SGEs denote the same bytes when their MRs are referenced. -/
theorem sendData_kept (hwr : wr2 = { wr with error := 0, mapped := wr2.mapped }) (hrefs : RefsOnly s.ctx ctx)
    (hkept : MrsKept s.ctx ctx)
    (hin : roceSendWrIsInline wr = false → ∀ g ∈ wr.sge, ∃ mr, SgeIn s.ctx s.qp g mr) :
    wr2.data ctx = wr.data s.ctx := by
  have hsame : roceSendWrIsInline wr2 = roceSendWrIsInline wr ∧ wr2.sge = wr.sge ∧ wr2.len = wr.len ∧
      wr2.immdt = wr.immdt := by
    rw [hwr]
    exact ⟨rfl, rfl, rfl, rfl⟩
  obtain ⟨hinline, hsge, hlen, himm⟩ := hsame
  have hmem : ctx.mem = s.ctx.mem := by rw [hrefs]
  unfold SendWr.data
  rw [hinline, hsge, hlen, himm, hmem]
  cases hno : roceSendWrIsInline wr with
  | true => rfl
  | false => rw [(sgesIn_kept (hin hno) hkept).2]

theorem MtusValid.refs (hv : MtusValid s) (hrefs : RefsOnly s.ctx ctx) : MtusValid ⟨ctx, s.qp⟩ := by
  refine ⟨hv.path, ?_⟩
  intro port hport
  refine hv.port port ?_
  rw [← hport]
  unfold portAt
  rw [hrefs]

/-- The SEND joined the queue, its packets behind the others, before `roce_xmit_pkts`. -/
structure Queued (s v : St) (wr wr2 : SendWr) (pkts : List RoceNetpkt) : Prop where
  train : SendTrain s (wr.data s.ctx) pkts
  length : (wr.data s.ctx).bytes.length = wr.len
  fresh : wr2.fresh = wr.fresh
  live : completesAtHead wr2 = false
  refs : RefsOnly s.ctx v.ctx
  qp : v.qp = { s.qp.push pkts with sq := s.qp.sq ++ [wr2] }

theorem reqPrepare_train (hrc : s.qp.qpType = .rc) (hv : MtusValid s)
    (hop : wr.opcode = .send ∨ wr.opcode = .sendWithImm)
    (hin : roceSendWrIsInline wr = false → ∀ g ∈ wr.sge, ∃ mr, SgeIn s.ctx s.qp g mr)
    (hinline : roceSendWrIsInline wr = true → inlineLen wr ≤ s.qp.attr.cap.maxInlineData)
    (hcalloc : calloc 0 = true ∨ s.qp.attr.pathMtu.toNat < wr.len)
    (hp : reqPrepare s (.post wr calloc) = .ok (some v)) : ∃ wr2 pkts, Queued s v wr wr2 pkts := by
  have hkeys : roceSendWrIsInline wr = false →
      ∀ sge ∈ wr.sge, roceGetMrNoref s.ctx (roceKeyToIndex sge.lkey) ≠ none := by
    intro hno sge hsge
    obtain ⟨mr, hmr⟩ := hin hno sge hsge
    rw [hmr.grants.live]
    exact Option.some_ne_none mr
  have hlarge : calloc 0 = true ∨ Unimplemented wr.opcode ∨ ∀ len, requestLen wr = .ok len →
      s.qp.attr.pathMtu.toUInt32 < len := by
    refine hcalloc.imp_right fun hlt => Or.inr fun len hlen => ?_
    rw [UInt32.lt_iff_toNat_lt, UInt16.toNat_toUInt32, requestLen_ok hlen]
    exact hlt
  obtain ⟨wr2, qp, hwr, hget, hbuild, hqp⟩ := reqPrepare_unfailed hrc hinline hkeys hlarge hp
  obtain ⟨hrefs, -⟩ := postGetMrs_ok hget
  have hrefs : RefsOnly s.ctx v.ctx := hrefs
  have hkept := postGetMrs_kept hget
  have hkept : MrsKept s.ctx v.ctx := hkept
  have hdata := sendData_kept hwr hrefs hkept hin
  have hsame : roceSendWrIsInline wr2 = roceSendWrIsInline wr ∧ wr2.sge = wr.sge ∧ wr2.len = wr.len ∧
      wr2.opcode = wr.opcode ∧ wr2.error = 0 ∧ wr2.fresh = wr.fresh := by
    rw [hwr]
    exact ⟨rfl, rfl, rfl, rfl, rfl, rfl⟩
  obtain ⟨hinl, hsge, hlen, hopc, herr, hfresh⟩ := hsame
  rw [← hopc] at hop
  have hin2 : roceSendWrIsInline wr2 = false → ∀ g ∈ wr2.sge, ∃ mr, SgeIn v.ctx s.qp g mr := by
    intro hno
    rw [hsge]
    exact (sgesIn_kept (hin (hinl.symm.trans hno)) hkept).1
  obtain ⟨pkts, rfl, hsend, hbytes⟩ := roceRcBuildPkts_train hrc (hv.refs hrefs) hop hin2 hbuild herr
  rw [hdata] at hsend hbytes
  refine ⟨wr2, pkts, ?_, by rw [hbytes, hlen], hfresh, ?_, hrefs, hqp⟩
  · refine ⟨hsend.fragments, hsend.bytes, hsend.short, hsend.owners, ?_⟩
    intro pkt hmem
    obtain ⟨hreq, opcode, haddr⟩ := hsend.requests pkt hmem
    exact ⟨hreq, opcode, haddr.between hrefs.acts (.refl s)⟩
  · unfold completesAtHead
    rw [(sends_opcode hop).1, herr]
    rfl

/-- **A post** of a SEND that gets no error. -/
theorem rocePostSend_train (hrc : s.qp.qpType = .rc) (hv : MtusValid s) (hlive : AllLive s)
    (hop : wr.opcode = .send ∨ wr.opcode = .sendWithImm)
    (hin : roceSendWrIsInline wr = false → ∀ g ∈ wr.sge, ∃ mr, SgeIn s.ctx s.qp g mr)
    (hinline : roceSendWrIsInline wr = true → inlineLen wr ≤ s.qp.attr.cap.maxInlineData)
    (hcalloc : calloc 0 = true ∨ s.qp.attr.pathMtu.toNat < wr.len)
    (h : rocePostSend s wr.fresh calloc = .ok t) : ∃ pkts, Queues s t wr pkts := by
  have hstep : reqStep s (.post wr calloc) = .ok t := h
  obtain ⟨v, u, hp, hx, rfl⟩ := reqStep_post_ok hrc hstep
  obtain ⟨wr2, pkts, hq⟩ := reqPrepare_train hrc hv hop hin hinline hcalloc hp
  obtain ⟨moved, hmoves⟩ := roceXmitPkts_moves hx
  have hsq : u.qp.sq = s.qp.sq ++ [wr2] := by rw [hmoves.qp, hq.qp]
  -- no WR of the queue is for `roce_complete_head`
  have hhead : roceCompleteHead u = u := by
    apply roceCompleteHead_live
    intro w hw
    rw [hsq] at hw
    rcases List.mem_append.mp hw with hw | hw
    · exact hlive w hw
    · rw [List.mem_singleton.mp hw]
      exact hq.live
  rw [hhead]
  have hacts : Acts s u moved := by
    have hrefs : Acts s ⟨v.ctx, s.qp⟩ [] := hq.refs.acts
    have honly : RequesterOnly s.qp v.qp := by
      rw [hq.qp]
      rfl
    exact (hrefs.silent (.requester honly)).silent hmoves.acts
  refine ⟨pkts, hq.train, hq.length, ?_, ⟨moved, hacts, ?_⟩, ⟨wr2, hq.fresh, hq.live, hsq⟩, ?_, ?_⟩
  · rw [(roceXmitPkts_ok hx).queued, hq.qp]
    show s.qp.req.outgoingPkts ++ (s.qp.req.pendingPkts ++ pkts) = _
    rw [← List.append_assoc]
    rfl
  · intro pkt hmem
    rw [hmoves.qp]
    exact List.mem_append_left _ (List.mem_append_right _ hmem)
  · rw [hmoves.qp, hq.qp]
    rfl
  · have hevents : eventsSince s u = moved.map .netXmit := by
      unfold eventsSince
      rw [hmoves.ctx, ← hq.refs.trace]
      exact List.drop_left
    rw [hevents, reportedWcs_xmits]

end post

end Libroce
