import Libroce.PageCount
import Libroce.PostedSend
import Libroce.Translation
import Libroce.WritePlacement

/-!
# An RDMA WRITE from memory to memory

A posted WRITE becomes packets; these are put into frames, and the frames go to
the peer one after the other.  Then the bytes that the SGEs denote on one side are
at the addresses that the RETH names on the other.

    WriteTarget    the range lies in an MR that the peer may write
    WriteTrain     the packets of a posted WRITE
    Landed         the bytes are there, and nothing else changed

Main statement: `rocePostSend_lands`.
-/

namespace Libroce

open Machine (bind_eq_ok run)

/-! ## The target -/

/-- What a WRITE names at the peer, as an SGE. -/
def SendWr.target (wr : SendWr) : RoceSge := ⟨wr.remoteAddr, UInt32.ofNat wr.len, wr.rkey⟩

/-- A WRITE of no bytes begins a page, and not the one right behind its MR. -/
def EmptyLands (s : St) (wr : SendWr) : Prop :=
  wr.remoteAddr.toNat % s.ctx.pageSize.toNat = 0 ∧
    ∀ mr, roceGetMrNoref s.ctx (roceKeyToIndex wr.rkey) = some mr →
      mr.offPages wr.remoteAddr ≠ mr.iovs.length

/-- The range of a WRITE lies in an MR of whole pages of the context that the key
opens to it, below a multiple of 4 GiB; a packet of a WRITE takes few pages. -/
structure WriteTarget (s : St) (wr : SendWr) (mr : RoceMr) : Prop where
  grants : MrGrants s.ctx s.qp false roceAccessRemoteWrite wr.target mr
  paged : mr.Paged
  apart : Apart mr.iovs
  range : InRange wr.target mr
  space : mr.iova.toNat + mr.length.toNat < 2 ^ 64
  pageSize : mr.pageSize = s.ctx.pageSize
  power : rocePowerOf2 s.ctx.pageSize.toUInt64 = true
  large : 64 ≤ s.ctx.pageSize.toNat
  few : mr.iovs.length < 2 ^ 32
  below : rangeWraps s.ctx.pageSize.toNat wr.remoteAddr.toNat wr.len = 0
  empty : wr.len = 0 → EmptyLands s wr

/-- A part of a range reaches no more multiples of 4 GiB than the range. -/
theorem rangeWraps_le {p a b n m : Nat} (hlo : a ≤ b) (hhi : b + m ≤ a + n) :
    rangeWraps p b m ≤ rangeWraps p a n := by
  unfold rangeWraps
  have hend : (b + m + p - 1) / p * p / 2 ^ 32 ≤ (a + n + p - 1) / p * p / 2 ^ 32 := by
    apply Nat.div_le_div_right
    apply Nat.mul_le_mul_right
    apply Nat.div_le_div_right
    omega
  have hstart : a / 2 ^ 32 ≤ b / 2 ^ 32 := Nat.div_le_div_right hlo
  omega

section target

variable {s t : St} {wr : SendWr} {mr : RoceMr}

theorem WriteTarget.length_eq (hfit : wr.len < 2 ^ 32) : wr.target.length.toNat = wr.len := by
  show (UInt32.ofNat wr.len).toNat = wr.len
  rw [UInt32.toNat_ofNat', Nat.mod_eq_of_lt hfit]

/-- A piece of the range, as the responder asks for it. -/
theorem WriteTarget.piece (h : WriteTarget s wr mr) (hfit : wr.len < 2 ^ 32) {n len : Nat}
    (hle : n + len ≤ wr.len) :
    MrGrants s.ctx s.qp false roceAccessRemoteWrite (wr.target.piece n len) mr ∧
      InRange (wr.target.piece n len) mr ∧ RangeChecked (wr.target.piece n len) mr ∧
      (wr.target.piece n len).addr.toNat = wr.remoteAddr.toNat + n ∧
      (wr.target.piece n len).length.toNat = len := by
  have hg := h.grants
  have hspace := h.space
  have hlen := WriteTarget.length_eq hfit
  obtain ⟨hge, hend⟩ := h.range
  have haddr : (wr.target.piece n len).addr.toNat = wr.remoteAddr.toNat + n := by
    have hva : wr.target.addr.toNat = wr.remoteAddr.toNat := rfl
    show (wr.remoteAddr + UInt64.ofNat n).toNat = _
    rw [UInt64.toNat_add, UInt64.toNat_ofNat', Nat.add_mod_mod, Nat.mod_eq_of_lt (by omega)]
  have hpart : (wr.target.piece n len).length.toNat = len := by
    show (UInt32.ofNat len).toNat = len
    rw [UInt32.toNat_ofNat', Nat.mod_eq_of_lt (by omega)]
  have hlo : mr.iova ≤ (wr.target.piece n len).addr := by
    have hva : wr.target.addr.toNat = wr.remoteAddr.toNat := rfl
    rw [UInt64.le_iff_toNat_le, haddr]
    omega
  obtain ⟨hrange, -⟩ := RoceMr.hosts_piece h.range (by rw [hlen]; exact hle) hlo
  refine ⟨⟨hg.live, hg.key, hg.pd, hg.valid, hg.rights⟩, hrange, ⟨hlo, ?_⟩, haddr, hpart⟩
  obtain ⟨-, hhi⟩ := hrange
  rw [UInt64.le_iff_toNat_le, UInt64.toNat_add, UInt64.toNat_add, UInt32.toNat_toUInt64,
    UInt32.toNat_toUInt64, Nat.mod_eq_of_lt (by omega), Nat.mod_eq_of_lt hspace]
  exact hhi

/-- The MR is open to it. -/
theorem WriteTarget.opens (h : WriteTarget s wr mr) (hfit : wr.len < 2 ^ 32) {n len : Nat}
    (hle : n + len ≤ wr.len) : Opens s.ctx s.qp false roceAccessRemoteWrite [wr.target.piece n len] := by
  obtain ⟨hg, -, hchecked, -, -⟩ := h.piece hfit hle
  refine ⟨mr.type, fun sge hsge => ?_⟩
  rw [List.mem_singleton.mp hsge]
  refine ⟨mr, hg, rfl, ?_⟩
  rw [if_neg (by rw [h.paged.type]; decide)]
  exact hchecked

/-- **The next bytes can be written.** -/
theorem WriteTarget.lands (h : WriteTarget s wr mr) (hfit : wr.len < 2 ^ 32) {n len : Nat}
    (hpos : 0 < len) (hmtu : len ≤ 4096) (hle : n + len ≤ wr.len) :
    SgesLand s.ctx [wr.target.piece n len] := by
  obtain ⟨hg, hrange, -, haddr, hlen⟩ := h.piece hfit hle
  have hne : (wr.target.piece n len).length ≠ 0 := by
    intro hzero
    rw [hzero] at hlen
    have hlen : 0 = len := hlen
    omega
  have hwraps : rangeWraps s.ctx.pageSize.toNat (wr.remoteAddr.toNat + n) len = 0 := by
    have hpart := rangeWraps_le (p := s.ctx.pageSize.toNat) (a := wr.remoteAddr.toNat)
      (b := wr.remoteAddr.toNat + n) (n := wr.len) (m := len) (by omega) (by omega)
    rw [h.below] at hpart
    omega
  have hord : Ordinary s.ctx (wr.target.piece n len) mr := by
    have hcovers := h.paged.covers
    refine ⟨hg.live, ?_, h.pageSize, ?_, hrange.1, ?_, h.few, fun hzero => absurd hzero hne, ?_⟩
    · rw [h.paged.type]
      decide
    · rw [← h.pageSize]
      exact h.paged.pages
    · rw [← h.pageSize]
      exact Nat.le_trans hrange.2 hcovers
    · rw [haddr, hlen]
      exact hwraps
  refine sgesLand_of_ordinary h.power ?_ ?_
  · intro sge hsge
    rw [List.mem_singleton.mp hsge]
    exact ⟨hne, mr, hord⟩
  · -- the array of the responder holds the pages of a packet
    have hsize := h.large
    rw [List.map_singleton, List.sum_singleton]
    unfold sgePageCount rangePages
    rw [haddr, hlen, hwraps, Nat.zero_mul, Nat.add_zero]
    have hspan : (wr.remoteAddr.toNat + n + len + s.ctx.pageSize.toNat - 1) / s.ctx.pageSize.toNat ≤
        (wr.remoteAddr.toNat + n + 65 * s.ctx.pageSize.toNat) / s.ctx.pageSize.toNat := by
      apply Nat.div_le_div_right
      omega
    rw [Nat.add_mul_div_right _ _ (by omega)] at hspan
    show _ ≤ 2 * 64
    omega

/-- So can no bytes, where they may be. -/
theorem WriteTarget.lands_empty (h : WriteTarget s wr mr) (hzero : wr.len = 0) :
    SgesLand s.ctx [wr.target.piece 0 0] := by
  obtain ⟨haligned, hinside⟩ := h.empty hzero
  have hlive : roceGetMrNoref s.ctx (roceKeyToIndex wr.rkey) = some mr := h.grants.live
  have hmem : mr.type ≠ .dma := by
    rw [h.paged.type]
    decide
  have hwhole : wr.target.piece 0 0 = ⟨wr.remoteAddr, 0, wr.rkey⟩ := by
    unfold RoceSge.piece SendWr.target
    show (⟨wr.remoteAddr + 0, 0, wr.rkey⟩ : RoceSge) = _
    rw [UInt64.add_zero]
  have hcount : sgePageCount s.ctx.pageSize ⟨wr.remoteAddr, 0, wr.rkey⟩ % 2 ^ 32 = 0 := by
    have hpages := congrArg UInt32.toNat ((sgePages_empty h.power wr.remoteAddr wr.rkey).mpr haligned)
    rw [sgePages_toNat h.power] at hpages
    exact hpages
  have hnone : sgeIovecs s.ctx ⟨wr.remoteAddr, 0, wr.rkey⟩ = 0 := by
    unfold sgeIovecs
    rw [hlive]
    show mr.iovecs _ = 0
    rw [mr.iovecs_eq, if_neg hmem, if_pos rfl]
  rw [hwhole]
  refine ⟨?_, ?_, ?_⟩
  · intro sge hsge mr' hlive' _
    rw [List.mem_singleton.mp hsge] at hlive' ⊢
    unfold RoceMr.Holds
    rw [if_pos rfl]
    exact hinside mr' hlive'
  · unfold SamePages
    rw [List.map_singleton, List.map_singleton, List.sum_singleton, List.sum_singleton, hcount, hnone,
      Nat.zero_mod]
  · rw [List.map_singleton, List.sum_singleton, hnone]
    exact Nat.zero_le _

end target

/-! ## Its pieces -/

/-- A packet carries no more than the MTU allows, and nothing only when it is alone. -/
theorem Message.Packets.piece {m : Message} {first : Bool} {psn : UInt32} {cs : List (List UInt8)}
    {inbs : List Inbound} (h : m.Packets first psn cs inbs) {c : List UInt8} (hc : c ∈ cs) :
    c.length ≤ 4096 ∧ (c ≠ [] ∨ cs = [c]) := by
  induction h with
  | last hne hcarry =>
    obtain rfl := List.mem_singleton.mp hc
    exact ⟨hcarry.mtu, Or.inr rfl⟩
  | more hne hcarry hrest ih =>
    rcases List.mem_cons.mp hc with rfl | hc
    · exact ⟨hcarry.mtu, Or.inl hne⟩
    · obtain ⟨hmtu, hcase⟩ := ih hc
      refine ⟨hmtu, Or.inl ?_⟩
      rcases hcase with hcase | rfl
      · exact hcase
      · cases hrest with
        | last hlast _ => exact hlast.resolve_right (by decide)
        | more hmore _ _ => exact hmore

/-- What the packets of the WRITE ask for. -/
theorem WriteTarget.pieces {s : St} {wr : SendWr} {mr : RoceMr} (h : WriteTarget s wr mr)
    (hfit : wr.len < 2 ^ 32) {m : Message} {psn : UInt32} {inbs : List Inbound}
    (hp : m.Packets true psn m.payloads inbs) (htotal : m.total = wr.len) {payload : UInt32}
    {d : List RoceSge}
    (hd : d ∈ writePieces ⟨wr.remoteAddr, wr.rkey, payload⟩ 0 m.outline.sizes) :
    Opens s.ctx s.qp false roceAccessRemoteWrite d ∧ SgesLand s.ctx d := by
  obtain ⟨ks, len, ls, hsizes, rfl⟩ := mem_writePieces hd
  have hsum : ks.sum + (len + ls.sum) = wr.len := by
    rw [← htotal, ← m.sum_sizes, hsizes, List.sum_append, List.sum_cons]
  have hpiece : writePiece ⟨wr.remoteAddr, wr.rkey, payload⟩ (0 + ks.sum) len =
      wr.target.piece ks.sum len := by
    have hoff : (UInt32.ofNat ks.sum).toUInt64 = UInt64.ofNat ks.sum := by
      apply UInt64.toNat_inj.mp
      rw [UInt32.toNat_toUInt64, UInt32.toNat_ofNat', UInt64.toNat_ofNat', Nat.mod_eq_of_lt (by omega),
        Nat.mod_eq_of_lt (by omega)]
    unfold writePiece
    rw [Nat.zero_add, hoff]
    rfl
  obtain ⟨c, hc, rfl⟩ : ∃ c ∈ m.payloads, c.length = len := by
    have hmem : len ∈ m.outline.sizes := by
      rw [hsizes]
      exact List.mem_append_right _ List.mem_cons_self
    exact List.mem_map.mp hmem
  obtain ⟨hmtu, hcase⟩ := hp.piece hc
  rw [hpiece]
  refine ⟨h.opens hfit (by omega), ?_⟩
  by_cases hempty : c = []
  · -- alone in its message
    have halone : m.payloads = [[]] := by
      rw [hempty] at hcase
      exact hcase.resolve_left (fun hne => hne rfl)
    have hzero : wr.len = 0 := by
      rw [← htotal]
      unfold Message.total
      rw [halone]
      rfl
    have hks : ks.sum = 0 := by omega
    rw [hks, hempty]
    exact h.lands_empty hzero
  · exact h.lands hfit (List.length_pos_iff.mpr hempty) hmtu (by omega)

/-! ## The packets -/

def SendWr.Writes (wr : SendWr) : Prop := wr.opcode = .rdmaWrite ∨ wr.opcode = .rdmaWriteWithImm

/-- The post of the WRITE gets no error: an inline array fits a packet, other SGEs
lie in MRs of their keys, and the packet of a short request is allocated. -/
structure WriteSource (s : St) (wr : SendWr) (calloc : Nat → Bool) : Prop where
  inline : roceSendWrIsInline wr = true →
    inlineLen wr ≤ s.qp.attr.cap.maxInlineData ∧ wr.len ≤ s.qp.attr.pathMtu.toNat
  sges : roceSendWrIsInline wr = false → ∀ g ∈ wr.sge, ∃ mr, SgeIn s.ctx s.qp g mr
  calloc : calloc 0 = true ∨ s.qp.attr.pathMtu.toNat < wr.len

/-- The packets of a WRITE of `bytes` to the peer of `s`. -/
structure WriteTrain (s : St) (wr : SendWr) (bytes : List UInt8) (pkts : List RoceNetpkt) : Prop where
  fragments : Fragments (wr.message (UInt32.ofNat wr.len) pkts) true pkts
  payload : (pkts.map (·.payload.flatten)).flatten = bytes
  length : bytes.length = wr.len
  short : wr.len < 2 ^ 32
  requests : ∀ pkt ∈ pkts, ∃ opcode, opcode ≠ ibOpcodeAcknowledge ∧ Addressed s opcode pkt
  psns : psnsOf pkts = Serial.seq psnMod s.qp.req.psn.toNat pkts.length

section build

variable {ctx : RoceCtx} {qp qp' : RoceQp} {wr wr' : SendWr} {calloc : Nat → Bool}

theorem SendWr.Writes.implemented (hop : wr.Writes) : roceSendWrIsLocal wr = false ∧
    ¬Unimplemented wr.opcode ∧ wr.opcode ≠ .sendWithInv ∧ ∃ ops, pktOps wr.opcode = some ops := by
  unfold roceSendWrIsLocal Unimplemented
  rcases hop with hop | hop
  · rw [hop]
    exact ⟨rfl, by decide, by decide, _, rfl⟩
  · rw [hop]
    exact ⟨rfl, by decide, by decide, _, rfl⟩

theorem SendWr.Writes.reth (hop : wr.Writes) (payload : UInt32) :
    wr.reth payload = some ⟨wr.remoteAddr, wr.rkey, payload⟩ := by
  unfold SendWr.reth
  rcases hop with hop | hop <;> rw [hop]

theorem SendWr.immdt_plain (h : wr.opcode = .rdmaWrite) : wr.immdt = none := by
  unfold SendWr.immdt
  rw [h]

theorem SendWr.immdt_withImm (h : wr.opcode = .rdmaWriteWithImm) : wr.immdt = some wr.imm := by
  unfold SendWr.immdt
  rw [h]

/-- An inline WRITE that fits a packet holds the array as it is. -/
theorem inlineWrite_only (hop : wr.Writes) (hinline : roceSendWrIsInline wr = true) (herr : wr'.error = 0)
    (hrc : qp.qpType = .rc) (hle : wr.len ≤ qp.attr.pathMtu.toNat)
    (h : roceRcBuildPkts ctx qp wr calloc = .ok (qp', wr')) :
    ∃ pkt, qp' = qp.push [pkt] ∧ pkt.payload.flatten = (sgeBytes wr.sge).take wr.len := by
  unfold roceRcBuildPkts at h
  by_cases hlong : roceSendWrIsInline wr = true ∧ inlineLen wr > qp.attr.cap.maxInlineData
  · rw [if_pos hlong] at h
    obtain ⟨-, rfl⟩ := Prod.mk.inj (Except.ok.inj h)
    have hfail : (roceWcLocLenErr : UInt8) ≠ 0 := by decide
    exact absurd herr hfail
  rw [if_neg hlong] at h
  obtain ⟨imm, h⟩ : ∃ imm, roceRcWritePkts ctx qp wr calloc imm = .ok (qp', wr') := by
    rcases hop with hop | hop
    · rw [hop] at h
      exact ⟨_, h⟩
    · rw [hop] at h
      exact ⟨_, h⟩
  unfold roceRcWritePkts at h
  obtain ⟨mtu, hmtu, h⟩ := bind_eq_ok.mp h
  obtain ⟨payload, hlen, h⟩ := bind_eq_ok.mp h
  have hn := requestLen_ok hlen
  have hfits : payload ≤ mtu.toUInt32 := by
    unfold roceGetMtu at hmtu
    rw [if_pos (Or.inl hrc)] at hmtu
    rw [UInt32.le_iff_toNat_le, UInt16.toNat_toUInt32, hn, ← Except.ok.inj hmtu]
    exact hle
  rw [if_pos hfits] at h
  obtain ⟨opcode, ext, h⟩ : ∃ opcode ext, rcOnly ctx qp wr calloc opcode ext payload = .ok (qp', wr') := by
    cases imm with
    | false => exact ⟨_, _, h⟩
    | true => exact ⟨_, _, h⟩
  rcases rcOnly_cases h with ⟨-, rfl⟩ | ⟨rfl, pkt, bytes, pages, pkt0, rfl, -, hbytes, halloc, hpkt⟩
  · have hfail : (roceWcLocQpOpErr : UInt8) ≠ 0 := by decide
    exact absurd herr hfail
  · obtain ⟨-, -, hpacket⟩ := requestHeaders_ok halloc (onlyPayload_inMemory hbytes) hpkt
    unfold onlyPayload at hbytes
    rw [if_pos hinline] at hbytes
    obtain rfl := Option.some.inj (Except.ok.inj hbytes)
    refine ⟨pkt, rfl, ?_⟩
    rw [hpacket.payload_eq, List.flatten_singleton, hn]

/-- The bytes of the packets are those of the WR, and the memory they lie in is there. -/
theorem inlineOrMapped_bytes {pkts : List RoceNetpkt} (hrc : qp.qpType = .rc) (hop : wr.Writes)
    (hinline : roceSendWrIsInline wr = true → wr.len ≤ qp.attr.pathMtu.toNat)
    (hin : roceSendWrIsInline wr = false → ∀ g ∈ wr.sge, ∃ mr, SgeIn ctx qp g mr)
    (h : roceRcBuildPkts ctx qp wr calloc = .ok (qp.push pkts, wr')) (herr : wr'.error = 0) :
    SenderBacked ctx qp wr ∧ (pkts.map (·.payload.flatten)).flatten = (wr.data ctx).bytes := by
  have hpush : ∀ {qs : List RoceNetpkt}, qp.push pkts = qp.push qs → pkts = qs := by
    intro qs heq
    have hpend : qp.req.pendingPkts ++ pkts = qp.req.pendingPkts ++ qs :=
      congrArg (fun q : RoceQp => q.req.pendingPkts) heq
    exact List.append_cancel_left hpend
  unfold SendWr.data
  cases hyes : roceSendWrIsInline wr with
  | true =>
    obtain ⟨pkt, hqp, hbytes⟩ := inlineWrite_only hop hyes herr hrc (hinline hyes) h
    obtain rfl := hpush hqp
    refine ⟨Or.inl ⟨hyes, hinline hyes⟩, ?_⟩
    rw [List.map_singleton, List.flatten_singleton, hbytes]
    rfl
  | false =>
    obtain ⟨-, -, -, ops, hops⟩ := hop.implemented
    refine ⟨Or.inr (allBacked_of_sgeIn (hin hyes)), ?_⟩
    obtain ⟨-, ⟨_, hlen⟩, mtu, qs, hmtu, hqp, hheaded, hcarried⟩ := roceRcBuildPkts_headed hops herr h
    obtain rfl := hpush hqp
    have hfit : wr.len < 2 ^ 32 := by
      rw [← requestLen_ok hlen]
      exact UInt32.toNat_lt _
    rcases hcarried with ⟨hno, -⟩ | ⟨-, hmapped⟩
    · rw [hyes] at hno
      cases hno
    · have hseg := hmapped.segmented hheaded hyes hfit (hin hyes)
      rw [← List.flatMap_def, hseg.bytes]
      rfl

/-- **A build.**  The packets of a WRITE carry what it writes. -/
theorem roceRcBuildPkts_writes (hrc : qp.qpType = .rc) (hv : MtusValid ⟨ctx, qp⟩) (hop : wr.Writes)
    (hinline : roceSendWrIsInline wr = true → wr.len ≤ qp.attr.pathMtu.toNat)
    (hin : roceSendWrIsInline wr = false → ∀ g ∈ wr.sge, ∃ mr, SgeIn ctx qp g mr)
    (h : roceRcBuildPkts ctx qp wr calloc = .ok (qp', wr')) (herr : wr'.error = 0) :
    ∃ pkts, qp' = qp.push pkts ∧ WriteTrain ⟨ctx, qp⟩ wr (wr.data ctx).bytes pkts := by
  obtain ⟨hlocal, himpl, hinv, -⟩ := hop.implemented
  cases roceRcBuildPkts_ok h with
  | failed e he => exact absurd herr he
  | skipped hs =>
    rcases hs with hs | hs
    · rw [hlocal] at hs
      cases hs
    · exact absurd hs himpl
  | queued pkts htrain _ hshape =>
    obtain ⟨hbacked, hbytes⟩ := inlineOrMapped_bytes hrc hop hinline hin h herr
    obtain ⟨payload, hlen, hfrag, hout⟩ := hshape.fragments hrc hv hbacked hinv
    have hn := requestLen_ok hlen
    have hpayload : UInt32.ofNat wr.len = payload := by rw [← hn, UInt32.ofNat_toNat]
    refine ⟨pkts, rfl, ?_, hbytes, ?_, ?_, fun pkt hmem => hshape.addressed (s := ⟨ctx, qp⟩) hv pkt hmem,
      htrain.psns⟩
    · rw [hpayload]
      exact hfrag
    · rw [← hbytes]
      exact SendWr.outline_total hout
    · rw [← hn]
      exact UInt32.toNat_lt _

end build

section post

variable {s t v : St} {wr : SendWr} {calloc : Nat → Bool}

theorem reqPrepare_writes (hrc : s.qp.qpType = .rc) (hv : MtusValid s) (hop : wr.Writes)
    (hsrc : WriteSource s wr calloc) (hp : reqPrepare s (.post wr calloc) = .ok (some v)) :
    ∃ pkts, v.qp.req.queued = s.qp.req.queued ++ pkts ∧ WriteTrain s wr (wr.data s.ctx).bytes pkts := by
  have hkeys : roceSendWrIsInline wr = false →
      ∀ sge ∈ wr.sge, roceGetMrNoref s.ctx (roceKeyToIndex sge.lkey) ≠ none := by
    intro hno sge hsge
    obtain ⟨mr, hmr⟩ := hsrc.sges hno sge hsge
    rw [hmr.grants.live]
    exact Option.some_ne_none mr
  have hlarge : calloc 0 = true ∨ Unimplemented wr.opcode ∨ ∀ len, requestLen wr = .ok len →
      s.qp.attr.pathMtu.toUInt32 < len := by
    refine hsrc.calloc.imp_right fun hlt => Or.inr fun len hlen => ?_
    rw [UInt32.lt_iff_toNat_lt, UInt16.toNat_toUInt32, requestLen_ok hlen]
    exact hlt
  obtain ⟨wr2, qp, hwr, hget, hbuild, hqp⟩ :=
    reqPrepare_unfailed hrc (fun hyes => (hsrc.inline hyes).1) hkeys hlarge hp
  obtain ⟨hrefs, -⟩ := postGetMrs_ok hget
  have hrefs : RefsOnly s.ctx v.ctx := hrefs
  have hkept := postGetMrs_kept hget
  have hkept : MrsKept s.ctx v.ctx := hkept
  have hdata := sendData_kept hwr hrefs hkept hsrc.sges
  have hsame : roceSendWrIsInline wr2 = roceSendWrIsInline wr ∧ wr2.sge = wr.sge ∧ wr2.len = wr.len ∧
      wr2.opcode = wr.opcode ∧ wr2.error = 0 ∧ ∀ x pkts, wr2.message x pkts = wr.message x pkts := by
    rw [hwr]
    exact ⟨rfl, rfl, rfl, rfl, rfl, fun _ _ => rfl⟩
  obtain ⟨hinl, hsge, hlen, hopc, herr, hmessage⟩ := hsame
  have hop2 : wr2.Writes := by
    unfold SendWr.Writes
    rw [hopc]
    exact hop
  have hin2 : roceSendWrIsInline wr2 = false → ∀ g ∈ wr2.sge, ∃ mr, SgeIn v.ctx s.qp g mr := by
    intro hno
    rw [hsge]
    exact (sgesIn_kept (hsrc.sges (hinl.symm.trans hno)) hkept).1
  have hinline2 : roceSendWrIsInline wr2 = true → wr2.len ≤ s.qp.attr.pathMtu.toNat := by
    intro hyes
    rw [hlen]
    exact (hsrc.inline (hinl.symm.trans hyes)).2
  obtain ⟨pkts, rfl, htrain⟩ := roceRcBuildPkts_writes hrc (hv.refs hrefs) hop2 hinline2 hin2 hbuild herr
  rw [hdata] at htrain
  refine ⟨pkts, ?_, ?_, htrain.payload, by rw [htrain.length, hlen], by rw [← hlen]; exact htrain.short, ?_,
    htrain.psns⟩
  · rw [hqp]
    show s.qp.req.outgoingPkts ++ (s.qp.req.pendingPkts ++ pkts) = _
    rw [← List.append_assoc]
    rfl
  · rw [← hmessage, ← hlen]
    exact htrain.fragments
  · intro pkt hmem
    obtain ⟨opcode, hne, haddr⟩ := htrain.requests pkt hmem
    exact ⟨opcode, hne, haddr.between hrefs.acts (.refl s)⟩

/-- **A post** of a WRITE that gets no error. -/
theorem rocePostSend_writes (hrc : s.qp.qpType = .rc) (hv : MtusValid s) (hop : wr.Writes)
    (hsrc : WriteSource s wr calloc) (h : rocePostSend s wr.fresh calloc = .ok t) :
    ∃ pkts, t.qp.req.queued = s.qp.req.queued ++ pkts ∧ WriteTrain s wr (wr.data s.ctx).bytes pkts := by
  have hstep : reqStep s (.post wr calloc) = .ok t := h
  obtain ⟨v, u, hp, hx, rfl⟩ := reqStep_post_ok hrc hstep
  obtain ⟨pkts, hqueued, htrain⟩ := reqPrepare_writes hrc hv hop hsrc hp
  refine ⟨pkts, ?_, htrain⟩
  rw [roceCompleteHead_req, (roceXmitPkts_ok hx).queued, hqueued]

end post

/-! ## Frames -/

/-- A frame is handed to the peer, which can allocate its answer. -/
def recvFrame (s : St) (frame : List (List UInt8)) : Except Fault St :=
  (roceNetRecv s frame true).map (·.2)

theorem roceNetDecap_ports {ctx ctx' : RoceCtx} (h : ctx'.ports = ctx.ports) (frame : List (List UInt8)) :
    roceNetDecap ctx' frame = roceNetDecap ctx frame := by
  unfold roceNetDecap portAt
  rw [h]

/-- While the two sides are joined, the frame brings `inb` to `roce_recv_rc`. -/
def Reaches (a b : St) (frame : List (List UInt8)) (inb : Inbound) : Prop :=
  ∀ y, y.ctx.ports = b.ctx.ports → Joined a y → ∀ ret t, roceRecvRc y inb = .ok (ret, t) →
    recvFrame y frame = .ok t

theorem Addressed.reaches {a b : St} {opcode : UInt8} {pkt : RoceNetpkt} {frame : List (List UInt8)}
    (ha : Addressed a opcode pkt) (hj : Joined a b) (hframe : frame.flatten = pkt.iovs.flatten) :
    ∃ inb, Delivered pkt inb ∧ ibBthGetOpcode inb.bth = opcode ∧ Reaches a b frame inb := by
  obtain ⟨hop, d, iovs, hdecap, hdrop, hdel, -⟩ := ha.arrives hj hframe
  refine ⟨⟨d.bth, iovs, true⟩, hdel, hdel.opcode.trans hop, ?_⟩
  intro y hports hjoined ret t hrecv
  obtain ⟨-, d', iovs', hdecap', hdrop', -, hbth⟩ := ha.arrives hjoined hframe
  rw [roceNetDecap_ports hports, hdecap] at hdecap'
  obtain rfl := Option.some.inj (Except.ok.inj hdecap')
  obtain rfl := Option.some.inj (hdrop.symm.trans hdrop')
  unfold recvFrame Libroce.roceNetRecv
  rw [roceNetDecap_ports hports, hdecap]
  show ((roceRecvBth y d true >>= _ : Except Fault (Int × St)).map _) = _
  rw [hbth, hrecv]
  by_cases hret : ret < 0
  · show Except.map _ (if ret < 0 then _ else _) = _
    rw [if_pos hret]
    rfl
  · show Except.map _ (if ret < 0 then _ else _) = _
    rw [if_neg hret]
    rfl

/-- The frames of requests bring one packet each to `roce_recv_rc`. -/
theorem addressed_reach {a b : St} {pkts : List RoceNetpkt} {frames : List (List (List UInt8))}
    (hj : Joined a b) (hreq : ∀ pkt ∈ pkts, ∃ opcode, opcode ≠ ibOpcodeAcknowledge ∧ Addressed a opcode pkt)
    (hframes : List.Forall₂ (fun frame pkt => frame.flatten = pkt.iovs.flatten) frames pkts) :
    ∃ inbs, List.Forall₂ Delivered pkts inbs ∧ (∀ inb ∈ inbs, ibBthGetOpcode inb.bth ≠ ibOpcodeAcknowledge) ∧
      List.Forall₂ (Reaches a b) frames inbs := by
  induction hframes with
  | nil => exact ⟨[], .nil, fun _ hmem => absurd hmem List.not_mem_nil, .nil⟩
  | cons hframe _ ih =>
    obtain ⟨inbs, hdel, hops, hreach⟩ := ih fun pkt hmem => hreq pkt (List.mem_cons_of_mem _ hmem)
    obtain ⟨opcode, hne, haddr⟩ := hreq _ List.mem_cons_self
    obtain ⟨inb, hd, hop, hr⟩ := haddr.reaches hj hframe
    refine ⟨inb :: inbs, .cons hd hdel, ?_, .cons hr hreach⟩
    intro i hi
    rcases List.mem_cons.mp hi with rfl | hi
    · rw [hop]
      exact hne
    · exact hops i hi

/-- An accepted request sends at most acknowledgements. -/
theorem accepted_acts {s t : St} {inb : Inbound} (hop : ibBthGetOpcode inb.bth ≠ ibOpcodeAcknowledge)
    (h : roceRecvRc s inb = .ok (0, t)) (hpsn : t.qp.attr.rqPsn = roceQpPsnInc s.qp.attr.rqPsn) :
    ∃ acks, Acts s t acks := by
  obtain ⟨s1, msn, acks, hstep, rfl⟩ := roceRecvRc_carriedOut hop h hpsn
  have hclear : Works s { s with qp.resp.inPsnNak := false } := .responder rfl
  have hworks : Works { s with qp.resp.inPsnNak := false } s1 := by
    cases hstep with
    | send _ hs => exact hs.works
    | write _ hs =>
      cases hs with
      | @first r _ _ _ _ _ hs =>
        have hstart : Works { s with qp.resp.inPsnNak := false }
            (writeStart { s with qp.resp.inPsnNak := false } r) := .responder rfl
        exact hstart.trans hs.works
      | next _ _ hs => exact hs.works
  have hcounted : Acts s1 (s1.counted msn (acks.map .netXmit)) acks :=
    ⟨⟨acks.map .netXmit, rfl, sentPkts_xmits acks⟩, rfl, rfl⟩
  exact ⟨acks, (hclear.trans hworks).acts.silent hcounted⟩

/-- The frames of accepted requests. -/
theorem Accepts.frames {a s t : St} {inbs : List Inbound} {frames : List (List (List UInt8))}
    (hacc : Accepts s inbs t) (hj : Joined a s)
    (hreq : ∀ inb ∈ inbs, ibBthGetOpcode inb.bth ≠ ibOpcodeAcknowledge)
    (hreach : List.Forall₂ (Reaches a s) frames inbs) : Machine.run recvFrame s frames = .ok t := by
  induction hacc generalizing frames with
  | nil s =>
    cases hreach
    rfl
  | @cons s u t inb inbs h hpsn hrest ih =>
    cases hreach with
    | @cons frame _ frames _ hframe hframes =>
      obtain ⟨acks, hacts⟩ := accepted_acts (hreq inb List.mem_cons_self) h hpsn
      have hstep := hframe s rfl hj 0 u h
      rw [Machine.run_cons_ok _ _ hstep]
      refine ih (hj.acts (.refl a) hacts) (fun i hi => hreq i (List.mem_cons_of_mem _ hi)) ?_
      refine hframes.imp fun f i hr y hports => hr y (hports.trans hacts.ports)

/-! ## Placement -/

/-- The last packet of a WRITE without an immediate. -/
theorem WriteReady.ends {s t : St} {m : Message} {reth : IbReth} {first : Bool} {n : Nat} {psn : UInt32}
    {c : List UInt8} {pkt : Inbound} {len : UInt32} (h : WriteReady s first reth n) (hm : m.reth = some reth)
    (himm : m.imm = none) (hb : Bears m first true psn c pkt) (hacc : roceRecvRc s pkt = .ok (0, t))
    (hpsn : t.qp.attr.rqPsn = roceQpPsnInc s.qp.attr.rqPsn) (hin : InPages s.ctx (reth.sge len))
    (hfit : n + c.length ≤ len.toNat) :
    Serves s t [] ∧ t.qp.rq = s.qp.rq ∧
      t.ctx.mem = Scatter.store s.ctx.mem ((sgeHost s.ctx (reth.sge len)).drop n) c := by
  obtain ⟨iovs, s1, msn, acks, rfl, hstep, rfl⟩ := h.placeStep hm hb hacc hpsn
  have h0 : WriteReady { s with qp.resp.inPsnNak := false } first reth n := h
  obtain ⟨hctx, hrq, -⟩ := h0.aiming
  have hno : ¬WithImm (m.opcode first true) := by
    intro hwith
    have hsome := ((Message.withImm hm first true).mp hwith).2
    rw [himm] at hsome
    cases hsome
  cases hstep with
  | done hyes _ _ _ _ _ => exact absurd hyes hno
  | @plain dsts dmamap _ hmap =>
    refine ⟨?_, hrq, ?_⟩
    · have hwritten := (Serves.aiming s first reth).trans (Serves.written _ dsts iovs dmamap)
      exact hwritten.trans (Serves.counted _ msn acks)
    · show placeMem (St.aiming _ first reth).ctx.mem dsts iovs.flatten = _
      rw [hctx]
      exact h0.stores hmap hin hfit

/-- The packets of a WRITE without an immediate, from one of them on, when `n`
bytes are written. -/
theorem Message.Stream.stored {m : Message} {first : Bool} {psn : UInt32} {cs : List (List UInt8)}
    {pkts : List Inbound} (hst : m.Stream first psn cs pkts) {reth : IbReth} (hm : m.reth = some reth)
    (himm : m.imm = none) {s t : St} {n : Nat} {len : UInt32} (hacc : Accepts s pkts t)
    (h : WriteReady s first reth n) (hin : InPages s.ctx (reth.sge len))
    (hfit : n + cs.flatten.length = len.toNat) :
    t.ctx.mem = Scatter.store s.ctx.mem ((sgeHost s.ctx (reth.sge len)).drop n) cs.flatten ∧
      t.qp.rq = s.qp.rq ∧ Serves s t [] := by
  induction hst generalizing s n with
  | last hc hb =>
    cases hacc with
    | cons hstep hpsn hrest =>
      cases hrest
      rw [List.flatten_singleton] at hfit ⊢
      obtain ⟨hserves, hrq, hmem⟩ := h.ends hm himm hb hstep hpsn hin (Nat.le_of_eq hfit)
      exact ⟨hmem, hrq, hserves⟩
  | @more first psn c cs pkt pkts hc hb hrest ih =>
    cases hacc with
    | @cons _ u _ _ _ hstep hpsn hacc =>
      rw [List.flatten_cons, List.length_append] at hfit
      obtain ⟨hready, hserves, hrq, hmrs, -, hmem⟩ := h.goesOn hm hb hc hstep hpsn hin (by omega)
      obtain ⟨hmem', hrq', hserves'⟩ := ih hacc hready (hin.congr hmrs) (by omega)
      refine ⟨?_, hrq'.trans hrq, hserves.trans hserves'⟩
      rw [List.flatten_cons, Scatter.store_append_vals, List.drop_drop, ← hmem, ← sgeHost_congr hmrs]
      exact hmem'

theorem Carries.bears {m : Message} {first last : Bool} {psn : UInt32} {c : List UInt8} {pkt : Inbound}
    (h : Carries m first last psn c pkt) : Bears m first last psn c pkt := ⟨h.opcode, h.psn, h.body⟩

theorem Message.Packets.streams {m : Message} {first : Bool} {psn : UInt32} {cs : List (List UInt8)}
    {pkts : List Inbound} (h : m.Packets first psn cs pkts) : m.Stream first psn cs pkts := by
  induction h with
  | last hc h => exact .last hc h.bears
  | more hc h hrest ih => exact .more hc h.bears ih

/-! ## The WRITE as a whole -/

/-- The completion of the receive WR that a WRITE with an immediate takes. -/
def SendWr.immWc (wr : SendWr) (qp : RoceQp) (wrId : UInt64) : RoceWc where
  wrId := wrId
  status := roceWcSuccess
  opcode := .recvRdmaWithImm
  byteLen := UInt32.ofNat wr.len
  localQpn := qp.handle
  remoteQpn := qp.attr.destQpNum
  immData := wr.imm
  wcFlags := roceWcWithImm

/-- A receive WR is posted. -/
def RecvPosted (s : St) (p : UInt64) (recv : RecvWr) : Prop :=
  s.qp.rq.head? = some p ∧ s.ctx.recvWrs p = some recv

/-- The bytes are at the addresses of the WR in `mr`; no other byte changed.  Only
an immediate takes a receive WR, and completes it once. -/
structure Landed (s t : St) (wr : SendWr) (mr : RoceMr) (bytes : List UInt8) : Prop where
  stored : ∀ i (hi : i < bytes.length), t.ctx.mem (mr.host (wr.remoteAddr.toNat + i)) = bytes[i]
  others : ∀ a, (∀ i < bytes.length, a ≠ mr.host (wr.remoteAddr.toNat + i)) → t.ctx.mem a = s.ctx.mem a
  plain : wr.opcode = .rdmaWrite → t.qp.rq = s.qp.rq ∧ recvSince s t = []
  withImm : wr.opcode = .rdmaWriteWithImm → ∃ p recv rest, s.qp.rq = p :: rest ∧
    s.ctx.recvWrs p = some recv ∧ t.qp.rq = rest ∧
    recvSince s t = [.popRecv p, .cqComp (wr.immWc s.qp recv.wrId) s.qp.rcq, .freeRecv p]

section lands

variable {a a' b : St} {wr : SendWr} {mr : RoceMr} {calloc : Nat → Bool}

/-- **The peer takes the packets.** -/
theorem WriteTrain.accepted {s : St} {bytes : List UInt8} {pkts : List RoceNetpkt} {inbs : List Inbound}
    (htrain : WriteTrain a wr bytes pkts) (hop : wr.Writes) (htarget : WriteTarget s wr mr)
    (hrc : s.qp.qpType = .rc) (hl : Listening s) (hidle : RespIdle s)
    (hpsn : s.qp.attr.rqPsn.toNat = a.qp.req.psn.toNat % psnMod)
    (hrecv : wr.opcode = .rdmaWriteWithImm → ∃ p recv, RecvPosted s p recv)
    (hdel : List.Forall₂ Delivered pkts inbs) :
    ∃ t, Accepts s inbs t ∧ Landed s t wr mr bytes := by
  have hreth := hop.reth (UInt32.ofNat wr.len)
  have hfit := htrain.short
  have hdmalen : wr.target.length.toNat = wr.len := WriteTarget.length_eq hfit
  have hdmalen : (UInt32.ofNat wr.len).toNat = wr.len := hdmalen
  have hpayloads : (wr.message (UInt32.ofNat wr.len) pkts).payloads.flatten = bytes := htrain.payload
  have htotal : (wr.message (UInt32.ofNat wr.len) pkts).total = wr.len := by
    unfold Message.total
    rw [hpayloads, htrain.length]
  have hm : (wr.message (UInt32.ofNat wr.len) pkts).reth =
      some ⟨wr.remoteAddr, wr.rkey, UInt32.ofNat wr.len⟩ := hreth
  have hpsns : psnsOf pkts = Serial.seq psnMod s.qp.attr.rqPsn.toNat pkts.length := by
    rw [htrain.psns, hpsn, Serial.seq_mod]
  have hlt : s.qp.attr.rqPsn.toNat < psnMod := by
    rw [hpsn]
    exact Nat.mod_lt _ (by decide)
  have hpackets := htrain.fragments.packets hdel hlt hpsns
  have himm : (wr.message (UInt32.ofNat wr.len) pkts).imm.isSome = true → wr.opcode = .rdmaWriteWithImm := by
    intro hsome
    refine hop.resolve_left fun hplain => ?_
    have hnone : (wr.message (UInt32.ofNat wr.len) pkts).imm = none := SendWr.immdt_plain hplain
    rw [hnone] at hsome
    cases hsome
  have hprov : Provided s (wr.message (UInt32.ofNat wr.len) pkts).outline s.qp.rq := by
    unfold Provided
    rw [Message.outline_reth, hm]
    exact ⟨fun d hd => (htarget.pieces hfit hpackets htotal hd).1, fun hsome => hrecv (himm hsome)⟩
  have hlands : MessageLands s (wr.message (UInt32.ofNat wr.len) pkts).outline s.qp.rq := by
    unfold MessageLands
    rw [Message.outline_reth, hm]
    exact fun d hd => (htarget.pieces hfit hpackets htotal hd).2
  have hwf : (wr.message (UInt32.ofNat wr.len) pkts).WellFormed s.qp.attr.rqPsn inbs := by
    refine ⟨hpackets, ?_⟩
    intro reth hr
    obtain rfl := Option.some.inj (hm.symm.trans hr)
    rw [htotal]
    exact hdmalen
  obtain ⟨t, hacc, -⟩ := recvMessage_ok hl hidle hwf htarget.power hprov hlands
  -- where the bytes went
  have hready : WriteReady s true ⟨wr.remoteAddr, wr.rkey, UInt32.ofNat wr.len⟩ 0 :=
    Or.inl ⟨rfl, hidle.writtenlen, rfl⟩
  have hin : InPages s.ctx wr.target := ⟨mr, htarget.grants.live, htarget.paged, htarget.range⟩
  obtain ⟨hstored, hothers⟩ :=
    htarget.paged.replaces htarget.apart htarget.range htarget.grants.live (htrain.length.trans hdmalen.symm)
  have hsum : 0 + (pkts.map (·.payload.flatten)).flatten.length = (UInt32.ofNat wr.len).toNat := by
    rw [Nat.zero_add, htrain.payload, htrain.length, hdmalen]
  refine ⟨t, hacc, ?_⟩
  rcases hop with hop | hop
  · have hnone : (wr.message (UInt32.ofNat wr.len) pkts).imm = none := SendWr.immdt_plain hop
    obtain ⟨hmem, hrq, hserves⟩ := hpackets.streams.stored hm hnone hacc hready hin hsum
    rw [htrain.payload, List.drop_zero] at hmem
    refine ⟨hmem ▸ hstored, hmem ▸ hothers, fun _ => ⟨hrq, hserves.recvSince⟩, ?_⟩
    intro hwith
    rw [hop] at hwith
    cases hwith
  · have hsome : (wr.message (UInt32.ofNat wr.len) pkts).imm = some wr.imm := SendWr.immdt_withImm hop
    obtain ⟨hmem, p, recv, rest, hqueue, hlive, htail, hserves⟩ :=
      hpackets.streams.written hm (by rw [hsome]; rfl) hacc hready hrc hin hsum
    rw [htrain.payload, List.drop_zero] at hmem
    refine ⟨hmem ▸ hstored, hmem ▸ hothers, ?_, fun _ => ⟨p, recv, rest, hqueue, hlive, htail, ?_⟩⟩
    · intro hplain
      rw [hop] at hplain
      cases hplain
    · have hwc : (wr.message (UInt32.ofNat wr.len) pkts).wc s.qp recv.wrId (UInt32.ofNat wr.len) =
          wr.immWc s.qp recv.wrId := by
        unfold Message.wc SendWr.immWc
        rw [hm, hsome]
        rfl
      rw [hserves.recvSince, hwc]

/-- **An RDMA WRITE from memory to memory.**  The frames of its packets put the
bytes of the SGEs to the addresses of the WR at the peer. -/
theorem rocePostSend_lands (hj : Joined a b) (hop : wr.Writes) (hsrc : WriteSource a wr calloc)
    (htarget : WriteTarget b wr mr) (hl : Listening b) (hidle : RespIdle b)
    (hpsn : b.qp.attr.rqPsn.toNat = a.qp.req.psn.toNat % psnMod)
    (hrecv : wr.opcode = .rdmaWriteWithImm → ∃ p recv, RecvPosted b p recv)
    (hpost : rocePostSend a wr.fresh calloc = .ok a') :
    ∃ pkts, a'.qp.req.queued = a.qp.req.queued ++ pkts ∧
      ∀ frames : List (List (List UInt8)),
        List.Forall₂ (fun frame pkt => frame.flatten = pkt.iovs.flatten) frames pkts →
        ∃ b', run recvFrame b frames = .ok b' ∧ Landed b b' wr mr (wr.data a.ctx).bytes := by
  obtain ⟨pkts, hqueued, htrain⟩ := rocePostSend_writes hj.rc hj.mtus hop hsrc hpost
  refine ⟨pkts, hqueued, fun frames hframes => ?_⟩
  obtain ⟨inbs, hdel, hreq, hreach⟩ := addressed_reach hj htrain.requests hframes
  obtain ⟨b', hacc, hlanded⟩ := htrain.accepted hop htarget hj.rc' hl hidle hpsn hrecv hdel
  exact ⟨b', hacc.frames hj hreq hreach, hlanded⟩

end lands

/-- The side that writes has a page of other bytes. -/
def writeFrom : St := ⟨{ withMr smallCtx smallMr with mem := UInt8.ofNat }, pairSt.qp⟩

def writeInto : St := ⟨withMr smallCtx smallMr, pairSt.qp⟩

/-- A WRITE of three bytes that are inside of the page. -/
def pageWrite : SendWr :=
  { smallSend 1 .rdmaWrite with
    sendFlags := roceSendSignaled, remoteAddr := 0x10ffd, sge := [⟨0x10005, 1, 0⟩, ⟨0x10007, 2, 0⟩] }

/-- They go to the end of the page. -/
theorem rocePostSend_lands_page :
    ∃ a' pkts, rocePostSend writeFrom pageWrite.fresh (fun _ => true) = .ok a' ∧ a'.qp.req.queued = pkts ∧
      ∃ b', run recvFrame writeInto (pkts.map (·.iovs)) = .ok b' ∧
        ∃ mr : RoceMr, Landed writeInto b' pageWrite mr [5, 7, 8] := by
  have hj : Joined writeFrom writeInto := by
    have ha : Acts pairSt writeFrom [] := ⟨⟨[], rfl, rfl⟩, rfl, rfl⟩
    have hb : Acts pairSt writeInto [] := ⟨⟨[], rfl, rfl⟩, rfl, rfl⟩
    exact pairSt_connected.there.acts ha hb
  obtain ⟨mr, hlive, htype, hiova, hlength, hiovs, hsize, hlkey, hrkey, hpd, hvalid, haccess⟩ : ∃ mr,
      roceGetMrNoref writeInto.ctx (roceKeyToIndex 0) = some mr ∧ mr.type = .mem ∧ mr.iova = 0x10000 ∧
        mr.length = 4096 ∧ mr.iovs = [⟨0x10000, 4096⟩] ∧ mr.pageSize = 4096 ∧ mr.lkey = 0 ∧ mr.rkey = 0 ∧
        mr.pd = 0 ∧ mr.state = .valid ∧ mr.access = 3 :=
    ⟨_, rfl, rfl, rfl, rfl, rfl, rfl, rfl, rfl, rfl, rfl, rfl⟩
  have hpaged : mr.Paged := by
    refine ⟨htype, ?_, ?_⟩
    · rw [hiovs, hsize]
      decide
    · rw [hiovs, hsize, hiova, hlength]
      decide
  have hspace : mr.iova.toNat + mr.length.toNat < 2 ^ 64 := by
    rw [hiova, hlength]
    decide
  have hsrc : WriteSource writeFrom pageWrite (fun _ => true) := by
    refine ⟨(by rintro ⟨⟩), ?_, Or.inl rfl⟩
    intro _ g hg
    have hg : g = ⟨0x10005, 1, 0⟩ ∨ g = ⟨0x10007, 2, 0⟩ := by
      rcases List.mem_cons.mp hg with hg | hg
      · exact Or.inl hg
      · exact Or.inr (List.mem_singleton.mp hg)
    rcases hg with rfl | rfl
    · refine ⟨mr, ⟨hlive, hlkey, hpd, hvalid, by rw [haccess]; decide⟩, hpaged, ?_, hspace⟩
      unfold InRange
      rw [hiova, hlength]
      decide
    · refine ⟨mr, ⟨hlive, hlkey, hpd, hvalid, by rw [haccess]; decide⟩, hpaged, ?_, hspace⟩
      unfold InRange
      rw [hiova, hlength]
      decide
  have htarget : WriteTarget writeInto pageWrite mr := by
    refine ⟨⟨hlive, hrkey, hpd, hvalid, by rw [haccess]; decide⟩, hpaged, ?_, ?_, hspace, hsize, by decide,
      by decide, ?_, by decide, (by rintro ⟨⟩)⟩
    · rw [hiovs]
      exact List.pairwise_singleton _ _
    · unfold InRange
      rw [hiova, hlength]
      decide
    · rw [hiovs]
      decide
  have hlisten : Listening writeInto :=
    ⟨⟨rfl, smallPort, Vector.replicate 16 0, rfl, rfl⟩, pdsLive_one rfl (Option.some_ne_none _),
      List.nodup_nil, List.not_mem_nil⟩
  have hok : (rocePostSend writeFrom pageWrite.fresh (fun _ => true)).toOption.isSome = true := by
    decide +kernel
  cases hpost : rocePostSend writeFrom pageWrite.fresh (fun _ => true) with
  | error e =>
    rw [hpost] at hok
    cases hok
  | ok a' =>
    obtain ⟨pkts, hqueued, hlands⟩ := rocePostSend_lands hj (Or.inl rfl) hsrc htarget hlisten ⟨rfl, rfl⟩ rfl
      (by rintro ⟨⟩) hpost
    have hsame : List.Forall₂ (fun frame (pkt : RoceNetpkt) => frame.flatten = pkt.iovs.flatten)
        (pkts.map (·.iovs)) pkts := by
      rw [List.forall₂_map_left_iff]
      exact List.forall₂_same.mpr fun _ _ => rfl
    obtain ⟨b', hrun, hlanded⟩ := hlands _ hsame
    exact ⟨a', pkts, rfl, hqueued, b', hrun, mr, hlanded⟩

end Libroce
