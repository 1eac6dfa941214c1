import Libroce.RequesterWindow

/-!
# Who asks for an acknowledgement

The acknowledge-request bit is set when a packet is built: on the last packet
of its request, and on every packet whose PSN is a multiple of
`ROCE_MAX_OUTGOING_PACKETS`.  The window slides independently of that.  A full
window has nine consecutive PSNs, one of which is such a multiple; in any
other window the last packet is the last of its request.

    every packet queued: Asks  →  Filled  →  some outgoing packet asks  (Asks.outgoing)
-/

namespace Libroce

/-! ## The bit on the queued packets -/

def RoceNetpkt.asks (pkt : RoceNetpkt) : Bool := ibBthGetAck pkt.bth

/-- Every eighth PSN asks, and so does the last packet. -/
structure Asks (pkts : List RoceNetpkt) : Prop where
  eighth : ∀ pkt ∈ pkts, (roceNetpktPsn pkt).toNat % 8 = 0 → pkt.asks = true
  last : ∀ pkt ∈ pkts.getLast?, pkt.asks = true

theorem Asks.nil : Asks [] := ⟨by simp, by simp⟩

theorem Asks.append {ps qs : List RoceNetpkt} (hp : Asks ps) (hq : Asks qs) : Asks (ps ++ qs) := by
  constructor
  · intro pkt hmem h8
    rcases List.mem_append.mp hmem with hmem | hmem
    · exact hp.eighth pkt hmem h8
    · exact hq.eighth pkt hmem h8
  · intro pkt hl
    rw [List.getLast?_append] at hl
    cases hlast : qs.getLast? with
    | none =>
      rw [hlast, Option.none_or] at hl
      exact hp.last pkt hl
    | some q =>
      rw [hlast, Option.some_or] at hl
      obtain rfl := Option.some.inj hl
      exact hq.last q hlast

theorem Asks.drop {ps : List RoceNetpkt} (h : Asks ps) (n : Nat) : Asks (ps.drop n) := by
  constructor
  · intro pkt hmem h8
    exact h.eighth pkt (List.mem_of_mem_drop hmem) h8
  · intro pkt hl
    rw [List.getLast?_drop] at hl
    split at hl
    · cases hl
    · exact h.last pkt hl

/-! ## What the builders give -/

section packet

variable {ctx : RoceCtx} {qp : RoceQp} {o : Option Nat} {opcode : UInt8} {ext : List UInt8}
  {padcnt : UInt8} {ack : Bool} {psn : UInt32} {payload : List (List UInt8)} {mtu : UInt16}
  {pkt : RoceNetpkt}

theorem IsRequest.asks_eq (h : IsRequest ctx qp o opcode ext padcnt ack psn payload pkt) :
    pkt.asks = ack := by
  obtain ⟨se, hb⟩ := h.packet.bth_eq
  unfold RoceNetpkt.asks
  rw [hb, ibBthGetAck_setBth]

theorem multiAck_of_eighth (h : (psn.toNat % psnMod) % 8 = 0) : multiAck psn = true := by
  have h8 : roceMaxOutgoingPackets.toNat = 8 := rfl
  unfold multiAck psnMod at *
  rw [beq_iff_eq, ← UInt32.toNat_inj, UInt32.toNat_mod, h8]
  show psn.toNat % 8 = 0
  omega

theorem IsPart.asks {sges : List RoceSge} (h : IsPart ctx qp sges opcode ext mtu psn pkt)
    (h8 : (roceNetpktPsn pkt).toNat % 8 = 0) : pkt.asks = true := by
  obtain ⟨bytes, hreq, -⟩ := h
  rw [hreq.packet.psn_eq] at h8
  rw [hreq.asks_eq, multiAck_of_eighth h8]

end packet

theorem Asks.single {pkt : RoceNetpkt} (h : pkt.asks = true) : Asks [pkt] := by
  constructor
  · intro p hp _
    rw [List.mem_singleton.mp hp, h]
  · intro p hp
    obtain rfl := Option.some.inj hp
    exact h

/-- The packets of any request. -/
theorem Shaped.asks {ctx : RoceCtx} {qp : RoceQp} {wr : SendWr} {pkts : List RoceNetpkt}
    (h : Shaped ctx qp wr pkts) : Asks pkts := by
  cases h with
  | only hmtu hlen hk hreq hb hin hle => exact .single hreq.asks_eq
  | several hmtu hlen hk hm =>
    obtain ⟨first, mids, last, rfl, ⟨p, hfirst⟩, hmids, rest, psn, bytes, hlast, -⟩ := hm.parts
    have hask : last.asks = true := hlast.asks_eq
    constructor
    · intro pkt hmem h8
      rcases List.mem_append.mp hmem with hmem | hmem
      · rcases List.mem_cons.mp hmem with rfl | hmem
        · exact hfirst.asks h8
        · obtain ⟨p', hmid⟩ := hmids pkt hmem
          exact hmid.asks h8
      · rw [List.mem_singleton.mp hmem, hask]
    · intro pkt hl
      rw [List.getLast?_concat] at hl
      obtain rfl := Option.some.inj hl
      exact hask

/-! ## Runs -/

theorem reqPrepare_asks {s t : St} {op : ReqOp} (h : Asks s.qp.req.queued)
    (hp : reqPrepare s op = .ok (some t)) : Asks t.qp.req.queued := by
  cases op with
  | post wr calloc =>
    obtain ⟨qp, wr2, hposted, hqp, -⟩ := rocePostSend_prepare hp
    have hq : t.qp.req.queued = qp.req.queued := by rw [hqp]
    rw [hq]
    cases hposted with
    | failed e he m => exact h
    | skipped m hs => exact h
    | queued m pkts ht hop hs =>
      show Asks (s.qp.req.outgoingPkts ++ (s.qp.req.pendingPkts ++ pkts))
      rw [← List.append_assoc]
      exact h.append hs.asks
  | acknowledge syndrome val psn msn =>
    obtain ⟨n, hn, hreq, -⟩ := acknowledge_drops hp
    have hq : t.qp.req.queued = s.qp.req.queued.drop n := by
      rw [hreq]
      show s.qp.req.outgoingPkts.drop n ++ s.qp.req.pendingPkts = _
      rw [RoceRequester.queued, List.drop_append_of_le_length hn]
    rw [hq]
    exact h.drop n

theorem reqStep_asks {s s' : St} {op : ReqOp} (hrc : s.qp.qpType = .rc)
    (h : Asks s.qp.req.queued) (hs : reqStep s op = .ok s') : Asks s'.qp.req.queued := by
  rcases reqStep_ok hrc hs with ⟨-, rfl⟩ | ⟨t, u, hp, hx, rfl⟩
  · exact h
  · have hu : Asks u.qp.req.queued := by
      rw [(roceXmitPkts_ok hx).queued]
      exact reqPrepare_asks h hp
    cases op with
    | post wr calloc => exact hu
    | acknowledge syndrome val psn msn => exact hu

/-- One of nine consecutive numbers is a multiple of eight, also across the wrap. -/
theorem exists_eighth (sqPsn : Nat) : ∃ i < 9, ((sqPsn + i) % psnMod) % 8 = 0 := by
  refine ⟨(8 - sqPsn % 8) % 8, ?_, ?_⟩
  · omega
  · unfold psnMod
    omega

/-- A window that is full or has nothing waiting behind it. -/
theorem Asks.outgoing {qp : RoceQp} (h : Asks qp.req.queued) (hw : Filled qp)
    (hne : qp.req.outgoingPkts ≠ []) : ∃ pkt ∈ qp.req.outgoingPkts, pkt.asks = true := by
  by_cases hpend : qp.req.pendingPkts = []
  · have hq : qp.req.queued = qp.req.outgoingPkts := by
      rw [RoceRequester.queued, hpend, List.append_nil]
    have hlast := h.last
    rw [hq, List.getLast?_eq_getLast_of_ne_nil hne] at hlast
    exact ⟨_, List.getLast_mem hne, hlast _ rfl⟩
  · obtain ⟨i, hi, h8⟩ := exists_eighth qp.attr.sqPsn.toNat
    have hlt : i < qp.req.outgoingPkts.length := by rw [hw.full hpend]; exact hi
    have hpsn := hw.counted.outgoingPsn hlt
    have hmem : qp.req.outgoingPkts[i] ∈ qp.req.outgoingPkts := List.getElem_mem hlt
    refine ⟨_, hmem, h.eighth _ ?_ (by rw [hpsn]; exact h8)⟩
    exact List.mem_append_left _ hmem

/-- An RC QP whose SQ PSN `roce_modify_qp` set last, to any value. -/
structure SqPsnGiven (s : St) : Prop where
  rc : s.qp.qpType = .rc
  modified : ∃ qp0 attr attrMask, roceModifyQp s.ctx qp0 attr attrMask = .ok (0, s.qp) ∧
    attrMask &&& roceQpSqPsn ≠ 0

theorem SqPsnGiven.empty {s : St} (h : SqPsnGiven s) : Filled s.qp ∧ s.qp.req.queued = [] := by
  obtain ⟨qp0, attr, attrMask, hm, hbit⟩ := h.modified
  obtain ⟨hpsn, hreq, -⟩ := roceModifyQp_sq hm hbit
  refine ⟨filled_of_empty ?_ ?_ ?_, ?_⟩
  · rw [hreq, hpsn]
  · rw [hreq]
  · rw [hreq]
  · rw [hreq]
    rfl

/-- **No silent stall.**  Between the operations of every run some outgoing
packet asks for an acknowledgement, if any is outgoing. -/
theorem reqRun_asks (s : St) (h0 : SqPsnGiven s) (ops : List ReqOp) :
    Machine.Throughout reqStep (fun t => t.qp.req.outgoingPkts ≠ [] →
      ∃ pkt ∈ t.qp.req.outgoingPkts, ibBthGetAck pkt.bth = true) s ops := by
  obtain ⟨hw, hq⟩ := h0.empty
  have hall : Machine.Throughout reqStep
      (fun t => (t.qp.qpType = .rc ∧ Filled t.qp) ∧ Asks t.qp.req.queued) s ops := by
    apply Machine.throughout_of_inv
    · rintro t op t' ⟨hf, ha⟩ hs
      exact ⟨reqStep_filled hf hs, reqStep_asks hf.1 ha hs⟩
    · refine ⟨⟨h0.rc, hw⟩, ?_⟩
      rw [hq]
      exact .nil
  exact Machine.throughout_imp (fun t ht => ht.2.outgoing ht.1.2) hall

/-- Two posts below the wrap, and the acknowledgement of the first. -/
theorem reqRun_asks_two :
    Machine.Throughout reqStep (fun t => t.qp.req.outgoingPkts ≠ [] →
      ∃ pkt ∈ t.qp.req.outgoingPkts, ibBthGetAck pkt.bth = true) (smallStart 5)
      [.post (smallSend 1 .send) fun _ => true, .post (smallSend 2 .rdmaWrite) fun _ => true,
        .acknowledge .ack 0 5 0] :=
  reqRun_asks (smallStart 5)
    ⟨rfl, smallQp, { smallQp.attr with sqPsn := 5 }, roceQpSqPsn, rfl, by decide⟩ _

end Libroce
