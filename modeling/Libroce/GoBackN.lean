import Libroce.RequesterCalls

/-!
# Acknowledgements and go-back-N

`roce_handle_ack` accepts a PSN by its distance from the SQ PSN and from the
next PSN, not by the packets that are outgoing.  An ACK ahead of the last
outgoing packet passes both comparisons when the packet it names waits in the
pending queue, and also when it names the next PSN.

    accepted, with a packet outgoing  →  the state changes   (roceHandleAck_same_iff)

Main statements:
* `roceHandleAck_expected` — an ACK does nothing unless it names an outgoing
  packet, exactly when it is `AckApart` from the packets behind those.
* `roceHandleNak_exact` — a NAK completes what is before it and sends the rest
  again, up to the end of the window.
-/

namespace Libroce

open Machine (bind_eq_ok run)

/-! ## Unexpected ACKs -/

/-- `psn` belongs to a packet that was sent and is outgoing. -/
def Outstanding (s : St) (psn : UInt32) : Prop :=
  ∃ pkt ∈ s.qp.req.outgoingPkts, roceNetpktPsn pkt = psn ∧ .netXmit pkt ∈ s.ctx.trace

/-- An ACK that names no such packet is ignored. -/
def AckExpected (s : St) (psn : UInt32) : Prop := Outstanding s psn ∨ roceHandleAck s psn = .ok s

/-- The ACK is before the SQ PSN or the first outgoing packet, behind the next
PSN, or less than the outgoing packets ahead. -/
def AckApart (qp : RoceQp) (psn : UInt32) : Prop :=
  ∀ head ∈ qp.req.outgoingPkts.head?,
    roceComparePsn qp.attr.sqPsn psn > 0 ∨ roceComparePsn qp.req.psn psn < 0 ∨
      roceComparePsn (roceNetpktPsn head) psn > 0 ∨
      Serial.dist psnMod psn.toNat (roceNetpktPsn head).toNat < qp.req.outgoingPkts.length

/-- Completing a packet leaves fewer outgoing. -/
theorem ackLoop_shorter {psn : UInt32} {pkts : List RoceNetpkt} {s t : St}
    (hout : s.qp.req.outgoingPkts = pkts) (h : ackLoop psn pkts s = .ok t) :
    t.qp.req.outgoingPkts.length ≤ pkts.length := by
  refine ackLoop_inv (P := fun v => v.qp.req.outgoingPkts.length ≤ pkts.length) ?_ ?_ hout h
  · intro v pkt rest v' hv hv' hc
    rw [hv', List.length_cons] at hv
    rcases roceRcCompleteSendWr_ok hc with ⟨-, rfl⟩ | ⟨wr, sq, reports, ctx, -, -, -, -, rfl⟩
    · show rest.length ≤ _
      omega
    · show rest.length ≤ _
      omega
  · exact Nat.le_of_eq (congrArg List.length hout)

/-- When a packet is outgoing, an ACK is ignored or completes it. -/
theorem roceHandleAck_same_iff {s : St} {psn : UInt32} {head : RoceNetpkt} {rest : List RoceNetpkt}
    (hout : s.qp.req.outgoingPkts = head :: rest) :
    roceHandleAck s psn = .ok s ↔
      roceComparePsn s.qp.attr.sqPsn psn > 0 ∨ roceComparePsn s.qp.req.psn psn < 0 ∨
        roceComparePsn (roceNetpktPsn head) psn > 0 := by
  unfold roceHandleAck
  by_cases h1 : roceComparePsn s.qp.attr.sqPsn psn > 0
  · rw [if_pos h1]
    exact iff_of_true rfl (Or.inl h1)
  · rw [if_neg h1]
    by_cases h2 : roceComparePsn s.qp.req.psn psn < 0
    · rw [if_pos h2]
      exact iff_of_true rfl (Or.inr (Or.inl h2))
    · rw [if_neg h2, hout, ackLoop]
      by_cases h3 : roceComparePsn (roceNetpktPsn head) psn > 0
      · rw [if_pos h3]
        exact iff_of_true rfl (Or.inr (Or.inr h3))
      · rw [if_neg h3]
        refine iff_of_false ?_ (by simp [h1, h2, h3])
        intro hsame
        split at hsame
        · cases hsame
        · next u hu =>
          have hrest : u.qp.req.outgoingPkts = rest := by
            rcases roceRcCompleteSendWr_ok hu with ⟨-, rfl⟩ | ⟨wr, sq, reports, ctx, -, -, -, -, rfl⟩
            · rfl
            · rfl
          have hlen := ackLoop_shorter hrest hsame
          rw [hout, List.length_cons] at hlen
          omega

theorem Row.outgoingPsns {s : St} (h : Row s) {head : RoceNetpkt} {rest : List RoceNetpkt}
    (hout : s.qp.req.outgoingPkts = head :: rest) :
    psnsOf s.qp.req.outgoingPkts =
      Serial.seq psnMod (roceNetpktPsn head).toNat s.qp.req.outgoingPkts.length := by
  obtain ⟨b, hpsns, -⟩ := h.consecutive
  rw [RoceRequester.queued, psnsOf_append, List.length_append, Serial.seq_append] at hpsns
  have hpre := (List.append_inj hpsns (by simp [psnsOf])).1
  have hhead := hpre
  rw [hout, List.length_cons, Serial.seq_succ] at hhead
  have hb : (roceNetpktPsn head).toNat = b % psnMod := (List.cons.inj hhead).1
  rw [hpre, hb, Serial.seq_mod]

/-- The outgoing packets, by distance from the first. -/
theorem Row.outstanding_iff {s : St} (h : Row s) {psn : UInt32} (h24 : psn.toNat < psnMod)
    {head : RoceNetpkt} {rest : List RoceNetpkt} (hout : s.qp.req.outgoingPkts = head :: rest) :
    Outstanding s psn ↔
      Serial.dist psnMod psn.toNat (roceNetpktPsn head).toNat < s.qp.req.outgoingPkts.length := by
  have hmem : psn.toNat ∈ psnsOf s.qp.req.outgoingPkts ↔
      Serial.dist psnMod psn.toNat (roceNetpktPsn head).toNat < s.qp.req.outgoingPkts.length := by
    rw [h.outgoingPsns hout, Serial.mem_seq (by decide)]
    exact and_iff_right h24
  rw [← hmem]
  unfold psnsOf
  rw [List.mem_map]
  constructor
  · rintro ⟨pkt, hpkt, rfl, -⟩
    exact ⟨pkt, hpkt, rfl⟩
  · rintro ⟨pkt, hpkt, hpsn⟩
    exact ⟨pkt, hpkt, UInt32.toNat_inj.mp hpsn, h.sent pkt hpkt⟩

theorem Row.ackExpected_iff {s : St} (h : Row s) {psn : UInt32} (h24 : psn.toNat < psnMod) :
    AckExpected s psn ↔ AckApart s.qp psn := by
  unfold AckExpected AckApart
  cases hout : s.qp.req.outgoingPkts with
  | nil =>
    have hsame : roceHandleAck s psn = .ok s := by
      unfold roceHandleAck
      rw [hout, ackLoop]
      split
      · rfl
      · split
        · rfl
        · rfl
    exact iff_of_true (Or.inr hsame) (by simp)
  | cons head rest =>
    rw [roceHandleAck_same_iff hout, h.outstanding_iff h24 hout, hout]
    simp only [List.head?_cons, Option.mem_def, Option.some.injEq, forall_eq']
    constructor
    · rintro (hd | h1 | h2 | h3)
      · exact Or.inr (Or.inr (Or.inr hd))
      · exact Or.inl h1
      · exact Or.inr (Or.inl h2)
      · exact Or.inr (Or.inr (Or.inl h3))
    · rintro (h1 | h2 | h3 | hd)
      · exact Or.inr (Or.inl h1)
      · exact Or.inr (Or.inr (Or.inl h2))
      · exact Or.inr (Or.inr (Or.inr h3))
      · exact Or.inl hd

/-- **ACKs.**  In every state that an RC QP reaches, an ACK changes nothing unless
it names an outgoing packet, exactly when it is apart from what follows those. -/
theorem roceHandleAck_expected (s t : St) (hrc : s.qp.qpType = .rc) (hempty : s.qp.req.queued = [])
    (es : List QpEvent) (hr : run qpEvent s es = .ok t) (psn : UInt32) (h24 : psn.toNat < psnMod) :
    AckExpected t psn ↔ AckApart t.qp psn :=
  (qpRun_row hrc hempty hr).ackExpected_iff h24

/-- One SEND of one packet. -/
def oneSend : List QpEvent := [.call (.postSend (smallSend 1 .send) fun _ => true)]

/-- One packet is outgoing, PSN 0, and an ACK for the next PSN completes it. -/
theorem roceHandleAck_expected_next :
    ∃ t, run qpEvent (smallStart 0) oneSend = .ok t ∧
      t.qp.req.psn = 1 ∧ ¬AckExpected t 1 := by
  refine ⟨_, rfl, rfl, ?_⟩
  rintro (⟨pkt, hmem, hpsn, -⟩ | hsame)
  · obtain rfl := List.mem_singleton.mp hmem
    exact absurd hpsn (by decide)
  · have hlen := congrArg (fun r => r.toOption.map fun t : St => t.qp.req.outgoingPkts.length) hsame
    exact absurd hlen (by decide)

/-- The ACK for the packet itself. -/
theorem roceHandleAck_expected_one :
    ∃ t, run qpEvent (smallStart 0) oneSend = .ok t ∧
      AckExpected t 0 := by
  refine ⟨_, rfl, ?_⟩
  refine (roceHandleAck_expected (smallStart 0) _ rfl rfl oneSend rfl 0 (by decide)).mpr ?_
  intro head hhead
  obtain rfl := Option.some.inj hhead
  exact Or.inr (Or.inr (Or.inr (by decide)))

/-! ## Completion, packet by packet -/

/-- The packet that left the outgoing queue. -/
def Event.ackedPkt : Event → Option RoceNetpkt
  | .acked pkt => some pkt
  | _ => none

def ackedPkts (es : List Event) : List RoceNetpkt := es.filterMap Event.ackedPkt

@[simp] theorem ackedPkts_append (es fs : List Event) : ackedPkts (es ++ fs) = ackedPkts es ++ ackedPkts fs :=
  List.filterMap_append

theorem ackedPkts_map {α : Type} (f : α → Event) (xs : List α) (h : ∀ x, (f x).ackedPkt = none) :
    ackedPkts (xs.map f) = [] := by
  apply List.filterMap_eq_nil_iff.mpr
  intro e he
  obtain ⟨x, -, rfl⟩ := List.mem_map.mp he
  exact h x

/-- The packets completed between two states. -/
def ackedSince (s t : St) : List RoceNetpkt := ackedPkts (t.ctx.trace.drop s.ctx.trace.length)

/-- From `s` to `t` the first `n` outgoing packets were completed. -/
structure TakesOff (s t : St) (n : Nat) : Prop where
  few : n ≤ s.qp.req.outgoingPkts.length
  req : t.qp.req = { s.qp.req with outgoingPkts := s.qp.req.outgoingPkts.drop n }
  attr : t.qp.attr = { s.qp.attr with sqPsn := psnAfter s.qp.attr.sqPsn n }
  trace : ∃ es, t.ctx.trace = s.ctx.trace ++ es ∧ sentPkts es = [] ∧
    ackedPkts es = s.qp.req.outgoingPkts.take n

theorem TakesOff.refl (s : St) : TakesOff s s 0 :=
  ⟨Nat.zero_le _, rfl, rfl, [], (List.append_nil _).symm, rfl, rfl⟩

theorem TakesOff.trans {s t u : St} {m n : Nat} (h1 : TakesOff s t m) (h2 : TakesOff t u n) :
    TakesOff s u (m + n) := by
  obtain ⟨es, hes, hsent, hacked⟩ := h1.trace
  obtain ⟨fs, hfs, hsent', hacked'⟩ := h2.trace
  have hfew := h1.few
  have hfew' := h2.few
  rw [h1.req] at hfew' hacked'
  simp only at hfew' hacked'
  rw [List.length_drop] at hfew'
  refine ⟨by omega, ?_, ?_, es ++ fs, ?_, ?_, ?_⟩
  · rw [h2.req, h1.req]
    simp only
    rw [List.drop_drop]
  · rw [h2.attr, h1.attr]
    simp only
    rw [psnAfter_add]
  · rw [hfs, hes, List.append_assoc]
  · rw [sentPkts_append, hsent, hsent']
    rfl
  · rw [ackedPkts_append, hacked, hacked', ← List.take_add]

theorem completionEvents_unacked {qp : RoceQp} {wr : SendWr} {es : List Event}
    (h : completionEvents qp wr = .ok es) : ackedPkts es = [] := by
  rcases completionEvents_ok h with ⟨-, len, -, rfl⟩ | ⟨-, rfl⟩
  · rfl
  · rfl

/-- The WRs that complete with a packet are no packets. -/
theorem roceRcCompleteSendWr_unacked {s t : St} {pkt : RoceNetpkt}
    (h : roceRcCompleteSendWr s pkt = .ok t) :
    ∃ es, t.ctx.trace = s.ctx.trace ++ es ∧ ackedPkts es = [] := by
  have hleave : ∀ wrs : List SendWr, ackedPkts (wrs.map .leaveSq) = [] :=
    fun wrs => ackedPkts_map _ wrs fun _ => rfl
  rcases roceRcCompleteSendWr_ok h with ⟨-, rfl⟩ | ⟨wr, sq, reports, ctx, -, -, hreports, hfree, rfl⟩
  · exact ⟨_, rfl, hleave _⟩
  · have hctx : ctx.trace = ((roceCompleteHead s).emit (.leaveSq wr :: reports)).ctx.trace := by
      have hrefs := roceFreeSendWr_refsOnly hfree
      unfold RefsOnly at hrefs
      rw [hrefs]
    refine ⟨(s.qp.sq.takeWhile completesAtHead).map .leaveSq ++ (.leaveSq wr :: reports) ++
      (sq.takeWhile completesAtHead).map .leaveSq, ?_, ?_⟩
    · show ctx.trace ++ _ = _
      rw [hctx, ← List.append_assoc, ← List.append_assoc]
      rfl
    · have hreport : ackedPkts (.leaveSq wr :: reports) = [] := by
        show ackedPkts reports = []
        exact completionEvents_unacked hreports
      rw [ackedPkts_append, ackedPkts_append, hleave, hleave, hreport]
      rfl

theorem roceRcCompleteSendWr_takes {s t : St} {pkt : RoceNetpkt} {pkts : List RoceNetpkt}
    (hout : s.qp.req.outgoingPkts = pkt :: pkts)
    (h : roceRcCompleteSendWr (s.takeOutgoing pkt pkts) pkt = .ok t) : TakesOff s t 1 := by
  obtain ⟨es, hes, hunacked⟩ := roceRcCompleteSendWr_unacked h
  obtain ⟨fs, hfs, hsent⟩ := (roceRcCompleteSendWr_acts h).trace
  obtain rfl : fs = es := List.append_cancel_left (hfs.symm.trans hes)
  have hreq : t.qp.req = { s.qp.req with outgoingPkts := pkts } ∧
      t.qp.attr = { s.qp.attr with sqPsn := roceQpPsnInc s.qp.attr.sqPsn } := by
    rcases roceRcCompleteSendWr_ok h with ⟨-, rfl⟩ | ⟨wr, sq, reports, ctx, -, -, -, -, rfl⟩
    · exact ⟨rfl, rfl⟩
    · exact ⟨rfl, rfl⟩
  refine ⟨?_, ?_, hreq.2, .acked pkt :: fs, ?_, ?_, ?_⟩
  · rw [hout, List.length_cons]
    omega
  · rw [hreq.1, hout, List.drop_one, List.tail_cons]
  · rw [hes]
    exact List.append_assoc s.ctx.trace [.acked pkt] fs
  · exact hsent
  · rw [hout]
    show pkt :: ackedPkts fs = [pkt]
    rw [hunacked]

/-- The loop stops at the first packet that lies ahead of the PSN. -/
theorem ackLoop_takes {psn : UInt32} {pkts : List RoceNetpkt} {s t : St} {n : Nat}
    (hn : n ≤ pkts.length)
    (hcmp : ∀ j (hj : j < pkts.length), roceComparePsn (roceNetpktPsn pkts[j]) psn > 0 ↔ n ≤ j)
    (hout : s.qp.req.outgoingPkts = pkts) (h : ackLoop psn pkts s = .ok t) : TakesOff s t n := by
  induction pkts generalizing s n with
  | nil =>
    obtain rfl := Except.ok.inj h
    obtain rfl : n = 0 := Nat.le_zero.mp hn
    exact .refl _
  | cons pkt pkts ih =>
    have hhead := hcmp 0 (Nat.zero_lt_succ _)
    simp only [List.getElem_cons_zero] at hhead
    rw [ackLoop] at h
    split at h
    · next hpos =>
      obtain rfl := Except.ok.inj h
      obtain rfl : n = 0 := Nat.le_zero.mp (hhead.mp hpos)
      exact .refl _
    · next hneg =>
      have hpos : 0 < n := by
        by_contra hz
        exact hneg (hhead.mpr (by omega))
      split at h
      · cases h
      · next u hu =>
        have htake := roceRcCompleteSendWr_takes hout hu
        have hrest : u.qp.req.outgoingPkts = pkts := by
          rw [htake.req, hout, List.drop_one, List.tail_cons]
        have hmore := ih (n := n - 1) (by rw [List.length_cons] at hn; omega) ?_ hrest h
        · have hall := htake.trans hmore
          rwa [show 1 + (n - 1) = n by omega] at hall
        · intro j hj
          have hnext := hcmp (j + 1) (Nat.succ_lt_succ hj)
          simp only [List.getElem_cons_succ] at hnext
          rw [hnext]
          omega

/-! ## Going back -/

/-- The PSN of an outgoing packet, or the one behind the last of them. -/
def NakPsn (req : RoceRequester) (psn : UInt32) : Prop :=
  (∃ pkt ∈ req.outgoingPkts, roceNetpktPsn pkt = psn) ∨
    ∃ pkt ∈ req.outgoingPkts.getLast?, roceQpPsnInc (roceNetpktPsn pkt) = psn

/-- Counted from the SQ PSN, the packet comes before `psn`. -/
def RoceNetpkt.Before (pkt : RoceNetpkt) (sqPsn psn : UInt32) : Prop :=
  Serial.dist psnMod (roceNetpktPsn pkt).toNat sqPsn.toNat < Serial.dist psnMod psn.toNat sqPsn.toNat

/-- What a NAK of `psn` does: the packets before it are completed, and those
from it up to the end of the window are sent, each once and in order. -/
structure GoesBack (s : St) (psn : UInt32) (t : St) : Prop where
  sqPsn : t.qp.attr.sqPsn = psn
  completed : ∃ done kept, s.qp.req.outgoingPkts = done ++ kept ∧ ackedSince s t = done ∧
    t.qp.req.queued = kept ++ s.qp.req.pendingPkts ∧
    (∀ pkt ∈ done, pkt.Before s.qp.attr.sqPsn psn) ∧ ∀ pkt ∈ kept, ¬pkt.Before s.qp.attr.sqPsn psn
  sent : psnsOf (sentSince s t) = Serial.seq psnMod psn.toNat
    (min (Serial.dist psnMod s.qp.req.psn.toNat psn.toNat) (roceMaxOutgoingPackets.toNat + 1))

/-- Such a PSN lies as far ahead of the SQ PSN as there are packets before it. -/
theorem NakPsn.index {qp : RoceQp} {psn : UInt32} (hc : Counted qp) (h : NakPsn qp.req psn) :
    0 < qp.req.outgoingPkts.length ∧ ∃ i ≤ qp.req.outgoingPkts.length,
      psn.toNat = (qp.attr.sqPsn.toNat + i) % psnMod := by
  rcases h with ⟨pkt, hmem, rfl⟩ | ⟨pkt, hlast, rfl⟩
  · obtain ⟨i, hi, rfl⟩ := List.mem_iff_getElem.mp hmem
    exact ⟨by omega, i, by omega, hc.outgoingPsn hi⟩
  · obtain ⟨hpos, hpsn⟩ := hc.lastPsn hlast
    refine ⟨hpos, _, Nat.le_refl _, ?_⟩
    rw [roceQpPsnInc_toNat, hpsn, Nat.mod_add_mod]
    congr 1
    omega

theorem Counted.before_iff {qp : RoceQp} (hc : Counted qp) {psn : UInt32} {i : Nat}
    (hi : i ≤ qp.req.outgoingPkts.length) (hpsn : psn.toNat = (qp.attr.sqPsn.toNat + i) % psnMod)
    {j : Nat} (hj : j < qp.req.outgoingPkts.length) :
    qp.req.outgoingPkts[j].Before qp.attr.sqPsn psn ↔ j < i := by
  have hfew := hc.few
  unfold RoceNetpkt.Before
  rw [hc.outgoingPsn hj, hpsn, Serial.dist_add (by decide) _ _ (by unfold psnMod; omega),
    Serial.dist_add (by decide) _ _ (by unfold psnMod; omega)]

/-- The PSN before `psn`, which the NAK acknowledges. -/
theorem psnBefore_toNat (psn : UInt32) :
    ((psn - 1) &&& ibBthPsnMask).toNat = (psn.toNat + (psnMod - 1)) % psnMod := by
  have hm : ibBthPsnMask.toNat = 2 ^ 24 - 1 := rfl
  have hlt := psn.toNat_lt
  rw [UInt32.toNat_and, hm, Nat.and_two_pow_sub_one_eq_mod, UInt32.toNat_sub]
  unfold psnMod
  show (2 ^ 32 - 1 + psn.toNat) % 2 ^ 32 % 2 ^ 24 = _
  omega

/-- A NAK of the packet `i` past the SQ PSN completes `i` packets. -/
theorem Counted.nak_takes {s t : St} (hc : Counted s.qp) (hfew : s.qp.req.queued.length < 2 ^ 23)
    {psn : UInt32} {i : Nat} (hi : i ≤ s.qp.req.outgoingPkts.length)
    (hpsn : psn.toNat = (s.qp.attr.sqPsn.toNat + i) % psnMod)
    (h : roceHandleAck s ((psn - 1) &&& ibBthPsnMask) = .ok t) : TakesOff s t i := by
  have hbefore := psnBefore_toNat psn
  rw [hpsn, Nat.mod_add_mod] at hbefore
  have hq : s.qp.req.outgoingPkts.length ≤ s.qp.req.queued.length := by
    rw [RoceRequester.queued, List.length_append]
    omega
  unfold roceHandleAck at h
  by_cases hzero : i = 0
  · -- the PSN before the SQ PSN is old, and nothing is completed
    subst hzero
    have hold : roceComparePsn s.qp.attr.sqPsn ((psn - 1) &&& ibBthPsnMask) > 0 := by
      refine (roceComparePsn_offset (c := s.qp.attr.sqPsn.toNat + (psnMod - 1)) (a := 1) (b := 0)
        (by decide) (by decide) ?_ ?_).1.mpr (by decide)
      · unfold psnMod
        omega
      · rw [hbefore, Nat.mod_mod, Nat.add_zero, Nat.add_zero]
    rw [if_pos hold] at h
    obtain rfl := Except.ok.inj h
    exact .refl _
  · have hfew9 := hc.few
    have hoff : ((psn - 1) &&& ibBthPsnMask).toNat % psnMod =
        (s.qp.attr.sqPsn.toNat + (i - 1)) % psnMod := by
      rw [hbefore, Nat.mod_mod, show s.qp.attr.sqPsn.toNat + i + (psnMod - 1) =
        s.qp.attr.sqPsn.toNat + (i - 1) + psnMod by unfold psnMod; omega, Nat.add_mod_right]
    have hsq := (roceComparePsn_offset (x := s.qp.attr.sqPsn) (a := 0) (by decide) (by omega) rfl hoff).1
    have hnext := (roceComparePsn_offset (x := s.qp.req.psn) hfew (by omega)
      (by rw [hc.next, psnAfter_toNat]) hoff).2
    rw [if_neg (by rw [hsq]; omega), if_neg (by rw [hnext]; omega)] at h
    refine ackLoop_takes hi ?_ rfl h
    intro j hj
    have hpkt := (roceComparePsn_offset (c := s.qp.attr.sqPsn.toNat) (a := j) (by omega) (by omega)
      (by rw [hc.outgoingPsn hj, Nat.mod_mod]) hoff).1
    rw [hpkt]
    omega

theorem Filled.outgoing_eq {qp : RoceQp} (h : Filled qp) :
    qp.req.outgoingPkts.length = min qp.req.queued.length 9 := by
  have hfew := h.counted.few
  rw [RoceRequester.queued, List.length_append]
  by_cases hpend : qp.req.pendingPkts = []
  · rw [hpend, List.length_nil]
    omega
  · have hfull := h.full hpend
    omega

theorem psnAfter_eq {sqPsn psn : UInt32} {i : Nat} (hlt : sqPsn.toNat < psnMod ∨ 0 < i)
    (hpsn : psn.toNat = (sqPsn.toNat + i) % psnMod) : psnAfter sqPsn i = psn := by
  apply UInt32.toNat_inj.mp
  have hafter : (psnAfter sqPsn i).toNat < psnMod := by
    rcases hlt with h24 | hpos
    · exact psnAfter_lt h24 i
    · obtain ⟨k, rfl⟩ : ∃ k, i = k + 1 := ⟨i - 1, by omega⟩
      rw [psnAfter, roceQpPsnInc_toNat]
      exact Nat.mod_lt _ (by decide)
  rw [hpsn, ← psnAfter_toNat, Nat.mod_eq_of_lt hafter]

/-- The first assertion compares the SQ PSN with a PSN of 24 bits. -/
theorem Counted.sq24_of_xmit {s t : St} (hc : Counted s.qp) (hx : Libroce.roceXmitPkts s = .ok t)
    (hne : s.qp.req.outgoingPkts ≠ []) : s.qp.attr.sqPsn.toNat < psnMod := by
  have hlast := List.getLast?_eq_getLast_of_ne_nil hne
  obtain ⟨hge, -⟩ := ((roceXmitPkts_ok_iff s).mp ⟨t, hx⟩).psn _ hlast
  rw [ge_iff_le, UInt32.le_iff_toNat_le, (hc.lastPsn hlast).2] at hge
  exact Nat.lt_of_le_of_lt hge (Nat.mod_lt _ (by decide))

/-- **Go-back-N.**  In every state that an RC QP with its SQ PSN set reaches. -/
theorem roceHandleNak_exact (s t u : St) (h0 : SqPsnGiven s) (es : List QpEvent)
    (hr : run qpEvent s es = .ok t) (hfew : t.qp.req.queued.length < 2 ^ 23) (psn : UInt32)
    (hp : NakPsn t.qp.req psn) (hn : roceHandleNak t psn = .ok u) : GoesBack t psn u := by
  obtain ⟨-, hf⟩ := qpRun_filled h0 hr
  have hc := hf.counted
  obtain ⟨hpos, i, hi, hpsn⟩ := hp.index hc
  unfold roceHandleNak at hn
  obtain ⟨v, hv, hx⟩ := bind_eq_ok.mp hn
  have htakes := hc.nak_takes hfew hi hpsn hv
  obtain ⟨es', hes, hsent, hacked⟩ := htakes.trace
  obtain ⟨moved, hmoves⟩ := roceXmitPkts_moves hx
  have hqueued : v.qp.req.queued = t.qp.req.queued.drop i := by
    rw [htakes.req]
    show t.qp.req.outgoingPkts.drop i ++ t.qp.req.pendingPkts = _
    rw [RoceRequester.queued, List.drop_append_of_le_length hi]
  have hcv : Counted v.qp := hc.drop hi htakes.req htakes.attr
  have hfu : Filled u.qp := Counted.roceXmitPkts (s := v.emit (v.qp.req.outgoingPkts.map .netXmit)) hcv hx
  have hqu : u.qp.req.queued = t.qp.req.queued.drop i := by
    rw [← hqueued]
    exact (roceXmitPkts_ok hx).queued
  have hlen : t.qp.req.queued.length = t.qp.req.outgoingPkts.length + t.qp.req.pendingPkts.length := by
    rw [RoceRequester.queued, List.length_append]
  have hattr : u.qp.attr.sqPsn = psnAfter t.qp.attr.sqPsn i := by
    rw [hmoves.qp]
    show v.qp.attr.sqPsn = _
    rw [htakes.attr]
  have hlt : t.qp.attr.sqPsn.toNat < psnMod ∨ 0 < i := by
    by_cases hzero : i = 0
    · subst hzero
      have hv24 : v.qp.attr.sqPsn.toNat < psnMod := by
        refine hcv.sq24_of_xmit (s := v.emit (v.qp.req.outgoingPkts.map .netXmit)) hx ?_
        show v.qp.req.outgoingPkts ≠ []
        rw [htakes.req]
        exact List.length_pos_iff.mp hpos
      rw [htakes.attr] at hv24
      exact Or.inl hv24
    · exact Or.inr (Nat.pos_of_ne_zero hzero)
  have hsq : u.qp.attr.sqPsn = psn := by
    rw [hattr, psnAfter_eq hlt hpsn]
  have hout : u.qp.req.outgoingPkts = v.qp.req.outgoingPkts ++ moved := by rw [hmoves.qp]; rfl
  have htrace : u.ctx.trace = t.ctx.trace ++ (es' ++ u.qp.req.outgoingPkts.map .netXmit) := by
    rw [hmoves.ctx, hout, List.map_append]
    simp [hes]
  refine ⟨hsq, ⟨t.qp.req.outgoingPkts.take i, t.qp.req.outgoingPkts.drop i,
    (List.take_append_drop _ _).symm, ?_, ?_, ?_, ?_⟩, ?_⟩
  · unfold ackedSince
    rw [htrace, List.drop_left, ackedPkts_append, hacked, ackedPkts_map _ _ fun _ => rfl, List.append_nil]
  · rw [hqu, RoceRequester.queued, List.drop_append_of_le_length hi]
  · intro pkt hmem
    obtain ⟨j, hj, rfl⟩ := List.mem_iff_getElem.mp hmem
    rw [List.length_take] at hj
    rw [List.getElem_take]
    exact (hc.before_iff hi hpsn (by omega)).mpr (by omega)
  · intro pkt hmem
    obtain ⟨j, hj, rfl⟩ := List.mem_iff_getElem.mp hmem
    rw [List.length_drop] at hj
    rw [List.getElem_drop, hc.before_iff hi hpsn (by omega)]
    omega
  · have hsentu : sentSince t u = u.qp.req.outgoingPkts := by
      unfold sentSince
      rw [htrace, List.drop_left, sentPkts_append, hsent, sentPkts_xmits, List.nil_append]
    have hdist : Serial.dist psnMod t.qp.req.psn.toNat psn.toNat = t.qp.req.queued.length - i := by
      rw [hpsn, hc.next, ← Serial.dist_mod_left, psnAfter_toNat, Serial.dist_mod_left,
        Serial.dist_mod_right, Serial.dist_add_add (by decide) _ _ _ (by omega) (by unfold psnMod; omega)]
    rw [hsentu, hfu.counted.outgoingPsns, hfu.outgoing_eq, hqu, List.length_drop, hsq, hdist]
    rfl

/-- Eleven WRs: nine packets are outgoing, two wait. -/
def sendEleven : List QpEvent :=
  (List.range 11).map fun i => .call (.postSend (smallSend (i + 1) .send) fun _ => true)

/-- A NAK in the middle: three packets complete, six are sent again and two follow them. -/
theorem roceHandleNak_exact_middle :
    ∃ t u, run qpEvent (smallStart 0) sendEleven = .ok t ∧ roceHandleNak t 3 = .ok u ∧
      (t.qp.req.outgoingPkts.map roceNetpktPsn = [0, 1, 2, 3, 4, 5, 6, 7, 8] ∧
        t.qp.req.pendingPkts.map roceNetpktPsn = [9, 10] ∧
        u.qp.req.outgoingPkts.map roceNetpktPsn = [3, 4, 5, 6, 7, 8, 9, 10] ∧
        u.qp.req.pendingPkts = []) ∧
      GoesBack t 3 u := by
  obtain ⟨t, ht, ⟨hout, hpend⟩, u, hu, hafter⟩ : ∃ t, run qpEvent (smallStart 0) sendEleven = .ok t ∧
      (t.qp.req.outgoingPkts.map roceNetpktPsn = [0, 1, 2, 3, 4, 5, 6, 7, 8] ∧
        t.qp.req.pendingPkts.map roceNetpktPsn = [9, 10]) ∧
      ∃ u, roceHandleNak t 3 = .ok u ∧
        (u.qp.req.outgoingPkts.map roceNetpktPsn = [3, 4, 5, 6, 7, 8, 9, 10] ∧
          u.qp.req.pendingPkts = []) :=
    ⟨_, rfl, ⟨rfl, rfl⟩, _, rfl, rfl, rfl⟩
  have hgiven : SqPsnGiven (smallStart 0) :=
    ⟨rfl, smallQp, { smallQp.attr with sqPsn := 0 }, roceQpSqPsn, rfl, by decide⟩
  have hfew : t.qp.req.queued.length = 11 := by
    rw [RoceRequester.queued, List.length_append, ← List.length_map (f := roceNetpktPsn), hout,
      ← List.length_map (f := roceNetpktPsn), hpend]
    rfl
  obtain ⟨pkt, hpkt, hpsn⟩ : ∃ pkt ∈ t.qp.req.outgoingPkts, roceNetpktPsn pkt = 3 := by
    refine List.mem_map.mp ?_
    rw [hout]
    decide
  refine ⟨t, u, ht, hu, ⟨hout, hpend, hafter⟩, ?_⟩
  exact roceHandleNak_exact (smallStart 0) t u hgiven sendEleven ht (by omega) 3
    (Or.inl ⟨pkt, hpkt, hpsn⟩) hu

end Libroce
