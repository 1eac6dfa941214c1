import Libroce.RequesterRun

/-!
# The window of the requester

The PSNs of the queued packets count up from the SQ PSN without a gap, at most
`ROCE_MAX_OUTGOING_PACKETS + 1` of them are outgoing, and none waits while
there is room.

Main statement: `reqRun_inWindow` — this holds after each operation of every run.
-/

namespace Libroce

open Machine (bind_eq_ok)

/-! ## Where runs start -/

/-- An RC QP whose SQ PSN was set by `roce_modify_qp`, before its first post. -/
structure Started (s : St) : Prop where
  rc : s.qp.qpType = .rc
  modified : ∃ qp0 attr attrMask, roceModifyQp s.ctx qp0 attr attrMask = .ok (0, s.qp) ∧
    attrMask &&& roceQpSqPsn ≠ 0 ∧ attr.sqPsn.toNat < psnMod ∧ qp0.sq = []

theorem Started.sqPsnSet {s : St} (h : Started s) : SqPsnSet s.qp ∧ s.qp.sq = [] := by
  obtain ⟨qp0, attr, attrMask, hm, hbit, h24, hsq⟩ := h.modified
  obtain ⟨hset, heq⟩ := roceModifyQp_sqPsn hm hbit h24
  exact ⟨hset, heq.trans hsq⟩

theorem smallStart_started {sqPsn : UInt32} (h : sqPsn.toNat < psnMod) :
    Started (smallStart sqPsn) where
  rc := rfl
  modified := ⟨smallQp, { smallQp.attr with sqPsn := sqPsn }, roceQpSqPsn, rfl, by decide, h, rfl⟩

/-! ## The invariant -/

/-- The PSNs of a list of packets. -/
def psnsOf (pkts : List RoceNetpkt) : List Nat := pkts.map fun p => (roceNetpktPsn p).toNat

@[simp] theorem psnsOf_append (ps qs : List RoceNetpkt) : psnsOf (ps ++ qs) = psnsOf ps ++ psnsOf qs :=
  List.map_append

theorem psnsOf_drop (ps : List RoceNetpkt) (n : Nat) : psnsOf (ps.drop n) = (psnsOf ps).drop n :=
  List.map_drop

/-- The queued packets are numbered without a gap, and few are outgoing. -/
structure Numbered (qp : RoceQp) : Prop where
  sq24 : qp.attr.sqPsn.toNat < psnMod
  psns : psnsOf qp.req.queued = Serial.seq psnMod qp.attr.sqPsn.toNat qp.req.queued.length
  next : qp.req.psn = psnAfter qp.attr.sqPsn qp.req.queued.length
  few : qp.req.outgoingPkts.length ≤ 9

/-- ... and none waits while there is room. -/
structure Window (qp : RoceQp) : Prop where
  numbered : Numbered qp
  full : qp.req.pendingPkts ≠ [] → qp.req.outgoingPkts.length = 9

/-- What remains of `Numbered` when the SQ PSN may have more than 24 bits. -/
structure Counted (qp : RoceQp) : Prop where
  psns : psnsOf qp.req.queued = Serial.seq psnMod qp.attr.sqPsn.toNat qp.req.queued.length
  next : qp.req.psn = psnAfter qp.attr.sqPsn qp.req.queued.length
  few : qp.req.outgoingPkts.length ≤ 9

/-- What remains of `Window`. -/
structure Filled (qp : RoceQp) : Prop where
  counted : Counted qp
  full : qp.req.pendingPkts ≠ [] → qp.req.outgoingPkts.length = 9

theorem Numbered.counted {qp : RoceQp} (h : Numbered qp) : Counted qp := ⟨h.psns, h.next, h.few⟩

theorem Counted.numbered {qp : RoceQp} (h : Counted qp) (h24 : qp.attr.sqPsn.toNat < psnMod) :
    Numbered qp := ⟨h24, h.psns, h.next, h.few⟩

theorem Window.filled {qp : RoceQp} (h : Window qp) : Filled qp := ⟨h.numbered.counted, h.full⟩

theorem Filled.window {qp : RoceQp} (h : Filled qp) (h24 : qp.attr.sqPsn.toNat < psnMod) :
    Window qp := ⟨h.counted.numbered h24, h.full⟩

/-- A requester with nothing queued that goes on at its SQ PSN. -/
theorem filled_of_empty {qp : RoceQp} (hpsn : qp.req.psn = qp.attr.sqPsn)
    (hpend : qp.req.pendingPkts = []) (hout : qp.req.outgoingPkts = []) : Filled qp := by
  have hq : qp.req.queued = [] := by rw [RoceRequester.queued, hout, hpend, List.append_nil]
  refine ⟨⟨?_, ?_, ?_⟩, ?_⟩
  · rw [hq]
    rfl
  · rw [hq, hpsn]
    rfl
  · rw [hout]
    exact Nat.zero_le 9
  · intro hp
    exact absurd hpend hp

theorem SqPsnSet.window {qp : RoceQp} (h : SqPsnSet qp) : Window qp :=
  (filled_of_empty h.psn h.pending h.outgoing).window h.psn24

theorem Counted.outgoingPsns {qp : RoceQp} (h : Counted qp) :
    psnsOf qp.req.outgoingPkts =
      Serial.seq psnMod qp.attr.sqPsn.toNat qp.req.outgoingPkts.length := by
  have hp := h.psns
  rw [RoceRequester.queued, psnsOf_append, List.length_append, Serial.seq_append] at hp
  exact (List.append_inj hp (by simp [psnsOf])).1

/-- The PSN of the last outgoing packet. -/
theorem Counted.lastPsn {qp : RoceQp} (h : Counted qp) {pkt : RoceNetpkt}
    (hl : qp.req.outgoingPkts.getLast? = some pkt) :
    0 < qp.req.outgoingPkts.length ∧
      (roceNetpktPsn pkt).toNat =
        (qp.attr.sqPsn.toNat + (qp.req.outgoingPkts.length - 1)) % psnMod := by
  have hpos : 0 < qp.req.outgoingPkts.length := by
    rw [List.length_pos_iff]
    rintro hnil
    rw [hnil] at hl
    cases hl
  refine ⟨hpos, ?_⟩
  have hlast := Serial.seq_getLast? psnMod qp.attr.sqPsn.toNat _ hpos
  rw [← h.outgoingPsns, psnsOf, List.getLast?_map, hl] at hlast
  exact Option.some.inj hlast

theorem Counted.outgoingPsn {qp : RoceQp} (h : Counted qp) {i : Nat} (hi : i < qp.req.outgoingPkts.length) :
    (roceNetpktPsn qp.req.outgoingPkts[i]).toNat = (qp.attr.sqPsn.toNat + i) % psnMod := by
  have hlen : i < (Serial.seq psnMod qp.attr.sqPsn.toNat qp.req.outgoingPkts.length).length := by
    rw [Serial.length_seq]
    exact hi
  have hget := congrArg (fun psns : List Nat => psns[i]?) h.outgoingPsns
  simp only [psnsOf] at hget
  rw [List.getElem?_map, List.getElem?_eq_getElem hi, List.getElem?_eq_getElem hlen,
    Serial.seq_getElem] at hget
  exact Option.some.inj hget

/-! ## What each part of an operation keeps -/

theorem Counted.push {qp : RoceQp} {wrAddr : Nat} {pkts : List RoceNetpkt} (h : Counted qp)
    (ht : Train wrAddr qp.req.psn pkts) : Counted (qp.push pkts) := by
  have hq : (qp.push pkts).req.queued = qp.req.queued ++ pkts := by
    show qp.req.outgoingPkts ++ (qp.req.pendingPkts ++ pkts) = _
    rw [RoceRequester.queued, List.append_assoc]
  have hnext : (qp.push pkts).req.psn = psnAfter qp.req.psn pkts.length := rfl
  refine ⟨?_, ?_, h.few⟩
  · show psnsOf _ = Serial.seq psnMod qp.attr.sqPsn.toNat _
    rw [hq, psnsOf_append, h.psns, List.length_append, Serial.seq_append]
    congr 1
    have htp : psnsOf pkts = _ := ht.psns
    rw [htp, h.next, ← Serial.seq_mod, psnAfter_toNat, Serial.seq_mod]
  · have hsq : (qp.push pkts).attr.sqPsn = qp.attr.sqPsn := rfl
    rw [hnext, hq, hsq, List.length_append, psnAfter_add, ← h.next]

/-- Dropping the first outgoing packets moves the SQ PSN past them. -/
theorem Counted.drop {qp qp' : RoceQp} {n : Nat} (h : Counted qp)
    (hn : n ≤ qp.req.outgoingPkts.length)
    (hreq : qp'.req = { qp.req with outgoingPkts := qp.req.outgoingPkts.drop n })
    (hattr : qp'.attr = { qp.attr with sqPsn := psnAfter qp.attr.sqPsn n }) : Counted qp' := by
  have hq : qp'.req.queued = qp.req.queued.drop n := by
    rw [hreq]
    show qp.req.outgoingPkts.drop n ++ qp.req.pendingPkts = _
    rw [RoceRequester.queued, List.drop_append_of_le_length hn]
  have hlen : n ≤ qp.req.queued.length := by
    rw [RoceRequester.queued, List.length_append]
    omega
  have hsq : qp'.attr.sqPsn = psnAfter qp.attr.sqPsn n := by rw [hattr]
  refine ⟨?_, ?_, ?_⟩
  · rw [hq, psnsOf_drop, h.psns, Serial.seq_drop _ _ _ _ hlen, List.length_drop, hsq,
      ← Serial.seq_mod _ (psnAfter _ _).toNat, psnAfter_toNat, Serial.seq_mod]
  · rw [hq, List.length_drop, hsq, ← psnAfter_add, Nat.add_sub_cancel' hlen, hreq]
    exact h.next
  · have := h.few
    rw [hreq]
    show (qp.req.outgoingPkts.drop n).length ≤ 9
    rw [List.length_drop]
    omega

/-- How far the end of the window lies from the packet `k` past the SQ PSN. -/
theorem dist_window {sqPsn psn : UInt32} {k : Nat} (hk : k ≤ 8)
    (hpsn : psn.toNat = (sqPsn.toNat + k) % psnMod) :
    Serial.dist psnMod (sqPsn + roceMaxOutgoingPackets).toNat psn.toNat = 8 - k := by
  have hw : (sqPsn + roceMaxOutgoingPackets).toNat % psnMod = (sqPsn.toNat + 8) % psnMod := by
    have h8 : roceMaxOutgoingPackets.toNat = 8 := rfl
    unfold psnMod
    rw [UInt32.toNat_add, h8]
    omega
  rw [← Serial.dist_mod_left, hw, Serial.dist_mod_left, hpsn, Serial.dist_mod_right,
    Serial.dist_add_add (by decide) _ _ _ hk (by unfold psnMod; omega)]

theorem compareWindow_eq_zero {sqPsn psn : UInt32} {k : Nat} (hk : k ≤ 8)
    (hpsn : psn.toNat = (sqPsn.toNat + k) % psnMod) :
    roceComparePsn (sqPsn + roceMaxOutgoingPackets) psn = 0 ↔ k = 8 := by
  rw [roceComparePsn_eq_zero, dist_window hk hpsn]
  omega

/-- With `k` packets out, the loop of `roce_xmit_pkts` fills up the window. -/
theorem xmitLoop_eq {sqPsn : UInt32} {pkts : List RoceNetpkt} {k : Nat} (hk : k ≤ 8)
    (hp : psnsOf pkts = Serial.seq psnMod (sqPsn.toNat + k) pkts.length) :
    xmitLoop sqPsn pkts = (pkts.take (9 - k), pkts.drop (9 - k)) := by
  induction pkts generalizing k with
  | nil => simp [xmitLoop]
  | cons pkt pkts ih =>
    rw [psnsOf, List.map_cons, List.length_cons, Serial.seq_succ] at hp
    obtain ⟨hpsn, hrest⟩ := List.cons.inj hp
    have hcmp := compareWindow_eq_zero hk hpsn
    rw [xmitLoop]
    split
    · next h0 =>
      have h8 := hcmp.mp h0
      subst h8
      rfl
    · next h0 =>
      have hne : k ≠ 8 := fun h8 => h0 (hcmp.mpr h8)
      have hk1 : k + 1 ≤ 8 := by omega
      have hrec : xmitLoop sqPsn pkts = (pkts.take (9 - (k + 1)), pkts.drop (9 - (k + 1))) :=
        ih hk1 hrest
      have h9 : 9 - k = (9 - (k + 1)) + 1 := by omega
      rw [hrec, h9, List.take_succ_cons, List.drop_succ_cons]

/-- Transmission with room in the window. -/
theorem Counted.xmitPending {s : St} (h : Counted s.qp) (hroom : s.qp.req.outgoingPkts.length ≤ 8) :
    Filled (xmitPending s).qp := by
  have hpend : psnsOf s.qp.req.pendingPkts =
      Serial.seq psnMod (s.qp.attr.sqPsn.toNat + s.qp.req.outgoingPkts.length)
        s.qp.req.pendingPkts.length := by
    have hp := h.psns
    rw [RoceRequester.queued, psnsOf_append, List.length_append, Serial.seq_append] at hp
    exact (List.append_inj hp (by simp [psnsOf])).2
  have hloop := xmitLoop_eq hroom hpend
  have hout : (Libroce.xmitPending s).qp.req.outgoingPkts =
      s.qp.req.outgoingPkts ++ s.qp.req.pendingPkts.take (9 - s.qp.req.outgoingPkts.length) := by
    show s.qp.req.outgoingPkts ++ (xmitLoop _ _).1 = _
    rw [hloop]
  have hpen : (Libroce.xmitPending s).qp.req.pendingPkts =
      s.qp.req.pendingPkts.drop (9 - s.qp.req.outgoingPkts.length) := by
    show (xmitLoop _ _).2 = _
    rw [hloop]
  have hq : (Libroce.xmitPending s).qp.req.queued = s.qp.req.queued := by
    rw [RoceRequester.queued, RoceRequester.queued, hout, hpen, List.append_assoc,
      List.take_append_drop]
  refine ⟨⟨?_, ?_, ?_⟩, ?_⟩
  · rw [hq]
    exact h.psns
  · rw [hq]
    exact h.next
  · rw [hout, List.length_append, List.length_take]
    omega
  · intro hne
    rw [hpen] at hne
    have hlen : ¬ s.qp.req.pendingPkts.length ≤ 9 - s.qp.req.outgoingPkts.length := by
      intro hle
      exact hne (List.drop_eq_nil_of_le hle)
    rw [hout, List.length_append, List.length_take]
    omega

/-- The whole of `roce_xmit_pkts`. -/
theorem Counted.roceXmitPkts {s s' : St} (h : Counted s.qp) (hx : roceXmitPkts s = .ok s') :
    Filled s'.qp := by
  unfold Libroce.roceXmitPkts at hx
  split at hx
  · next hnone =>
    obtain rfl := Except.ok.inj hx
    apply h.xmitPending
    rw [List.getLast?_eq_none_iff.mp hnone]
    exact Nat.zero_le 8
  · next pkt hlast =>
    obtain ⟨hpos, hpsn⟩ := h.lastPsn hlast
    have hfew := h.few
    have hcmp := compareWindow_eq_zero (show s.qp.req.outgoingPkts.length - 1 ≤ 8 by omega) hpsn
    simp only at hx
    split at hx
    · split at hx
      · split at hx
        · next h0 =>
          obtain rfl := Except.ok.inj hx
          refine ⟨h, fun _ => ?_⟩
          have := hcmp.mp h0
          omega
        · next h0 =>
          obtain rfl := Except.ok.inj hx
          apply h.xmitPending
          have : ¬ s.qp.req.outgoingPkts.length - 1 = 8 := fun h8 => h0 (hcmp.mpr h8)
          omega
      · cases hx
    · cases hx

/-- What an operation has prepared when it transmits is numbered. -/
theorem Counted.reqPrepare {s t : St} {op : ReqOp} (h : Counted s.qp)
    (hp : reqPrepare s op = .ok (some t)) : Counted t.qp := by
  cases op with
  | post wr calloc =>
    obtain ⟨qp, wr2, hposted, hqp, -⟩ := rocePostSend_prepare hp
    have hn : Counted qp := by
      cases hposted with
      | failed e he m => exact h
      | skipped m hs => exact h
      | queued m pkts ht hop hs => exact h.push ht
    rw [hqp]
    exact ⟨hn.psns, hn.next, hn.few⟩
  | acknowledge syndrome val psn msn =>
    obtain ⟨n, hn, hreq, hattr⟩ := acknowledge_drops hp
    exact h.drop hn hreq hattr

theorem reqPrepare_psn24 {s t : St} {op : ReqOp} (h24 : s.qp.attr.sqPsn.toNat < psnMod)
    (hp : reqPrepare s op = .ok (some t)) : t.qp.attr.sqPsn.toNat < psnMod := by
  cases op with
  | post wr calloc =>
    obtain ⟨qp, wr2, hposted, hqp, -⟩ := rocePostSend_prepare hp
    rw [hqp]
    cases hposted with
    | failed e he m => exact h24
    | skipped m hs => exact h24
    | queued m pkts ht hop hs => exact h24
  | acknowledge syndrome val psn msn =>
    obtain ⟨n, -, -, hattr⟩ := acknowledge_drops hp
    rw [hattr]
    exact psnAfter_lt h24 n

theorem Window.reqPrepare {s t : St} {op : ReqOp} (h : Window s.qp)
    (hp : reqPrepare s op = .ok (some t)) : Numbered t.qp :=
  (h.filled.counted.reqPrepare hp).numbered (reqPrepare_psn24 h.numbered.sq24 hp)

/-- A post leaves the outgoing packets until it transmits. -/
theorem post_outgoing {s t : St} {wr : SendWr} {calloc : Nat → Bool}
    (hp : reqPrepare s (.post wr calloc) = .ok (some t)) :
    t.qp.req.outgoingPkts = s.qp.req.outgoingPkts := by
  obtain ⟨qp, wr2, hposted, hqp, -⟩ := rocePostSend_prepare hp
  rw [hqp]
  cases hposted with
  | failed e he m => rfl
  | skipped m hs => rfl
  | queued m pkts ht hop hs => rfl

/-- One operation. -/
theorem reqStep_filled {s s' : St} {op : ReqOp} (h : s.qp.qpType = .rc ∧ Filled s.qp)
    (hs : reqStep s op = .ok s') : s'.qp.qpType = .rc ∧ Filled s'.qp := by
  obtain ⟨hrc, hw⟩ := h
  refine ⟨by rw [(reqStep_requesterOnly hrc hs).qpType, hrc], ?_⟩
  rcases reqStep_ok hrc hs with ⟨-, rfl⟩ | ⟨t, u, hp, hx, rfl⟩
  · exact hw
  · have hu := (hw.counted.reqPrepare hp).roceXmitPkts hx
    cases op with
    | post wr calloc => exact ⟨⟨hu.counted.psns, hu.counted.next, hu.counted.few⟩, hu.full⟩
    | acknowledge syndrome val psn msn => exact hu

theorem reqStep_psn24 {s s' : St} {op : ReqOp} (hrc : s.qp.qpType = .rc)
    (h24 : s.qp.attr.sqPsn.toNat < psnMod) (hs : reqStep s op = .ok s') :
    s'.qp.attr.sqPsn.toNat < psnMod := by
  rcases reqStep_ok hrc hs with ⟨-, rfl⟩ | ⟨t, u, hp, hx, rfl⟩
  · exact h24
  · have ht := reqPrepare_psn24 h24 hp
    have hu : u.qp.attr = t.qp.attr := by rw [(roceXmitPkts_ok hx).qp]
    rw [← hu] at ht
    cases op with
    | post wr calloc => exact ht
    | acknowledge syndrome val psn msn => exact ht

theorem reqStep_window {s s' : St} {op : ReqOp} (h : s.qp.qpType = .rc ∧ Window s.qp)
    (hs : reqStep s op = .ok s') : s'.qp.qpType = .rc ∧ Window s'.qp := by
  obtain ⟨hrc, hw⟩ := h
  obtain ⟨hrc', hf⟩ := reqStep_filled ⟨hrc, hw.filled⟩ hs
  exact ⟨hrc', hf.window (reqStep_psn24 hrc hw.numbered.sq24 hs)⟩

/-! ## The window after each operation -/

/-- The PSNs of the queued packets, in the words of the comment in
`roce_xmit_pkts`. -/
structure InWindow (qp : RoceQp) : Prop where
  contiguous : psnsOf (qp.req.outgoingPkts ++ qp.req.pendingPkts) =
    Serial.seq psnMod qp.attr.sqPsn.toNat (qp.req.outgoingPkts ++ qp.req.pendingPkts).length
  endsAtPsn : qp.req.psn.toNat =
    (qp.attr.sqPsn.toNat + (qp.req.outgoingPkts ++ qp.req.pendingPkts).length) % psnMod
  lastOutgoing : ∀ pkt ∈ qp.req.outgoingPkts.getLast?,
    Serial.dist psnMod (roceNetpktPsn pkt).toNat qp.attr.sqPsn.toNat ≤ roceMaxOutgoingPackets.toNat
  stalled : qp.req.pendingPkts ≠ [] → ∃ pkt, qp.req.outgoingPkts.getLast? = some pkt ∧
    (roceNetpktPsn pkt).toNat = (qp.attr.sqPsn.toNat + roceMaxOutgoingPackets.toNat) % psnMod

theorem Window.inWindow {qp : RoceQp} (h : Window qp) : InWindow qp := by
  have h8 : roceMaxOutgoingPackets.toNat = 8 := rfl
  refine ⟨h.numbered.psns, ?_, ?_, ?_⟩
  · have hlt := psnAfter_lt h.numbered.sq24 qp.req.queued.length
    rw [h.numbered.next, ← Nat.mod_eq_of_lt hlt, psnAfter_toNat]
    rfl
  · intro pkt hl
    obtain ⟨hpos, hpsn⟩ := h.numbered.counted.lastPsn hl
    have hfew := h.numbered.few
    rw [hpsn, Serial.dist_add (by decide) _ _ (by unfold psnMod; omega), h8]
    omega
  · intro hne
    have hlen := h.full hne
    cases hl : qp.req.outgoingPkts.getLast? with
    | none =>
      rw [List.getLast?_eq_none_iff.mp hl] at hlen
      cases hlen
    | some pkt =>
      obtain ⟨-, hpsn⟩ := h.numbered.counted.lastPsn hl
      exact ⟨pkt, rfl, by rw [hpsn, hlen, h8]⟩

/-- **The window.**  It holds after each operation of every run. -/
theorem reqRun_inWindow (s : St) (h0 : Started s) (ops : List ReqOp) :
    Machine.Throughout reqStep (fun t => InWindow t.qp) s ops := by
  have hw : s.qp.qpType = .rc ∧ Window s.qp := ⟨h0.rc, h0.sqPsnSet.1.window⟩
  have hall : Machine.Throughout reqStep (fun t => t.qp.qpType = .rc ∧ Window t.qp) s ops :=
    Machine.throughout_of_inv (fun _ _ _ h hs => reqStep_window h hs) ops hw
  exact Machine.throughout_imp (fun t ht => ht.2.inWindow) hall

/-- `n` WRs of one packet, posted one after the other. -/
def postMany (n : Nat) : List ReqOp :=
  (List.range n).map fun i => .post (smallSend (i + 1) .send) fun _ => true

/-- The last sixteen PSNs below the wrap, the ACKs in between that empty the
queues, and eleven PSNs above it. -/
def acrossWrap : List ReqOp :=
  postMany 15 ++ [.acknowledge .ack 0 0xfffff8 0, .acknowledge .ack 0 0xfffffe 0] ++
    postMany 1 ++ [.acknowledge .ack 0 0xffffff 0] ++ postMany 11

theorem reqRun_inWindow_wrap :
    (∃ t, Machine.run reqStep (smallStart 0xfffff0) acrossWrap = .ok t ∧
      t.qp.req.outgoingPkts.map roceNetpktPsn = [0, 1, 2, 3, 4, 5, 6, 7, 8] ∧
      t.qp.req.pendingPkts.map roceNetpktPsn = [9, 10]) ∧
    Machine.Throughout reqStep (fun t => InWindow t.qp) (smallStart 0xfffff0) acrossWrap :=
  ⟨⟨_, rfl, rfl, rfl⟩,
    reqRun_inWindow (smallStart 0xfffff0) (smallStart_started (by decide)) acrossWrap⟩

/-! ## The assertions -/

/-- The two assertions at the head of `roce_xmit_pkts`. -/
structure HeadAsserts (qp : RoceQp) : Prop where
  psn : ∀ pkt ∈ qp.req.outgoingPkts.getLast?,
    roceNetpktPsn pkt ≥ qp.attr.sqPsn ∧ roceNetpktPsn pkt ≤ qp.req.psn
  window : ∀ pkt ∈ qp.req.outgoingPkts.getLast?,
    roceComparePsn (qp.attr.sqPsn + roceMaxOutgoingPackets) (roceNetpktPsn pkt) ≥ 0

/-- They are all that can stop it. -/
theorem roceXmitPkts_ok_iff (s : St) : (∃ s', roceXmitPkts s = .ok s') ↔ HeadAsserts s.qp := by
  unfold roceXmitPkts
  cases hl : s.qp.req.outgoingPkts.getLast? with
  | none =>
    constructor
    · intro _
      constructor <;> simp [hl]
    · intro _
      exact ⟨_, rfl⟩
  | some pkt =>
    constructor
    · rintro ⟨s', h⟩
      simp only at h
      split at h
      · next hpsn =>
        split at h
        · next hdiff =>
          constructor
          · rintro last hlast
            obtain rfl := Option.some.inj (hl.symm.trans hlast)
            exact hpsn
          · rintro last hlast
            obtain rfl := Option.some.inj (hl.symm.trans hlast)
            exact hdiff
        · cases h
      · cases h
    · rintro ⟨hpsn, hdiff⟩
      simp only
      rw [if_pos (hpsn pkt hl), if_pos (hdiff pkt hl)]
      split
      · exact ⟨_, rfl⟩
      · exact ⟨_, rfl⟩

/-- No packet is outgoing, or the outgoing PSNs do not wrap and the next PSN
has not wrapped below the last of them. -/
def BelowWrap (sqPsn outgoing pending : Nat) : Prop :=
  outgoing = 0 ∨ sqPsn + outgoing ≤ psnMod ∧ sqPsn + outgoing ≤ (sqPsn + outgoing + pending) % psnMod + 1

theorem compareWindow_nonneg {sqPsn psn : UInt32} {k : Nat} (hk : k ≤ 8)
    (hpsn : psn.toNat = (sqPsn.toNat + k) % psnMod) :
    roceComparePsn (sqPsn + roceMaxOutgoingPackets) psn ≥ 0 := by
  apply Int32.not_lt.mp
  rw [roceComparePsn_neg, dist_window hk hpsn]
  omega

theorem Numbered.headAsserts_iff {qp : RoceQp} (h : Numbered qp) : HeadAsserts qp ↔
    BelowWrap qp.attr.sqPsn.toNat qp.req.outgoingPkts.length qp.req.pendingPkts.length := by
  have hpsn : qp.req.psn.toNat = (qp.attr.sqPsn.toNat + qp.req.outgoingPkts.length +
      qp.req.pendingPkts.length) % psnMod := by
    have hlt := psnAfter_lt h.sq24 qp.req.queued.length
    rw [h.next, ← Nat.mod_eq_of_lt hlt, psnAfter_toNat, RoceRequester.queued, List.length_append,
      Nat.add_assoc]
  have h24 := h.sq24
  have hfew := h.few
  cases hl : qp.req.outgoingPkts.getLast? with
  | none =>
    have hnil := List.getLast?_eq_none_iff.mp hl
    constructor
    · intro _
      exact Or.inl (List.length_eq_zero_iff.mpr hnil)
    · intro _
      constructor
      · rintro pkt hpkt
        rw [hl] at hpkt
        cases hpkt
      · rintro pkt hpkt
        rw [hl] at hpkt
        cases hpkt
  | some last =>
    obtain ⟨hpos, hlast⟩ := h.counted.lastPsn hl
    have hkey : (roceNetpktPsn last ≥ qp.attr.sqPsn ∧ roceNetpktPsn last ≤ qp.req.psn) ↔
        BelowWrap qp.attr.sqPsn.toNat qp.req.outgoingPkts.length qp.req.pendingPkts.length := by
      rw [ge_iff_le, UInt32.le_iff_toNat_le, UInt32.le_iff_toNat_le, hlast, hpsn]
      unfold BelowWrap
      unfold psnMod at h24 ⊢
      omega
    constructor
    · intro ha
      exact hkey.mp (ha.psn last hl)
    · intro hfit
      constructor
      · rintro pkt hpkt
        obtain rfl := Option.some.inj (hl.symm.trans hpkt)
        exact hkey.mpr hfit
      · rintro pkt hpkt
        obtain rfl := Option.some.inj (hl.symm.trans hpkt)
        exact compareWindow_nonneg (by omega) hlast

end Libroce
