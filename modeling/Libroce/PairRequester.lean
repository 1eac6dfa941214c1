import Libroce.GoBackN
import Libroce.PostedSend
import Libroce.Sequencing

/-!
# The requester of a pair

The packets built so far form one stream, with PSNs that count from the first
SQ PSN on.  A post adds a train at its end, an acknowledgement completes packets
at its front.

    RequesterSide   what was built, what is acknowledged, which WRs left

Main statements:
* `RequesterSide.post` — a post of a SEND.
* `RequesterSide.acknowledge` — an acknowledgement of the first packets.
-/

namespace Libroce

open Machine (bind_eq_ok)

/-! ## The stream -/

/-- The bytes of packets. -/
def payloadOf (pkts : List RoceNetpkt) : List UInt8 := (pkts.map (·.payload.flatten)).flatten

theorem payloadOf_append (ps qs : List RoceNetpkt) : payloadOf (ps ++ qs) = payloadOf ps ++ payloadOf qs := by
  unfold payloadOf
  rw [List.map_append, List.flatten_append]

theorem payloadOf_singleton (pkt : RoceNetpkt) : payloadOf [pkt] = pkt.payload.flatten := by
  unfold payloadOf
  rw [List.map_singleton, List.flatten_singleton]

/-- What a packet conveys depends on its place. -/
theorem Fragments.place {m : Message} {first : Bool} {part next : List RoceNetpkt} {pkt : RoceNetpkt}
    (h : Fragments m first (part ++ pkt :: next)) :
    Conveys m (first && part.isEmpty) next.isEmpty pkt := by
  induction part generalizing first with
  | nil =>
    rw [List.nil_append] at h
    cases h with
    | last _ hconv =>
      rw [List.isEmpty_nil, Bool.and_true]
      exact hconv
    | more _ hconv hrest =>
      have hne : next.isEmpty = false := by cases hrest <;> rfl
      rw [hne, List.isEmpty_nil, Bool.and_true]
      exact hconv
  | cons p part ih =>
    have hnot : part ++ pkt :: next ≠ [] := by simp
    rw [List.cons_append] at h
    generalize hrest : part ++ pkt :: next = pkts at h
    cases h with
    | last _ _ => exact absurd hrest hnot
    | more _ _ hmore =>
      rw [← hrest] at hmore
      have hconv := ih hmore
      rw [Bool.false_and] at hconv
      rw [List.isEmpty_cons, Bool.and_false]
      exact hconv

section train

variable {s t : St} {d : SendData} {pkts : List RoceNetpkt}

theorem SendTrain.ne_nil (h : SendTrain s d pkts) : pkts ≠ [] := by
  have hfrag := h.fragments
  cases hfrag with
  | last _ _ => exact List.cons_ne_nil _ _
  | more _ _ _ => exact List.cons_ne_nil _ _

theorem SendTrain.acts (h : SendTrain s d pkts) {sent : List RoceNetpkt} (ha : Acts s t sent) :
    SendTrain t d pkts := by
  refine ⟨h.fragments, h.bytes, h.short, h.owners, ?_⟩
  intro pkt hmem
  obtain ⟨hreq, opcode, haddr⟩ := h.requests pkt hmem
  exact ⟨hreq, opcode, haddr.acts ha⟩

/-- The last packet alone points back to a WR. -/
theorem SendTrain.ownersOf (h : SendTrain s d pkts) : (ownersOf pkts).length = 1 ∧
    ∀ part next, pkts = part ++ next → next ≠ [] → Libroce.ownersOf part = [] := by
  obtain ⟨addr, howners⟩ := h.owners
  have hmap : ∀ ps : List RoceNetpkt, Libroce.ownersOf ps = (ps.map (·.opaquePtr)).filterMap id := by
    intro ps
    unfold Libroce.ownersOf
    rw [List.filterMap_map]
    rfl
  have hnone : ∀ n, (List.replicate n (none : Option Nat)).filterMap id = [] := by
    intro n
    rw [List.filterMap_eq_nil_iff]
    intro o ho
    rw [List.eq_of_mem_replicate ho]
    rfl
  constructor
  · rw [hmap, howners, List.filterMap_append, hnone]
    rfl
  · rintro part next rfl hne
    have hpos := List.length_pos_iff.mpr hne
    have hpart : part.map (·.opaquePtr) = List.replicate part.length none := by
      have htake := congrArg (List.take part.length) howners
      rw [List.map_append, List.take_left' (List.length_map _), List.length_append,
        List.take_append_of_le_length (by rw [List.length_replicate]; omega), List.take_replicate,
        Nat.min_eq_left (by omega)] at htake
      exact htake
    rw [hmap, hpart, hnone]

end train

/-- As many WRs are pointed back to as there are trains. -/
theorem ownersOf_trains {s : St} {data : List SendData} {trains : List (List RoceNetpkt)}
    (h : List.Forall₂ (SendTrain s) data trains) : (ownersOf trains.flatten).length = trains.length := by
  induction h with
  | nil => rfl
  | cons htrain _ ih =>
    rw [List.flatten_cons, ownersOf_append, List.length_append, ih, htrain.ownersOf.1, List.length_cons]
    omega

/-! ## The requester -/

/-- An acknowledgement of the first `c` packets from `base` on completes no packet
behind them. -/
theorem Counted.ack_takes {s t : St} {base n c : Nat} {psn : UInt32} (hc : Counted s.qp)
    (hsq : s.qp.attr.sqPsn.toNat % psnMod = (base + n) % psnMod)
    (hpsn : psn.toNat % psnMod = (base + (psnMod - 1) + c) % psnMod)
    (hbuilt : n + s.qp.req.queued.length < 2 ^ 23) (hcount : c < 2 ^ 23)
    (h : roceHandleAck s psn = .ok t) : ∃ m, TakesOff s t m ∧ n + m ≤ max n c := by
  have hq : s.qp.req.outgoingPkts.length ≤ s.qp.req.queued.length := by
    rw [RoceRequester.queued, List.length_append]
    omega
  have hstay : t = s → ∃ m, TakesOff s t m ∧ n + m ≤ max n c := by
    rintro rfl
    exact ⟨0, .refl t, by omega⟩
  unfold roceHandleAck at h
  by_cases hempty : s.qp.req.outgoingPkts = []
  · -- nothing to complete
    apply hstay
    rw [hempty] at h
    split at h
    · exact (Except.ok.inj h).symm
    · split at h
      · exact (Except.ok.inj h).symm
      · exact (Except.ok.inj h).symm
  have hpos := List.length_pos_iff.mpr hempty
  by_cases hold : c ≤ n
  · -- nothing new: the PSN lies before the SQ PSN
    have hcmp := (roceComparePsn_offset (x := s.qp.attr.sqPsn) (y := psn) (c := base + (psnMod - 1))
      (a := n + 1) (b := c) (by omega) hcount ?_ hpsn).1
    · rw [if_pos (hcmp.mpr (by omega))] at h
      exact hstay (Except.ok.inj h).symm
    · rw [hsq, show base + (psnMod - 1) + (n + 1) = base + n + psnMod by unfold psnMod; omega,
        Nat.add_mod_right]
  · have hoff : psn.toNat % psnMod = (base + (c - 1)) % psnMod := by
      rw [hpsn, show base + (psnMod - 1) + c = base + (c - 1) + psnMod by unfold psnMod; omega,
        Nat.add_mod_right]
    have hbefore := (roceComparePsn_offset (x := s.qp.attr.sqPsn) (a := n) (by omega)
      (show c - 1 < 2 ^ 23 by omega) hsq hoff).1
    rw [if_neg (by rw [hbefore]; omega)] at h
    split at h
    · exact hstay (Except.ok.inj h).symm
    · refine ⟨_, ackLoop_takes (Nat.min_le_right (c - n) _) ?_ rfl h, by omega⟩
      intro j hj
      have hpkt : (roceNetpktPsn s.qp.req.outgoingPkts[j]).toNat % psnMod = (base + (n + j)) % psnMod := by
        rw [hc.outgoingPsn hj, Nat.mod_mod, ← Nat.mod_add_mod, hsq, Nat.mod_add_mod, Nat.add_assoc]
      have hcmp := (roceComparePsn_offset (show n + j < 2 ^ 23 by omega) (show c - 1 < 2 ^ 23 by omega)
        hpkt hoff).1
      rw [hcmp]
      omega

/-- The requester has built the trains of `data` and completed the first `n` packets
of them, and with these the WRs `left` of the posted WRs `wrs`. -/
structure RequesterSide (base : Nat) (s : St) (sent : List RoceNetpkt) (wrs : List SendWr)
    (reported : List RoceWc)
    (data : List SendData) (trains : List (List RoceNetpkt)) (n : Nat) (left : List SendWr) : Prop where
  filled : s.qp.qpType = .rc ∧ Filled s.qp
  owners : Owners s.qp
  built : List.Forall₂ (SendTrain s) data trains
  psns : psnsOf trains.flatten = Serial.seq psnMod base trains.flatten.length
  few : n ≤ trains.flatten.length
  queued : s.qp.req.queued = trains.flatten.drop n
  sqPsn : s.qp.attr.sqPsn.toNat % psnMod = (base + n) % psnMod
  onTheWay : ∀ pkt ∈ sent, pkt ∈ trains.flatten
  live : ∀ wr ∈ left ++ s.qp.sq, completesAtHead wr = false
  kept : (left ++ s.qp.sq).map SendWr.fresh = wrs.map SendWr.fresh
  count : wrs.length = data.length
  owed : reported.map (fun wc => (wc.wrId, wc.status)) =
    (left.filter (owedReport s.qp)).map fun wr => (wr.wrId, wr.error)

section requests

variable {base n : Nat} {s t : St} {sent : List RoceNetpkt} {wrs left : List SendWr} {reported : List RoceWc}
  {data : List SendData} {trains : List (List RoceNetpkt)}

theorem Acts.owedReport {ps : List RoceNetpkt} (h : Acts s t ps) : owedReport t.qp = owedReport s.qp := by
  funext wr
  unfold Libroce.owedReport wrSignaled
  rw [h.qp]

theorem RequesterSide.allLive (h : RequesterSide base s sent wrs reported data trains n left) : AllLive s :=
  fun wr hmem => h.live wr (List.mem_append_right _ hmem)

/-- A SEND is posted. -/
theorem RequesterSide.post {wr : SendWr} {calloc : Nat → Bool} {pkts : List RoceNetpkt}
    (h : RequesterSide base s sent wrs reported data trains n left)
    (hop : wr.opcode = .send ∨ wr.opcode = .sendWithImm) (hs : rocePostSend s wr.fresh calloc = .ok t)
    (hq : Queues s t wr pkts) :
    RequesterSide base t (sent ++ sentSince s t) (wrs ++ [wr]) (reported ++ reportedWcs (eventsSince s t))
      (data ++ [wr.data s.ctx]) (trains ++ [pkts]) n left := by
  have hstep : reqStep s (.post wr calloc) = .ok t := hs
  have hfilled := reqStep_filled h.filled hstep
  obtain ⟨moved, hacts, hmoved⟩ := hq.acts
  obtain ⟨wr2, hfresh, hlive, hsq⟩ := hq.sq
  have hflat : (trains ++ [pkts]).flatten = trains.flatten ++ pkts := by
    rw [List.flatten_append, List.flatten_singleton]
  have hqueued : t.qp.req.queued = (trains ++ [pkts]).flatten.drop n := by
    rw [hq.queued, h.queued, hflat, List.drop_append_of_le_length h.few]
  refine ⟨hfilled, ?_, ?_, ?_, ?_, hqueued, ?_, ?_, ?_, ?_, ?_, ?_⟩
  · refine (reqStep_owners h.filled.1 h.owners hstep).mpr ?_
    rintro ⟨hun, -⟩
    unfold Unimplemented at hun
    rcases hop with hop | hop
    · simp [hop] at hun
    · simp [hop] at hun
  · have hold := h.built.imp fun d ps htrain => htrain.acts hacts
    exact List.rel_append hold (.cons (hq.train.acts hacts) .nil)
  · -- the new packets go on where the queue ended
    have hpsns := hfilled.2.counted.psns
    have hold := h.filled.2.counted.psns
    have hlen : s.qp.req.queued.length = trains.flatten.length - n := by
      rw [h.queued, List.length_drop]
    rw [hq.queued, psnsOf_append, List.length_append, hq.sqPsn, Serial.seq_append, hold] at hpsns
    have hnew : psnsOf pkts = Serial.seq psnMod (base + trains.flatten.length) pkts.length := by
      rw [List.append_cancel_left hpsns, ← Serial.seq_mod, Nat.add_mod, h.sqPsn, ← Nat.add_mod, hlen,
        Nat.add_assoc, Nat.add_sub_cancel' h.few, Serial.seq_mod]
    rw [hflat, psnsOf_append, h.psns, hnew, List.length_append, Serial.seq_append]
  · have hfew := h.few
    rw [hflat, List.length_append]
    omega
  · rw [hq.sqPsn]
    exact h.sqPsn
  · intro pkt hmem
    rcases List.mem_append.mp hmem with hmem | hmem
    · rw [hflat]
      exact List.mem_append_left _ (h.onTheWay pkt hmem)
    · rw [hacts.sentSince] at hmem
      have hin := hmoved pkt hmem
      rw [hqueued] at hin
      exact List.mem_of_mem_drop hin
  · intro w hw
    rw [hsq, ← List.append_assoc] at hw
    rcases List.mem_append.mp hw with hw | hw
    · exact h.live w hw
    · obtain rfl := List.mem_singleton.mp hw
      exact hlive
  · rw [hsq, ← List.append_assoc, List.map_append, h.kept, List.map_append, List.map_singleton,
      List.map_singleton, hfresh]
  · rw [List.length_append, List.length_append, h.count]
    rfl
  · rw [hq.unreported, List.append_nil, hacts.owedReport]
    exact h.owed

/-- An acknowledgement of the first `c` packets from `base` on. -/
def Counts (base c : Nat) (syndrome : Syndrome) (psn : UInt32) : Prop :=
  match syndrome with
  | .ack => 0 < c ∧ psn.toNat % psnMod = (base + (c - 1)) % psnMod
  | .nak => psn.toNat % psnMod = (base + c) % psnMod
  | .rnrNak => False
  | .reserved => False

/-- It completes packets, and then `roce_xmit_pkts` is called. -/
theorem Counts.completes {c : Nat} {syndrome : Syndrome} {val : UInt8} {psn msn : UInt32}
    (hp : Counts base c syndrome psn) (h : roceHandleAcknowledge s syndrome val psn msn = .ok t) :
    ∃ psn' u es, psn'.toNat % psnMod = (base + (psnMod - 1) + c) % psnMod ∧
      roceHandleAck s psn' = .ok u ∧ roceXmitPkts (u.emit es) = .ok t := by
  cases syndrome with
  | ack =>
    obtain ⟨hpos, hpsn⟩ := hp
    obtain ⟨u, hu, hx⟩ := bind_eq_ok.mp h
    have hnone : u.emit [] = u := by
      unfold St.emit
      rw [List.append_nil]
    refine ⟨psn, u, [], ?_, hu, ?_⟩
    · rw [hpsn, show base + (psnMod - 1) + c = base + (c - 1) + psnMod by unfold psnMod; omega,
        Nat.add_mod_right]
    · rw [hnone]
      exact hx
  | nak =>
    have hpsn : psn.toNat % psnMod = (base + c) % psnMod := hp
    obtain ⟨u, hu, hx⟩ := bind_eq_ok.mp h
    refine ⟨_, u, _, ?_, hu, hx⟩
    rw [psnBefore_toNat, Nat.mod_mod, ← Nat.mod_add_mod, hpsn, Nat.mod_add_mod]
    congr 1
    omega
  | rnrNak => exact hp.elim
  | reserved => exact hp.elim

/-- An acknowledgement arrives. -/
theorem RequesterSide.acknowledge {c : Nat} {syndrome : Syndrome} {val : UInt8} {psn msn : UInt32}
    (h : RequesterSide base s sent wrs reported data trains n left) (hcount : c ≤ trains.flatten.length)
    (hbound : trains.flatten.length < 2 ^ 23) (hp : Counts base c syndrome psn)
    (hack : roceHandleAcknowledge s syndrome val psn msn = .ok t) :
    ∃ n' left' pkts, n' ≤ max n c ∧ Acts s t pkts ∧ RequesterSide base t (sent ++ sentSince s t) wrs
      (reported ++ reportedWcs (eventsSince s t)) data trains n' left' := by
  have hstep : reqStep s (.acknowledge syndrome val psn msn) = .ok t := hack
  have hfilled := reqStep_filled h.filled hstep
  have hlen : s.qp.req.queued.length = trains.flatten.length - n := by
    rw [h.queued, List.length_drop]
  have hfew := h.few
  obtain ⟨psn', u, es, hpsn, hu, hx⟩ := hp.completes hack
  obtain ⟨m, htakes, hm⟩ := Counted.ack_takes h.filled.2.counted h.sqPsn hpsn (by omega) (by omega) hu
  obtain ⟨moved, hmoves⟩ := roceXmitPkts_moves hx
  obtain ⟨pkts, hacts, hfrom⟩ := acknowledge_sends hack
  obtain ⟨gone, hgone⟩ := roceHandleAcknowledge_departs hack
  obtain ⟨-, es', htrace, hsq, hreported⟩ := hgone.settles h.allLive
  have hevents : eventsSince s t = es' := by
    unfold eventsSince
    rw [htrace]
    exact List.drop_left
  have hqueued : t.qp.req.queued = trains.flatten.drop (n + m) := by
    have hsame : u.qp.req.queued = s.qp.req.queued.drop m := by
      rw [htakes.req]
      show s.qp.req.outgoingPkts.drop m ++ s.qp.req.pendingPkts = _
      rw [RoceRequester.queued, List.drop_append_of_le_length htakes.few]
    have hxmit : t.qp.req.queued = u.qp.req.queued := (roceXmitPkts_ok hx).queued
    rw [hxmit, hsame, h.queued, List.drop_drop]
  have hsqPsn : t.qp.attr.sqPsn = psnAfter s.qp.attr.sqPsn m := by
    rw [hmoves.qp]
    show u.qp.attr.sqPsn = _
    rw [htakes.attr]
  have hfew' : n + m ≤ trains.flatten.length := by omega
  refine ⟨n + m, left ++ leftWrs es', pkts, hm, hacts, hfilled, ?_, ?_, h.psns, hfew', hqueued, ?_, ?_,
    ?_, ?_, h.count, ?_⟩
  · exact (reqStep_owners h.filled.1 h.owners hstep).mpr id
  · exact h.built.imp fun d ps htrain => htrain.acts hacts
  · rw [hsqPsn, psnAfter_toNat, ← Nat.mod_add_mod, h.sqPsn, Nat.mod_add_mod, Nat.add_assoc]
  · intro pkt hmem
    rcases List.mem_append.mp hmem with hmem | hmem
    · exact h.onTheWay pkt hmem
    · rw [hacts.sentSince] at hmem
      have hin := hfrom pkt hmem
      rw [h.queued] at hin
      exact List.mem_of_mem_drop hin
  · rw [List.append_assoc, ← hsq]
    exact h.live
  · rw [List.append_assoc, ← hsq]
    exact h.kept
  · rw [hevents, List.map_append, h.owed, hreported, hacts.owedReport, List.filter_append, List.map_append]

end requests

end Libroce
