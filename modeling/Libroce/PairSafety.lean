import Libroce.PairResponder

/-!
# SENDs arrive in order and once

Of the packets built so far, `n` are acknowledged and `k` executed.  Requests on
their way come from the stream, and an acknowledgement on its way counts at most
`k` packets:

    n ≤ k ≤ built

Main statement: `pairRun_safe`.
-/

namespace Libroce

open Machine (run Along)

/-! ## Both sides -/

/-- The two sides, `n` packets acknowledged and `k` executed. -/
structure Linked (longest base : Nat) (x : Pair) : Prop where
  there : Joined x.a x.b
  back : Joined x.b x.a
  long : ∀ p ∈ x.posted, p.2.bytes.length ≤ longest
  sides : ∃ trains n k left,
    RequesterSide base x.a x.fromA (x.posted.map (·.1)) x.reported (x.posted.map (·.2)) trains n left ∧
      ResponderSide longest base x.b x.fromB x.received (x.posted.map (·.2)) trains k ∧
      n ≤ k ∧ k ≤ trains.flatten.length ∧ x.psns = trains.flatten.length

section linked

variable {longest base : Nat} {x y : Pair}

theorem Pair.Fresh.linked (h : x.Fresh) : Linked longest x.a.qp.attr.sqPsn.toNat x := by
  obtain ⟨hfromA, hfromB⟩ := h.network
  obtain ⟨hposted, hpsns, hreported, hreceived⟩ := h.record
  have hqueued : x.a.qp.req.queued = [] := by
    unfold RoceRequester.queued
    rw [h.sqPsnSet.outgoing, h.sqPsnSet.pending]
    rfl
  refine ⟨h.there, h.back, ?_, [], 0, 0, [], ?_, ?_, Nat.le_refl 0, Nat.le_refl 0, hpsns⟩
  · rw [hposted]
    simp
  · rw [hfromA, hposted, hreported]
    refine ⟨⟨h.there.rc, h.sqPsnSet.window.filled⟩, ?_, .nil, rfl, Nat.le_refl 0, hqueued, rfl, by simp, ?_,
      ?_, rfl, rfl⟩
    · unfold Owners
      rw [h.sq, h.sqPsnSet.outgoing, h.sqPsnSet.pending]
      rfl
    · rw [h.sq]
      simp
    · rw [h.sq]
      rfl
  · rw [hfromB, hposted, hreceived]
    have hqueue : RecvQueue longest x.b := by
      refine ⟨?_, ?_⟩
      · rw [h.rq]
        exact List.nodup_nil
      · rw [h.rq]
        simp
    refine ⟨hqueue, by rw [h.psn, Nat.add_zero], by simp, [], [], ?_, fun hno => absurd rfl hno, rfl⟩
    exact ⟨List.nil_prefix, fun hno => absurd rfl hno, rfl⟩

/-- PSNs are only ever used up. -/
theorem pairStep_psns {op : PairOp} (h : pairStep x op = .ok y) : x.psns ≤ y.psns := by
  cases pairStep_turn h with
  | postSend _ => exact Nat.le_add_right _ _
  | postRecv _ => exact Nat.le_refl _
  | toB _ _ _ => exact Nat.le_refl _
  | toA _ _ _ => exact Nat.le_refl _

theorem pairRun_psns {ops : List PairOp} (h : run pairStep x ops = .ok y) : x.psns ≤ y.psns := by
  have hstep : ∀ (u : Pair) (op : PairOp) (v : Pair), x.psns ≤ u.psns → pairStep u op = .ok v →
      x.psns ≤ v.psns :=
    fun _ _ _ hle hs => Nat.le_trans hle (pairStep_psns hs)
  exact Machine.run_inv hstep (Nat.le_refl _) h

/-- A post of a SEND. -/
theorem Linked.postSend {wr : SendWr} {calloc : Nat → Bool} {a : St} (h : Linked longest base x)
    (hallow : Allowed longest x (.postSend wr calloc)) (hun : Unfailed x (.postSend wr calloc))
    (hpost : rocePostSend x.a wr.fresh calloc = .ok a) : Linked longest base (x.posts wr a) := by
  obtain ⟨trains, n, k, left, hreq, hrecv, hnk, hk, hpsns⟩ := h.sides
  obtain ⟨hop, hlen⟩ := hallow
  obtain ⟨hinline, hin, hcalloc⟩ := hun
  obtain ⟨pkts, hq⟩ :=
    rocePostSend_train hreq.filled.1 h.there.mtus hreq.allLive hop hin hinline hcalloc hpost
  obtain ⟨moved, hacts, -⟩ := hq.acts
  have hcount : trains.length = (x.posted.map (·.2)).length := hreq.built.length_eq.symm
  have hflat : (trains ++ [pkts]).flatten = trains.flatten ++ pkts := by
    rw [List.flatten_append, List.flatten_singleton]
  have hposted : (x.posts wr a).posted = x.posted ++ [(wr, wr.data x.a.ctx)] := rfl
  refine ⟨h.there.acts hacts (.refl _), h.back.acts (.refl _) hacts, ?_, trains ++ [pkts], n, k, left, ?_,
    ?_, hnk, ?_, ?_⟩
  · intro p hp
    rw [hposted] at hp
    rcases List.mem_append.mp hp with hp | hp
    · exact h.long p hp
    · rw [List.mem_singleton.mp hp]
      show (wr.data x.a.ctx).bytes.length ≤ longest
      rw [hq.length]
      exact hlen
  · rw [hposted, List.map_append, List.map_append]
    exact hreq.post hop hpost hq
  · rw [hposted, List.map_append]
    exact hrecv.grow hcount
  · rw [hflat, List.length_append]
    omega
  · show x.psns + (a.qp.req.queued.length - x.a.qp.req.queued.length) = _
    rw [hflat, hq.queued, List.length_append, List.length_append, hpsns]
    omega

/-- **One step.** -/
theorem Linked.step {op : PairOp} (h : Linked longest base x) (hallow : Allowed longest x op)
    (hun : Unfailed x op) (hfew : y.psns < 2 ^ 23) (hs : pairStep x op = .ok y) : Linked longest base y := by
  have hmono := pairStep_psns hs
  cases pairStep_turn hs with
  | postSend hpost => exact h.postSend hallow hun hpost
  | postRecv hpost =>
    obtain ⟨trains, n, k, left, hreq, hrecv, hnk, hk, hpsns⟩ := h.sides
    obtain ⟨hne, hnew, hroom⟩ := hallow
    obtain ⟨hacts, hnext⟩ := hrecv.postRecv hne hnew hroom hpost
    exact ⟨h.there.acts (.refl _) hacts, h.back.acts hacts (.refl _), h.long, trains, n, k, left, hreq, hnext,
      hnk, hk, hpsns⟩
  | toB hsent hframe harrive =>
    obtain ⟨trains, n, k, left, hreq, hrecv, hnk, hk, hpsns⟩ := h.sides
    have hlong : ∀ d ∈ x.posted.map (·.2), d.bytes.length ≤ longest := by
      intro d hd
      obtain ⟨p, hp, rfl⟩ := List.mem_map.mp hd
      exact h.long p hp
    obtain ⟨k', acks, hle, hk', hacts, hnext⟩ := hrecv.request hreq.built hreq.psns (by omega) hlong hk
      h.there (hreq.onTheWay _ hsent) hframe harrive
    exact ⟨h.there.acts (.refl _) hacts, h.back.acts hacts (.refl _), h.long, trains, n, k', left, hreq,
      hnext, by omega, hk', hpsns⟩
  | toA hsent hframe harrive =>
    obtain ⟨trains, n, k, left, hreq, hrecv, hnk, hk, hpsns⟩ := h.sides
    obtain ⟨c, hc, syndrome, hans, hcount⟩ := hrecv.answers _ hsent
    obtain ⟨val, msn, hack⟩ := hans.roceNetRecv h.back hframe harrive
    obtain ⟨n', left', pkts, hn', hacts, hnext⟩ := hreq.acknowledge (by omega) (by omega) hcount hack
    exact ⟨h.there.acts hacts (.refl _), h.back.acts (.refl _) hacts, h.long, trains, n', k, left',
      hnext, hrecv, by omega, hk, hpsns⟩

/-- No more WRs left than messages were received. -/
theorem RequesterSide.left_le {s t : St} {sent sent' : List RoceNetpkt} {wrs left : List SendWr}
    {reported : List RoceWc} {received data : List SendData} {trains : List (List RoceNetpkt)} {n k : Nat}
    (h : RequesterSide base s sent wrs reported data trains n left)
    (hr : ResponderSide longest base t sent' received data trains k) (hnk : n ≤ k) :
    left.length ≤ received.length := by
  obtain ⟨done, part, hstands, -, hreceived⟩ := hr.place
  have hqueue : s.qp.sq.length = (ownersOf (trains.flatten.drop n)).length := by
    have hall : s.qp.sq.filter awaited = s.qp.sq := by
      rw [List.filter_eq_self]
      intro wr hmem
      rw [awaited_eq, h.allLive wr hmem]
      rfl
    have howners : (s.qp.sq.filter awaited).map (·.addr) = ownersOf s.qp.req.queued := h.owners
    rw [hall, h.queued] at howners
    rw [← howners, List.length_map]
  have hposted : left.length + s.qp.sq.length = trains.length := by
    have hkept := congrArg List.length h.kept
    rw [List.length_map, List.length_map, List.length_append] at hkept
    rw [hkept, h.count, h.built.length_eq]
  have htotal : (ownersOf (trains.flatten.take n)).length + (ownersOf (trains.flatten.drop n)).length =
      trains.length := by
    rw [← List.length_append, ← ownersOf_append, List.take_append_drop, ownersOf_trains h.built]
  have hmore : (ownersOf (trains.flatten.take n)).length ≤ (ownersOf (trains.flatten.take k)).length := by
    have hsplit : trains.flatten.take k = trains.flatten.take n ++ (trains.flatten.take k).drop n := by
      conv_lhs => rw [← List.take_append_drop n (trains.flatten.take k)]
      rw [List.take_take, Nat.min_eq_left hnk]
    rw [hsplit, ownersOf_append, List.length_append]
    omega
  have hdone : done.length ≤ data.length := by
    rw [h.built.length_eq]
    exact hstands.before.length_le
  rw [hstands.ownersOf h.built] at hmore
  rw [hreceived, List.length_take, Nat.min_eq_left hdone]
  omega

/-- WRs that leave without an error were reported as sent. -/
theorem owed_fresh {qp : RoceQp} {left wrs : List SendWr} (hlive : ∀ wr ∈ left, completesAtHead wr = false)
    (h : left.map SendWr.fresh = wrs.map SendWr.fresh) :
    (left.filter (owedReport qp)).map (fun wr => (wr.wrId, wr.error)) =
      (wrs.filter (wrSignaled qp)).map fun wr => (wr.wrId, roceWcSuccess) := by
  induction left generalizing wrs with
  | nil =>
    cases wrs with
    | nil => rfl
    | cons w ws => cases h
  | cons wr left ih =>
    cases wrs with
    | nil => cases h
    | cons w ws =>
      obtain ⟨hhead, htail⟩ := List.cons.inj h
      have hid : wr.fresh.wrId = w.fresh.wrId := congrArg SendWr.wrId hhead
      have hflags : wr.fresh.sendFlags = w.fresh.sendFlags := congrArg SendWr.sendFlags hhead
      have herr : wr.error = 0 := by
        have hno := hlive wr List.mem_cons_self
        unfold completesAtHead at hno
        simpa using (Bool.or_eq_false_iff.mp hno).2
      have howed : owedReport qp wr = wrSignaled qp w := by
        unfold owedReport wrSignaled
        rw [herr, show wr.sendFlags = w.sendFlags from hflags]
        simp
      have hrest := ih (fun v hv => hlive v (List.mem_cons_of_mem _ hv)) htail
      cases hsig : wrSignaled qp w with
      | false =>
        rw [List.filter_cons_of_neg (by rw [howed, hsig]; simp), List.filter_cons_of_neg (by rw [hsig]; simp)]
        exact hrest
      | true =>
        rw [List.filter_cons_of_pos (by rw [howed, hsig]), List.filter_cons_of_pos hsig, List.map_cons,
          List.map_cons, hrest, herr, show wr.wrId = w.wrId from hid]
        rfl

theorem Linked.safe (h : Linked longest base x) : x.Safe := by
  obtain ⟨trains, n, k, left, hreq, hrecv, hnk, -, -⟩ := h.sides
  obtain ⟨done, part, -, -, hreceived⟩ := hrecv.place
  refine ⟨?_, left.length, hreq.left_le hrecv hnk, ?_⟩
  · rw [hreceived]
    exact List.take_prefix _ _
  · have hfirst : left.map SendWr.fresh = ((x.posted.take left.length).map (·.1)).map SendWr.fresh := by
      have htake := congrArg (List.take left.length) hreq.kept
      rw [List.map_append, List.take_left' (List.length_map _), ← List.map_take, ← List.map_take] at htake
      exact htake
    rw [hreq.owed, owed_fresh (fun wr hwr => hreq.live wr (List.mem_append_left _ hwr)) hfirst,
      List.filter_map, List.map_map]
    rfl

/-- **Safety.**  SENDs arrive in order and once, and are reported sent only when
they have arrived, in every run in which no post gets a local error. -/
theorem pairRun_safe (x0 : Pair) (h0 : x0.Fresh) (longest : Nat) (ops : List PairOp)
    (hallow : Along pairStep (Allowed longest) x0 ops) (hun : Along pairStep Unfailed x0 ops) (x : Pair)
    (hr : run pairStep x0 ops = .ok x) (hfew : x.psns < 2 ^ 23) : x.Safe := by
  have hstart : Linked longest x0.a.qp.attr.sqPsn.toNat x0 := h0.linked
  generalize x0.a.qp.attr.sqPsn.toNat = base at hstart
  clear h0
  have hrun : Linked longest base x := by
    induction ops generalizing x0 with
    | nil =>
      obtain rfl := Except.ok.inj hr
      exact hstart
    | cons op ops ih =>
      obtain ⟨y, hs, hr'⟩ := Machine.run_cons_eq_ok pairStep hr
      have hy : y.psns < 2 ^ 23 := Nat.lt_of_le_of_lt (pairRun_psns hr') hfew
      exact ih y (hallow.2 y hs) (hun.2 y hs) hr' (hstart.step hallow.1 hun.1 hy hs)
  exact hrun.safe

end linked

/-! ## Two runs -/

/-- A SEND of two bytes of the page. -/
def pageSend (opcode : WrOpcode) (lkey : UInt32) : SendWr :=
  { smallSend 1 opcode with sendFlags := roceSendSignaled, imm := 9, sge := [⟨0x10000, 2, lkey⟩] }

/-- Two QPs that were set up for each other.  Another QP on the responder's side
has posted a receive WR. -/
def pairStart : Pair :=
  ⟨⟨withMr smallCtx smallMr, pairSt.qp⟩, ⟨(smallRecv 2 1).ctx, pairSt.qp⟩, [], [], [], 0, [], []⟩

theorem pairStart_fresh : pairStart.Fresh := by
  have ha : Acts pairSt pairStart.a [] := ⟨⟨[], rfl, rfl⟩, rfl, rfl⟩
  have hb : Acts pairSt pairStart.b [] := ⟨⟨[], rfl, rfl⟩, rfl, rfl⟩
  have hj := pairSt_connected.there
  have hset := pairSt_connected.sqPsnSet
  exact ⟨hj.acts ha hb, hj.acts hb ha, hset, rfl, rfl, rfl, ⟨rfl, rfl⟩, rfl, rfl, rfl, rfl⟩

theorem pairStart_room : RecvRoom pairStart.b 2 [⟨0x10000, 2, 0⟩] := by
  have hhost : [(⟨0x10000, 2, 0⟩ : RoceSge)].flatMap (sgeHost pairStart.b.ctx) = [0x10000, 0x10001] := by
    decide
  have hsame : SameMrs pairStart.b.ctx pairStart.b.qp (smallRecv 2 1).ctx (smallRecv 2 1).qp :=
    ⟨rfl, rfl, rfl, rfl⟩
  refine ⟨?_, ?_, ?_, by decide⟩
  · intro g hg
    obtain rfl := List.mem_singleton.mp hg
    exact ⟨_, rfl, rfl, ⟨rfl, by decide, by decide⟩, by decide, by decide⟩
  · rw [hhost]
    decide
  · intro bytes idx off dst idx' off' hle hcut
    obtain ⟨dsts, dmamap, hp, htotal⟩ := smallRecv_mappable bytes idx off dst idx' off' hle hcut
    exact ⟨dsts, dmamap, hp.congr hsame rfl, htotal⟩

/-- The frame of the first packet that a side sent in a run. -/
def firstFrame (sent : Pair → List RoceNetpkt) (ops : List PairOp) : List (List UInt8) :=
  (run pairStep pairStart ops).toOption.elim [] fun x => (sent x).head?.elim [] (·.iovs)

/-- No MR has the key of the first SEND. -/
def lostPosts : List PairOp :=
  [.postRecv 0x2000 5 [⟨0x10000, 2, 0⟩], .postSend (pageSend .send 0x500) fun _ => true,
    .postSend (pageSend .sendWithImm 0) fun _ => true]

/-- Only the packet of the second is there to be delivered. -/
def lostOps : List PairOp := lostPosts ++ [.toB (firstFrame Pair.fromA lostPosts) true]

/-- The second SEND is the first message that is received. -/
theorem pairRun_safe_lost : pairStart.Fresh ∧ Along pairStep (Allowed 2) pairStart lostOps ∧
    ∃ x, run pairStep pairStart lostOps = .ok x ∧ x.psns < 2 ^ 23 ∧
      x.received = [⟨some 9, [0, 0]⟩] ∧ x.posted.map (·.2) = [⟨none, []⟩, ⟨some 9, [0, 0]⟩] ∧
      ¬x.received <+: x.posted.map (·.2) := by
  have hallow : Along pairStep (Allowed 2) pairStart lostOps := by
    refine ⟨⟨by decide, by decide, pairStart_room⟩, fun _ _ => ⟨⟨Or.inl rfl, by decide⟩, ?_⟩⟩
    intro _ _
    exact ⟨⟨Or.inr rfl, by decide⟩, fun _ _ => ⟨trivial, fun _ _ => trivial⟩⟩
  refine ⟨pairStart_fresh, hallow, ?_⟩
  have hfacts : (run pairStep pairStart lostOps).toOption.map (fun x =>
      (x.received, x.posted.map (·.2), x.psns)) =
      some ([⟨some 9, [0, 0]⟩], [⟨none, []⟩, ⟨some 9, [0, 0]⟩], 1) := by decide +kernel
  cases hrun : run pairStep pairStart lostOps with
  | error e =>
    rw [hrun] at hfacts
    cases hfacts
  | ok x =>
    rw [hrun] at hfacts
    obtain ⟨hreceived, hrest⟩ := Prod.mk.inj (Option.some.inj hfacts)
    obtain ⟨hposted, hpsns⟩ := Prod.mk.inj hrest
    refine ⟨x, rfl, by rw [hpsns]; decide, hreceived, hposted, ?_⟩
    rw [hreceived, hposted]
    decide

/-- One SEND, whose packet arrives twice before its ACK does. -/
def twicePosts : List PairOp :=
  [.postRecv 0x2000 5 [⟨0x10000, 2, 0⟩], .postSend (pageSend .sendWithImm 0) fun _ => true]

def twiceArrived : List PairOp :=
  twicePosts ++ List.replicate 2 (.toB (firstFrame Pair.fromA twicePosts) true)

def twiceOps : List PairOp := twiceArrived ++ [.toA (firstFrame Pair.fromB twiceArrived) true]

/-- It is received once, and then reported. -/
theorem pairRun_safe_twice : ∃ x, run pairStep pairStart twiceOps = .ok x ∧ x.Safe ∧
    x.received = [⟨some 9, [0, 0]⟩] ∧
    x.reported.map (fun wc => (wc.wrId, wc.status)) = [(7, roceWcSuccess)] := by
  have hfacts : (run pairStep pairStart twiceOps).toOption.map (fun x =>
      (x.received, x.reported.map fun wc => (wc.wrId, wc.status), x.psns)) =
      some ([⟨some 9, [0, 0]⟩], [(7, roceWcSuccess)], 1) := by decide +kernel
  have hdeliver : ∀ {G : Pair → PairOp → Prop} (y : Pair) (frame ack : List (List UInt8)),
      (∀ z frame, G z (.toB frame true)) → (∀ z frame, G z (.toA frame true)) →
      Along pairStep G y [.toB frame true, .toB frame true, .toA ack true] :=
    fun _ _ _ hB hA => ⟨hB _ _, fun _ _ => ⟨hB _ _, fun _ _ => ⟨hA _ _, fun _ _ => trivial⟩⟩⟩
  have hallow : Along pairStep (Allowed 2) pairStart twiceOps :=
    ⟨⟨by decide, by decide, pairStart_room⟩, fun _ _ => ⟨⟨Or.inr rfl, by decide⟩, fun y _ =>
      hdeliver y _ _ (fun _ _ => trivial) fun _ _ => trivial⟩⟩
  have hun : Along pairStep Unfailed pairStart twiceOps := by
    refine ⟨trivial, fun y hy => ⟨?_, fun z _ => hdeliver z _ _ (fun _ _ => trivial) fun _ _ => trivial⟩⟩
    have ha : y.a = pairStart.a := by
      cases pairStep_turn hy with
      | postRecv _ => rfl
    refine ⟨fun hno => absurd hno (by decide), fun _ g hg => ?_, Or.inl rfl⟩
    obtain rfl := List.mem_singleton.mp hg
    rw [ha]
    refine ⟨⟨0, 0, .valid, .mem, 0x10000, 4096, 0, 0, 3, 4096, [⟨0x10000, 4096⟩]⟩,
      ⟨rfl, rfl, rfl, rfl, rfl⟩, ⟨rfl, ?_, by decide⟩, by unfold InRange; decide, by decide⟩
    intro iov hiov
    rw [List.mem_singleton.mp hiov]
    rfl
  cases hrun : run pairStep pairStart twiceOps with
  | error e =>
    rw [hrun] at hfacts
    cases hfacts
  | ok x =>
    rw [hrun] at hfacts
    obtain ⟨hreceived, hrest⟩ := Prod.mk.inj (Option.some.inj hfacts)
    obtain ⟨hreported, hpsns⟩ := Prod.mk.inj hrest
    have hfew : x.psns < 2 ^ 23 := by
      rw [hpsns]
      decide
    have hsafe : x.Safe := pairRun_safe pairStart pairStart_fresh 2 twiceOps hallow hun x hrun hfew
    exact ⟨x, rfl, hsafe, hreceived, hreported⟩

end Libroce
