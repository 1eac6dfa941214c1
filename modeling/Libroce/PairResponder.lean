import Libroce.PairRequester
import Libroce.ReceivedSend

/-!
# The responder of a pair

The responder takes the packets of the stream in their order.  What it has taken
are complete trains, whose messages were received, and the first packets of the
next train, whose bytes are in a receive WR.

    StreamAt        where in the stream it is
    ResponderSide   what it has taken, received and acknowledged

Main statements:
* `ResponderSide.request` — a request arrives, old, next or ahead of its turn.
* `ResponderSide.postRecv` — a receive WR is posted.
-/

namespace Libroce

open Machine (bind_eq_ok)

/-! ## The responder -/

/-- An acknowledgement by `s` of at most the first `k` packets. -/
def Acknowledges (s : St) (base k : Nat) (pkt : RoceNetpkt) : Prop :=
  ∃ c ≤ k, ∃ syndrome, IsAnswer s syndrome pkt ∧ Counts base c syndrome (roceNetpktPsn pkt)

theorem Acknowledges.acts {s t : St} {base k k' : Nat} {pkt : RoceNetpkt} {sent : List RoceNetpkt}
    (h : Acknowledges s base k pkt) (ha : Acts s t sent) (hle : k ≤ k') : Acknowledges t base k' pkt := by
  obtain ⟨c, hc, syndrome, hans, hcount⟩ := h
  exact ⟨c, Nat.le_trans hc hle, syndrome, hans.acts ha, hcount⟩

/-- The first `k` packets of the trains are those of the trains `done`, and the
packets `part` of the next one. -/
structure StreamAt (trains done : List (List RoceNetpkt)) (part : List RoceNetpkt) (k : Nat) : Prop where
  before : done <+: trains
  inside : part ≠ [] → ∃ next more, next ≠ [] ∧ trains = done ++ (part ++ next) :: more
  count : k = done.flatten.length + part.length

section stands

variable {trains done : List (List RoceNetpkt)} {part : List RoceNetpkt} {k : Nat}

/-- More trains may follow. -/
theorem StreamAt.grow (h : StreamAt trains done part k) (more : List (List RoceNetpkt)) :
    StreamAt (trains ++ more) done part k := by
  refine ⟨h.before.trans (List.prefix_append trains more), ?_, h.count⟩
  intro hpart
  obtain ⟨next, rest, hne, rfl⟩ := h.inside hpart
  exact ⟨next, rest ++ more, hne, by rw [List.append_assoc, List.cons_append]⟩

/-- The packet that comes next belongs to the train that is open, or begins one. -/
theorem StreamAt.next (h : StreamAt trains done part k) (hne : ∀ train ∈ trains, train ≠ [])
    (hk : k < trains.flatten.length) :
    ∃ next more, trains = done ++ (part ++ trains.flatten[k] :: next) :: more := by
  have hopen : ∃ next more, next ≠ [] ∧ trains = done ++ (part ++ next) :: more := by
    by_cases hpart : part = []
    · obtain ⟨more, rfl⟩ := h.before
      subst hpart
      cases more with
      | nil =>
        have hcount := h.count
        rw [List.append_nil] at hk
        rw [List.length_nil] at hcount
        omega
      | cons train more =>
        exact ⟨train, more, hne train (List.mem_append_right _ List.mem_cons_self), rfl⟩
    · exact h.inside hpart
  obtain ⟨next, more, hnext, rfl⟩ := hopen
  cases next with
  | nil => exact absurd rfl hnext
  | cons pkt next =>
    have hat : (done ++ (part ++ pkt :: next) :: more).flatten[k] = pkt := by
      have hsplit : (done ++ (part ++ pkt :: next) :: more).flatten =
          (done.flatten ++ part) ++ pkt :: (next ++ more.flatten) := by
        simp only [List.flatten_append, List.flatten_cons, List.append_assoc, List.cons_append]
      have hlen : k = (done.flatten ++ part).length := by rw [List.length_append, h.count]
      subst hlen
      simp only [hsplit, List.getElem_append_right (Nat.le_refl _), Nat.sub_self, List.getElem_cons_zero]
    exact ⟨next, more, by rw [hat]⟩

/-- It is taken, and the train goes on. -/
theorem StreamAt.keeps {pkt : RoceNetpkt} {next : List RoceNetpkt} {more : List (List RoceNetpkt)}
    (h : StreamAt trains done part k) (hnext : next ≠ [])
    (htrains : trains = done ++ (part ++ pkt :: next) :: more) :
    StreamAt trains done (part ++ [pkt]) (k + 1) := by
  refine ⟨h.before, fun _ => ⟨next, more, hnext, ?_⟩, ?_⟩
  · rw [htrains, List.append_assoc part, List.singleton_append]
  · rw [h.count, List.length_append, List.length_singleton, Nat.add_assoc]

/-- It is taken, and was the last. -/
theorem StreamAt.completes {pkt : RoceNetpkt} {more : List (List RoceNetpkt)}
    (h : StreamAt trains done part k)
    (htrains : trains = done ++ (part ++ [pkt]) :: more) :
    StreamAt trains (done ++ [part ++ [pkt]]) [] (k + 1) := by
  refine ⟨⟨more, ?_⟩, fun hno => absurd rfl hno, ?_⟩
  · rw [htrains, List.append_assoc, List.singleton_append]
  · rw [h.count, List.flatten_append, List.flatten_singleton, List.length_append, List.length_append,
      List.length_singleton, List.length_nil]
    omega

/-- As many WRs are pointed back to as there are trains. -/
theorem StreamAt.ownersOf {s : St} {data : List SendData} (h : StreamAt trains done part k)
    (hbuilt : List.Forall₂ (SendTrain s) data trains) :
    (ownersOf (trains.flatten.take k)).length = done.length := by
  have hdone : ∃ ds, List.Forall₂ (SendTrain s) ds done := by
    obtain ⟨more, rfl⟩ := h.before
    exact ⟨_, List.forall₂_take_append _ _ _ hbuilt⟩
  obtain ⟨ds, hds⟩ := hdone
  have htake : trains.flatten.take k = done.flatten ++ part ∧ Libroce.ownersOf part = [] := by
    by_cases hpart : part = []
    · obtain ⟨more, rfl⟩ := h.before
      subst hpart
      refine ⟨?_, rfl⟩
      rw [List.flatten_append, h.count, List.length_nil, Nat.add_zero, List.take_left, List.append_nil]
    · obtain ⟨next, more, hnext, rfl⟩ := h.inside hpart
      constructor
      · rw [List.flatten_append, List.flatten_cons, List.append_assoc, ← List.append_assoc]
        apply List.take_left'
        rw [List.length_append, h.count]
      · have hrest := List.forall₂_drop_append _ _ _ hbuilt
        generalize data.drop done.length = rest at hrest
        cases hrest with
        | cons htrain _ => exact htrain.ownersOf.2 part next rfl hnext
  rw [htake.1, ownersOf_append, htake.2, List.append_nil, ownersOf_trains hds]

end stands

section answers

variable {s t : St} {base k : Nat}

/-- A packet ahead of its turn: the NAK asks for the expected one. -/
theorem roceOutOfSeq_answers {calloc : Bool} (hrq : s.qp.attr.rqPsn.toNat % psnMod = (base + k) % psnMod)
    (h : roceOutOfSeq s calloc = .ok t) :
    ∃ naks, Acts s t naks ∧ (∀ nak ∈ naks, Acknowledges s base k nak) ∧ Env s t ∧
      t.qp.rq = s.qp.rq ∧ t.qp.resp.word = s.qp.resp.word ∧ t.ctx.mem = s.ctx.mem ∧
      t.ctx.recvWrs = s.ctx.recvWrs ∧ t.qp.attr.rqPsn = s.qp.attr.rqPsn ∧ completedSince s t = [] := by
  unfold roceOutOfSeq at h
  split at h
  · obtain rfl := Except.ok.inj h
    exact ⟨[], .refl s, by simp, .refl s, rfl, rfl, rfl, rfl, rfl,
      completedSince_congr [] (List.append_nil _).symm rfl⟩
  · split at h
    · cases h
    · next u hack =>
      obtain rfl := Except.ok.inj h
      obtain ⟨nak, rfl, hpkt⟩ := roceNetpktAcknowledge_ok hack
      have hacts : Acts s { ({ s with qp.resp.msn := s.qp.resp.msn + 1 } : St).emit [.netXmit nak] with
          qp.resp.inPsnNak := true } [nak] := ⟨⟨[.netXmit nak], rfl, rfl⟩, rfl, rfl⟩
      refine ⟨[nak], hacts, ?_, ⟨rfl, rfl, mrsKept_of_eq rfl, id⟩, rfl, rfl, rfl, rfl, rfl,
        completedSince_congr [.netXmit nak] rfl rfl⟩
      intro pkt hmem
      obtain rfl := List.mem_singleton.mp hmem
      refine ⟨k, Nat.le_refl k, .nak, acknowledgePkt_isAnswer hpkt, ?_⟩
      show (roceNetpktPsn pkt).toNat % psnMod = _
      rw [(acknowledgePkt_reads hpkt).2, Nat.mod_mod, hrq]

/-- A packet of a SEND in its place: it is acknowledged when it is executed. -/
theorem roceRecvRc_acknowledges {m : Message} {first last : Bool} {psn : UInt32} {c : List UInt8}
    {pkt : Inbound}
    {ret : Int} (hm : m.reth = none) (hb : Bears m first last psn c pkt)
    (hrq : s.qp.attr.rqPsn.toNat % psnMod = (base + k) % psnMod)
    (hpsn : psn.toNat % psnMod = (base + k) % psnMod) (h : roceRecvRc s pkt = .ok (ret, t)) :
    ∃ acks, Acts s t acks ∧ (t.qp.attr.rqPsn = s.qp.attr.rqPsn ∧ acks = [] ∨
      t.qp.attr.rqPsn = roceQpPsnInc s.qp.attr.rqPsn ∧ ∀ ack ∈ acks, Acknowledges t base (k + 1) ack) := by
  have hop : ibBthGetOpcode pkt.bth ≠ ibOpcodeAcknowledge := by
    rw [hb.opcode]
    exact messageOpcode_ne_acknowledge _ _ first last
  have hzero : roceComparePsn s.qp.attr.rqPsn (ibBthGetPsn pkt.bth) = 0 := by
    rw [hb.psn, roceComparePsn_eq_zero, Serial.dist_eq_zero (by decide), hrq, hpsn]
  have hplace : ¬OutOfPlace s pkt := by
    rintro ⟨inprocess, reth, immdt, iovs, hreq, -⟩
    obtain ⟨iovs', hr, -⟩ := hb.request hreq
    unfold Message.request at hr
    rw [hm] at hr
    cases hr
  unfold roceRecvRc at h
  rw [if_neg hop] at h
  simp only [hzero, gt_iff_lt, Int32.lt_irrefl, if_false] at h
  rcases recvInSequence_acts h hplace with ⟨-, hworks⟩ | ⟨acks, hexec⟩
  · refine ⟨[], hworks.acts, Or.inl ⟨?_, rfl⟩⟩
    have hqp := hworks.qp
    unfold ResponderOnly at hqp
    rw [hqp]
  · refine ⟨acks, hexec.acts, Or.inr ⟨by rw [hexec.attr], ?_⟩⟩
    intro ack hmem
    obtain ⟨u, hworks, hpkt⟩ := hexec.acks ack hmem
    have hans := acknowledgePkt_isAnswer hpkt
    have hto : IsAnswer t .ack ack := ⟨hans.addressed.between hworks.acts hexec.acts, hans.aeth⟩
    refine ⟨k + 1, Nat.le_refl _, .ack, hto, Nat.succ_pos k, ?_⟩
    rw [(acknowledgePkt_reads hpkt).2, hb.psn, Nat.mod_mod, hpsn, Nat.add_sub_cancel]

end answers

/-- The responder has taken the first `k` packets of the trains: the messages of
the complete trains were received, and the bytes of an open one are in a WR. -/
structure ResponderSide (longest base : Nat) (s : St) (sent : List RoceNetpkt) (received data : List SendData)
    (trains : List (List RoceNetpkt)) (k : Nat) : Prop where
  queue : RecvQueue longest s
  rqPsn : s.qp.attr.rqPsn.toNat % psnMod = (base + k) % psnMod
  answers : ∀ pkt ∈ sent, Acknowledges s base k pkt
  place : ∃ done part, StreamAt trains done part k ∧ (part ≠ [] → Gathering longest s (payloadOf part)) ∧
    received = data.take done.length

section receives

variable {longest base k : Nat} {s t : St} {sent : List RoceNetpkt} {received data : List SendData}
  {trains : List (List RoceNetpkt)}

/-- No packet was taken. -/
theorem ResponderSide.idle {acks : List RoceNetpkt}
    (h : ResponderSide longest base s sent received data trains k)
    (hacts : Acts s t acks) (hacks : ∀ pkt ∈ acks, Acknowledges s base k pkt) (hq : RecvQueue longest t)
    (hgather : ∀ bytes, Gathering longest s bytes → Gathering longest t bytes)
    (hpsn : t.qp.attr.rqPsn = s.qp.attr.rqPsn) (hquiet : completedSince s t = []) :
    ResponderSide longest base t (sent ++ sentSince s t) (received ++ completedSince s t) data trains k := by
  obtain ⟨done, part, hstands, hopen, hreceived⟩ := h.place
  refine ⟨hq, by rw [hpsn, h.rqPsn], ?_, done, part, hstands, fun hne => hgather _ (hopen hne), ?_⟩
  · intro pkt hmem
    rw [hacts.sentSince] at hmem
    rcases List.mem_append.mp hmem with hmem | hmem
    · exact (h.answers pkt hmem).acts hacts (Nat.le_refl k)
    · exact (hacks pkt hmem).acts hacts (Nat.le_refl k)
  · rw [hquiet, List.append_nil, hreceived]

/-- A receive WR is posted. -/
theorem ResponderSide.postRecv {p wrId : UInt64} {sge : List RoceSge} {ret : Int}
    (h : ResponderSide longest base s sent received data trains k) (hne : p ≠ 0)
    (hnew : s.ctx.recvWrs p = none)
    (hroom : RecvRoom s longest sge) (hs : rocePostRecv s p (.fresh wrId sge) = .ok (ret, t)) :
    Acts s t [] ∧
      ResponderSide longest base t (sent ++ sentSince s t)
        (received ++ completedSince s t) data trains k := by
  have hworks := rocePostRecv_works hs
  have hpost := rocePostRecv_posts hs
  have hq := hpost.queue h.queue hne hnew hroom
  refine ⟨hworks.acts, h.idle hworks.acts (by simp) hq (fun _ => hpost.gathering hnew) ?_ hpost.quiet⟩
  have hqp := hworks.qp
  unfold ResponderOnly at hqp
  rw [hqp]

/-- More was posted. -/
theorem ResponderSide.grow {d : SendData} {pkts : List RoceNetpkt}
    (h : ResponderSide longest base s sent received data trains k) (hcount : trains.length = data.length) :
    ResponderSide longest base s sent received (data ++ [d]) (trains ++ [pkts]) k := by
  obtain ⟨done, part, hstands, hopen, hreceived⟩ := h.place
  refine ⟨h.queue, h.rqPsn, h.answers, done, part, hstands.grow _, hopen, ?_⟩
  rw [hreceived, List.take_append_of_le_length]
  rw [← hcount]
  exact hstands.before.length_le

/-- The train behind the complete ones is that of the message behind the received ones. -/
theorem trains_at {s : St} {data : List SendData} {done more : List (List RoceNetpkt)}
    {train : List RoceNetpkt}
    (h : List.Forall₂ (SendTrain s) data (done ++ train :: more)) :
    ∃ d ∈ data, SendTrain s d train ∧ data.take (done.length + 1) = data.take done.length ++ [d] := by
  have hrest := List.forall₂_drop_append _ _ _ h
  cases hdrop : data.drop done.length with
  | nil =>
    rw [hdrop] at hrest
    cases hrest
  | cons d rest =>
    rw [hdrop] at hrest
    cases hrest with
    | cons htrain _ =>
      have hmem : d ∈ data.drop done.length := by
        rw [hdrop]
        exact List.mem_cons_self
      refine ⟨d, List.mem_of_mem_drop hmem, htrain, ?_⟩
      rw [List.take_add, hdrop]
      rfl

/-- Every packet of the trains is a request to the peer. -/
theorem trains_requests {s : St} {data : List SendData} {trains : List (List RoceNetpkt)}
    (h : List.Forall₂ (SendTrain s) data trains) :
    ∀ pkt ∈ trains.flatten, pkt.isRequest = true ∧ ∃ opcode, Addressed s opcode pkt := by
  induction h with
  | nil => simp
  | cons htrain _ ih =>
    intro pkt hmem
    rw [List.flatten_cons] at hmem
    rcases List.mem_append.mp hmem with hmem | hmem
    · exact htrain.requests pkt hmem
    · exact ih pkt hmem

theorem trains_ne_nil {s : St} {data : List SendData} {trains : List (List RoceNetpkt)}
    (h : List.Forall₂ (SendTrain s) data trains) : ∀ train ∈ trains, train ≠ [] := by
  induction h with
  | nil => simp
  | cons htrain _ ih =>
    intro train hmem
    rcases List.mem_cons.mp hmem with rfl | hmem
    · exact htrain.ne_nil
    · exact ih train hmem

/-- A packet of a train, where it stands in it. -/
theorem SendTrain.bears {a : St} {d : SendData} {part next : List RoceNetpkt} {pkt : RoceNetpkt}
    {inb : Inbound}
    (h : SendTrain a d (part ++ pkt :: next)) (hdel : Delivered pkt ⟨inb.bth, inb.iovs, true⟩) :
    Bears ⟨none, d.imm, (part ++ pkt :: next).map (·.payload.flatten)⟩ part.isEmpty next.isEmpty
        (roceNetpktPsn pkt) pkt.payload.flatten inb ∧
      pkt.payload.flatten.length ≤ 4096 ∧
      payloadOf part ++ pkt.payload.flatten = payloadOf (part ++ [pkt]) ∧
      payloadOf (part ++ [pkt]) ++ payloadOf next = d.bytes := by
  have hconv := h.fragments.place
  rw [Bool.true_and] at hconv
  refine ⟨⟨hdel.opcode.trans hconv.opcode, hdel.psn, hdel.iovs.trans (by rw [hconv.ext])⟩, hconv.mtu, ?_, ?_⟩
  · rw [payloadOf_append, payloadOf_singleton]
  · rw [← payloadOf_append, List.append_assoc, List.singleton_append]
    exact h.bytes

/-- The packet was taken, and may have been acknowledged. -/
theorem ResponderSide.onward {acks : List RoceNetpkt}
    (h : ResponderSide longest base s sent received data trains k) (hacts : Acts s t acks)
    (hanswers : t.qp.attr.rqPsn = s.qp.attr.rqPsn ∧ acks = [] ∨
      t.qp.attr.rqPsn = roceQpPsnInc s.qp.attr.rqPsn ∧ ∀ ack ∈ acks, Acknowledges t base (k + 1) ack)
    (hinc : t.qp.attr.rqPsn = roceQpPsnInc s.qp.attr.rqPsn) :
    t.qp.attr.rqPsn.toNat % psnMod = (base + (k + 1)) % psnMod ∧
      ∀ p ∈ sent ++ sentSince s t, Acknowledges t base (k + 1) p := by
  constructor
  · rw [hinc, roceQpPsnInc_toNat, Nat.mod_mod, ← Nat.mod_add_mod, h.rqPsn, Nat.mod_add_mod, Nat.add_assoc]
  · rcases hanswers with ⟨hsame, -⟩ | ⟨-, hacks⟩
    · exact absurd (hinc.symm.trans hsame) (roceQpPsnInc_ne _)
    · rw [hacts.sentSince]
      intro p hp
      rcases List.mem_append.mp hp with hp | hp
      · exact (h.answers p hp).acts hacts (Nat.le_succ k)
      · exact hacks p hp

/-- The packet that comes next arrives: it is refused, or taken. -/
theorem ResponderSide.takes {a : St} {inb : Inbound} {ret : Int}
    (h : ResponderSide longest base s sent received data trains k)
    (hbuilt : List.Forall₂ (SendTrain a) data trains) (hlong : ∀ d ∈ data, d.bytes.length ≤ longest)
    (hrc : s.qp.qpType = .rc) (hk : k < trains.flatten.length)
    (hdel : Delivered trains.flatten[k] ⟨inb.bth, inb.iovs, true⟩)
    (hpsn : (roceNetpktPsn trains.flatten[k]).toNat % psnMod = (base + k) % psnMod)
    (hs : roceRecvRc s inb = .ok (ret, t)) :
    ∃ k' acks, k ≤ k' ∧ k' ≤ k + 1 ∧ Acts s t acks ∧ ResponderSide longest base t
      (sent ++ sentSince s t) (received ++ completedSince s t) data trains k' := by
  obtain ⟨done, part, hstands, hopen, hreceived⟩ := h.place
  obtain ⟨next, more, htrains⟩ := hstands.next (trains_ne_nil hbuilt) hk
  generalize trains.flatten[k] = pkt at hdel hpsn htrains
  rw [htrains] at hbuilt
  obtain ⟨d, hd, htrain, htake⟩ := trains_at hbuilt
  obtain ⟨hb, hmtu, hone, hbytes⟩ := htrain.bears hdel
  have hlen : (payloadOf part ++ pkt.payload.flatten).length ≤ d.bytes.length := by
    rw [hone, ← hbytes, List.length_append]
    omega
  have hzero : roceComparePsn s.qp.attr.rqPsn (ibBthGetPsn inb.bth) = 0 := by
    rw [hb.psn, roceComparePsn_eq_zero, Serial.dist_eq_zero (by decide), h.rqPsn, hpsn]
  have hstart : part.isEmpty = true ∧ payloadOf part = [] ∨
      part.isEmpty = false ∧ Gathering longest s (payloadOf part) := by
    cases part with
    | nil => exact Or.inl ⟨rfl, rfl⟩
    | cons p ps => exact Or.inr ⟨rfl, hopen (List.cons_ne_nil p ps)⟩
  obtain ⟨hq, htakes⟩ := roceRecvRc_takes hrc h.queue rfl hb hzero hstart hmtu
    (Nat.le_trans hlen (hlong d hd)) (Nat.lt_of_le_of_lt hlen htrain.short) hs
  obtain ⟨acks, hacts, hanswers⟩ := roceRecvRc_acknowledges rfl hb h.rqPsn hpsn hs
  -- the packet is executed exactly when the RQ PSN moves on
  cases htakes with
  | refuses hsame hquiet hgather =>
    have hnone : acks = [] := by
      rcases hanswers with ⟨-, hnone⟩ | ⟨hinc, -⟩
      · exact hnone
      · exact absurd (hinc.symm.trans hsame) (roceQpPsnInc_ne _)
    refine ⟨k, acks, Nat.le_refl k, Nat.le_succ k, hacts, hq, by rw [hsame, h.rqPsn], ?_, done, part, hstands,
      ?_, by rw [hquiet, List.append_nil, hreceived]⟩
    · rw [hacts.sentSince, hnone, List.append_nil]
      exact fun p hp => (h.answers p hp).acts hacts (Nat.le_refl k)
    · intro hne
      apply hgather
      cases part with
      | nil => exact absurd rfl hne
      | cons _ _ => rfl
  | keeps hinc hquiet hlast hgather =>
    obtain ⟨hrq, hacks⟩ := h.onward hacts hanswers hinc
    have hnext : next ≠ [] := by
      rintro rfl
      cases hlast
    refine ⟨k + 1, acks, Nat.le_succ k, Nat.le_refl _, hacts, hq, hrq, hacks, done, _,
      hstands.keeps hnext htrains, ?_, by rw [hquiet, List.append_nil, hreceived]⟩
    intro _
    rw [← hone]
    exact hgather
  | completes hinc hlast hread =>
    obtain ⟨hrq, hacks⟩ := h.onward hacts hanswers hinc
    obtain rfl := List.isEmpty_iff.mp hlast
    have hmsg : payloadOf part ++ pkt.payload.flatten = d.bytes := by
      rw [hone, ← hbytes]
      exact (List.append_nil _).symm
    refine ⟨k + 1, acks, Nat.le_succ k, Nat.le_refl _, hacts, hq, hrq, hacks, _, _, hstands.completes htrains,
      fun hno => absurd rfl hno, ?_⟩
    rw [hread, hreceived, hmsg, List.length_append, List.length_singleton, htake]

/-- A request arrives: it is old, ahead of its turn, or next. -/
theorem ResponderSide.request {a : St} {pkt : RoceNetpkt} {frame : List (List UInt8)} {calloc : Bool}
    {ret : Int}
    (h : ResponderSide longest base s sent received data trains k)
    (hbuilt : List.Forall₂ (SendTrain a) data trains)
    (hpsns : psnsOf trains.flatten = Serial.seq psnMod base trains.flatten.length)
    (hbound : trains.flatten.length < 2 ^ 23) (hlong : ∀ d ∈ data, d.bytes.length ≤ longest)
    (hk : k ≤ trains.flatten.length) (hj : Joined a s) (hmem : pkt ∈ trains.flatten)
    (hframe : frame.flatten = pkt.iovs.flatten) (hs : roceNetRecv s frame calloc = .ok (ret, t)) :
    ∃ k' acks, k ≤ k' ∧ k' ≤ trains.flatten.length ∧ Acts s t acks ∧ ResponderSide longest base t
      (sent ++ sentSince s t) (received ++ completedSince s t) data trains k' := by
  obtain ⟨hreq, opcode, haddr⟩ := trains_requests hbuilt pkt hmem
  obtain ⟨-, d, iovs, ret', -, -, hdel, hrecv⟩ := haddr.roceNetRecv hj hframe hs
  obtain ⟨i, hi, rfl⟩ := List.mem_iff_getElem.mp hmem
  have hpsn : (roceNetpktPsn trains.flatten[i]).toNat % psnMod = (base + i) % psnMod := by
    have hlen : i < (Serial.seq psnMod base trains.flatten.length).length := by
      rw [Serial.length_seq]
      exact hi
    have hget := congrArg (fun psns : List Nat => psns[i]?) hpsns
    simp only [psnsOf] at hget
    rw [List.getElem?_map, List.getElem?_eq_getElem hi, List.getElem?_eq_getElem hlen,
      Serial.seq_getElem] at hget
    rw [show (roceNetpktPsn trains.flatten[i]).toNat = _ from Option.some.inj hget, Nat.mod_mod]
  have hop : ibBthGetOpcode d.bth ≠ ibOpcodeAcknowledge := by
    rw [show ibBthGetOpcode d.bth = _ from hdel.opcode]
    exact bne_iff_ne.mp hreq
  have hcmp := roceComparePsn_offset (x := s.qp.attr.rqPsn) (y := ibBthGetPsn d.bth) (c := base) (a := k)
    (b := i) (by omega) (by omega) h.rqPsn (by
      rw [show ibBthGetPsn d.bth = _ from hdel.psn]
      exact hpsn)
  rcases Nat.lt_trichotomy i k with hold | rfl | hnew
  · -- old: nothing happens
    unfold roceRecvRc at hrecv
    rw [if_neg hop] at hrecv
    simp only [if_pos (hcmp.1.mpr hold)] at hrecv
    obtain ⟨-, rfl⟩ := Prod.mk.inj (Except.ok.inj hrecv)
    exact ⟨k, [], Nat.le_refl k, hk, .refl s, h.idle (.refl s) (by simp) h.queue (fun _ hg => hg) rfl
      (completedSince_congr [] (List.append_nil _).symm rfl)⟩
  · -- next
    obtain ⟨k', acks, hle, hle', hacts, hnext⟩ := h.takes hbuilt hlong hj.rc' hi hdel hpsn hrecv
    exact ⟨k', acks, hle, by omega, hacts, hnext⟩
  · -- ahead of its turn
    unfold roceRecvRc at hrecv
    rw [if_neg hop] at hrecv
    have hnot : ¬roceComparePsn s.qp.attr.rqPsn (ibBthGetPsn d.bth) > 0 := by
      rw [hcmp.1]
      omega
    simp only [if_neg hnot, if_pos (hcmp.2.mpr hnew)] at hrecv
    obtain ⟨u, hseq, hrecv⟩ := bind_eq_ok.mp hrecv
    obtain ⟨-, rfl⟩ := Prod.mk.inj (Except.ok.inj hrecv)
    obtain ⟨naks, hacts, hnaks, henv, hrq, hword, hmemory, hwrs, hsame, hquiet⟩ :=
      roceOutOfSeq_answers h.rqPsn hseq
    refine ⟨k, naks, Nat.le_refl k, hk, hacts, h.idle hacts hnaks ?_ ?_ hsame hquiet⟩
    · exact h.queue.env henv (by rw [hrq]) fun q _ => by rw [hwrs]
    · intro bytes hg
      refine hg.env henv hword hmemory ?_ ?_
      · intro q hq
        rw [hrq] at hq
        exact Or.inl hq
      · intro q wr hwr
        rw [hwrs]
        exact hwr

end receives

end Libroce
