import Libroce.PostedSend
import Libroce.Sequencing

/-!
# What the responder does with a SEND

A packet of a SEND that is in its place is refused, or joins the bytes in a
receive WR, or completes the message; then the user reads all of it.  The
receive WRs still on the queue are as they were posted.

    RecvQueue   the WRs on the queue
    Gathers     the WR that a message is being put in

Main statements:
* `roceRecvRc_takes` — a packet in its place.
* `rocePostRecv_posts` — a post of a receive WR.
-/

namespace Libroce

open Machine (bind_eq_ok)

/-! ## What stays -/

section frame

variable {s t u : St} {p : UInt64} {wr : RecvWr} {ret : Int}

theorem Env.freeRecvWr {ctx : RoceCtx} (h : roceFreeRecvWr s.ctx p wr = .ok ctx) :
    Env s { s with ctx := ctx } := by
  obtain ⟨hkept, hctx⟩ := roceFreeRecvWr_refs h
  refine ⟨rfl, ?_, hkept, ?_⟩
  · show ctx = _
    rw [hctx]
  · intro hlive
    obtain ⟨ctx', hfree, hlive'⟩ := roceFreeRecvWr_live hlive p wr
    obtain rfl := Except.ok.inj (h.symm.trans hfree)
    exact hlive'

theorem Env.emit (s : St) (es : List Event) : Env s (s.emit es) := ⟨rfl, rfl, mrsKept_of_eq rfl, id⟩

theorem Env.setWord (s : St) (word : RespWord) : Env s (s.setWord word) := ⟨rfl, rfl, mrsKept_of_eq rfl, id⟩

/-- Only the receive WR at `p` changed. -/
structure OnlyWr (s t : St) (p : UInt64) : Prop where
  env : Env s t
  rq : t.qp.rq = s.qp.rq
  others : ∀ q, q ≠ p → t.ctx.recvWrs q = s.ctx.recvWrs q

theorem OnlyWr.trans (h1 : OnlyWr s t p) (h2 : OnlyWr t u p) : OnlyWr s u p :=
  ⟨h1.env.trans h2.env, h2.rq.trans h1.rq, fun q hq => (h2.others q hq).trans (h1.others q hq)⟩

theorem OnlyWr.setRecvWr (s : St) (p : UInt64) (wr : RecvWr) : OnlyWr s (s.setRecvWr p wr) p :=
  ⟨.setRecvWr s p wr, rfl, fun _ hq => if_neg hq⟩

theorem Finish.onlyWr {byteLen : UInt32} {immdt : Option UInt32} {opcode : UInt8}
    (h : Finish s p wr byteLen immdt opcode t) : OnlyWr s t p := by
  cases h with
  | goesOn _ => exact ⟨.refl s, rfl, fun _ _ => rfl⟩
  | @done e ctx _ hfree =>
    obtain ⟨-, hrecv⟩ := roceFreeRecvWr_ok hfree
    have hfreed : Env (s.emit [e]) { s.emit [e] with ctx := ctx } := .freeRecvWr hfree
    refine ⟨((Env.emit s [e]).trans hfreed).trans (.setWord _ (.wr 0)), rfl, ?_⟩
    intro q hq
    refine (hrecv q).trans ?_
    rw [if_neg hq]
    rfl

theorem PayloadStep.onlyWr {iovs : List (List UInt8)} {immdt : Option UInt32} {opcode : UInt8}
    (h : PayloadStep s iovs immdt opcode p wr ret t) : OnlyWr s t p := by
  cases h with
  | short _ _ => exact ⟨.refl s, rfl, fun _ _ => rfl⟩
  | refused _ _ _ _ _ => exact .setRecvWr s p _
  | @placed _ _ _ _ dsts dmamap _ _ _ _ _ hfin =>
    have hplace : OnlyWr s (s.place dsts iovs.flatten dmamap) p := ⟨.place s _ _ _, rfl, fun _ _ => rfl⟩
    exact (hplace.trans (.setRecvWr _ p _)).trans hfin.onlyWr

end frame

/-! ## Receive WRs -/

section room

variable {s t : St} {longest : Nat} {sge : List RoceSge}

/-- The SGEs denote the same bytes. -/
theorem RecvRoom.hosts (h : RecvRoom s longest sge) (henv : Env s t) :
    ∀ g ∈ sge, sgeHost t.ctx g = sgeHost s.ctx g := by
  intro g hg
  obtain ⟨mr, hmr, hvalid, -⟩ := h.pages g hg
  obtain ⟨ref, hmr'⟩ := henv.mrs _ mr hmr hvalid
  unfold sgeHost
  rw [hmr, hmr']
  rfl

/-- They still take any message. -/
theorem RecvRoom.env (h : RecvRoom s longest sge) (henv : Env s t) : RecvRoom t longest sge := by
  refine ⟨?_, ?_, henv.mappable h.mappable, h.room⟩
  · intro g hg
    obtain ⟨mr, hmr, hvalid, hpaged, hrange⟩ := h.pages g hg
    obtain ⟨ref, hmr'⟩ := henv.mrs _ mr hmr hvalid
    exact ⟨_, hmr', hvalid, ⟨hpaged.type, hpaged.pages, hpaged.covers⟩, hrange⟩
  · rw [List.flatMap_congr (h.hosts henv)]
    exact h.disjoint

theorem RecvRoom.inPages (h : RecvRoom s longest sge) : ∀ g ∈ sge, InPages s.ctx g := by
  intro g hg
  obtain ⟨mr, hmr, -, hpaged, hrange⟩ := h.pages g hg
  exact ⟨mr, hmr, hpaged, hrange⟩

/-- The queued receive WRs are as they were posted, with room for any message. -/
structure RecvQueue (longest : Nat) (s : St) : Prop where
  nodup : s.qp.rq.Nodup
  fresh : ∀ p ∈ s.qp.rq, p ≠ 0 ∧ ∃ wrId sge, s.ctx.recvWrs p = some (.fresh wrId sge) ∧
    RecvRoom s longest sge

theorem RecvQueue.env (h : RecvQueue longest s) (henv : Env s t) (hsub : t.qp.rq.Sublist s.qp.rq)
    (hsame : ∀ p ∈ t.qp.rq, t.ctx.recvWrs p = s.ctx.recvWrs p) : RecvQueue longest t := by
  refine ⟨h.nodup.sublist hsub, ?_⟩
  intro p hp
  obtain ⟨hne, wrId, sge, hwr, hroom⟩ := h.fresh p (hsub.subset hp)
  exact ⟨hne, wrId, sge, (hsame p hp).trans hwr, hroom.env henv⟩

/-- The receive WR at `p` waits for the first packet of a SEND, before those at
`rest`, or it holds `bytes` of one and waits for the next packet. -/
structure Gathers (longest : Nat) (s : St) (first : Bool) (p wrId : UInt64) (sge : List RoceSge)
    (rest : List UInt64) (bytes : List UInt8) : Prop where
  filling : Filling s first p wrId sge rest bytes.length
  ne : p ≠ 0
  apart : p ∉ rest
  room : RecvRoom s longest sge
  stored : ∃ mem, s.ctx.mem = Scatter.store mem (sge.flatMap (sgeHost s.ctx)) bytes

/-- The WR is still as far, whatever becomes of the others. -/
theorem Gathers.env {p wrId : UInt64} {rest : List UInt64} {bytes : List UInt8}
    (h : Gathers longest s false p wrId sge rest bytes) (henv : Env s t)
    (hword : t.qp.resp.word = s.qp.resp.word) (hwr : t.ctx.recvWrs p = s.ctx.recvWrs p)
    (hmem : t.ctx.mem = s.ctx.mem) (hapart : p ∉ t.qp.rq) :
    Gathers longest t false p wrId sge t.qp.rq bytes := by
  have hhosts := h.room.hosts henv
  have hroom := h.room.env henv
  obtain ⟨wr, hlive, hholds⟩ := h.filling.live
  have hcursor : cursorHost t.ctx sge wr.sgeIdx wr.sgeOff = cursorHost s.ctx sge wr.sgeIdx wr.sgeOff := by
    unfold cursorHost
    rw [List.flatMap_congr fun g hg => hhosts g (List.mem_of_mem_drop hg)]
  have hheld : s.qp.resp.word = .wr p := by
    rcases h.filling.state with ⟨hno, -⟩ | ⟨-, hheld, -⟩
    · cases hno
    · exact hheld
  refine ⟨⟨Or.inr ⟨rfl, hword.trans hheld, rfl⟩, ⟨wr, hwr.trans hlive, hholds.byteLen, ?_, hholds.wrId,
    hholds.sge⟩, hroom.inPages⟩, h.ne, hapart, hroom, ?_⟩
  · rw [hcursor, List.flatMap_congr hhosts]
    exact hholds.cursor
  · rw [hmem, List.flatMap_congr hhosts]
    exact h.stored

/-- Some WR holds `bytes`. -/
def Gathering (longest : Nat) (s : St) (bytes : List UInt8) : Prop :=
  ∃ p wrId sge rest, Gathers longest s false p wrId sge rest bytes

/-- Posts and packets that are not for this WR leave it as it is. -/
theorem Gathering.env {bytes : List UInt8} (h : Gathering longest s bytes) (henv : Env s t)
    (hword : t.qp.resp.word = s.qp.resp.word) (hmem : t.ctx.mem = s.ctx.mem)
    (hrq : ∀ q ∈ t.qp.rq, q ∈ s.qp.rq ∨ s.ctx.recvWrs q = none)
    (hwrs : ∀ q wr, s.ctx.recvWrs q = some wr → t.ctx.recvWrs q = some wr) : Gathering longest t bytes := by
  obtain ⟨p, wrId, sge, rest, hg⟩ := h
  obtain ⟨wr, hlive, -⟩ := hg.filling.live
  have hrest : s.qp.rq = rest := by
    rcases hg.filling.state with ⟨hno, -⟩ | ⟨-, -, hrest⟩
    · cases hno
    · exact hrest
  refine ⟨p, wrId, sge, _, hg.env henv hword ((hwrs p wr hlive).trans hlive.symm) hmem ?_⟩
  intro hin
  rcases hrq p hin with hold | hnone
  · rw [hrest] at hold
    exact hg.apart hold
  · rw [hlive] at hnone
    cases hnone

end room

/-! ## What the user reads -/

/-- Only the events of the receive queue count. -/
theorem reportedWcs_recvEvents (es : List Event) : reportedWcs (recvEvents es) = reportedWcs es := by
  unfold reportedWcs recvEvents
  rw [List.filterMap_filter]
  congr 1
  funext e
  cases e <;> rfl

theorem freedPtrs_recvEvents (es : List Event) : freedPtrs (recvEvents es) = freedPtrs es := by
  unfold freedPtrs recvEvents
  rw [List.filterMap_filter]
  congr 1
  funext e
  cases e <;> rfl

theorem completedSince_eq (s t : St) : completedSince s t =
    List.zipWith (readRecv s t) (reportedWcs (recvSince s t)) (freedPtrs (recvSince s t)) := by
  unfold completedSince recvSince
  rw [reportedWcs_recvEvents, freedPtrs_recvEvents]
  rfl

/-- Nothing was completed. -/
theorem completedSince_nil {s t : St} (h : reportedWcs (recvSince s t) = []) : completedSince s t = [] := by
  rw [completedSince_eq, h]
  rfl

/-! ## An accepted packet -/

section accepted

variable {s t : St} {m : Message} {longest : Nat} {first last : Bool} {p wrId : UInt64} {sge : List RoceSge}
  {rest : List UInt64} {bytes c : List UInt8} {psn : UInt32} {pkt : Inbound} {n : Nat}

theorem Filling.frame (h : Filling s first p wrId sge rest n) (hm : m.reth = none)
    (hb : Bears m first last psn c pkt) (hacc : roceRecvRc s pkt = .ok (0, t))
    (hpsn : t.qp.attr.rqPsn = roceQpPsnInc s.qp.attr.rqPsn) :
    Env s t ∧ t.qp.rq = rest ∧ ∀ q, q ≠ p → t.ctx.recvWrs q = s.ctx.recvWrs q := by
  obtain ⟨iovs, wr, s1, msn, acks, -, -, -, hstep, rfl⟩ := h.payloadStep hm hb hacc hpsn
  obtain ⟨-, hrq, -, -⟩ := h.taking
  have hwrs := St.taking_recvWrs { s with qp.resp.inPsnNak := false } first p rest
  have henv := (Env.nak s false).trans (Env.taking _ first p rest)
  have hone := hstep.onlyWr
  refine ⟨(henv.trans hone.env).trans (.counted s1 msn _), hone.rq.trans hrq, ?_⟩
  intro q hq
  exact (hone.others q hq).trans (congrFun hwrs q)

theorem Gathers.sublist (h : Gathers longest s first p wrId sge rest bytes) : rest.Sublist s.qp.rq := by
  rcases h.filling.state with ⟨-, -, hrq⟩ | ⟨-, -, hrq⟩
  · rw [hrq]
    exact List.sublist_cons_self p rest
  · rw [hrq]

/-- The WRs still queued are untouched. -/
theorem Gathers.queue (h : Gathers longest s first p wrId sge rest bytes) (hq : RecvQueue longest s)
    (hm : m.reth = none) (hb : Bears m first last psn c pkt) (hacc : roceRecvRc s pkt = .ok (0, t))
    (hpsn : t.qp.attr.rqPsn = roceQpPsnInc s.qp.attr.rqPsn) : RecvQueue longest t := by
  obtain ⟨henv, hrq, hothers⟩ := h.filling.frame hm hb hacc hpsn
  apply hq.env henv
  · rw [hrq]
    exact h.sublist
  · intro q hmem
    rw [hrq] at hmem
    apply hothers
    rintro rfl
    exact h.apart hmem

/-- A packet with more to come. -/
theorem Gathers.goesOn (h : Gathers longest s first p wrId sge rest bytes) (hm : m.reth = none)
    (hb : Bears m first false psn c pkt) (hacc : roceRecvRc s pkt = .ok (0, t))
    (hpsn : t.qp.attr.rqPsn = roceQpPsnInc s.qp.attr.rqPsn) (hfit : (bytes ++ c).length ≤ longest) :
    Gathers longest t false p wrId sge rest (bytes ++ c) ∧ completedSince s t = [] := by
  obtain ⟨henv, hrq, -⟩ := h.filling.frame hm hb hacc hpsn
  have hhost := List.flatMap_congr (h.room.hosts henv)
  have hlong := h.room.room
  rw [List.length_append] at hfit
  obtain ⟨hfill, hserves, -, hmem⟩ := h.filling.goesOn hm hb hacc hpsn (by omega)
  obtain ⟨mem, hstored⟩ := h.stored
  refine ⟨⟨?_, h.ne, h.apart, h.room.env henv, mem, ?_⟩, ?_⟩
  · rw [List.length_append]
    exact hfill
  · rw [hhost, Scatter.store_append_vals, ← hstored]
    exact hmem
  · apply completedSince_nil
    rw [hserves.recvSince]
    cases first with
    | true => rfl
    | false => rfl

/-- The last packet: the user reads the whole message. -/
theorem Gathers.closes (h : Gathers longest s first p wrId sge rest bytes) (hrc : s.qp.qpType = .rc)
    (hm : m.reth = none) (hb : Bears m first true psn c pkt) (hacc : roceRecvRc s pkt = .ok (0, t))
    (hpsn : t.qp.attr.rqPsn = roceQpPsnInc s.qp.attr.rqPsn) (hfit : (bytes ++ c).length ≤ longest)
    (hshort : (bytes ++ c).length < 2 ^ 32) : completedSince s t = [⟨m.imm, bytes ++ c⟩] := by
  have hlong := h.room.room
  rw [List.length_append] at hfit
  obtain ⟨hmem, -, hserves⟩ := h.filling.closes hrc hm hb hacc hpsn (by omega)
  obtain ⟨mem, hstored⟩ := h.stored
  obtain ⟨wr, hwr, hholds⟩ := h.filling.live
  have hevents : recvSince s t = (if first then [.popRecv p] else []) ++
      [.cqComp (m.wc s.qp wrId (UInt32.ofNat (bytes.length + c.length))) s.qp.rcq, .freeRecv p] :=
    hserves.recvSince
  have hread : readRecv s t (m.wc s.qp wrId (UInt32.ofNat (bytes.length + c.length))) p =
      ⟨m.imm, bytes ++ c⟩ := by
    have hlen : (UInt32.ofNat (bytes.length + c.length)).toNat = (bytes ++ c).length := by
      rw [UInt32.toNat_ofNat', ← List.length_append, Nat.mod_eq_of_lt hshort]
    have hbytes : ((sge.flatMap (sgeHost s.ctx)).take (bytes ++ c).length).map t.ctx.mem = bytes ++ c := by
      rw [hmem, hstored, ← Scatter.store_append_vals]
      apply Scatter.map_store h.room.disjoint
      rw [length_sgesHost h.room.inPages, List.length_append]
      omega
    unfold readRecv Message.wc
    rw [hwr]
    simp only [Option.elim_some, hlen, hholds.sge, hbytes]
    cases m.imm with
    | none => rfl
    | some imm =>
      have hwith : roceWcWithImm ≠ 0 := by decide
      simp [hwith]
  rw [completedSince_eq, hevents]
  cases first with
  | true =>
    show [readRecv s t _ p] = _
    rw [hread]
  | false =>
    show [readRecv s t _ p] = _
    rw [hread]

end accepted

/-! ## Any packet in its place -/

section inPlace

variable {s t : St} {m : Message} {longest : Nat} {first last : Bool} {p wrId : UInt64} {sge : List RoceSge}
  {rest : List UInt64} {bytes c : List UInt8} {psn : UInt32} {pkt : Inbound} {ret : Int}

/-- A packet that is not accepted leaves the expected PSN. -/
theorem roceRecvRc_expected (hop : ibBthGetOpcode pkt.bth ≠ ibOpcodeAcknowledge)
    (hpsn : roceComparePsn s.qp.attr.rqPsn (ibBthGetPsn pkt.bth) = 0) (h : roceRecvRc s pkt = .ok (ret, t)) :
    ret = 0 ∧ t.qp.attr.rqPsn = roceQpPsnInc s.qp.attr.rqPsn ∨
      ret ≠ 0 ∧ t.qp.attr.rqPsn = s.qp.attr.rqPsn ∧
        RequestStep { s with qp.resp.inPsnNak := false } pkt ret t := by
  rw [roceRecvRc_inSequence hop hpsn] at h
  obtain ⟨sent, -, hcase⟩ := recvInSequence_sends h
  rcases recvInSequence_ok h with ⟨hret, hstep⟩ | ⟨rfl, -⟩
  · rcases hcase with ⟨-, hsame, -⟩ | ⟨hzero, -⟩
    · exact Or.inr ⟨hret, hsame, hstep⟩
    · exact absurd hzero hret
  · rcases hcase with ⟨hne, -⟩ | ⟨-, hinc, -⟩
    · exact absurd rfl hne
    · exact Or.inl ⟨rfl, hinc⟩

/-- What it did. -/
theorem Bears.sendStep (hb : Bears m first last psn c pkt) (hm : m.reth = none) (hret : ret ≠ 0)
    (h : RequestStep s pkt ret t) : t = s ∨ ∃ iovs, iovs.flatten = c ∧
      SendStep s iovs (if last then m.imm else none) (!first) (m.opcode first last) ret t := by
  cases h with
  | malformed _ => exact Or.inl rfl
  | write hreq _ =>
    obtain ⟨iovs, hr, -⟩ := hb.request hreq
    unfold Message.request at hr
    rw [hm] at hr
    cases hr
  | send hreq hs =>
    obtain ⟨iovs, hr, hiovs⟩ := hb.request hreq
    unfold Message.request at hr
    rw [hm] at hr
    obtain ⟨rfl, rfl, rfl⟩ := Request.send.inj hr
    rw [hb.opcode] at hs
    exact Or.inr ⟨_, hiovs, hs⟩

theorem completedSince_congr {s t : St} (es : List Event) (htrace : t.ctx.trace = s.ctx.trace ++ es)
    (hes : reportedWcs es = []) : completedSince s t = [] := by
  have hevents : eventsSince s t = es := by
    unfold eventsSince
    rw [htrace]
    exact List.drop_left
  unfold completedSince
  rw [hevents, hes]
  rfl

/-- Between two messages: a receive WR is lost at most. -/
theorem RecvQueue.refused (hq : RecvQueue longest s) (hb : Bears m true last psn c pkt) (hm : m.reth = none)
    (hret : ret ≠ 0) (h : RequestStep s pkt ret t) :
    RecvQueue longest t ∧ completedSince s t = [] := by
  rcases hb.sendStep hm hret h with rfl | ⟨iovs, -, hs⟩
  · exact ⟨hq, completedSince_congr [] (List.append_nil _).symm rfl⟩
  cases hs with
  | outOfOrder _ => exact ⟨hq, completedSince_congr [] (List.append_nil _).symm rfl⟩
  | noWr _ _ _ =>
    refine ⟨hq.env (.setWord s _) (List.Sublist.refl _) fun _ _ => rfl, ?_⟩
    exact completedSince_congr [] (List.append_nil _).symm rfl
  | @first q rq wr _ _ _ _ hrq _ hs =>
    have hone := hs.onlyWr
    have hpop : Env s ((({ s with qp.rq := rq } : St).emit [.popRecv q]).setWord (.wr q)) :=
      ⟨rfl, rfl, mrsKept_of_eq rfl, id⟩
    have hsub : t.qp.rq.Sublist s.qp.rq := by
      rw [hone.rq, hrq]
      exact List.sublist_cons_self q rq
    have hnodup := hq.nodup
    rw [hrq] at hnodup
    have hnot : q ∉ rq := (List.nodup_cons.mp hnodup).1
    refine ⟨hq.env (hpop.trans hone.env) hsub ?_, ?_⟩
    · intro r hr
      rw [hone.rq] at hr
      apply hone.others
      rintro rfl
      exact hnot hr
    · cases hs with
      | short _ _ => exact completedSince_congr [.popRecv q] rfl rfl
      | refused _ _ _ _ _ => exact completedSince_congr [.popRecv q] rfl rfl
      | placed _ _ _ _ _ => exact absurd rfl hret
  | next hin _ _ _ => cases hin

/-- Inside a message: such a packet changes nothing, as its piece can be mapped. -/
theorem Gathers.refused (h : Gathers longest s false p wrId sge rest bytes) (hm : m.reth = none)
    (hb : Bears m false last psn c pkt) (hshort : c.length ≤ 4096) (hret : ret ≠ 0)
    (hs : RequestStep s pkt ret t) : t = s := by
  rcases hb.sendStep hm hret hs with rfl | ⟨iovs, rfl, hs⟩
  · rfl
  cases hs with
  | outOfOrder _ => rfl
  | noWr hin _ _ => cases hin
  | first hin _ _ _ _ => cases hin
  | @next wr _ _ _ _ hwr hs =>
    cases hs with
    | short _ _ => rfl
    | placed _ _ _ _ _ => exact absurd rfl hret
    | @refused len sges idx off r _ _ hcut hmap hr =>
      obtain ⟨wr', hwr', hholds⟩ := h.filling.live
      have hbits : s.qp.resp.word.bits = p := by
        rcases h.filling.state with ⟨hno, -⟩ | ⟨-, hword, -⟩
        · cases hno
        · rw [hword]
          rfl
      rw [hbits] at hwr
      obtain rfl := Option.some.inj (hwr.symm.trans hwr')
      rw [hholds.sge] at hcut
      have hle : (roceIovLen iovs).toNat ≤ 4096 := by
        rw [roceIovLen_toNat]
        exact Nat.le_trans (Nat.mod_le _ _) hshort
      obtain ⟨dsts, dmamap, hp, -⟩ := h.room.mappable _ _ _ _ _ _ hle hcut
      have hgranted := Except.ok.inj (hp.map.symm.trans hmap)
      rw [← hgranted] at hr
      cases hr

/-- The first packet of a SEND is accepted into the next receive WR. -/
theorem RecvQueue.gathers (hq : RecvQueue longest s) (hm : m.reth = none) (hb : Bears m true last psn c pkt)
    (hacc : roceRecvRc s pkt = .ok (0, t)) (hpsn : t.qp.attr.rqPsn = roceQpPsnInc s.qp.attr.rqPsn) :
    ∃ p wrId sge rest, Gathers longest s true p wrId sge rest [] := by
  have hop : ibBthGetOpcode pkt.bth ≠ ibOpcodeAcknowledge := by
    rw [hb.opcode]
    exact messageOpcode_ne_acknowledge _ _ true last
  obtain ⟨s1, msn, acks, hstep, -⟩ := roceRecvRc_carriedOut hop hacc hpsn
  have hnext : ∃ p rest, s.qp.resp.word.bits = 0 ∧ s.qp.rq = p :: rest := by
    cases hstep with
    | write hreq _ =>
      obtain ⟨iovs, hr, -⟩ := hb.request hreq
      unfold Message.request at hr
      rw [hm] at hr
      cases hr
    | send hreq hs =>
      obtain ⟨iovs, hr, -⟩ := hb.request hreq
      unfold Message.request at hr
      rw [hm] at hr
      obtain ⟨rfl, -, -⟩ := Request.send.inj hr
      cases hs with
      | @first p rest _ _ _ _ hword hrq _ _ => exact ⟨p, rest, hword, hrq⟩
      | next hin _ _ _ => cases hin
  obtain ⟨p, rest, hword, hrq⟩ := hnext
  obtain ⟨hne, wrId, sge, hwr, hroom⟩ := hq.fresh p (by rw [hrq]; exact List.mem_cons_self)
  have hnodup := hq.nodup
  rw [hrq] at hnodup
  have hfilling : Filling s true p wrId sge rest 0 :=
    ⟨Or.inl ⟨rfl, hword, hrq⟩, ⟨_, hwr, ⟨rfl, rfl, rfl, rfl⟩⟩, hroom.inPages⟩
  refine ⟨p, wrId, sge, rest, hfilling, hne, (List.nodup_cons.mp hnodup).1, hroom, s.ctx.mem, ?_⟩
  rw [Scatter.store_nil_right]

/-- What becomes of a packet of a SEND that is in its place. -/
inductive SendTakes (longest : Nat) (m : Message) (first last : Bool) (bytes c : List UInt8) (s t : St) :
    Prop where
  | refuses (hpsn : t.qp.attr.rqPsn = s.qp.attr.rqPsn) (hquiet : completedSince s t = [])
      (h : first = false → Gathering longest t bytes) : SendTakes longest m first last bytes c s t
  | keeps (hpsn : t.qp.attr.rqPsn = roceQpPsnInc s.qp.attr.rqPsn) (hquiet : completedSince s t = [])
      (hlast : last = false) (h : Gathering longest t (bytes ++ c)) :
        SendTakes longest m first last bytes c s t
  | completes (hpsn : t.qp.attr.rqPsn = roceQpPsnInc s.qp.attr.rqPsn) (hlast : last = true)
      (h : completedSince s t = [⟨m.imm, bytes ++ c⟩]) : SendTakes longest m first last bytes c s t

/-- **A packet in its place.** -/
theorem roceRecvRc_takes (hrc : s.qp.qpType = .rc) (hq : RecvQueue longest s) (hm : m.reth = none)
    (hb : Bears m first last psn c pkt) (hpsn : roceComparePsn s.qp.attr.rqPsn (ibBthGetPsn pkt.bth) = 0)
    (hstart : first = true ∧ bytes = [] ∨ first = false ∧ Gathering longest s bytes)
    (hmtu : c.length ≤ 4096) (hfit : (bytes ++ c).length ≤ longest) (hshort : (bytes ++ c).length < 2 ^ 32)
    (h : roceRecvRc s pkt = .ok (ret, t)) :
    RecvQueue longest t ∧ SendTakes longest m first last bytes c s t := by
  have hop : ibBthGetOpcode pkt.bth ≠ ibOpcodeAcknowledge := by
    rw [hb.opcode]
    exact messageOpcode_ne_acknowledge _ _ first last
  rcases roceRecvRc_expected hop hpsn h with ⟨rfl, hinc⟩ | ⟨hret, hsame, hstep⟩
  · -- accepted
    obtain ⟨p, wrId, sge, rest, hg⟩ :
        ∃ p wrId sge rest, Gathers longest s first p wrId sge rest bytes := by
      rcases hstart with ⟨rfl, rfl⟩ | ⟨rfl, hg⟩
      · exact hq.gathers hm hb h hinc
      · exact hg
    refine ⟨hg.queue hq hm hb h hinc, ?_⟩
    cases last with
    | false =>
      obtain ⟨hg', hquiet⟩ := hg.goesOn hm hb h hinc hfit
      exact .keeps hinc hquiet rfl ⟨_, _, _, _, hg'⟩
    | true => exact .completes hinc rfl (hg.closes hrc hm hb h hinc hfit hshort)
  · -- refused
    have hnak : Env s { s with qp.resp.inPsnNak := false } := .nak s false
    have hq' : RecvQueue longest { s with qp.resp.inPsnNak := false } :=
      hq.env hnak (List.Sublist.refl _) fun _ _ => rfl
    rcases hstart with ⟨rfl, rfl⟩ | ⟨rfl, hg⟩
    · obtain ⟨hqueue, hquiet⟩ := hq'.refused hb hm hret hstep
      exact ⟨hqueue, .refuses hsame hquiet fun hno => by cases hno⟩
    · obtain ⟨p, wrId, sge, rest, hg'⟩ := hg.env hnak rfl rfl (fun _ hq => Or.inl hq) fun _ _ hwr => hwr
      obtain rfl := hg'.refused hm hb hmtu hret hstep
      have hquiet : completedSince s { s with qp.resp.inPsnNak := false } = [] :=
        completedSince_congr [] (List.append_nil _).symm rfl
      exact ⟨hq', .refuses hsame hquiet fun _ => ⟨_, _, _, _, hg'⟩⟩

end inPlace

/-! ## A posted receive WR -/

theorem Env.getMrs {s : St} {sges : List RoceSge} {ret : Int} {ctx : RoceCtx}
    (h : roceGetMrs s.ctx sges = .ok (ret, ctx)) : Env s { s with ctx := ctx } := by
  have hrefs := roceGetMrs_refsOnly h
  refine ⟨rfl, ?_, roceGetMrs_kept h, fun hlive => roceGetMrs_live hlive h⟩
  show ctx = _
  rw [hrefs]

/-- What a post of the receive WR at `p` touches: it joins the queue, or is freed. -/
structure RecvPost (s t : St) (p wrId : UInt64) (sge : List RoceSge) : Prop where
  env : Env s t
  quiet : completedSince s t = []
  word : t.qp.resp.word = s.qp.resp.word
  mem : t.ctx.mem = s.ctx.mem
  rq : t.qp.rq = s.qp.rq ∨ t.qp.rq = s.qp.rq ++ [p] ∧ t.ctx.recvWrs p = some (.fresh wrId sge)
  others : ∀ q, q ≠ p → t.ctx.recvWrs q = s.ctx.recvWrs q

theorem rocePostRecv_posts {s t : St} {p wrId : UInt64} {sge : List RoceSge} {ret : Int}
    (h : rocePostRecv s p (.fresh wrId sge) = .ok (ret, t)) : RecvPost s t p wrId sge := by
  unfold rocePostRecv at h
  split at h
  · cases h
  · next ret1 ctx hget =>
    have hrefs := roceGetMrs_refsOnly hget
    have henv := Env.getMrs (s := s) hget
    split at h
    · -- a key names no MR
      split at h
      · cases h
      · next ctx' hfree =>
        obtain ⟨-, rfl⟩ := Prod.mk.inj (Except.ok.inj h)
        obtain ⟨htrace, hrecv⟩ := roceFreeRecvWr_ok hfree
        obtain ⟨-, hctx⟩ := roceFreeRecvWr_refs hfree
        have hfreed : Env { s with ctx := ctx } { s with ctx := ctx' } := .freeRecvWr hfree
        refine ⟨henv.trans hfreed, completedSince_congr [.freeRecv p] ?_ rfl, rfl, ?_, Or.inl rfl, ?_⟩
        · show ctx'.trace = _
          rw [htrace, hrefs.trace]
        · show ctx'.mem = _
          rw [hctx, hrefs]
        · intro q hq
          show ctx'.recvWrs q = _
          rw [hrecv, if_neg hq, hrefs]
    · obtain ⟨-, rfl⟩ := Prod.mk.inj (Except.ok.inj h)
      refine ⟨henv.trans ⟨rfl, rfl, mrsKept_of_eq rfl, id⟩, completedSince_congr [] ?_ rfl, rfl, ?_,
        Or.inr ⟨rfl, if_pos rfl⟩, ?_⟩
      · rw [List.append_nil]
        exact hrefs.trace
      · show ctx.mem = _
        rw [hrefs]
      · intro q hq
        refine (if_neg hq).trans ?_
        rw [hrefs]

section posts

variable {s t : St} {longest : Nat} {p wrId : UInt64} {sge : List RoceSge}

/-- The WR is a new object. -/
theorem RecvPost.held (h : RecvPost s t p wrId sge) (hnew : s.ctx.recvWrs p = none) {q : UInt64} {wr : RecvWr}
    (hwr : s.ctx.recvWrs q = some wr) : q ≠ p ∧ t.ctx.recvWrs q = some wr := by
  have hne : q ≠ p := by
    rintro rfl
    rw [hnew] at hwr
    cases hwr
  exact ⟨hne, (h.others q hne).trans hwr⟩

theorem RecvPost.queue (h : RecvPost s t p wrId sge) (hq : RecvQueue longest s) (hne : p ≠ 0)
    (hnew : s.ctx.recvWrs p = none) (hroom : RecvRoom s longest sge) : RecvQueue longest t := by
  have hold : ∀ q ∈ s.qp.rq, q ≠ p ∧ t.ctx.recvWrs q = s.ctx.recvWrs q := by
    intro q hmem
    obtain ⟨-, _, _, hwr, -⟩ := hq.fresh q hmem
    obtain ⟨hapart, hsame⟩ := h.held hnew hwr
    exact ⟨hapart, hsame.trans hwr.symm⟩
  rcases h.rq with hsame | ⟨hpush, hwr⟩
  · refine hq.env h.env (by rw [hsame]) ?_
    intro q hmem
    rw [hsame] at hmem
    exact (hold q hmem).2
  · refine ⟨?_, ?_⟩
    · rw [hpush, List.nodup_append]
      refine ⟨hq.nodup, List.nodup_singleton p, ?_⟩
      intro q hmem r hr
      obtain rfl := List.mem_singleton.mp hr
      exact (hold q hmem).1
    · intro q hmem
      rw [hpush] at hmem
      rcases List.mem_append.mp hmem with hmem | hmem
      · obtain ⟨hz, id, sges, hlive, hroom'⟩ := hq.fresh q hmem
        exact ⟨hz, id, sges, (hold q hmem).2.trans hlive, hroom'.env h.env⟩
      · obtain rfl := List.mem_singleton.mp hmem
        exact ⟨hne, wrId, sge, hwr, hroom.env h.env⟩

theorem RecvPost.gathering (h : RecvPost s t p wrId sge) (hnew : s.ctx.recvWrs p = none) {bytes : List UInt8}
    (hg : Gathering longest s bytes) : Gathering longest t bytes := by
  refine hg.env h.env h.word h.mem ?_ fun q wr hwr => (h.held hnew hwr).2
  intro q hmem
  rcases h.rq with hsame | ⟨hpush, -⟩
  · rw [hsame] at hmem
    exact Or.inl hmem
  · rw [hpush] at hmem
    rcases List.mem_append.mp hmem with hmem | hmem
    · exact Or.inl hmem
    · rw [List.mem_singleton.mp hmem]
      exact Or.inr hnew

end posts

end Libroce
