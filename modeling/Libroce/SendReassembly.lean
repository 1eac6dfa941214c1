import Libroce.Reception
import Libroce.ResponderIdle

/-!
# Where a SEND goes

A receive WR keeps its place as an SGE and an offset in it.  A packet ends
anywhere, so the next one goes on in the middle of an SGE or of a page.  Behind
the cursor there are always those addresses of the SGEs that no packet has
filled.

    Holding   the receive WR after `n` bytes
    Filling   the responder between two packets of a SEND

Main statement:
* `sendMessage_reassembled` — an accepted SEND fills the front of the SGEs,
  changes nothing else, and completes its receive WR with the last packet.
-/

namespace Libroce

/-! ## The receive WR -/

/-- `n` bytes are in the WR; its cursor stands behind them. -/
structure Holding (ctx : RoceCtx) (wrId : UInt64) (sge : List RoceSge) (n : Nat) (wr : RecvWr) : Prop where
  byteLen : wr.byteLen = UInt32.ofNat n
  cursor : cursorHost ctx sge wr.sgeIdx wr.sgeOff = (sge.flatMap (sgeHost ctx)).drop n
  wrId : wr.wrId = wrId
  sge : wr.sge = sge

theorem Holding.congr {ctx ctx' : RoceCtx} (h : ctx'.mrs = ctx.mrs) {wrId : UInt64} {sge : List RoceSge}
    {n : Nat} {wr : RecvWr} (hh : Holding ctx wrId sge n wr) : Holding ctx' wrId sge n wr := by
  refine ⟨hh.byteLen, ?_, hh.wrId, hh.sge⟩
  unfold cursorHost
  rw [sgeHost_congr h]
  exact hh.cursor

/-- What `roce_sge_len` counts is what is behind the cursor. -/
theorem length_cursorHost {ctx : RoceCtx} {sges : List RoceSge} (h : ∀ sge ∈ sges, InPages ctx sge)
    (idx off : Nat) : (cursorHost ctx sges idx off).length = sgeRest sges idx off := by
  unfold cursorHost sgeRest
  rw [List.length_drop, length_sgesHost fun sge hsge => h sge (List.mem_of_mem_drop hsge)]

/-- A payload that is placed goes to the next addresses. -/
theorem Holding.placed {ctx : RoceCtx} {qp : RoceQp} {wrId : UInt64} {sge sges : List RoceSge} {n : Nat}
    {wr : RecvWr} (h : Holding ctx wrId sge n wr) (hin : ∀ g ∈ sge, InPages ctx g)
    {iovs : List (List UInt8)} {len : UInt32} {idx off : Nat} {isLocal : Bool} {access : UInt32}
    {dsts : List Iovec} {dmamap : Bool} (hlen : roceSgeLen wr.sge wr.sgeIdx wr.sgeOff = .ok len)
    (hcut : roceSgeAdvance wr.sge (roceIovLen iovs).toNat wr.sgeIdx wr.sgeOff = .ok (sges, idx, off))
    (hmap : Places ctx qp sges isLocal access dsts dmamap)
    (hfit : n + iovs.flatten.length ≤ sgeTotal sge) (mem : Nat → UInt8) :
    placeMem mem dsts iovs.flatten =
        Scatter.store mem ((sge.flatMap (sgeHost ctx)).drop n) iovs.flatten ∧
      Holding ctx wrId sge (n + iovs.flatten.length)
        { wr with sgeIdx := idx, sgeOff := off, byteLen := wr.byteLen + roceIovLen iovs } := by
  obtain ⟨hbytes, hcursor, hid, rfl⟩ := h
  have hbuf : roceIovLen iovs = UInt32.ofNat iovs.flatten.length := by
    apply UInt32.toNat_inj.mp
    rw [roceIovLen_toNat, UInt32.toNat_ofNat']
  have hbufLen : (roceIovLen iovs).toNat = iovs.flatten.length := by
    -- the rest of the SGEs has a length of 32 bits
    obtain ⟨-, hrest⟩ := roceSgeLen_ok hlen
    rw [← length_cursorHost hin, hcursor, List.length_drop, length_sgesHost hin] at hrest
    have hlt := len.toNat_lt
    rw [roceIovLen_toNat, Nat.mod_eq_of_lt (by omega)]
  obtain ⟨hpieces, haddrs⟩ := hmap.pieces hin (roceSgeAdvance_pieces hcut)
  obtain ⟨hpicked, hnext⟩ := roceSgeAdvance_host (fun g hg => (hin g hg).length_sgeHost) hpieces hcut
  rw [hcursor, hbufLen] at hpicked hnext
  refine ⟨?_, ?_, ?_, hid, rfl⟩
  · rw [placeMem_eq, haddrs, hpicked, Scatter.store_take]
  · show wr.byteLen + roceIovLen iovs = _
    rw [hbytes, hbuf, UInt32.ofNat_add]
  · rw [List.drop_drop] at hnext
    exact hnext

/-! ## One packet -/

/-- The receiver expects the first packet of a SEND, with the WR at `p` next in
its queue, or a later one, with that WR in the union. -/
structure Filling (s : St) (first : Bool) (p : UInt64) (wrId : UInt64) (sge : List RoceSge)
    (rest : List UInt64) (n : Nat) : Prop where
  state : first = true ∧ s.qp.resp.word.bits = 0 ∧ s.qp.rq = p :: rest ∨
    first = false ∧ s.qp.resp.word = .wr p ∧ s.qp.rq = rest
  live : ∃ wr, s.ctx.recvWrs p = some wr ∧ Holding s.ctx wrId sge n wr
  pages : ∀ g ∈ sge, InPages s.ctx g

theorem Serves.taking (s : St) (first : Bool) (p : UInt64) (rest : List UInt64) :
    Serves s (({ s with qp.resp.inPsnNak := false } : St).taking first p rest)
      (if first then [.popRecv p] else []) := by
  cases first with
  | true => exact ⟨⟨[.popRecv p], rfl, rfl⟩, rfl⟩
  | false => exact .quiet rfl rfl

/-- An accepted packet of a SEND is placed. -/
theorem Filling.payloadStep {s t : St} {m : Message} {first last : Bool} {p wrId : UInt64}
    {sge : List RoceSge} {rest : List UInt64} {n : Nat} {psn : UInt32} {c : List UInt8} {pkt : Inbound}
    (h : Filling s first p wrId sge rest n) (hm : m.reth = none) (hb : Bears m first last psn c pkt)
    (hacc : roceRecvRc s pkt = .ok (0, t)) (hpsn : t.qp.attr.rqPsn = roceQpPsnInc s.qp.attr.rqPsn) :
    ∃ iovs wr s1 msn, ∃ acks : List RoceNetpkt, iovs.flatten = c ∧ s.ctx.recvWrs p = some wr ∧
      Holding s.ctx wrId sge n wr ∧
      PayloadStep (({ s with qp.resp.inPsnNak := false } : St).taking first p rest) iovs
        (if last then m.imm else none) (m.opcode first last) p wr 0 s1 ∧
      t = s1.counted msn (acks.map .netXmit) := by
  have hop : ibBthGetOpcode pkt.bth ≠ ibOpcodeAcknowledge := by
    rw [hb.opcode]
    exact messageOpcode_ne_acknowledge _ _ first last
  obtain ⟨s1, msn, acks, hstep, rfl⟩ := roceRecvRc_carriedOut hop hacc hpsn
  obtain ⟨wr, hlive, hholds⟩ := h.live
  have hrequest : ∀ {r}, pkt.request = some r → ∃ iovs, iovs.flatten = c ∧
      r = .send (!first) (if last then m.imm else none) iovs := by
    intro r hreq
    obtain ⟨iovs, hr, hiovs⟩ := hb.request hreq
    unfold Message.request at hr
    rw [hm] at hr
    exact ⟨iovs, hiovs, hr⟩
  cases hstep with
  | write hreq hs =>
    obtain ⟨iovs, -, hr⟩ := hrequest hreq
    cases hr
  | send hreq hs =>
    obtain ⟨iovs, hiovs, hr⟩ := hrequest hreq
    obtain ⟨rfl, rfl, rfl⟩ := Request.send.inj hr
    rw [hb.opcode] at hs
    refine ⟨_, wr, s1, msn, acks, hiovs, hlive, hholds, ?_, rfl⟩
    rcases h.state with ⟨rfl, hword, hrq⟩ | ⟨rfl, hword, hrq⟩
    · cases hs with
      | first hin hbits hqueue hwr hs =>
        obtain ⟨rfl, rfl⟩ := List.cons.inj (hrq.symm.trans hqueue)
        obtain rfl := Option.some.inj (hlive.symm.trans hwr)
        exact hs
      | next hin hbits hwr hs => cases hin
    · have hbits : s.qp.resp.word.bits = p := by
        rw [hword]
        rfl
      cases hs with
      | first hin hbits hqueue hwr hs => cases hin
      | next hin hne hwr hs =>
        rw [show ({ s with qp.resp.inPsnNak := false } : St).qp.resp.word.bits = p from hbits] at hwr hs
        obtain rfl := Option.some.inj (hlive.symm.trans hwr)
        exact hs

theorem Filling.taking {s : St} {first : Bool} {p wrId : UInt64} {sge : List RoceSge} {rest : List UInt64}
    {n : Nat} (h : Filling s first p wrId sge rest n) :
    (({ s with qp.resp.inPsnNak := false } : St).taking first p rest).qp.resp.word = .wr p ∧
      (({ s with qp.resp.inPsnNak := false } : St).taking first p rest).qp.rq = rest ∧
      (({ s with qp.resp.inPsnNak := false } : St).taking first p rest).ctx.mrs = s.ctx.mrs ∧
      (({ s with qp.resp.inPsnNak := false } : St).taking first p rest).ctx.mem = s.ctx.mem := by
  rcases h.state with ⟨rfl, -, -⟩ | ⟨rfl, hword, hrq⟩
  · exact ⟨rfl, rfl, rfl, rfl⟩
  · exact ⟨hword, hrq, rfl, rfl⟩

/-- A packet with more to come. -/
theorem Filling.goesOn {s t : St} {m : Message} {first : Bool} {p wrId : UInt64} {sge : List RoceSge}
    {rest : List UInt64} {n : Nat} {psn : UInt32} {c : List UInt8} {pkt : Inbound}
    (h : Filling s first p wrId sge rest n) (hm : m.reth = none) (hb : Bears m first false psn c pkt)
    (hacc : roceRecvRc s pkt = .ok (0, t)) (hpsn : t.qp.attr.rqPsn = roceQpPsnInc s.qp.attr.rqPsn)
    (hfit : n + c.length ≤ sgeTotal sge) :
    Filling t false p wrId sge rest (n + c.length) ∧ Serves s t (if first then [.popRecv p] else []) ∧
      t.ctx.mrs = s.ctx.mrs ∧
      t.ctx.mem = Scatter.store s.ctx.mem ((sge.flatMap (sgeHost s.ctx)).drop n) c := by
  obtain ⟨iovs, wr, s1, msn, acks, rfl, hlive, hholds, hstep, rfl⟩ := h.payloadStep hm hb hacc hpsn
  obtain ⟨hword, hrq, hmrs, hmem⟩ := h.taking
  have hserves := Serves.taking s first p rest
  generalize ({ s with qp.resp.inPsnNak := false } : St).taking first p rest = s0 at *
  cases hstep with
  | @placed len sges idx off dsts dmamap _ hlen hle hcut hmap hfin =>
    have hin : ∀ g ∈ sge, InPages s0.ctx g := fun g hg => (h.pages g hg).congr hmrs
    obtain ⟨hstore, hholds'⟩ := (hholds.congr hmrs).placed hin hlen hcut hmap hfit s0.ctx.mem
    cases hfin with
    | done hcomp _ =>
      have hnone := roceRecvCqComp_isSome ((s0.place dsts iovs.flatten dmamap).setRecvWr p
        { wr with sgeIdx := idx, sgeOff := off, byteLen := wr.byteLen + roceIovLen iovs }).qp
        (m.opcode first false) wr.wrId (wr.byteLen + roceIovLen iovs) (if false then m.imm else none)
      rw [hcomp, Message.completes hm first false] at hnone
      cases hnone
    | goesOn hcomp =>
      refine ⟨⟨Or.inr ⟨rfl, hword, hrq⟩, ⟨_, if_pos rfl, hholds'.congr ?_⟩, ?_⟩, ?_, hmrs, ?_⟩
      · rfl
      · intro g hg
        exact (h.pages g hg).congr hmrs
      · have hplaced := (hserves.trans (Serves.place s0 dsts iovs.flatten dmamap)).trans (.setRecvWr _ p
          { wr with sgeIdx := idx, sgeOff := off, byteLen := wr.byteLen + roceIovLen iovs })
        have hcounted := hplaced.trans (Serves.counted _ msn acks)
        rw [List.append_nil, List.append_nil, List.append_nil] at hcounted
        exact hcounted
      · show placeMem s0.ctx.mem dsts iovs.flatten = _
        rw [hstore, sgeHost_congr hmrs, hmem]

/-- The last packet. -/
theorem Filling.closes {s t : St} {m : Message} {first : Bool} {p wrId : UInt64} {sge : List RoceSge}
    {rest : List UInt64} {n : Nat} {psn : UInt32} {c : List UInt8} {pkt : Inbound}
    (h : Filling s first p wrId sge rest n) (hrc : s.qp.qpType = .rc) (hm : m.reth = none)
    (hb : Bears m first true psn c pkt) (hacc : roceRecvRc s pkt = .ok (0, t))
    (hpsn : t.qp.attr.rqPsn = roceQpPsnInc s.qp.attr.rqPsn) (hfit : n + c.length ≤ sgeTotal sge) :
    t.ctx.mem = Scatter.store s.ctx.mem ((sge.flatMap (sgeHost s.ctx)).drop n) c ∧ t.qp.rq = rest ∧
      Serves s t ((if first then [.popRecv p] else []) ++
        [.cqComp (m.wc s.qp wrId (UInt32.ofNat (n + c.length))) s.qp.rcq, .freeRecv p]) := by
  obtain ⟨iovs, wr, s1, msn, acks, rfl, hlive, hholds, hstep, rfl⟩ := h.payloadStep hm hb hacc hpsn
  obtain ⟨hword, hrq, hmrs, hmem⟩ := h.taking
  have hserves := Serves.taking s first p rest
  generalize ({ s with qp.resp.inPsnNak := false } : St).taking first p rest = s0 at *
  cases hstep with
  | @placed len sges idx off dsts dmamap _ hlen hle hcut hmap hfin =>
    have hin : ∀ g ∈ sge, InPages s0.ctx g := fun g hg => (h.pages g hg).congr hmrs
    obtain ⟨hstore, hholds'⟩ := (hholds.congr hmrs).placed hin hlen hcut hmap hfit s0.ctx.mem
    have hplaced := hserves.trans (Serves.place s0 dsts iovs.flatten dmamap)
    -- the QP still has its number and its CQ
    have hqp := hserves.qp
    have hcomp : roceRecvCqComp s0.qp (m.opcode first true) wr.wrId (wr.byteLen + roceIovLen iovs) m.imm =
        some (.cqComp (m.wc s.qp wrId (UInt32.ofNat (n + iovs.flatten.length))) s.qp.rcq) := by
      have htype : s0.qp.qpType = .rc := by
        rw [hqp]
        exact hrc
      have hcq : s0.qp.rcq = s.qp.rcq := by rw [hqp]
      have hbytes : wr.byteLen + roceIovLen iovs = UInt32.ofNat (n + iovs.flatten.length) := hholds'.byteLen
      have hwc : m.wc s0.qp wrId (UInt32.ofNat (n + iovs.flatten.length)) =
          m.wc s.qp wrId (UInt32.ofNat (n + iovs.flatten.length)) := by
        unfold Message.wc
        rw [hqp]
      have hsend : m.reth.isSome = false := by
        rw [hm]
        rfl
      rw [Message.roceRecvCqComp htype (Or.inl hsend), hcq, hbytes, hholds.wrId, hwc]
    cases hfin with
    | goesOn hnone => cases hcomp.symm.trans hnone
    | @done e ctx he hfree =>
      obtain rfl := Option.some.inj (hcomp.symm.trans he)
      obtain ⟨htrace, -⟩ := roceFreeRecvWr_ok hfree
      obtain ⟨-, hrefs⟩ := roceFreeRecvWr_refs hfree
      refine ⟨?_, hrq, ?_⟩
      · show ctx.mem = _
        rw [hrefs]
        show placeMem s0.ctx.mem dsts iovs.flatten = _
        rw [hstore, sgeHost_congr hmrs, hmem]
      · have hplaced := (hserves.trans (Serves.place s0 dsts iovs.flatten dmamap)).trans (.setRecvWr _ p
          { wr with sgeIdx := idx, sgeOff := off, byteLen := wr.byteLen + roceIovLen iovs })
        rw [List.append_nil, List.append_nil] at hplaced
        have hdone : Serves ((s0.place dsts iovs.flatten dmamap).setRecvWr p
            { wr with sgeIdx := idx, sgeOff := off, byteLen := wr.byteLen + roceIovLen iovs })
            ⟨ctx, { s0.qp with resp.word := .wr 0 }⟩
            [.cqComp (m.wc s.qp wrId (UInt32.ofNat (n + iovs.flatten.length))) s.qp.rcq, .freeRecv p] := by
          refine ⟨⟨[.cqComp (m.wc s.qp wrId (UInt32.ofNat (n + iovs.flatten.length))) s.qp.rcq] ++
            [.freeRecv p], ?_, rfl⟩, rfl⟩
          show ctx.trace = _
          rw [htrace]
          exact List.append_assoc _ _ _
        have hcounted := (hplaced.trans hdone).trans (Serves.counted _ msn acks)
        rw [List.append_nil] at hcounted
        exact hcounted

/-- The first packet is placed only when the lengths of the SGEs add up to 32 bits. -/
theorem Filling.sgeTotal_lt {s t : St} {m : Message} {first last : Bool} {p wrId : UInt64}
    {sge : List RoceSge} {rest : List UInt64} {n : Nat} {psn : UInt32} {c : List UInt8} {pkt : Inbound}
    (h : Filling s first p wrId sge rest n) (hposted : s.ctx.recvWrs p = some (.fresh wrId sge))
    (hm : m.reth = none) (hb : Bears m first last psn c pkt) (hacc : roceRecvRc s pkt = .ok (0, t))
    (hpsn : t.qp.attr.rqPsn = roceQpPsnInc s.qp.attr.rqPsn) : sgeTotal sge < 2 ^ 32 := by
  obtain ⟨iovs, wr, s1, msn, acks, -, hlive, -, hstep, -⟩ := h.payloadStep hm hb hacc hpsn
  obtain rfl := Option.some.inj (hposted.symm.trans hlive)
  cases hstep with
  | @placed len _ _ _ _ _ _ hlen _ _ _ _ =>
    obtain ⟨-, hrest⟩ := roceSgeLen_ok hlen
    have hlt := len.toNat_lt
    have hrest : len.toNat = sgeTotal sge := hrest
    omega

/-! ## The message -/

/-- The packets of a SEND, from one of them on. -/
theorem Message.Stream.filled {m : Message} {first : Bool} {psn : UInt32} {cs : List (List UInt8)}
    {pkts : List Inbound} (hst : m.Stream first psn cs pkts) (hm : m.reth = none) {s t : St}
    {p wrId : UInt64} {sge : List RoceSge} {rest : List UInt64} {n : Nat} (hacc : Accepts s pkts t)
    (h : Filling s first p wrId sge rest n) (hrc : s.qp.qpType = .rc)
    (hfit : n + cs.flatten.length ≤ sgeTotal sge) :
    t.ctx.mem = Scatter.store s.ctx.mem ((sge.flatMap (sgeHost s.ctx)).drop n) cs.flatten ∧
      t.qp.rq = rest ∧
      Serves s t ((if first then [.popRecv p] else []) ++
        [.cqComp (m.wc s.qp wrId (UInt32.ofNat (n + cs.flatten.length))) s.qp.rcq, .freeRecv p]) ∧
      ∃ u es, Accepts s pkts.dropLast u ∧ Serves s u es ∧ ∀ wc cq, .cqComp wc cq ∉ es := by
  induction hst generalizing s n with
  | last hc hb =>
    cases hacc with
    | cons hstep hpsn hrest =>
      cases hrest
      rw [List.flatten_singleton] at hfit ⊢
      obtain ⟨hmem, hrq, hserves⟩ := h.closes hrc hm hb hstep hpsn hfit
      exact ⟨hmem, hrq, hserves, s, [], .nil s, .refl s, fun _ _ => List.not_mem_nil⟩
  | @more first psn c cs pkt pkts hc hb hrest ih =>
    cases hacc with
    | @cons _ u _ _ _ hstep hpsn hacc =>
      rw [List.flatten_cons, List.length_append] at hfit ⊢
      obtain ⟨hfill, hserves, hmrs, hmem⟩ := h.goesOn hm hb hstep hpsn (by omega)
      have hqp := hserves.qp
      have htype : u.qp.qpType = .rc := by
        rw [hqp]
        exact hrc
      obtain ⟨hmem', hrq, hserves', v, es, hbefore, hquiet, hnone⟩ := ih hacc hfill htype (by omega)
      refine ⟨?_, hrq, ?_, v, _, ?_, hserves.trans hquiet, ?_⟩
      · rw [Scatter.store_append_vals, List.drop_drop, ← hmem, ← sgeHost_congr hmrs]
        exact hmem'
      · have hwc : ∀ byteLen, m.wc u.qp wrId byteLen = m.wc s.qp wrId byteLen := by
          intro byteLen
          unfold Message.wc
          rw [hqp]
        have hcq : u.qp.rcq = s.qp.rcq := by rw [hqp]
        rw [hwc, hcq, Nat.add_assoc] at hserves'
        exact hserves.trans hserves'
      · have hne : pkts ≠ [] := by
          cases hrest with
          | last => exact List.cons_ne_nil _ _
          | more => exact List.cons_ne_nil _ _
        rw [List.dropLast_cons_of_ne_nil hne]
        exact .cons hstep hpsn hbefore
      · intro wc cq hmem
        rcases List.mem_append.mp hmem with hpop | hes
        · cases first with
          | true => cases List.mem_singleton.mp hpop
          | false => cases hpop
        · exact hnone wc cq hes

/-- The packets carry a SEND; the next receive WR is as it was posted, has room
for it, and names no byte twice. -/
structure SendsTo (s : St) (m : Message) (p wrId : UInt64) (sge : List RoceSge) (rest : List UInt64)
    (pkts : List Inbound) : Prop where
  header : m.reth = none
  stream : m.Stream true s.qp.attr.rqPsn m.payloads pkts
  queue : s.qp.rq = p :: rest
  posted : s.ctx.recvWrs p = some (.fresh wrId sge)
  pages : ∀ g ∈ sge, InPages s.ctx g
  disjoint : (sge.flatMap (sgeHost s.ctx)).Nodup
  room : m.total ≤ sgeTotal sge

/-- **An accepted SEND fills the front of its SGEs and nothing else.**  It takes
one receive WR and completes it once, with the last packet. -/
theorem sendMessage_reassembled {s t : St} {m : Message} {p wrId : UInt64} {sge : List RoceSge}
    {rest : List UInt64} {pkts : List Inbound} (h : SendsTo s m p wrId sge rest pkts)
    (hrc : s.qp.qpType = .rc) (hidle : RespIdle s) (hacc : Accepts s pkts t) :
    ((sge.flatMap (sgeHost s.ctx)).take m.total).map t.ctx.mem = m.payloads.flatten ∧
      (∀ a, a ∉ (sge.flatMap (sgeHost s.ctx)).take m.total → t.ctx.mem a = s.ctx.mem a) ∧
      t.qp.rq = rest ∧
      (∃ byteLen : UInt32, byteLen.toNat = m.total ∧ recvSince s t =
        [.popRecv p, .cqComp (m.wc s.qp wrId byteLen) s.qp.rcq, .freeRecv p]) ∧
      ∃ u, Accepts s pkts.dropLast u ∧ ∀ wc cq, .cqComp wc cq ∉ recvSince s u := by
  have hfill : Filling s true p wrId sge rest 0 :=
    ⟨Or.inl ⟨rfl, hidle.word, h.queue⟩, ⟨_, h.posted, ⟨rfl, rfl, rfl, rfl⟩⟩, h.pages⟩
  have hroom := h.room
  have hfit : 0 + m.payloads.flatten.length ≤ sgeTotal sge := by
    rw [Nat.zero_add]
    exact hroom
  obtain ⟨hmem, hrq, hserves, u, es, hbefore, hquiet, hnone⟩ :=
    h.stream.filled h.header hacc hfill hrc hfit
  have hshort : sgeTotal sge < 2 ^ 32 := by
    have hst := h.stream
    generalize m.payloads = cs at hst
    cases hacc with
    | nil => cases hst
    | cons hstep hpsn _ =>
      cases hst with
      | last _ hb => exact hfill.sgeTotal_lt h.posted h.header hb hstep hpsn
      | more _ hb _ => exact hfill.sgeTotal_lt h.posted h.header hb hstep hpsn
  have htotal : m.total ≤ (sge.flatMap (sgeHost s.ctx)).length := by
    rw [length_sgesHost h.pages]
    exact hroom
  rw [List.drop_zero] at hmem
  refine ⟨?_, ?_, hrq, ⟨UInt32.ofNat m.total, ?_, ?_⟩, u, hbefore, ?_⟩
  · rw [hmem]
    exact Scatter.map_store h.disjoint htotal
  · intro a ha
    rw [hmem, ← Scatter.store_take]
    exact Scatter.store_other ha
  · rw [UInt32.toNat_ofNat', Nat.mod_eq_of_lt (by omega)]
  · rw [Nat.zero_add] at hserves
    exact hserves.recvSince
  · rw [hquiet.recvSince]
    exact hnone

/-- A SEND of two bytes in two packets. -/
def splitSend : Message := ⟨none, some 7, [[1], [2]]⟩

def splitSendPkts : List Inbound :=
  [smallPkt ibOpcodeSendFirst 0 [[1]], smallPkt ibOpcodeSendLastWithImmediate 1 [ibImmdtCodec.enc 7, [2]]]

/-- It goes to the only receive WR. -/
theorem sendMessage_reassembled_two : ∃ t, Accepts (smallRecv 2 1) splitSendPkts t ∧
    ([0x10000, 0x10001].map t.ctx.mem = [1, 2]) ∧ t.ctx.mem 0x10002 = 0 ∧ t.qp.rq = [] := by
  have hpkts : splitSend.Packets true (smallRecv 2 1).qp.attr.rqPsn splitSend.payloads splitSendPkts :=
    .more (List.cons_ne_nil _ _) ⟨rfl, rfl, rfl, by decide, rfl⟩
      (.last (Or.inl (List.cons_ne_nil _ _)) ⟨rfl, rfl, rfl, by decide, rfl⟩)
  have hst : splitSend.Stream true (smallRecv 2 1).qp.attr.rqPsn splitSend.payloads splitSendPkts :=
    .more (List.cons_ne_nil _ _) ⟨rfl, rfl, rfl⟩ (.last (Or.inl (List.cons_ne_nil _ _)) ⟨rfl, rfl, rfl⟩)
  have hready : SendReady (smallRecv 2 1) true 0x1000 (.fresh 0 [⟨0x10000, 2, 0⟩]) [] 0 :=
    ⟨Or.inl ⟨rfl, rfl, rfl, rfl⟩, by decide, rfl, RecvWr.at_fresh 0 (List.cons_ne_nil _ _) (by decide)⟩
  have hlive : roceGetMrNoref (smallRecv 2 1).ctx (roceKeyToIndex 0) = some (pageMr 1) := rfl
  have hpieces : recvPieces [⟨0x10000, 2, 0⟩] 0 0 splitSend.outline.sizes =
      [[⟨0x10000, 1, 0⟩], [⟨0x10001, 1, 0⟩]] := by decide
  have hland : ∀ d ∈ recvPieces [⟨0x10000, 2, 0⟩] 0 0 splitSend.outline.sizes,
      Placeable (smallRecv 2 1).ctx (smallRecv 2 1).qp true roceAccessLocalWrite d := by
    intro d hd
    rw [hpieces] at hd
    rcases List.mem_cons.mp hd with rfl | hd
    · exact pageMr_placeable hlive rfl rfl (by decide) (by decide) (by decide) (by decide)
    · rw [List.mem_singleton.mp hd]
      exact pageMr_placeable hlive rfl rfl (by decide) (by decide) (by decide) (by decide)
  obtain ⟨t, hacc, -⟩ := hpkts.send rfl hready rfl (by decide) hland smallRecv_listening.pds
    smallRecv_listening.canAck
  have hhost : [(⟨0x10000, 2, 0⟩ : RoceSge)].flatMap (sgeHost (smallRecv 2 1).ctx) = [0x10000, 0x10001] := by
    decide
  have hpages : ∀ g ∈ [(⟨0x10000, 2, 0⟩ : RoceSge)], InPages (smallRecv 2 1).ctx g := by
    intro g hg
    obtain rfl := List.mem_singleton.mp hg
    exact ⟨_, rfl, ⟨rfl, by decide, by decide⟩, by decide, by decide⟩
  have hto : SendsTo (smallRecv 2 1) splitSend 0x1000 0 [⟨0x10000, 2, 0⟩] [] splitSendPkts := by
    refine ⟨rfl, hst, rfl, rfl, hpages, ?_, by decide⟩
    rw [hhost]
    decide
  obtain ⟨hbytes, hother, hrq, -⟩ := sendMessage_reassembled hto rfl ⟨rfl, rfl⟩ hacc
  rw [hhost] at hbytes hother
  exact ⟨t, hacc, hbytes, hother 0x10002 (by decide), hrq⟩

end Libroce
