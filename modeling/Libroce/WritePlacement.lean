import Libroce.Reception
import Libroce.ResponderIdle

/-!
# Where an RDMA WRITE goes

A WRITE in several packets keeps its place in `resp.writtenlen`: each packet is
stored behind the bytes of those before it.  So the message as a whole is stored
to the addresses that its RETH names.

Main statement:
* `writeMessage_placed` — an accepted WRITE with an immediate replaces its range
  of the MR, nothing else, and completes one receive WR.
-/

namespace Libroce

/-! ## One packet -/

/-- The `len` bytes from the address of a RETH on, as an SGE. -/
def IbReth.sge (reth : IbReth) (len : UInt32) : RoceSge := ⟨reth.va, len, reth.rkey⟩

/-- An accepted packet of a WRITE is placed. -/
theorem WriteReady.placeStep {s t : St} {m : Message} {reth : IbReth} {first last : Bool} {n : Nat}
    {psn : UInt32} {c : List UInt8} {pkt : Inbound} (h : WriteReady s first reth n)
    (hm : m.reth = some reth) (hb : Bears m first last psn c pkt)
    (hacc : roceRecvRc s pkt = .ok (0, t)) (hpsn : t.qp.attr.rqPsn = roceQpPsnInc s.qp.attr.rqPsn) :
    ∃ iovs s1 msn, ∃ acks : List RoceNetpkt, iovs.flatten = c ∧
      PlaceStep (({ s with qp.resp.inPsnNak := false } : St).aiming first reth) iovs
        (if last then m.imm else none) (m.opcode first last) 0 s1 ∧
      t = s1.counted msn (acks.map .netXmit) := by
  have hop : ibBthGetOpcode pkt.bth ≠ ibOpcodeAcknowledge := by
    rw [hb.opcode]
    exact messageOpcode_ne_acknowledge _ _ first last
  obtain ⟨s1, msn, acks, hstep, rfl⟩ := roceRecvRc_carriedOut hop hacc hpsn
  -- the request is the one of the message, and it is in order
  have hrequest : ∀ {r}, pkt.request = some r → ∃ iovs, iovs.flatten = c ∧
      r = .write (!first) (if first then some reth else none) (if last then m.imm else none) iovs := by
    intro r hreq
    obtain ⟨iovs, hr, hiovs⟩ := hb.request hreq
    unfold Message.request at hr
    rw [hm] at hr
    exact ⟨iovs, hiovs, hr⟩
  cases hstep with
  | send hreq hs =>
    obtain ⟨iovs, -, hr⟩ := hrequest hreq
    cases hr
  | write hreq hs =>
    obtain ⟨iovs, hiovs, hr⟩ := hrequest hreq
    obtain ⟨rfl, rfl, rfl, rfl⟩ := Request.write.inj hr
    rw [hb.opcode] at hs
    refine ⟨_, s1, msn, acks, hiovs, ?_, rfl⟩
    cases first with
    | true =>
      cases hs with
      | first hin hlen hreth hs =>
        obtain rfl := Option.some.inj hreth
        exact hs
      | next hin hlen hs => cases hin
    | false =>
      cases hs with
      | first hin hlen hreth hs => cases hin
      | next hin hlen hs => exact hs

/-- Its bytes are stored behind the `n` before them. -/
theorem WriteReady.stores {s : St} {reth : IbReth} {first : Bool} {n : Nat} (h : WriteReady s first reth n)
    {len : UInt32} {iovs : List (List UInt8)} {dsts : List Iovec} {dmamap : Bool}
    (hp : Places (s.aiming first reth).ctx (s.aiming first reth).qp
      [writeSge (s.aiming first reth).qp.resp (roceIovLen iovs)] false roceAccessRemoteWrite dsts dmamap)
    (hin : InPages s.ctx (reth.sge len)) (hfit : n + iovs.flatten.length ≤ len.toNat) :
    placeMem s.ctx.mem dsts iovs.flatten =
      Scatter.store s.ctx.mem ((sgeHost s.ctx (reth.sge len)).drop n) iovs.flatten := by
  obtain ⟨hctx, -, -, hword, hrkey, hlen, -⟩ := h.aiming
  have hshort := len.toNat_lt
  have hsge : writeSge (s.aiming first reth).qp.resp (roceIovLen iovs) =
      (reth.sge len).piece n iovs.flatten.length := by
    unfold writeSge
    rw [hword, hrkey, hlen]
    have hbuf : roceIovLen iovs = UInt32.ofNat iovs.flatten.length := by
      apply UInt32.toNat_inj.mp
      rw [roceIovLen_toNat, UInt32.toNat_ofNat']
    have hoff : (UInt32.ofNat n).toUInt64 = UInt64.ofNat n := by
      apply UInt64.toNat_inj.mp
      rw [UInt32.toNat_toUInt64, UInt32.toNat_ofNat', UInt64.toNat_ofNat', Nat.mod_eq_of_lt (by omega),
        Nat.mod_eq_of_lt (by omega)]
    rw [hbuf, hoff]
    rfl
  rw [hctx, hsge] at hp
  have hpiece : ∀ d ∈ [(reth.sge len).piece n iovs.flatten.length], ∃ sge ∈ [reth.sge len], ∃ o k,
      o + k ≤ sge.length.toNat ∧ d = sge.piece o k := by
    intro d hd
    exact ⟨reth.sge len, List.mem_singleton.mpr rfl, n, _, hfit, List.mem_singleton.mp hd⟩
  have hinall : ∀ sge ∈ [reth.sge len], InPages s.ctx sge := by
    intro sge hsge
    rw [List.mem_singleton.mp hsge]
    exact hin
  obtain ⟨hpieces, haddrs⟩ := hp.pieces hinall hpiece
  rw [List.flatMap_singleton, hpieces _ (List.mem_singleton.mpr rfl) n _ hfit
    (List.mem_singleton.mpr rfl)] at haddrs
  rw [placeMem_eq, haddrs, Scatter.store_take]

theorem Serves.aiming (s : St) (first : Bool) (reth : IbReth) :
    Serves s (({ s with qp.resp.inPsnNak := false } : St).aiming first reth) [] := by
  cases first with
  | true => exact .quiet rfl rfl
  | false => exact .quiet rfl rfl

/-- Only the last packet takes a receive WR, and only with an immediate. -/
theorem Message.withImm {m : Message} {reth : IbReth} (hm : m.reth = some reth) (first last : Bool) :
    WithImm (m.opcode first last) ↔ last = true ∧ m.imm.isSome = true := by
  unfold Message.opcode
  rw [hm]
  exact messageOpcode_withImm m.imm.isSome first last

/-- A packet with more to come. -/
theorem WriteReady.goesOn {s t : St} {m : Message} {reth : IbReth} {first : Bool} {n : Nat} {psn : UInt32}
    {c : List UInt8} {pkt : Inbound} {len : UInt32} (h : WriteReady s first reth n) (hm : m.reth = some reth)
    (hb : Bears m first false psn c pkt) (hc : c ≠ []) (hacc : roceRecvRc s pkt = .ok (0, t))
    (hpsn : t.qp.attr.rqPsn = roceQpPsnInc s.qp.attr.rqPsn) (hin : InPages s.ctx (reth.sge len))
    (hfit : n + c.length ≤ len.toNat) :
    WriteReady t false reth (n + c.length) ∧ Serves s t [] ∧ t.qp.rq = s.qp.rq ∧
      t.ctx.mrs = s.ctx.mrs ∧ t.ctx.recvWrs = s.ctx.recvWrs ∧
      t.ctx.mem = Scatter.store s.ctx.mem ((sgeHost s.ctx (reth.sge len)).drop n) c := by
  obtain ⟨iovs, s1, msn, acks, rfl, hstep, rfl⟩ := h.placeStep hm hb hacc hpsn
  have h0 : WriteReady { s with qp.resp.inPsnNak := false } first reth n := h
  obtain ⟨hctx, hrq, -, hword, hrkey, hlen, -⟩ := h0.aiming
  have hshort := len.toNat_lt
  have hpos := List.length_pos_iff.mpr hc
  have hno : ¬WithImm (m.opcode first false) := by
    intro hwith
    cases ((Message.withImm hm first false).mp hwith).1
  cases hstep with
  | done himm _ _ _ _ _ => exact absurd himm hno
  | @plain dsts dmamap _ hmap =>
    have hstores := h0.stores hmap hin hfit
    have hbuf : (roceIovLen iovs).toNat = iovs.flatten.length := by
      rw [roceIovLen_toNat, Nat.mod_eq_of_lt (by omega)]
    have hsum : UInt32.ofNat n + roceIovLen iovs = UInt32.ofNat (n + iovs.flatten.length) := by
      apply UInt32.toNat_inj.mp
      rw [UInt32.toNat_add, hbuf, UInt32.toNat_ofNat', UInt32.toNat_ofNat', Nat.mod_add_mod]
    have hne : UInt32.ofNat (n + iovs.flatten.length) ≠ 0 := by
      intro hzero
      have hnat := congrArg UInt32.toNat hzero
      rw [UInt32.toNat_ofNat', Nat.mod_eq_of_lt (by omega)] at hnat
      have hnat : n + iovs.flatten.length = 0 := hnat
      omega
    refine ⟨Or.inr ⟨rfl, hword, hrkey, ?_, hne⟩, ?_, hrq, ?_, ?_, ?_⟩
    · show (St.aiming _ first reth).qp.resp.writtenlen + roceIovLen iovs = _
      rw [hlen, hsum]
    · have hwritten := (Serves.aiming s first reth).trans (Serves.written _ dsts iovs dmamap)
      exact hwritten.trans (Serves.counted _ msn acks)
    · show (St.aiming _ first reth).ctx.mrs = _
      rw [hctx]
    · show (St.aiming _ first reth).ctx.recvWrs = _
      rw [hctx]
    · show placeMem (St.aiming _ first reth).ctx.mem dsts iovs.flatten = _
      rw [hctx]
      exact hstores

/-- The last packet, with the immediate. -/
theorem WriteReady.closes {s t : St} {m : Message} {reth : IbReth} {first : Bool} {n : Nat} {psn : UInt32}
    {c : List UInt8} {pkt : Inbound} {len : UInt32} (h : WriteReady s first reth n) (hrc : s.qp.qpType = .rc)
    (hm : m.reth = some reth) (himm : m.imm.isSome = true) (hb : Bears m first true psn c pkt)
    (hacc : roceRecvRc s pkt = .ok (0, t)) (hpsn : t.qp.attr.rqPsn = roceQpPsnInc s.qp.attr.rqPsn)
    (hin : InPages s.ctx (reth.sge len)) (hfit : n + c.length = len.toNat) :
    t.ctx.mem = Scatter.store s.ctx.mem ((sgeHost s.ctx (reth.sge len)).drop n) c ∧
      ∃ p wr rest, s.qp.rq = p :: rest ∧ s.ctx.recvWrs p = some wr ∧ t.qp.rq = rest ∧
        Serves s t [.popRecv p, .cqComp (m.wc s.qp wr.wrId len) s.qp.rcq, .freeRecv p] := by
  obtain ⟨iovs, s1, msn, acks, rfl, hstep, rfl⟩ := h.placeStep hm hb hacc hpsn
  have h0 : WriteReady { s with qp.resp.inPsnNak := false } first reth n := h
  obtain ⟨hctx, hrq, -, -, -, hlen, -⟩ := h0.aiming
  have hshort := len.toNat_lt
  have hyes : WithImm (m.opcode first true) := (Message.withImm hm first true).mpr ⟨rfl, himm⟩
  have hsum : UInt32.ofNat n + roceIovLen iovs = len := by
    apply UInt32.toNat_inj.mp
    rw [UInt32.toNat_add, roceIovLen_toNat, UInt32.toNat_ofNat', ← Nat.add_mod, hfit, Nat.mod_eq_of_lt hshort]
  cases hstep with
  | plain hno _ => exact absurd hyes hno
  | @done dsts dmamap p rest wr e ctx _ hqueue hwr hmap he hfree =>
    have hstores := h0.stores hmap hin (Nat.le_of_eq hfit)
    have hwc : e = .cqComp (m.wc s.qp wr.wrId len) s.qp.rcq := by
      have hqp : m.wc (St.aiming { s with qp.resp.inPsnNak := false } first reth).qp wr.wrId len =
          m.wc s.qp wr.wrId len ∧
          (St.aiming { s with qp.resp.inPsnNak := false } first reth).qp.rcq = s.qp.rcq ∧
          (St.aiming { s with qp.resp.inPsnNak := false } first reth).qp.qpType = s.qp.qpType := by
        cases first with
        | true => exact ⟨rfl, rfl, rfl⟩
        | false => exact ⟨rfl, rfl, rfl⟩
      obtain ⟨hwc, hcq, htype⟩ := hqp
      rw [hlen, hsum, if_pos rfl, Message.roceRecvCqComp (htype.trans hrc) (Or.inr himm), hwc, hcq] at he
      exact (Option.some.inj he).symm
    subst hwc
    obtain ⟨htrace, hrecv⟩ := roceFreeRecvWr_ok hfree
    obtain ⟨-, hrefs⟩ := roceFreeRecvWr_refs hfree
    refine ⟨?_, p, wr, rest, ?_, ?_, rfl, ?_⟩
    · show ctx.mem = _
      rw [hrefs]
      show placeMem (St.aiming _ first reth).ctx.mem dsts iovs.flatten = _
      rw [hctx]
      exact hstores
    · rw [← hrq]
      exact hqueue
    · rw [hctx] at hwr
      exact hwr
    · have hwritten := (Serves.aiming s first reth).trans (Serves.written _ dsts iovs dmamap)
      have hdone : Serves (St.written (St.aiming { s with qp.resp.inPsnNak := false } first reth) dsts
          iovs dmamap)
          ⟨ctx, { (St.aiming { s with qp.resp.inPsnNak := false } first reth).qp with
            rq := rest, resp.word := .wr 0, resp.writtenlen := 0 }⟩
          [.popRecv p, .cqComp (m.wc s.qp wr.wrId len) s.qp.rcq, .freeRecv p] := by
        refine ⟨⟨[.popRecv p, .cqComp (m.wc s.qp wr.wrId len) s.qp.rcq] ++ [.freeRecv p], ?_, rfl⟩,
          rfl⟩
        show ctx.trace = _
        rw [htrace]
        exact List.append_assoc _ _ _
      exact (hwritten.trans hdone).trans (Serves.counted _ msn acks)

/-! ## The message -/

/-- The packets of a WRITE with an immediate, from one of them on, when `n`
bytes are written. -/
theorem Message.Stream.written {m : Message} {first : Bool} {psn : UInt32} {cs : List (List UInt8)}
    {pkts : List Inbound} (hst : m.Stream first psn cs pkts) {reth : IbReth} (hm : m.reth = some reth)
    (himm : m.imm.isSome = true) {s t : St} {n : Nat} {len : UInt32} (hacc : Accepts s pkts t)
    (h : WriteReady s first reth n) (hrc : s.qp.qpType = .rc) (hin : InPages s.ctx (reth.sge len))
    (hfit : n + cs.flatten.length = len.toNat) :
    t.ctx.mem = Scatter.store s.ctx.mem ((sgeHost s.ctx (reth.sge len)).drop n) cs.flatten ∧
      ∃ p wr rest, s.qp.rq = p :: rest ∧ s.ctx.recvWrs p = some wr ∧ t.qp.rq = rest ∧
        Serves s t [.popRecv p, .cqComp (m.wc s.qp wr.wrId len) s.qp.rcq, .freeRecv p] := by
  induction hst generalizing s n with
  | last hc hb =>
    cases hacc with
    | cons hstep hpsn hrest =>
      cases hrest
      rw [List.flatten_singleton] at hfit ⊢
      exact h.closes hrc hm himm hb hstep hpsn hin hfit
  | @more first psn c cs pkt pkts hc hb hrest ih =>
    cases hacc with
    | @cons _ u _ _ _ hstep hpsn hacc =>
      rw [List.flatten_cons, List.length_append] at hfit
      obtain ⟨hready, hserves, hrq, hmrs, hwrs, hmem⟩ := h.goesOn hm hb hc hstep hpsn hin (by omega)
      have hhost := sgeHost_congr hmrs
      have hqp := hserves.qp
      have htype : u.qp.qpType = .rc := by
        rw [hqp]
        exact hrc
      obtain ⟨hmem', p, wr, rest, hqueue, hlive, htail, hserves'⟩ :=
        ih hacc hready htype (hin.congr hmrs) (by omega)
      refine ⟨?_, p, wr, rest, hrq ▸ hqueue, hwrs ▸ hlive, htail, ?_⟩
      · rw [List.flatten_cons, Scatter.store_append_vals, List.drop_drop, ← hmem, ← hhost]
        exact hmem'
      · have hwc : m.wc u.qp wr.wrId len = m.wc s.qp wr.wrId len := by
          unfold Message.wc
          rw [hqp]
        have hcq : u.qp.rcq = s.qp.rcq := by rw [hqp]
        rw [hwc, hcq] at hserves'
        exact hserves.trans hserves'

/-- **A store to a range of an MR of pages that are apart** replaces the bytes of
the range and no others. -/
theorem RoceMr.Paged.replaces {ctx : RoceCtx} {mr : RoceMr} {sge : RoceSge} (h : mr.Paged)
    (hapart : Apart mr.iovs) (hrange : InRange sge mr)
    (hlive : roceGetMrNoref ctx (roceKeyToIndex sge.lkey) = some mr) {bytes : List UInt8}
    (hlen : bytes.length = sge.length.toNat) :
    (∀ i (hi : i < bytes.length),
        Scatter.store ctx.mem (sgeHost ctx sge) bytes (mr.host (sge.addr.toNat + i)) = bytes[i]) ∧
      ∀ a, (∀ i < bytes.length, a ≠ mr.host (sge.addr.toNat + i)) →
        Scatter.store ctx.mem (sgeHost ctx sge) bytes a = ctx.mem a := by
  have hhost : sgeHost ctx sge = mr.hosts sge := by
    unfold sgeHost
    rw [hlive]
    rfl
  have hlength : (mr.hosts sge).length = bytes.length := (mr.length_hosts sge).trans hlen.symm
  have hget : ∀ i (hi : i < (mr.hosts sge).length),
      (mr.hosts sge)[i] = mr.host (sge.addr.toNat + i) := fun _ hi => mr.getElem_hosts sge hi
  rw [hhost]
  constructor
  · intro i hi
    rw [← hget i (by omega)]
    exact Scatter.store_get (h.hosts_nodup hapart hrange) (by omega) hi
  · intro a ha
    apply Scatter.store_other
    intro hmem
    obtain ⟨i, hi, heq⟩ := List.mem_iff_getElem.mp hmem
    rw [hget i hi] at heq
    exact ha i (by omega) heq.symm

/-- The packets carry a WRITE with an immediate to a range of `mr`, an MR of
pages that are apart.  What length the RETH announces is not read. -/
structure WritesTo (s : St) (m : Message) (reth : IbReth) (mr : RoceMr) (pkts : List Inbound) : Prop where
  header : m.reth = some reth
  immdt : m.imm.isSome = true
  stream : m.Stream true s.qp.attr.rqPsn m.payloads pkts
  live : roceGetMrNoref s.ctx (roceKeyToIndex reth.rkey) = some mr
  paged : mr.Paged
  apart : Apart mr.iovs
  start : mr.iova.toNat ≤ reth.va.toNat
  stop : reth.va.toNat + m.total ≤ mr.iova.toNat + mr.length.toNat

/-- The bytes of the message are fewer than a length field counts. -/
theorem WritesTo.inRange {s : St} {m : Message} {reth : IbReth} {mr : RoceMr} {pkts : List Inbound}
    (h : WritesTo s m reth mr pkts) :
    (UInt32.ofNat m.total).toNat = m.total ∧ InRange (reth.sge (UInt32.ofNat m.total)) mr := by
  have hshort := mr.length.toNat_lt
  have hstart := h.start
  have hstop := h.stop
  have hlen : (UInt32.ofNat m.total).toNat = m.total := by
    rw [UInt32.toNat_ofNat', Nat.mod_eq_of_lt (by omega)]
  refine ⟨hlen, hstart, ?_⟩
  show reth.va.toNat + (UInt32.ofNat m.total).toNat ≤ _
  rw [hlen]
  exact hstop

/-- **An accepted WRITE replaces its range and nothing else.**  It takes one
receive WR, and completes it once. -/
theorem writeMessage_placed {s t : St} {m : Message} {reth : IbReth} {mr : RoceMr} {pkts : List Inbound}
    (h : WritesTo s m reth mr pkts) (hrc : s.qp.qpType = .rc) (hidle : RespIdle s)
    (hacc : Accepts s pkts t) :
    (∀ i (hi : i < m.payloads.flatten.length),
        t.ctx.mem (mr.host (reth.va.toNat + i)) = m.payloads.flatten[i]) ∧
      (∀ a, (∀ i < m.total, a ≠ mr.host (reth.va.toNat + i)) → t.ctx.mem a = s.ctx.mem a) ∧
      ∃ p wr rest, s.qp.rq = p :: rest ∧ s.ctx.recvWrs p = some wr ∧ t.qp.rq = rest ∧
        recvSince s t =
          [.popRecv p, .cqComp (m.wc s.qp wr.wrId (UInt32.ofNat m.total)) s.qp.rcq, .freeRecv p] := by
  have hready : WriteReady s true reth 0 := Or.inl ⟨rfl, hidle.writtenlen, rfl⟩
  obtain ⟨hlen, hrange⟩ := h.inRange
  have hin : InPages s.ctx (reth.sge (UInt32.ofNat m.total)) := ⟨mr, h.live, h.paged, hrange⟩
  have hfit : 0 + m.payloads.flatten.length = (UInt32.ofNat m.total).toNat := by
    rw [Nat.zero_add]
    exact hlen.symm
  obtain ⟨hmem, p, wr, rest, hqueue, hlive, htail, hserves⟩ :=
    h.stream.written h.header h.immdt hacc hready hrc hin hfit
  have hbytes : m.payloads.flatten.length = (reth.sge (UInt32.ofNat m.total)).length.toNat := hlen.symm
  obtain ⟨hstored, hothers⟩ := h.paged.replaces h.apart hrange h.live hbytes
  rw [List.drop_zero] at hmem
  rw [← hmem] at hstored hothers
  exact ⟨hstored, hothers, p, wr, rest, hqueue, hlive, htail, hserves.recvSince⟩

/-- An RDMA WRITE of four bytes in two packets; its RETH announces nine. -/
def immWrite : Message := ⟨some ⟨0x10005, 0, 9⟩, some 7, [[1, 2, 3], [4]]⟩

def immWritePkts : List Inbound :=
  [smallPkt ibOpcodeRdmaWriteFirst 0 [ibRethCodec.enc ⟨0x10005, 0, 9⟩, [1, 2, 3]],
    smallPkt ibOpcodeRdmaWriteLastWithImmediate 1 [ibImmdtCodec.enc 7, [4]]]

/-- It begins inside of a page, stores what its packets carry, and takes the only
receive WR. -/
theorem writeMessage_placed_two : ∃ t, ∃ mr : RoceMr, Accepts (smallRecv 2 1) immWritePkts t ∧
    t.ctx.mem (mr.host 0x10005) = 1 ∧ t.ctx.mem (mr.host 0x10008) = 4 ∧ t.qp.rq = [] := by
  have hpkts : immWrite.Packets true (smallRecv 2 1).qp.attr.rqPsn immWrite.payloads immWritePkts :=
    .more (List.cons_ne_nil _ _) ⟨rfl, rfl, rfl, by decide, rfl⟩
      (.last (Or.inl (List.cons_ne_nil _ _)) ⟨rfl, rfl, rfl, by decide, rfl⟩)
  have hst : immWrite.Stream true (smallRecv 2 1).qp.attr.rqPsn immWrite.payloads immWritePkts :=
    .more (List.cons_ne_nil _ _) ⟨rfl, rfl, rfl⟩ (.last (Or.inl (List.cons_ne_nil _ _)) ⟨rfl, rfl, rfl⟩)
  have hlive : roceGetMrNoref (smallRecv 2 1).ctx (roceKeyToIndex 0) = some (pageMr 1) := rfl
  have hland : ∀ d ∈ writePieces ⟨0x10005, 0, 9⟩ 0 immWrite.outline.sizes,
      Placeable (smallRecv 2 1).ctx (smallRecv 2 1).qp false roceAccessRemoteWrite d := by
    intro d hd
    rcases List.mem_cons.mp hd with rfl | hd
    · exact pageMr_placeable hlive rfl rfl (by decide) (by decide) (by decide) (by decide)
    · rw [List.mem_singleton.mp hd]
      exact pageMr_placeable hlive rfl rfl (by decide) (by decide) (by decide) (by decide)
  obtain ⟨t, hacc, -⟩ := hpkts.write rfl (Or.inl ⟨rfl, rfl, rfl⟩) rfl (by decide) hland
    (fun _ => ⟨_, _, _, rfl, rfl⟩) smallRecv_listening.pds smallRecv_listening.canAck
  obtain ⟨mr, hlive, htype, hiova, hlength, hiovs, hsize⟩ : ∃ mr,
      roceGetMrNoref (smallRecv 2 1).ctx (roceKeyToIndex 0) = some mr ∧ mr.type = .mem ∧ mr.iova = 0x10000 ∧
        mr.length = 4096 ∧ mr.iovs = [⟨0x10000, 4096⟩] ∧ mr.pageSize = 4096 :=
    ⟨_, rfl, rfl, rfl, rfl, rfl, rfl⟩
  have hpaged : mr.Paged := by
    refine ⟨htype, ?_, ?_⟩
    · rw [hiovs, hsize]
      decide
    · rw [hiovs, hsize, hiova, hlength]
      decide
  have hapart : Apart mr.iovs := by
    rw [hiovs]
    exact List.pairwise_singleton _ _
  have hto : WritesTo (smallRecv 2 1) immWrite ⟨0x10005, 0, 9⟩ mr immWritePkts := by
    refine ⟨rfl, rfl, hst, hlive, hpaged, hapart, ?_, ?_⟩
    · rw [hiova]
      decide
    · rw [hiova, hlength]
      decide
  obtain ⟨hbytes, -, p, wr, rest, hqueue, -, htail, -⟩ := writeMessage_placed hto rfl ⟨rfl, rfl⟩ hacc
  obtain ⟨-, rfl⟩ := List.cons.inj (show [0x1000] = p :: rest from hqueue)
  exact ⟨t, mr, hacc, hbytes 0 (by decide), hbytes 3 (by decide), htail⟩

end Libroce
