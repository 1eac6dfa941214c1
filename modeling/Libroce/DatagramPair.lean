import Libroce.Frames
import Libroce.Grh
import Libroce.ReceivedSend
import Libroce.WireRun

/-!
# Datagrams over a lossy network

A UD or GSI QP posts SENDs, and another one receives what the network of
`LossyPair` hands over: lost, doubled, and in any order.

    DatagramPkt pkt d    the packet of a datagram that sends `d`
    IsDatagram m pkt d   what the receiver reads for `d`: the GRH of `pkt`, and its bytes
    Pair.Genuine         every packet and every message belongs to a posted WR

Main statement: `pairRun_genuine`.
-/

namespace Libroce

open Machine (bind_eq_ok run Along)
open Outcome

/-- The packet of a datagram that sends `d`. -/
structure DatagramPkt (pkt : RoceNetpkt) (d : SendData) : Prop where
  readable : Readable pkt
  opcode : ibBthGetOpcode pkt.bth = if d.imm.isSome then ibOpcodeSendOnlyWithImmediate else ibOpcodeSendOnly
  ext : ∃ deth : IbDeth, pkt.ext = ibDethCodec.enc deth ++ d.imm.elim [] ibImmdtCodec.enc
  bytes : pkt.payload.flatten = d.bytes

/-- What the user of the receiver reads for `d`, when `pkt` brought it: in front of
its bytes there is the GRH of the IP header that the ICRC check masked. -/
structure IsDatagram (m : SendData) (pkt : RoceNetpkt) (d : SendData) : Prop where
  imm : m.imm = d.imm
  bytes : m.bytes = roceBuildGrh (maskIp pkt.ip) ++ d.bytes

/-! ## The sender -/

section sender

variable {ctx : RoceCtx} {qp : RoceQp} {s t : St} {wr wr' : SendWr} {payload : UInt32}

/-- The payload of a single packet is what the WR sends. -/
theorem onlyPayload_data {pages : UInt32} {bytes : List (List UInt8)} (hlen : requestLen wr = .ok payload)
    (hin : roceSendWrIsInline wr = false → ∀ g ∈ wr.sge, ∃ mr, SgeIn ctx qp g mr)
    (h : onlyPayload ctx qp wr payload pages = .ok (some bytes)) : bytes.flatten = (wr.data ctx).bytes := by
  unfold onlyPayload at h
  unfold SendWr.data
  cases hinline : roceSendWrIsInline wr with
  | true =>
    rw [if_pos hinline] at h
    obtain rfl := Option.some.inj (Except.ok.inj h)
    rw [List.flatten_singleton, requestLen_ok hlen]
    rfl
  | false =>
    have hnot : ¬roceSendWrIsInline wr = true := by
      rw [hinline]
      exact Bool.false_ne_true
    rw [if_neg hnot] at h
    unfold pktMapSge at h
    obtain ⟨r, hmap, h⟩ := bind_eq_ok.mp h
    obtain ⟨hok, ds, hds⟩ := mrMapLoop_sgeIn (hin hinline) (Or.inl rfl) hmap
    have hpages : ∀ g ∈ wr.sge, InPages ctx g := by
      intro g hg
      obtain ⟨mr, hmr⟩ := hin hinline g hg
      exact hmr.inPages
    have hbytes : bytes = r.iovs.map (iovBytes ctx.mem) := by
      dsimp only at h
      split at h
      · cases h
      · split at h
        · exact (Option.some.inj (Except.ok.inj h)).symm
        · cases h
    rw [hbytes, hds, iovBytes_flatten, mrMapLoop_host hmap hok hds hpages]
    rfl

/-- The packet is that of a datagram. -/
theorem udPkt_datagram {ahs : List (Option RoceAh)} {calloc : Bool} {ahAttr : RoceAhAttr} {pkt : RoceNetpkt}
    {unmaps : List Event} {mtu : UInt16} (hports : PortsFit s.ctx.ports)
    (hop : wr.opcode = .send ∨ wr.opcode = .sendWithImm) (hlen : requestLen wr = .ok payload)
    (hle : payload ≤ mtu.toUInt32) (hmtu : mtu.toNat ≤ 4096)
    (hin : roceSendWrIsInline wr = false → ∀ g ∈ wr.sge, ∃ mr, SgeIn s.ctx s.qp g mr)
    (h : udPkt { s.ctx with ahs := ahs } s.qp wr calloc wr.immdt.isSome payload ahAttr =
      .ok (some (pkt, unmaps))) : DatagramPkt pkt (wr.data s.ctx) := by
  have hread := (udPkt_described hlen hle hmtu h).readable hports
  obtain ⟨pages, bytes, hbytes, -, -, hp⟩ := udPkt_ok h
  obtain ⟨se, hbth⟩ := hp.bth_eq
  have hkept : MrsKept s.ctx { s.ctx with ahs := ahs } := mrsKept_of_eq rfl
  have hdata := onlyPayload_data hlen (fun hno => (sgesIn_kept (hin hno) hkept).1) hbytes
  have hdata : bytes.flatten = (wr.data s.ctx).bytes := hdata
  have himm : (wr.data s.ctx).imm = wr.immdt := rfl
  have hcode : (if wr.immdt.isSome then ibOpcodeSendOnlyWithImmediate else ibOpcodeSendOnly) < 32 := by
    split <;> decide
  refine ⟨hread, ?_, ⟨⟨wr.ud.remoteQkey, s.qp.handle &&& ibDethSrcqpMask⟩, ?_⟩, ?_⟩
  · rw [hbth, ibBthGetOpcode_setBth _ _ _ _ _ _ _ _ hcode, himm]
  · rw [hp.ext_eq, himm]
    unfold SendWr.immdt
    rcases hop with hop | hop
    · rw [hop]
      exact (List.append_nil _).symm
    · rw [hop]
      rfl
  · rw [hp.payload_eq, hdata]

/-- A packet of the WR, behind the virtual network header of the port. -/
structure SendsDatagram (s : St) (wr : SendWr) (pkt : RoceNetpkt) : Prop where
  data : DatagramPkt pkt (wr.data s.ctx)
  vneth : ∃ port, portAt s.ctx s.qp.attr.portNum = .ok port ∧ pkt.vneth.length = port.vnetHdr.toNat

theorem roceUdSendPkt_datagram {calloc : Bool} {mtu : UInt16} (hports : PortsFit s.ctx.ports)
    (hop : wr.opcode = .send ∨ wr.opcode = .sendWithImm) (hlen : requestLen wr = .ok payload)
    (hle : payload ≤ mtu.toUInt32) (hmtu : mtu.toNat ≤ 4096)
    (hin : roceSendWrIsInline wr = false → ∀ g ∈ wr.sge, ∃ mr, SgeIn s.ctx s.qp g mr)
    (h : roceUdSendPkt s wr calloc wr.immdt.isSome payload = .ok (t, wr')) :
    ∃ es, t.ctx.trace = s.ctx.trace ++ es ∧ ∀ pkt ∈ sentPkts es, SendsDatagram s wr pkt := by
  unfold roceUdSendPkt at h
  cases hget : roceGetAh s.ctx wr.ud.ah with
  | none =>
    simp only [hget] at h
    obtain ⟨rfl, -⟩ := Prod.mk.inj (Except.ok.inj h)
    exact ⟨[], (List.append_nil _).symm, fun pkt hp => by cases hp⟩
  | some r =>
    obtain ⟨ah, ctx⟩ := r
    simp only [hget] at h
    obtain ⟨ahs, rfl⟩ := roceGetAh_withAhs hget
    obtain ⟨o, hpkt, h⟩ := bind_eq_ok.mp h
    have hput : ∀ c : RoceCtx, (rocePutAh c wr.ud.ah).trace = c.trace := by
      intro c
      obtain ⟨ahs', hput⟩ := rocePutAh_withAhs c wr.ud.ah
      rw [hput]
      rfl
    cases o with
    | none =>
      obtain ⟨rfl, -⟩ := Prod.mk.inj (Except.ok.inj h)
      exact ⟨[], (hput _).trans (List.append_nil _).symm, fun pkt hp => by cases hp⟩
    | some r =>
      obtain ⟨pkt, unmaps⟩ := r
      obtain ⟨rfl, -⟩ := Prod.mk.inj (Except.ok.inj h)
      refine ⟨.netXmit pkt :: unmaps, hput _, ?_⟩
      intro q hq
      rcases List.mem_cons.mp (mem_sentPkts.mp hq) with hq | hq
      · obtain rfl := Event.netXmit.inj hq
        exact ⟨udPkt_datagram hports hop hlen hle hmtu hin hpkt, (udPkt_described hlen hle hmtu hpkt).vneth⟩
      · exact absurd hq (udPkt_unmaps hpkt q)

theorem udRequest_datagram {calloc : Bool} {len : UInt32} (hports : PortsFit s.ctx.ports)
    (hud : s.qp.qpType = .ud ∨ s.qp.qpType = .gsi)
    (hin : roceSendWrIsInline wr = false → ∀ g ∈ wr.sge, ∃ mr, SgeIn s.ctx s.qp g mr)
    (h : udRequest s wr calloc = .ok (t, wr', len)) :
    ∃ es, t.ctx.trace = s.ctx.trace ++ es ∧ ∀ pkt ∈ sentPkts es, SendsDatagram s wr pkt := by
  have hnone : t = s → ∃ es, t.ctx.trace = s.ctx.trace ++ es ∧
    ∀ pkt ∈ sentPkts es, SendsDatagram s wr pkt := by
    rintro rfl
    exact ⟨[], (List.append_nil _).symm, fun pkt hp => by cases hp⟩
  unfold udRequest at h
  split at h
  swap
  · obtain ⟨rfl, -⟩ := Prod.mk.inj (Except.ok.inj h)
    exact hnone rfl
  unfold udSwitch at h
  obtain ⟨mtu, hmtu, h⟩ := bind_eq_ok.mp h
  obtain ⟨payload, hlen, h⟩ := bind_eq_ok.mp h
  split at h
  · obtain ⟨rfl, -⟩ := Prod.mk.inj (Except.ok.inj h)
    exact hnone rfl
  next hlong =>
  have hrc : ¬(s.qp.qpType = .rc) := by
    rcases hud with hud | hud <;> rw [hud] <;> decide
  have huc : s.qp.qpType ≠ .uc := by
    rcases hud with hud | hud <;> rw [hud] <;> decide
  have hfit := mtusFit hports (fun hyes => absurd hyes hrc) huc mtu hmtu
  split at h
  · next hop =>
    obtain ⟨⟨s2, wr2⟩, hsend, h⟩ := bind_eq_ok.mp h
    obtain ⟨rfl, -⟩ := Prod.mk.inj (Except.ok.inj h)
    have himm : wr.immdt.isSome = true := by
      unfold SendWr.immdt
      rw [hop]
      rfl
    rw [← himm] at hsend
    exact roceUdSendPkt_datagram hports (Or.inr hop) hlen (UInt32.not_lt.mp hlong) hfit hin hsend
  · next hop =>
    obtain ⟨⟨s2, wr2⟩, hsend, h⟩ := bind_eq_ok.mp h
    obtain ⟨rfl, -⟩ := Prod.mk.inj (Except.ok.inj h)
    have himm : wr.immdt.isSome = false := by
      unfold SendWr.immdt
      rw [hop]
      rfl
    rw [← himm] at hsend
    exact roceUdSendPkt_datagram hports (Or.inl hop) hlen (UInt32.not_lt.mp hlong) hfit hin hsend
  · obtain ⟨rfl, -⟩ := Prod.mk.inj (Except.ok.inj h)
    exact hnone rfl

/-- **A post** of a datagram sends what the WR sends, and queues nothing. -/
theorem rocePostSend_sendsDatagram {calloc : Nat → Bool} (hports : PortsFit s.ctx.ports)
    (hud : s.qp.qpType = .ud ∨ s.qp.qpType = .gsi)
    (hin : roceSendWrIsInline wr = false → ∀ g ∈ wr.sge, ∃ mr, SgeIn s.ctx s.qp g mr)
    (h : rocePostSend s wr.fresh calloc = .ok t) :
    t.qp.req.queued = s.qp.req.queued ∧ ∀ pkt ∈ sentSince s t, SendsDatagram s wr pkt := by
  obtain ⟨s1, wr1, hget, hsend⟩ := rocePostSend_udRequest hud h
  obtain ⟨hqp, hrefs, m, hwr⟩ := postGetMrs_outcome hget
  have hkept := postGetMrs_kept hget
  obtain ⟨ctx1, qp1⟩ := s1
  obtain rfl : qp1 = s.qp := hqp
  have hports1 : PortsFit ctx1.ports := by
    rw [hrefs.acts.ports]
    exact hports
  refine ⟨by rw [(roceRequestUd_sends hsend).req]; rfl, ?_⟩
  obtain ⟨s2, wr2, byteLen, hreq, -, htrace⟩ := roceRequestUd_trace hsend
  have hquiet : ctx1.trace = s.ctx.trace := hrefs.trace
  have hsent : ∀ es, s2.ctx.trace = ctx1.trace ++ es → sentSince s t = sentPkts es := by
    intro es hes
    unfold sentSince
    rw [htrace, hes, hquiet, List.append_assoc, List.drop_left, sentPkts_append, sentPkts_udReport,
      List.append_nil]
  rcases hwr with ⟨-, hwr⟩ | ⟨-, hwr⟩
  · have hdata : wr1.data ctx1 = wr.data s.ctx := by
      refine sendData_kept ?_ hrefs hkept hin
      rw [hwr]
    have hin1 : roceSendWrIsInline wr1 = false → ∀ g ∈ wr1.sge, ∃ mr, SgeIn ctx1 s.qp g mr := by
      rw [hwr]
      exact fun hno => (sgesIn_kept (hin hno) hkept).1
    obtain ⟨es, hes, hall⟩ := udRequest_datagram (s := ⟨ctx1, s.qp⟩) hports1 hud hin1 hreq
    rw [hsent es hes]
    intro pkt hp
    obtain ⟨hpkt, port, hport, hvneth⟩ := hall pkt hp
    have hpkt : DatagramPkt pkt (wr1.data ctx1) := hpkt
    rw [hdata] at hpkt
    refine ⟨hpkt, port, ?_, hvneth⟩
    rw [← hport]
    unfold portAt
    rw [hrefs]
  · -- a key names no MR
    have hfail : wr1.error ≠ 0 := by
      rw [hwr]
      show UInt8.ofInt eACCES ≠ 0
      decide
    unfold udRequest at hreq
    rw [if_neg hfail] at hreq
    obtain ⟨rfl, -⟩ := Prod.mk.inj (Except.ok.inj hreq)
    rw [hsent [] (List.append_nil _).symm]
    intro pkt hp
    cases hp

end sender

/-! ## The receive WRs -/

/-- A receive WR for datagrams: its SGEs lie in MRs of pages, and denote no byte twice. -/
structure DatagramRoom (s : St) (sge : List RoceSge) : Prop where
  pages : ∀ g ∈ sge, ∃ mr, roceGetMrNoref s.ctx (roceKeyToIndex g.lkey) = some mr ∧
    mr.state = .valid ∧ mr.Paged ∧ InRange g mr
  disjoint : (sge.flatMap (sgeHost s.ctx)).Nodup

/-- The queued receive WRs are as they were posted. -/
structure DatagramQueue (s : St) : Prop where
  nodup : s.qp.rq.Nodup
  fresh : ∀ p ∈ s.qp.rq, ∃ wrId sge, s.ctx.recvWrs p = some (.fresh wrId sge) ∧ DatagramRoom s sge

section queue

variable {s t : St} {sge : List RoceSge}

theorem DatagramRoom.inPages (h : DatagramRoom s sge) : ∀ g ∈ sge, InPages s.ctx g := by
  intro g hg
  obtain ⟨mr, hmr, -, hpaged, hrange⟩ := h.pages g hg
  exact ⟨mr, hmr, hpaged, hrange⟩

theorem DatagramRoom.kept (h : DatagramRoom s sge) (hkept : MrsKept s.ctx t.ctx) : DatagramRoom t sge := by
  have hhosts : ∀ g ∈ sge, sgeHost t.ctx g = sgeHost s.ctx g := by
    intro g hg
    obtain ⟨mr, hmr, hvalid, -⟩ := h.pages g hg
    obtain ⟨ref, hmr'⟩ := hkept _ mr hmr hvalid
    unfold sgeHost
    rw [hmr, hmr']
    rfl
  constructor
  · intro g hg
    obtain ⟨mr, hmr, hvalid, hpaged, hrange⟩ := h.pages g hg
    obtain ⟨ref, hmr'⟩ := hkept _ mr hmr hvalid
    exact ⟨_, hmr', hvalid, ⟨hpaged.type, hpaged.pages, hpaged.covers⟩, hrange⟩
  · rw [List.flatMap_congr hhosts]
    exact h.disjoint

theorem DatagramQueue.kept (h : DatagramQueue s) (hkept : MrsKept s.ctx t.ctx)
    (hsub : t.qp.rq.Sublist s.qp.rq)
    (hsame : ∀ p ∈ t.qp.rq, t.ctx.recvWrs p = s.ctx.recvWrs p) : DatagramQueue t := by
  refine ⟨h.nodup.sublist hsub, ?_⟩
  intro p hp
  obtain ⟨wrId, sge, hwr, hroom⟩ := h.fresh p (hsub.subset hp)
  exact ⟨wrId, sge, (hsame p hp).trans hwr, hroom.kept hkept⟩

theorem DatagramQueue.attrs (h : DatagramQueue s) (hattrs : Attrs s t) : DatagramQueue t := by
  unfold Attrs at hattrs
  rw [hattrs]
  exact h.kept (.refl s.ctx) (List.Sublist.refl _) fun _ _ => rfl

/-- A payload takes the first receive WR at most. -/
theorem DatagramQueue.payload {iovs : List (List UInt8)} {immdt : Option UInt32} {opcode : UInt8} {ret : Int}
    (hq : DatagramQueue s) (h : roceRecvPayload s iovs immdt false opcode = .ok (ret, t)) :
    DatagramQueue t := by
  cases roceRecvPayload_ok h with
  | outOfOrder _ => exact hq
  | noWr _ _ _ => exact hq.kept (mrsKept_of_eq rfl) (List.Sublist.refl _) fun _ _ => rfl
  | next hin _ _ _ => cases hin
  | @first p rest wr _ _ _ hword hrq hwr hstep =>
    have hone := hstep.onlyWr
    have htake : Env s ((({ s with qp.rq := rest } : St).emit [.popRecv p]).setWord (.wr p)) :=
      ⟨rfl, rfl, mrsKept_of_eq rfl, id⟩
    have hnodup := hq.nodup
    rw [hrq] at hnodup
    refine hq.kept (htake.trans hone.env).mrs ?_ ?_
    · rw [hone.rq, hrq]
      exact List.sublist_cons_self p rest
    · intro q hmem
      rw [hone.rq] at hmem
      refine hone.others q ?_
      rintro rfl
      exact (List.nodup_cons.mp hnodup).1 hmem

/-- **A delivery** of anything. -/
theorem DatagramQueue.netRecv {frame : List (List UInt8)} {calloc : Bool} {ret : Int} (hq : DatagramQueue s)
    (htype : s.qp.qpType = .ud ∨ s.qp.qpType = .gsi) (h : roceNetRecv s frame calloc = .ok (ret, t)) :
    DatagramQueue t := by
  rcases roceNetRecv_open htype h with ⟨-, -, rfl⟩ | ⟨inb, ip, r, -, hud, -⟩
  · exact hq
  cases hpay : udPayload inb ip with
  | none =>
    obtain ⟨t', hrefused, hattrs⟩ := roceRecvUd_refused s hpay
    obtain ⟨-, rfl⟩ := Prod.mk.inj (Except.ok.inj (hrefused.symm.trans hud))
    exact hq.attrs hattrs
  | some g =>
    obtain ⟨herr, hok⟩ := roceRecvUd_payload s hpay
    cases hrecv : roceRecvPayload s g.iovs g.immdt false g.opcode with
    | error e =>
      rw [herr e hrecv] at hud
      cases hud
    | ok res =>
      obtain ⟨ret0, t0⟩ := res
      obtain ⟨t', hud', hattrs⟩ := hok ret0 t0 hrecv
      obtain ⟨-, rfl⟩ := Prod.mk.inj (Except.ok.inj (hud'.symm.trans hud))
      exact (hq.payload hrecv).attrs hattrs

/-- **A post** of a new object. -/
theorem DatagramQueue.postRecv {p wrId : UInt64} {ret : Int} (hq : DatagramQueue s)
    (hnew : s.ctx.recvWrs p = none) (hroom : DatagramRoom s sge)
    (h : rocePostRecv s p (.fresh wrId sge) = .ok (ret, t)) : DatagramQueue t := by
  have hpost := rocePostRecv_posts h
  have hold : ∀ q ∈ s.qp.rq, q ≠ p ∧ t.ctx.recvWrs q = s.ctx.recvWrs q := by
    intro q hmem
    obtain ⟨_, _, hwr, -⟩ := hq.fresh q hmem
    obtain ⟨hapart, hsame⟩ := hpost.held hnew hwr
    exact ⟨hapart, hsame.trans hwr.symm⟩
  rcases hpost.rq with hsame | ⟨hpush, hwr⟩
  · refine hq.kept hpost.env.mrs (by rw [hsame]) ?_
    intro q hmem
    rw [hsame] at hmem
    exact (hold q hmem).2
  · refine ⟨?_, ?_⟩
    · rw [hpush, List.nodup_append]
      refine ⟨hq.nodup, List.nodup_singleton p, ?_⟩
      intro q hmem r hr
      obtain rfl := List.mem_singleton.mp hr
      exact (hold q hmem).1
    · intro q hmem
      rw [hpush] at hmem
      rcases List.mem_append.mp hmem with hmem | hmem
      · obtain ⟨id, sges, hlive, hroom'⟩ := hq.fresh q hmem
        exact ⟨id, sges, (hold q hmem).2.trans hlive, hroom'.kept hpost.env.mrs⟩
      · obtain rfl := List.mem_singleton.mp hmem
        exact ⟨wrId, sge, hwr, hroom.kept hpost.env.mrs⟩

end queue

/-! ## The receiver -/

/-- What `roce_net_decap` accepts is for the MAC of the port. -/
theorem Readable.readAs {pkt : RoceNetpkt} (h : Readable pkt) {ctx : RoceCtx} {port : RocePort}
    {frame : List (List UInt8)} {d : Decap} (hport : portAt ctx 1 = .ok port)
    (hvnet : port.vnetHdr.toNat = pkt.vneth.length) (hframe : frame.flatten = pkt.iovs.flatten)
    (hd : roceNetDecap ctx frame = .ok (some d)) : ReadAs pkt d := by
  obtain ⟨port', f, hport', hvalid, hbytes, -⟩ := roceNetDecap_bytes hd
  obtain rfl := Except.ok.inj (hport'.symm.trans hport)
  have hmac : port'.mac = pkt.ethh.dmac := by
    rw [hframe, pkt.flatten_iovs] at hbytes
    unfold WireFrame.bytes at hbytes
    obtain ⟨-, hrest⟩ := List.append_inj hbytes (hvnet.symm.trans hvalid.vneth.symm)
    have hethh := congrArg (fun bytes => ethernetCodec.dec (bytes.take ethernetCodec.width)) hrest
    simp only [ethernetCodec.take_enc, ethernetCodec.dec_enc_self] at hethh
    have hmatch := hvalid.mac
    unfold roceMacMatched at hmatch
    rw [hethh]
    exact beq_iff_eq.mp hmatch
  obtain ⟨d', hd', hread⟩ := h.read ctx port' frame hport hvnet hmac hframe
  obtain rfl := Option.some.inj (Except.ok.inj (hd'.symm.trans hd))
  exact hread

section receiver

variable {pkt : RoceNetpkt} {d : SendData} {s t : St} {frame : List (List UInt8)} {inb : Inbound}
  {ip : NetHdr}
  {g : Datagram}

/-- What reaches `roce_recv_ud`. -/
theorem DatagramPkt.opened (h : DatagramPkt pkt d) {port : RocePort} (hport : portAt s.ctx 1 = .ok port)
    (hvnet : port.vnetHdr.toNat = pkt.vneth.length) (hframe : frame.flatten = pkt.iovs.flatten)
    (hopen : netOpen s frame = some (inb, ip)) :
    ibBthGetOpcode inb.bth = ibBthGetOpcode pkt.bth ∧ inb.iovs.flatten = pkt.ext ++ pkt.payload.flatten ∧
      ip = maskIp pkt.ip := by
  unfold netOpen at hopen
  split at hopen
  swap
  · cases hopen
  next dec hdec =>
  have hread := h.readable.readAs hport hvnet hframe hdec
  obtain ⟨inb', hbth, hpair⟩ := Option.map_eq_some_iff.mp hopen
  obtain ⟨rfl, rfl⟩ := Prod.mk.inj hpair
  unfold bthOpen at hbth
  split at hbth
  · cases hbth
  obtain ⟨iovs, hpad, rfl⟩ := Option.map_eq_some_iff.mp hbth
  obtain ⟨rest, hpad', hflat⟩ := hread.unpadded
  obtain rfl := Option.some.inj (hpad'.symm.trans hpad)
  exact ⟨hread.opcode, hflat, hread.ip⟩

/-- What is placed: the GRH, and the bytes of the sender. -/
theorem DatagramPkt.udPayload (h : DatagramPkt pkt d) (hop : ibBthGetOpcode inb.bth = ibBthGetOpcode pkt.bth)
    (hflat : inb.iovs.flatten = pkt.ext ++ pkt.payload.flatten)
    (hud : udPayload inb (maskIp pkt.ip) = some g) : IsDatagram ⟨g.immdt, g.iovs.flatten⟩ pkt d := by
  obtain ⟨deth, hext⟩ := h.ext
  have hbytes := udPayload_flatten hud
  rw [hop, h.opcode, hflat, hext, h.bytes] at hbytes
  have hdeth : (ibDethCodec.enc deth).length = 8 := ibDethCodec.length_enc _
  refine ⟨?_, ?_⟩
  · show g.immdt = d.imm
    rw [hext, List.append_assoc] at hflat
    unfold Libroce.udPayload at hud
    cases heth : roceGetEth ibDethCodec inb.iovs with
    | none =>
      rw [heth] at hud
      cases hud
    | some r =>
      obtain ⟨deth', rest⟩ := r
      simp only [heth] at hud
      obtain ⟨-, hrest⟩ := roceGetEth_some heth hflat
      rw [hop, h.opcode] at hud
      cases himm : d.imm with
      | none =>
        rw [himm] at hud
        have hne : ibOpcodeSendOnly ≠ ibOpcodeSendOnlyWithImmediate := by decide
        simp only [Option.isSome_none, Bool.false_eq_true, if_false, if_neg hne] at hud
        obtain rfl := Option.some.inj hud
        rfl
      | some imm =>
        rw [himm] at hud hrest
        simp only [Option.isSome_some, if_true] at hud
        cases hi : roceGetEth ibImmdtCodec rest with
        | none =>
          rw [hi] at hud
          cases hud
        | some r =>
          obtain ⟨imm', rest'⟩ := r
          simp only [hi] at hud
          obtain rfl := Option.some.inj hud
          obtain ⟨rfl, -⟩ := roceGetEth_some hi hrest
          rfl
  · show g.iovs.flatten = _
    rw [hbytes]
    congr 1
    cases d.imm with
    | none =>
      show ((ibDethCodec.enc deth ++ []) ++ d.bytes).drop 8 = d.bytes
      rw [List.append_nil, List.drop_left' hdeth]
    | some imm =>
      have himm : (ibImmdtCodec.enc imm).length = 4 := ibImmdtCodec.length_enc _
      show ((ibDethCodec.enc deth ++ ibImmdtCodec.enc imm) ++ d.bytes).drop (8 + 4) = d.bytes
      rw [List.drop_left']
      rw [List.length_append, hdeth, himm]

/-- The immediate of the report. -/
theorem Datagram.wc_imm (g : Datagram) (qp : RoceQp) (wr : RecvWr) :
    (if (g.wc qp wr).wcFlags &&& roceWcWithImm != 0 then some (g.wc qp wr).immData else none) = g.immdt := by
  have hplain : ((0 ||| roceWcGrh) &&& roceWcWithImm != 0) = false := by decide
  have hwith : ((roceWcWithImm ||| roceWcGrh) &&& roceWcWithImm != 0) = true := by decide
  unfold Datagram.wc
  cases g.immdt with
  | none => simp only [Option.isSome_none, Bool.false_eq_true, if_false, hplain]
  | some imm => simp only [Option.isSome_some, if_true, hwith, Option.getD_some]

/-- The user reads what the receive WR took. -/
theorem Took.completed {p : UInt64} {rest : List UInt64} {wr : RecvWr} {dsts : List Iovec} {dmamap : Bool}
    (h : Took s g p rest wr dsts dmamap t) (hq : DatagramQueue s)
    (hshort : g.iovs.flatten.length < 2 ^ 32) : completedSince s t = [⟨g.immdt, g.iovs.flatten⟩] := by
  obtain ⟨wrId, sge, hwr, hroom⟩ := hq.fresh p (by rw [h.queue]; exact List.mem_cons_self)
  obtain rfl := Option.some.inj (hwr.symm.trans h.live)
  obtain ⟨len, hlen, hle⟩ := h.fits
  obtain ⟨sges, idx, off, hcut, hmap⟩ := h.map
  have hbytes : (roceIovLen g.iovs).toNat = g.iovs.flatten.length := by
    rw [roceIovLen_toNat, Nat.mod_eq_of_lt hshort]
  have htotal : len.toNat = sgeTotal sge := by
    obtain ⟨-, hrest⟩ := roceSgeLen_ok hlen
    rw [hrest]
    exact sgeRest_zero sge
  have hfit : 0 + g.iovs.flatten.length ≤ sgeTotal sge := by
    have := UInt32.le_iff_toNat_le.mp hle
    omega
  have hholding : Holding s.ctx wrId sge 0 (.fresh wrId sge) := ⟨rfl, rfl, rfl, rfl⟩
  obtain ⟨hstore, -⟩ := hholding.placed hroom.inPages hlen hcut hmap hfit s.ctx.mem
  have hread : ((sge.flatMap (sgeHost s.ctx)).take g.iovs.flatten.length).map t.ctx.mem = g.iovs.flatten := by
    rw [h.mem, hstore, List.drop_zero]
    apply Scatter.map_store hroom.disjoint
    rw [length_sgesHost hroom.inPages]
    omega
  rw [completedSince_eq, h.reports]
  show [readRecv s t (g.wc s.qp (.fresh wrId sge)) p] = _
  have hwc : (g.wc s.qp (.fresh wrId sge)).byteLen.toNat = g.iovs.flatten.length := by
    show (0 + roceIovLen g.iovs).toNat = _
    rw [UInt32.zero_add, hbytes]
  unfold readRecv
  rw [hwr, Option.elim_some, hwc, Datagram.wc_imm]
  show [SendData.mk g.immdt (((sge.flatMap (sgeHost s.ctx)).take g.iovs.flatten.length).map t.ctx.mem)] = _
  rw [hread]

/-- **A delivery** of the packet brings nothing, or what it carries. -/
theorem DatagramPkt.received {calloc : Bool} {ret : Int} {port : RocePort} (h : DatagramPkt pkt d)
    (htype : s.qp.qpType = .ud ∨ s.qp.qpType = .gsi) (hq : DatagramQueue s)
    (hport : portAt s.ctx 1 = .ok port) (hvnet : port.vnetHdr.toNat = pkt.vneth.length)
    (hframe : frame.flatten = pkt.iovs.flatten) (hrecv : roceNetRecv s frame calloc = .ok (ret, t)) :
    ∀ m ∈ completedSince s t, IsDatagram m pkt d := by
  obtain ⟨-, hout⟩ := roceNetRecv_left htype hrecv
  rcases hout with ⟨-, es, htrace, hquiet⟩ | ⟨-, inb, ip, g, p, rest, wr, dsts, dmamap, hopen, hud, htook⟩
  · rw [completedSince_congr es htrace ?_]
    · intro m hm
      cases hm
    · unfold reportedWcs
      rw [List.filterMap_eq_nil_iff]
      intro e he
      cases e with
      | cqComp wc cq => exact absurd he (hquiet wc cq)
      | _ => rfl
  · obtain ⟨hop, hflat, rfl⟩ := h.opened hport hvnet hframe hopen
    have hdatagram := h.udPayload hop hflat hud
    have hbytes := hdatagram.bytes
    have hshort : g.iovs.flatten.length < 2 ^ 32 := by
      have hpayload := h.readable.payload
      rw [h.bytes] at hpayload
      have hlen := congrArg List.length hbytes
      rw [List.length_append, length_roceBuildGrh] at hlen
      have hlen : g.iovs.flatten.length = 40 + d.bytes.length := hlen
      omega
    rw [htook.completed hq hshort]
    intro m hm
    obtain rfl := List.mem_singleton.mp hm
    exact hdatagram

end receiver

/-! ## Calls on either side -/

section calls

variable {s t : St} {frame : List (List UInt8)} {calloc : Bool} {ret : Int}

/-- `roce_net_recv` refuses the frame, or is `roce_recv_bth`. -/
theorem roceNetRecv_recvBth (h : roceNetRecv s frame calloc = .ok (ret, t)) :
    t = s ∨ ∃ d r, roceRecvBth s d calloc = .ok (r, t) := by
  unfold roceNetRecv at h
  obtain ⟨o, -, h⟩ := bind_eq_ok.mp h
  cases o with
  | none => exact Or.inl (Prod.mk.inj (Except.ok.inj h)).2.symm
  | some d =>
    obtain ⟨⟨r, u⟩, hbth, h⟩ := bind_eq_ok.mp h
    refine Or.inr ⟨d, r, ?_⟩
    rw [hbth]
    dsimp only at h
    split at h
    · obtain ⟨-, rfl⟩ := Prod.mk.inj (Except.ok.inj h)
      rfl
    · obtain ⟨-, rfl⟩ := Prod.mk.inj (Except.ok.inj h)
      rfl

theorem roceNetRecv_sameRoute (h : roceNetRecv s frame calloc = .ok (ret, t)) : SameRoute s t := by
  rcases roceNetRecv_recvBth h with rfl | ⟨d, r, hbth⟩
  · exact ⟨.refl _, rfl⟩
  · have hstep : qpStep s (.recv d calloc) = .ok t := by
      simp only [qpStep, hbth]
      rfl
    obtain ⟨htables, hroute⟩ := (qpStep_ends s _).result hstep
    exact ⟨htables, hroute⟩

theorem rocePostRecv_sameRoute {p wrId : UInt64} {sge : List RoceSge}
    (h : rocePostRecv s p (.fresh wrId sge) = .ok (ret, t)) : SameRoute s t := by
  have hstep : qpStep s (.postRecv p wrId sge) = .ok t := by
    simp only [qpStep, h]
    rfl
  obtain ⟨htables, hroute⟩ := (qpStep_ends s _).result hstep
  exact ⟨htables, hroute⟩

theorem rocePostSend_sameRoute {wr : SendWr} {calloc : Nat → Bool}
    (h : rocePostSend s wr.fresh calloc = .ok t) :
    SameRoute s t := by
  obtain ⟨htables, hroute⟩ := (qpStep_ends s (.postSend wr calloc)).result h
  exact ⟨htables, hroute⟩

/-- Work without packets. -/
theorem Works.silent (h : Works s t) (hidle : s.qp.req.queued = []) :
    t.qp.req.queued = [] ∧ sentSince s t = [] := by
  have hqp := h.qp
  unfold ResponderOnly at hqp
  obtain ⟨es, hes, hnone⟩ := h.acts.trace
  constructor
  · rw [hqp]
    exact hidle
  · unfold sentSince
    rw [hes, List.drop_left, hnone]

/-- A datagram QP answers nothing. -/
theorem roceNetRecv_silent (htype : s.qp.qpType = .ud ∨ s.qp.qpType = .gsi) (hidle : s.qp.req.queued = [])
    (h : roceNetRecv s frame calloc = .ok (ret, t)) : t.qp.req.queued = [] ∧ sentSince s t = [] := by
  rcases roceNetRecv_recvBth h with rfl | ⟨d, r, hbth⟩
  · refine ⟨hidle, ?_⟩
    unfold sentSince
    rw [List.drop_length]
    rfl
  have hissues := roceRecvBth_issues hbth
  have hnone : ∀ pkt, ¬(pkt ∈ s.qp.req.queued ∨ s.qp.qpType = .rc ∧ FramedBy s s.qp.attr.ahAttr pkt) := by
    rintro pkt (hp | ⟨hrc, -⟩)
    · rw [hidle] at hp
      cases hp
    · rw [hrc] at htype
      rcases htype with htype | htype <;> cases htype
  obtain ⟨es, hes, hsent⟩ := hissues.trace
  constructor
  · exact List.eq_nil_iff_forall_not_mem.mpr fun pkt hp => hnone pkt (hissues.queued pkt hp)
  · unfold sentSince
    rw [hes, List.drop_left]
    exact List.eq_nil_iff_forall_not_mem.mpr fun pkt hp => hnone pkt (hsent pkt hp)

end calls

/-! ## The pair -/

/-- Two datagram QPs on ports with virtual network headers of one length. -/
structure Pair.Datagrams (x : Pair) : Prop where
  sender : x.a.qp.qpType = .ud ∨ x.a.qp.qpType = .gsi
  receiver : x.b.qp.qpType = .ud ∨ x.b.qp.qpType = .gsi
  ports : PortsFit x.a.ctx.ports
  vneth : ∃ port port', portAt x.a.ctx x.a.qp.attr.portNum = .ok port ∧ portAt x.b.ctx 1 = .ok port' ∧
    port'.vnetHdr = port.vnetHdr
  idle : x.a.qp.req.queued = [] ∧ x.b.qp.req.queued = []

/-- A receive WR is a new object, and the SGEs of a WR lie in MRs. -/
def DatagramAllowed (x : Pair) : PairOp → Prop
  | .postSend wr _ => roceSendWrIsInline wr = false → ∀ g ∈ wr.sge, ∃ mr, SgeIn x.a.ctx x.a.qp g mr
  | .postRecv p _ sge => x.b.ctx.recvWrs p = none ∧ DatagramRoom x.b sge
  | .toB _ _ => True
  | .toA _ _ => True

/-- The packet of a posted WR, in a frame that the receiver reads. -/
structure Pair.Sent (x : Pair) (pkt : RoceNetpkt) : Prop where
  data : ∃ p ∈ x.posted, DatagramPkt pkt p.2
  vneth : ∃ port, portAt x.b.ctx 1 = .ok port ∧ port.vnetHdr.toNat = pkt.vneth.length

/-- What is under way, and what was received, was posted; of the receiver there is
only what there was. -/
structure Pair.Genuine (back : List RoceNetpkt) (x : Pair) : Prop where
  datagrams : x.Datagrams
  queue : DatagramQueue x.b
  sent : ∀ pkt ∈ x.fromA, x.Sent pkt
  received : ∀ m ∈ x.received, ∃ p ∈ x.posted, ∃ pkt ∈ x.fromA, DatagramPkt pkt p.2 ∧ IsDatagram m pkt p.2
  silent : x.fromB = back

section steps

variable {x y : Pair} {back : List RoceNetpkt}

theorem portAt_congr {ctx ctx' : RoceCtx} (h : SameTables ctx ctx') (portNum : UInt8) :
    portAt ctx' portNum = portAt ctx portNum := by
  unfold portAt
  rw [h.ports]

theorem Pair.Datagrams.kept (h : x.Datagrams) (ha : SameRoute x.a y.a) (hb : SameRoute x.b y.b)
    (hidle : y.a.qp.req.queued = [] ∧ y.b.qp.req.queued = []) : y.Datagrams := by
  have htypeA : y.a.qp.qpType = x.a.qp.qpType := congrArg (·.1) ha.qp
  have htypeB : y.b.qp.qpType = x.b.qp.qpType := congrArg (·.1) hb.qp
  have hnum : y.a.qp.attr.portNum = x.a.qp.attr.portNum := congrArg (·.2.1) ha.qp
  refine ⟨by rw [htypeA]; exact h.sender, by rw [htypeB]; exact h.receiver, ?_, ?_, hidle⟩
  · rw [ha.tables.ports]
    exact h.ports
  · rw [portAt_congr ha.tables, portAt_congr hb.tables, hnum]
    exact h.vneth

theorem Pair.Sent.kept {pkt : RoceNetpkt} (h : x.Sent pkt) (hb : SameRoute x.b y.b)
    (hposted : ∀ p ∈ x.posted, p ∈ y.posted) : y.Sent pkt := by
  obtain ⟨p, hp, hdata⟩ := h.data
  refine ⟨⟨p, hposted p hp, hdata⟩, ?_⟩
  rw [portAt_congr hb.tables]
  exact h.vneth

theorem Pair.Genuine.postSend {wr : SendWr} {calloc : Nat → Bool} {a : St} (h : x.Genuine back)
    (hin : roceSendWrIsInline wr = false → ∀ g ∈ wr.sge, ∃ mr, SgeIn x.a.ctx x.a.qp g mr)
    (hpost : rocePostSend x.a wr.fresh calloc = .ok a) : (x.posts wr a).Genuine back := by
  obtain ⟨hidle, hsends⟩ := rocePostSend_sendsDatagram h.datagrams.ports h.datagrams.sender hin hpost
  have hroute := rocePostSend_sameRoute hpost
  have hb : SameRoute x.b (x.posts wr a).b := ⟨.refl _, rfl⟩
  have hposted : ∀ p ∈ x.posted, p ∈ (x.posts wr a).posted := fun p hp => List.mem_append_left _ hp
  refine ⟨h.datagrams.kept hroute hb ⟨hidle.trans h.datagrams.idle.1, h.datagrams.idle.2⟩, h.queue, ?_, ?_,
    h.silent⟩
  · intro pkt hp
    rcases List.mem_append.mp hp with hp | hp
    · exact (h.sent pkt hp).kept hb hposted
    · obtain ⟨hdata, port, hport, hlen⟩ := hsends pkt hp
      obtain ⟨port1, port', hport1, hport', hvnet⟩ := h.datagrams.vneth
      obtain rfl := Except.ok.inj (hport1.symm.trans hport)
      refine ⟨⟨(wr, wr.data x.a.ctx), List.mem_append_right _ (List.mem_singleton.mpr rfl), hdata⟩,
        port', ?_, ?_⟩
      · exact hport'
      · rw [hlen, hvnet]
  · intro m hm
    obtain ⟨p, hp, pkt, hpkt, hdata⟩ := h.received m hm
    exact ⟨p, hposted p hp, pkt, List.mem_append_left _ hpkt, hdata⟩

/-- What the receiver does, when it receives what was posted and answers nothing. -/
theorem Pair.Genuine.movesB {b : St} (h : x.Genuine back) (hroute : SameRoute x.b b)
    (hqueue : DatagramQueue b)
    (hquiet : b.qp.req.queued = [] ∧ sentSince x.b b = [])
    (hnew : ∀ m ∈ completedSince x.b b, ∃ p ∈ x.posted, ∃ pkt ∈ x.fromA,
      DatagramPkt pkt p.2 ∧ IsDatagram m pkt p.2) : (x.movesB b).Genuine back := by
  refine ⟨h.datagrams.kept ⟨.refl _, rfl⟩ hroute ⟨h.datagrams.idle.1, hquiet.1⟩, hqueue, ?_, ?_, ?_⟩
  · exact fun pkt hp => (h.sent pkt hp).kept hroute fun p hp => hp
  · intro m hm
    rcases List.mem_append.mp hm with hm | hm
    · exact h.received m hm
    · exact hnew m hm
  · show x.fromB ++ sentSince x.b b = back
    rw [hquiet.2, List.append_nil, h.silent]

theorem Pair.Genuine.postRecv {p wrId : UInt64} {sge : List RoceSge} {ret : Int} {b : St} (h : x.Genuine back)
    (hnew : x.b.ctx.recvWrs p = none) (hroom : DatagramRoom x.b sge)
    (hpost : rocePostRecv x.b p (.fresh wrId sge) = .ok (ret, b)) : (x.movesB b).Genuine back := by
  have hquiet := (rocePostRecv_works hpost).silent h.datagrams.idle.2
  refine h.movesB (rocePostRecv_sameRoute hpost) (h.queue.postRecv hnew hroom hpost) hquiet ?_
  rw [(rocePostRecv_posts hpost).quiet]
  intro m hm
  cases hm

theorem Pair.Genuine.toB {pkt : RoceNetpkt} {frame : List (List UInt8)} {calloc : Bool} {ret : Int} {b : St}
    (h : x.Genuine back) (hsent : pkt ∈ x.fromA) (hframe : frame.flatten = pkt.iovs.flatten)
    (hrecv : roceNetRecv x.b frame calloc = .ok (ret, b)) : (x.movesB b).Genuine back := by
  have hquiet := roceNetRecv_silent h.datagrams.receiver h.datagrams.idle.2 hrecv
  refine h.movesB (roceNetRecv_sameRoute hrecv) (h.queue.netRecv h.datagrams.receiver hrecv) hquiet ?_
  obtain ⟨⟨p, hp, hdata⟩, port, hport, hvnet⟩ := h.sent pkt hsent
  intro m hm
  exact ⟨p, hp, pkt, hsent, hdata, hdata.received h.datagrams.receiver h.queue hport hvnet hframe hrecv m hm⟩

/-- What reaches the sender is no answer, and gets none. -/
theorem Pair.Genuine.toA {frame : List (List UInt8)} {calloc : Bool} {ret : Int} {a : St} (h : x.Genuine back)
    (hrecv : roceNetRecv x.a frame calloc = .ok (ret, a)) : (x.movesA a).Genuine back := by
  obtain ⟨hidle, hsilent⟩ := roceNetRecv_silent h.datagrams.sender h.datagrams.idle.1 hrecv
  have hb : SameRoute x.b (x.movesA a).b := ⟨.refl _, rfl⟩
  have hsame : (x.movesA a).fromA = x.fromA := by
    show x.fromA ++ sentSince x.a a = x.fromA
    rw [hsilent, List.append_nil]
  refine ⟨h.datagrams.kept (roceNetRecv_sameRoute hrecv) hb ⟨hidle, h.datagrams.idle.2⟩, h.queue, ?_,
    ?_, h.silent⟩
  · rw [hsame]
    exact fun pkt hp => (h.sent pkt hp).kept hb fun p hp => hp
  · rw [hsame]
    exact h.received

theorem Pair.Genuine.step {op : PairOp} (h : x.Genuine back) (hallow : DatagramAllowed x op)
    (hs : pairStep x op = .ok y) : y.Genuine back := by
  cases pairStep_turn hs with
  | postSend hpost => exact h.postSend hallow hpost
  | postRecv hpost => exact h.postRecv hallow.1 hallow.2 hpost
  | toB hsent hframe hrecv => exact h.toB hsent hframe hrecv
  | toA hsent hframe hrecv => exact h.toA hrecv

end steps

/-- **Datagrams.**  Whatever the network does, what is under way was posted, each
message that the receiver reads is the GRH of such a packet and behind it what was
posted, and the receiver answers nothing. -/
theorem pairRun_genuine (x0 : Pair) (h0 : x0.Datagrams) (hqueue : x0.b.qp.rq = [])
    (hnone : x0.fromA = [] ∧ x0.received = []) (ops : List PairOp)
    (hallow : Along pairStep DatagramAllowed x0 ops) (x : Pair) (hr : run pairStep x0 ops = .ok x) :
    (∀ pkt ∈ x.fromA, ∃ p ∈ x.posted, DatagramPkt pkt p.2) ∧ x.fromB = x0.fromB ∧
      ∀ m ∈ x.received, ∃ p ∈ x.posted, ∃ pkt ∈ x.fromA, DatagramPkt pkt p.2 ∧ IsDatagram m pkt p.2 := by
  have hstart : x0.Genuine x0.fromB := by
    refine ⟨h0, ⟨by rw [hqueue]; exact List.nodup_nil, ?_⟩, ?_, ?_, rfl⟩
    · intro p hp
      rw [hqueue] at hp
      cases hp
    · intro pkt hp
      rw [hnone.1] at hp
      cases hp
    · intro m hm
      rw [hnone.2] at hm
      cases hm
  have hall := Machine.throughout_of_along (fun _ _ _ h hop hs => Pair.Genuine.step h hop hs) hstart hallow
  have hend := Machine.throughout_iff.mp hall ops [] x (List.append_nil ops).symm hr
  exact ⟨fun pkt hp => (hend.sent pkt hp).data, hend.silent, hend.received⟩

instance (sge : RoceSge) (mr : RoceMr) : Decidable (InRange sge mr) := inferInstanceAs (Decidable (_ ∧ _))

instance (ctx : RoceCtx) (qp : RoceQp) (sge : RoceSge) : Decidable (∃ mr, SgeIn ctx qp sge mr) :=
  decidable_of_iff (∃ mr ∈ roceGetMrNoref ctx (roceKeyToIndex sge.lkey), (mr.lkey = sge.lkey ∧ mr.pd = qp.pd ∧
      mr.state = .valid ∧ 0 &&& mr.access = 0) ∧ mr.Paged ∧ InRange sge mr ∧
      mr.iova.toNat + mr.length.toNat < 2 ^ 64)
    ⟨fun ⟨mr, hlive, ⟨hkey, hpd, hvalid, hrights⟩, hpaged, hrange, hspace⟩ =>
      ⟨mr, ⟨hlive, hkey, hpd, hvalid, hrights⟩, hpaged, hrange, hspace⟩,
    fun ⟨mr, h⟩ => ⟨mr, h.grants.live, ⟨h.grants.key, h.grants.pd, h.grants.valid, h.grants.rights⟩, h.paged,
      h.range, h.space⟩⟩

instance (s : St) (sge : List RoceSge) : Decidable (DatagramRoom s sge) :=
  decidable_of_iff ((∀ g ∈ sge, ∃ mr ∈ roceGetMrNoref s.ctx (roceKeyToIndex g.lkey),
      mr.state = .valid ∧ mr.Paged ∧ InRange g mr) ∧ (sge.flatMap (sgeHost s.ctx)).Nodup)
    ⟨fun ⟨hpages, hdisjoint⟩ => ⟨hpages, hdisjoint⟩, fun h => ⟨h.pages, h.disjoint⟩⟩

instance (x : Pair) : (op : PairOp) → Decidable (DatagramAllowed x op)
  | .postSend wr _ => inferInstanceAs (Decidable (roceSendWrIsInline wr = false → _))
  | .postRecv _ _ _ => inferInstanceAs (Decidable (_ ∧ DatagramRoom _ _))
  | .toB _ _ => .isTrue trivial
  | .toA _ _ => .isTrue trivial

/-- A SEND of two bytes of the page, to an AH. -/
def datagramSend : SendWr :=
  { smallSend 1 .sendWithImm with
    sendFlags := roceSendSignaled, imm := 9, ud := ⟨2, 0, 0⟩, sge := [⟨0x10000, 2, 0⟩] }

/-- Two UD QPs, and an AH on the side of the sender. -/
def datagramStart : Pair :=
  ⟨⟨{ withMr smallCtx smallMr with mem := UInt8.ofNat, ahs := [some ⟨0, 0, unsetAv⟩] },
      { smallQp with qpType := .ud, attr.portNum := 1 }⟩,
    ⟨withMr smallCtx smallMr, { smallQp with qpType := .ud }⟩, [], [], [], 0, [], []⟩

/-- Two messages, and room for three. -/
def datagramPosts : List PairOp :=
  [.postRecv 0x2000 5 [⟨0x10000, 64, 0⟩], .postRecv 0x3000 6 [⟨0x10040, 64, 0⟩],
    .postRecv 0x4000 7 [⟨0x10080, 64, 0⟩], .postSend datagramSend fun _ => true,
    .postSend { datagramSend with addr := 2, opcode := .send, sge := [⟨0x10007, 1, 0⟩] } fun _ => true]

/-- The second one comes twice, and the first one after it. -/
def datagramOps : List PairOp :=
  datagramPosts ++ (run pairStep datagramStart datagramPosts).toOption.elim [] fun x =>
    [1, 1, 0].map fun i => .toB (x.fromA[i]?.elim [] (·.iovs)) true

theorem datagramStart_datagrams : datagramStart.Datagrams := by
  refine ⟨Or.inl rfl, Or.inl rfl, ?_, ⟨smallPort, smallPort, rfl, rfl, rfl⟩, rfl, rfl⟩
  intro port hport
  obtain rfl := List.mem_singleton.mp hport
  exact ⟨by decide, by decide⟩

/-- All three are read. -/
theorem pairRun_genuine_read : ∃ x, run pairStep datagramStart datagramOps = .ok x ∧ x.fromB = [] ∧
    x.received.map (fun m => (m.imm, m.bytes.length, m.bytes.drop 40)) =
      [(none, 41, [7]), (none, 41, [7]), (some 9, 42, [0, 1])] ∧
    ∀ m ∈ x.received, ∃ p ∈ x.posted, ∃ pkt ∈ x.fromA, DatagramPkt pkt p.2 ∧ IsDatagram m pkt p.2 := by
  obtain ⟨hallow, x, hrun, hread⟩ : Along pairStep DatagramAllowed datagramStart datagramOps ∧
      ∃ x, run pairStep datagramStart datagramOps = .ok x ∧
      x.received.map (fun m => (m.imm, m.bytes.length, m.bytes.drop 40)) =
        [(none, 41, [7]), (none, 41, [7]), (some 9, 42, [0, 1])] := by decide +kernel
  obtain ⟨-, hsilent, hgenuine⟩ :=
    pairRun_genuine datagramStart datagramStart_datagrams rfl ⟨rfl, rfl⟩ datagramOps hallow x hrun
  exact ⟨x, hrun, hsilent, hread, hgenuine⟩

end Libroce
