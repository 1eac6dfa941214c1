import Libroce.RequesterRefusal
import Libroce.RequesterRetire
import Libroce.Segmentation

/-!
# Assertions at the wrap of the PSN

One of the two assertions at the head of `roce_xmit_pkts` compares PSNs as raw
integers.  It can be told from the state before an operation whether it holds: by
the SQ PSN, the packets that are queued, and how many the operation adds or takes
off.

    Sends      a WR that gets packets, one for each of its segments
    ackedBy    the packets that an ACK takes off
    CallFits   the PSNs have not wrapped when the operation transmits

Main statements:
* `reqRun_asserts` — the assertions hold throughout a run exactly when every call fits.
* `reqRun_asserts_posts` — they do when the posts of the run end below the wrap.
-/

namespace Libroce

open Machine (bind_eq_ok)

/-! ## The packets of a post -/

/-- As many packets as a WR has segments. -/
def SendWr.packets (wr : SendWr) (mtu : Nat) : Nat := (Segment.sizes mtu wr.len).length

theorem Shaped.length_eq {ctx : RoceCtx} {qp : RoceQp} {wr : SendWr} {pkts : List RoceNetpkt}
    (h : Shaped ctx qp wr pkts) (hrc : qp.qpType = .rc) : pkts.length = wr.packets qp.attr.pathMtu.toNat := by
  have hpath : ∀ mtu, roceGetMtu ctx qp = .ok mtu → qp.attr.pathMtu = mtu := by
    intro mtu hmtu
    unfold roceGetMtu at hmtu
    rw [if_pos (Or.inl hrc)] at hmtu
    exact Except.ok.inj hmtu
  unfold SendWr.packets
  cases h with
  | only hmtu hlen hk hreq hb hin hle =>
    rw [hpath _ hmtu, ← requestLen_ok hlen, Segment.sizes_of_le hle]
    rfl
  | several hmtu hlen hk hm =>
    obtain ⟨first, mids, last, rfl, -, -, rest, psn, bytes, -, -, hpos, hle, htotal⟩ := hm.parts
    rw [hpath _ hmtu, ← requestLen_ok hlen, Segment.sizes_eq htotal hpos hle]
    simp

/-- The post of a WR that gets packets: a request that is implemented, inline bytes
that are allowed or keys that resolve, and a packet that is allocated when it is
alone. -/
structure Sends (s : St) (wr : SendWr) (calloc : Nat → Bool) : Prop where
  remote : roceSendWrIsLocal wr = false
  implemented : ¬Unimplemented wr.opcode
  inline : roceSendWrIsInline wr = true → inlineLen wr ≤ s.qp.attr.cap.maxInlineData
  keys : roceSendWrIsInline wr = false → ∀ sge ∈ wr.sge, roceGetMrNoref s.ctx (roceKeyToIndex sge.lkey) ≠ none
  calloc : calloc 0 = true ∨ s.qp.attr.pathMtu.toNat < wr.len

section post

variable {s u : St} {wr : SendWr} {calloc : Nat → Bool}

/-- A build that queues packets allocated the only one. -/
theorem roceRcBuildPkts_allocated {ctx : RoceCtx} {qp : RoceQp} {wr wr' : SendWr} {pkts : List RoceNetpkt}
    (hrc : qp.qpType = .rc) (hop : roceSendWrIsLocal wr = false ∧ ¬Unimplemented wr.opcode)
    (hfit : roceSendWrIsInline wr = true → inlineLen wr ≤ qp.attr.cap.maxInlineData)
    (hs : Shaped ctx qp wr pkts) (h : roceRcBuildPkts ctx qp wr calloc = .ok (qp.push pkts, wr')) :
    calloc 0 = true ∨ qp.attr.pathMtu.toNat < wr.len := by
  have hpath : ∀ mtu, roceGetMtu ctx qp = .ok mtu → qp.attr.pathMtu = mtu := by
    intro mtu hmtu
    unfold roceGetMtu at hmtu
    rw [if_pos (Or.inl hrc)] at hmtu
    exact Except.ok.inj hmtu
  cases hs with
  | @only mtu payload _ _ _ pkt hmtu hlen _ _ _ _ hle =>
    have hle' : payload ≤ mtu.toUInt32 := by
      rw [UInt32.le_iff_toNat_le, UInt16.toNat_toUInt32]
      exact hle
    obtain ⟨opcode, ext, hsingle⟩ : ∃ opcode ext,
        roceRcBuildPkts ctx qp wr calloc = rcOnly ctx qp wr calloc opcode ext payload :=
      roceRcBuildPkts_single hop hfit hmtu hlen hle'
    rw [hsingle] at h
    rcases rcOnly_cases h with ⟨hsame, -⟩ | ⟨-, _, _, _, _, -, -, -, halloc, -⟩
    · have hpend : qp.req.pendingPkts ++ [pkt] = qp.req.pendingPkts :=
        congrArg (fun q : RoceQp => q.req.pendingPkts) hsame
      cases List.append_right_eq_self.mp hpend
    · exact Or.inl (roceNetpktAlloc_isSome halloc).symm
  | several hmtu hlen hk hm =>
    obtain ⟨_, _, _, _, -, -, rest, _, _, -, -, hpos, -, htotal⟩ := hm.parts
    rw [Nat.succ_mul] at htotal
    rw [hpath _ hmtu, ← requestLen_ok hlen]
    omega

/-- **The packets of a post.**  It queues those of a WR that gets packets, and nothing
else. -/
theorem reqPrepare_post_packets (hrc : s.qp.qpType = .rc)
    (hp : reqPrepare s (.post wr calloc) = .ok (some u)) :
    ∃ pkts, u.qp.req.pendingPkts = s.qp.req.pendingPkts ++ pkts ∧
      (Sends s wr calloc ∧ pkts.length = wr.packets s.qp.attr.pathMtu.toNat ∨
        ¬Sends s wr calloc ∧ pkts = []) := by
  obtain ⟨ctx, wr1, qp, wr2, hget, hbuild, rfl⟩ := reqPrepare_post_ok hp
  obtain ⟨-, -, -, herror⟩ := postGetMrs_error hget
  obtain ⟨-, e, m, rfl⟩ := postGetMrs_ok hget
  have herror : e = 0 ↔ (roceSendWrIsInline wr = true ∨
    ∀ sge ∈ wr.sge, roceGetMrNoref s.ctx (roceKeyToIndex sge.lkey) ≠ none) := herror
  have hlen : ({ wr.fresh with error := e, mapped := m } : SendWr).len = wr.len := rfl
  have hnone : ¬Sends s wr calloc → ∃ pkts, s.qp.req.pendingPkts = s.qp.req.pendingPkts ++ pkts ∧
      (Sends s wr calloc ∧ pkts.length = wr.packets s.qp.attr.pathMtu.toNat ∨
        ¬Sends s wr calloc ∧ pkts = []) :=
    fun hno => ⟨[], (List.append_nil _).symm, Or.inr ⟨hno, rfl⟩⟩
  unfold requestBuild at hbuild
  split at hbuild
  · next he =>
    have he : e = 0 := he
    cases roceRcBuildPkts_ok hbuild with
    | failed e' he' =>
      refine hnone fun hsends => ?_
      have hsame := roceRcBuildPkts_unfailed hbuild hsends.inline
        (hsends.calloc.imp_right fun hlarge => Or.inr fun mtu len hmtu hlen => by
          unfold roceGetMtu at hmtu
          rw [if_pos (Or.inl hrc)] at hmtu
          obtain rfl := Except.ok.inj hmtu
          rw [UInt32.lt_iff_toNat_lt, UInt16.toNat_toUInt32, requestLen_ok hlen]
          exact hlarge)
      exact he' ((congrArg SendWr.error hsame).trans he)
    | skipped hs =>
      refine hnone fun hsends => ?_
      rcases hs with hlocal | hun
      · exact Bool.false_ne_true (hsends.remote.symm.trans hlocal)
      · exact hsends.implemented hun
    | queued pkts ht hop hs =>
      have hfit : roceSendWrIsInline wr = true → inlineLen wr ≤ s.qp.attr.cap.maxInlineData := by
        intro hin
        by_contra hlong
        unfold roceRcBuildPkts at hbuild
        rw [if_pos ⟨hin, UInt32.not_le.mp hlong⟩] at hbuild
        have hpend : s.qp.req.pendingPkts = s.qp.req.pendingPkts ++ pkts :=
          congrArg (fun q : RoceQp => q.req.pendingPkts) (Prod.mk.inj (Except.ok.inj hbuild)).1
        exact ht.ne_nil (List.append_right_eq_self.mp hpend.symm)
      have hcount := hs.length_eq hrc
      unfold SendWr.packets at hcount
      rw [hlen] at hcount
      refine ⟨pkts, rfl, Or.inl ⟨⟨hop.1, hop.2, hfit, ?_, ?_⟩, hcount⟩⟩
      · intro hin
        refine (herror.mp he).resolve_left fun hyes => ?_
        rw [hin] at hyes
        cases hyes
      · rw [← hlen]
        exact roceRcBuildPkts_allocated hrc hop hfit hs hbuild
  · next he =>
    obtain ⟨rfl, rfl⟩ := Prod.mk.inj (Except.ok.inj hbuild)
    refine hnone fun hsends => he (herror.mpr ?_)
    cases hin : roceSendWrIsInline wr with
    | true => exact Or.inl rfl
    | false => exact Or.inr (hsends.keys hin)

end post

/-! ## The packets an ACK takes off -/

/-- The outgoing packets that an ACK of `psn` completes: none when it is old or ahead
of the next PSN, else those at the head of the queue that do not lie ahead of it. -/
def ackedBy (qp : RoceQp) (psn : UInt32) : Nat :=
  if roceComparePsn qp.attr.sqPsn psn > 0 ∨ roceComparePsn qp.req.psn psn < 0 then 0
  else (qp.req.outgoingPkts.takeWhile fun pkt => decide ¬(roceComparePsn (roceNetpktPsn pkt) psn > 0)).length

theorem ackLoop_length {psn : UInt32} {pkts : List RoceNetpkt} {s u : St}
    (hout : s.qp.req.outgoingPkts = pkts) (h : ackLoop psn pkts s = .ok u) :
    (pkts.takeWhile fun pkt => decide ¬(roceComparePsn (roceNetpktPsn pkt) psn > 0)).length +
      u.qp.req.outgoingPkts.length = pkts.length := by
  induction pkts generalizing s with
  | nil =>
    obtain rfl := Except.ok.inj h
    rw [hout]
    rfl
  | cons pkt pkts ih =>
    rw [ackLoop] at h
    split at h
    · next hahead =>
      obtain rfl := Except.ok.inj h
      rw [List.takeWhile_cons_of_neg (by simp [hahead]), hout, List.length_nil, Nat.zero_add]
    · next hnot =>
      split at h
      · cases h
      · next v hv =>
        have hrest : v.qp.req.outgoingPkts = pkts := by
          rcases roceRcCompleteSendWr_ok hv with ⟨-, rfl⟩ | ⟨wr, sq, reports, ctx, -, -, -, -, rfl⟩
          · rfl
          · rfl
        have hlen := ih hrest h
        rw [List.takeWhile_cons_of_pos (by simp [hnot]), List.length_cons, List.length_cons, ← hlen]
        omega

theorem roceHandleAck_length {psn : UInt32} {s u : St} (h : roceHandleAck s psn = .ok u) :
    ackedBy s.qp psn + u.qp.req.outgoingPkts.length = s.qp.req.outgoingPkts.length := by
  unfold roceHandleAck at h
  unfold ackedBy
  by_cases hold : roceComparePsn s.qp.attr.sqPsn psn > 0
  · rw [if_pos hold] at h
    obtain rfl := Except.ok.inj h
    rw [if_pos (Or.inl hold), Nat.zero_add]
  · rw [if_neg hold] at h
    by_cases hnew : roceComparePsn s.qp.req.psn psn < 0
    · rw [if_pos hnew] at h
      obtain rfl := Except.ok.inj h
      rw [if_pos (Or.inr hnew), Nat.zero_add]
    · rw [if_neg hnew] at h
      rw [if_neg (not_or.mpr ⟨hold, hnew⟩)]
      exact ackLoop_length rfl h

/-- **The packets of an ACK.** -/
theorem roceHandleAck_takes {psn : UInt32} {s u : St} (h : roceHandleAck s psn = .ok u) :
    ackedBy s.qp psn ≤ s.qp.req.outgoingPkts.length ∧
      u.qp.req = { s.qp.req with outgoingPkts := s.qp.req.outgoingPkts.drop (ackedBy s.qp psn) } ∧
      u.qp.attr = { s.qp.attr with sqPsn := psnAfter s.qp.attr.sqPsn (ackedBy s.qp psn) } := by
  obtain ⟨n, hn, hreq, hattr⟩ := roceHandleAck_drops h
  have hlen := roceHandleAck_length h
  rw [hreq, List.length_drop] at hlen
  obtain rfl : ackedBy s.qp psn = n := by omega
  exact ⟨hn, hreq, hattr⟩

/-! ## Which calls hold -/

/-- The packets that are queued are below the wrap, with `new` more to come. -/
def PostFits (qp : RoceQp) (new : Nat) : Prop :=
  BelowWrap qp.attr.sqPsn.toNat qp.req.outgoingPkts.length (qp.req.pendingPkts.length + new)

/-- Those that an ACK leaves are. -/
def AckFits (qp : RoceQp) (psn : UInt32) : Prop :=
  BelowWrap ((qp.attr.sqPsn.toNat + ackedBy qp psn) % psnMod)
    (qp.req.outgoingPkts.length - ackedBy qp psn) qp.req.pendingPkts.length

/-- The call of `roce_xmit_pkts` finds the PSNs below the wrap.  A NAK acknowledges
the PSN before it. -/
def CallFits (s : St) : ReqOp → Prop
  | .post wr calloc => (Sends s wr calloc → PostFits s.qp (wr.packets s.qp.attr.pathMtu.toNat)) ∧
      (¬Sends s wr calloc → PostFits s.qp 0)
  | .acknowledge .ack _ psn _ => AckFits s.qp psn
  | .acknowledge .nak _ psn _ => AckFits s.qp ((psn - 1) &&& ibBthPsnMask)
  | .acknowledge .rnrNak _ _ _ => True
  | .acknowledge .reserved _ _ _ => True

/-- The operation gets to the call. -/
def Calls (s : St) (op : ReqOp) : Prop := ∃ u, reqPrepare s op = .ok (some u)

/-- What `P` says of the QP holds at every call of `roce_xmit_pkts` of a run. -/
def AtXmit (P : RoceQp → Prop) : St → List ReqOp → Prop :=
  Machine.Along reqStep fun t op => ∀ u, reqPrepare t op = .ok (some u) → P u.qp

instance (sqPsn outgoing pending : Nat) : Decidable (BelowWrap sqPsn outgoing pending) :=
  inferInstanceAs (Decidable (_ ∨ _))

section calls

variable {s u : St} {op : ReqOp}

theorem post_attr {wr : SendWr} {calloc : Nat → Bool} (hp : reqPrepare s (.post wr calloc) = .ok (some u)) :
    u.qp.attr = s.qp.attr := by
  obtain ⟨qp, wr2, hposted, hqp, -⟩ := rocePostSend_prepare hp
  rw [hqp]
  cases hposted with
  | failed e he m => rfl
  | skipped m hs => rfl
  | queued m pkts ht hop hs => rfl

theorem ackFits_iff {psn : UInt32} (h24 : s.qp.attr.sqPsn.toNat < psnMod) (h : roceHandleAck s psn = .ok u) :
    BelowWrap u.qp.attr.sqPsn.toNat u.qp.req.outgoingPkts.length u.qp.req.pendingPkts.length ↔
      AckFits s.qp psn := by
  obtain ⟨-, hreq, hattr⟩ := roceHandleAck_takes h
  have hsq : (psnAfter s.qp.attr.sqPsn (ackedBy s.qp psn)).toNat =
      (s.qp.attr.sqPsn.toNat + ackedBy s.qp psn) % psnMod := by
    rw [← psnAfter_toNat, Nat.mod_eq_of_lt (psnAfter_lt h24 _)]
  unfold AckFits
  rw [hreq, hattr, List.length_drop, hsq]

/-- **A call.**  Where it is made, the assertions hold exactly when it fits. -/
theorem headAsserts_iff_callFits (h : s.qp.qpType = .rc ∧ Window s.qp) (hp : reqPrepare s op = .ok (some u)) :
    HeadAsserts u.qp ↔ CallFits s op := by
  obtain ⟨hrc, hw⟩ := h
  rw [(hw.reqPrepare hp).headAsserts_iff]
  cases op with
  | post wr calloc =>
    obtain ⟨pkts, hpend, hcase⟩ := reqPrepare_post_packets hrc hp
    rw [post_outgoing hp, hpend, post_attr hp, List.length_append]
    unfold CallFits PostFits
    rcases hcase with ⟨hsends, hlen⟩ | ⟨hno, rfl⟩
    · rw [hlen]
      exact ⟨fun hfit => ⟨fun _ => hfit, fun hno => absurd hsends hno⟩, fun hfit => hfit.1 hsends⟩
    · exact ⟨fun hfit => ⟨fun hsends => absurd hsends hno, fun _ => hfit⟩, fun hfit => hfit.2 hno⟩
  | acknowledge syndrome val psn msn =>
    unfold reqPrepare at hp
    cases syndrome with
    | ack =>
      obtain ⟨v, hv, hp⟩ := bind_eq_ok.mp hp
      obtain rfl := Option.some.inj (Except.ok.inj hp)
      exact ackFits_iff hw.numbered.sq24 hv
    | nak =>
      obtain ⟨v, hv, hp⟩ := bind_eq_ok.mp hp
      obtain rfl := Option.some.inj (Except.ok.inj hp)
      have hfits := ackFits_iff hw.numbered.sq24 hv
      exact hfits
    | rnrNak => cases hp
    | reserved => cases hp

end calls

/-- **The assertions.**  They hold at every call of a run exactly when each finds the
PSNs below the wrap. -/
theorem reqRun_asserts (s : St) (h0 : Started s) (ops : List ReqOp) :
    AtXmit HeadAsserts s ops ↔ Machine.Along reqStep (fun t op => Calls t op → CallFits t op) s ops := by
  have hw : s.qp.qpType = .rc ∧ Window s.qp := ⟨h0.rc, h0.sqPsnSet.1.window⟩
  constructor
  · refine Machine.along_of_inv (fun t op t' ht _ hs => reqStep_window ht hs) ?_ hw
    rintro t op ht hnow ⟨u, hu⟩
    exact (headAsserts_iff_callFits ht hu).mp (hnow u hu)
  · refine Machine.along_of_inv (fun t op t' ht _ hs => reqStep_window ht hs) ?_ hw
    intro t op ht hfit u hu
    exact (headAsserts_iff_callFits ht hu).mpr (hfit ⟨u, hu⟩)

/-- From SQ PSN `0xFFFFFF` the second post finds the next PSN wrapped to 1. -/
theorem reqRun_aborts_atWrap :
    Started (smallStart 0xffffff) ∧
      ¬AtXmit HeadAsserts (smallStart 0xffffff)
        [.post (smallSend 1 .send) fun _ => true, .post (smallSend 2 .send) fun _ => true] ∧
      Machine.run reqStep (smallStart 0xffffff)
        [.post (smallSend 1 .send) fun _ => true, .post (smallSend 2 .send) fun _ => true] =
          .error (.abort .xmitPsn) := by
  refine ⟨smallStart_started (by decide), ?_, rfl⟩
  rintro ⟨-, h⟩
  obtain ⟨hsecond, -⟩ := h _ rfl
  exact absurd ((hsecond _ rfl).psn _ rfl).2 (by decide)

/-- With a packet outgoing below the wrap, and across the wrap when it is
acknowledged in between. -/
theorem reqRun_asserts_acknowledged :
    AtXmit HeadAsserts (smallStart 5)
        [.post (smallSend 1 .send) fun _ => true, .post (smallSend 2 .send) fun _ => true] ∧
      AtXmit HeadAsserts (smallStart 0xffffff)
        [.post (smallSend 1 .send) fun _ => true, .acknowledge .ack 0 0xffffff 0,
          .post (smallSend 2 .send) fun _ => true] := by
  constructor
  · refine (reqRun_asserts (smallStart 5) (smallStart_started (by decide)) _).mpr ⟨fun _ => ?_, ?_⟩
    · exact ⟨fun _ => by unfold PostFits; decide, fun _ => by unfold PostFits; decide⟩
    · intro s' hs
      obtain rfl := Except.ok.inj hs
      exact ⟨fun _ => ⟨fun _ => by unfold PostFits; decide +kernel,
        fun _ => by unfold PostFits; decide +kernel⟩,
        fun _ _ => trivial⟩
  · refine (reqRun_asserts (smallStart 0xffffff) (smallStart_started (by decide)) _).mpr ⟨fun _ => ?_, ?_⟩
    · exact ⟨fun _ => Or.inl rfl, fun _ => Or.inl rfl⟩
    · intro s' hs
      obtain rfl := Except.ok.inj hs
      refine ⟨fun _ => by unfold CallFits AckFits; decide +kernel, ?_⟩
      intro s'' hs'
      obtain rfl := Except.ok.inj hs'
      exact ⟨fun _ => ⟨fun _ => Or.inl rfl, fun _ => Or.inl rfl⟩, fun _ _ => trivial⟩

/-! ## The posts of a run -/

/-- The packets that an operation may add. -/
def ReqOp.packets (mtu : Nat) : ReqOp → Nat
  | .post wr _ => wr.packets mtu
  | .acknowledge _ _ _ _ => 0

section below

variable {s u : St} {op : ReqOp}

/-- Below the wrap nothing else takes the end of the queue further. -/
theorem reqPrepare_end (h : s.qp.qpType = .rc) (hp : reqPrepare s op = .ok (some u))
    (hbelow : s.qp.attr.sqPsn.toNat + s.qp.req.queued.length < psnMod) :
    u.qp.attr.sqPsn.toNat + u.qp.req.queued.length ≤
      s.qp.attr.sqPsn.toNat + s.qp.req.queued.length + op.packets s.qp.attr.pathMtu.toNat := by
  unfold RoceRequester.queued at hbelow ⊢
  rw [List.length_append] at hbelow
  rw [List.length_append, List.length_append]
  cases op with
  | post wr calloc =>
    obtain ⟨pkts, hpend, hcase⟩ := reqPrepare_post_packets h hp
    rw [post_attr hp, post_outgoing hp, hpend, List.length_append]
    show _ ≤ _ + wr.packets s.qp.attr.pathMtu.toNat
    rcases hcase with ⟨-, hlen⟩ | ⟨-, rfl⟩
    · omega
    · rw [List.length_nil]
      omega
  | acknowledge syndrome val psn msn =>
    obtain ⟨n, hn, hreq, hattr⟩ := acknowledge_drops hp
    have hsq : (psnAfter s.qp.attr.sqPsn n).toNat = s.qp.attr.sqPsn.toNat + n := by
      rw [← Nat.mod_eq_of_lt (psnAfter_lt (show s.qp.attr.sqPsn.toNat < psnMod by omega) n), psnAfter_toNat,
        Nat.mod_eq_of_lt (by omega)]
    have hpend : u.qp.req.pendingPkts = s.qp.req.pendingPkts := by rw [hreq]
    have hout : u.qp.req.outgoingPkts = s.qp.req.outgoingPkts.drop n := by rw [hreq]
    rw [hpend, hout, hattr, List.length_drop, hsq]
    omega

theorem reqStep_end (h : s.qp.qpType = .rc) (hs : reqStep s op = .ok u)
    (hbelow : s.qp.attr.sqPsn.toNat + s.qp.req.queued.length < psnMod) :
    u.qp.attr.sqPsn.toNat + u.qp.req.queued.length ≤
      s.qp.attr.sqPsn.toNat + s.qp.req.queued.length + op.packets s.qp.attr.pathMtu.toNat := by
  rcases reqStep_ok h hs with ⟨-, rfl⟩ | ⟨t, v, hp, hx, rfl⟩
  · exact Nat.le_add_right _ _
  · have hend := reqPrepare_end h hp hbelow
    have hx := roceXmitPkts_ok hx
    have hattr : v.qp.attr = t.qp.attr := by rw [hx.qp]
    rw [← hx.queued, ← hattr] at hend
    cases op with
    | post wr calloc => exact hend
    | acknowledge syndrome val psn msn => exact hend

end below

/-- **The posts of a run.**  The assertions hold when these end below the wrap. -/
theorem reqRun_asserts_posts (s : St) (h0 : Started s) (ops : List ReqOp)
    (hbelow : s.qp.attr.sqPsn.toNat + (ops.map (·.packets s.qp.attr.pathMtu.toNat)).sum < psnMod) :
    AtXmit HeadAsserts s ops := by
  obtain ⟨hset, -⟩ := h0.sqPsnSet
  have hw : s.qp.qpType = .rc ∧ Window s.qp := ⟨h0.rc, hset.window⟩
  have hempty : s.qp.req.queued.length = 0 := by
    unfold RoceRequester.queued
    rw [hset.outgoing, hset.pending]
    rfl
  replace hbelow : s.qp.attr.sqPsn.toNat + s.qp.req.queued.length +
      (ops.map (·.packets s.qp.attr.pathMtu.toNat)).sum < psnMod := by
    rw [hempty]
    exact hbelow
  clear h0 hset hempty
  induction ops generalizing s with
  | nil => trivial
  | cons op ops ih =>
    rw [List.map_cons, List.sum_cons] at hbelow
    constructor
    · intro u hu
      have hend := reqPrepare_end hw.1 hu (by omega)
      have hsplit : u.qp.req.queued.length = u.qp.req.outgoingPkts.length + u.qp.req.pendingPkts.length :=
        List.length_append
      rw [hsplit] at hend
      rw [(hw.2.reqPrepare hu).headAsserts_iff]
      unfold BelowWrap
      rw [Nat.mod_eq_of_lt (by omega)]
      omega
    · intro s' hs
      have hend := reqStep_end hw.1 hs (by omega)
      have hmtu : s'.qp.attr.pathMtu = s.qp.attr.pathMtu := by rw [reqStep_requesterOnly hw.1 hs]
      apply ih s' (reqStep_window hw hs)
      rw [hmtu]
      omega

end Libroce
