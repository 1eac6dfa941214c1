import Libroce.DeviceLifetime

/-!
# SMI and GSI

`roce_init_device` puts SMI and GSI into the slots 0 and 1 of the QP table.
`Device.Reserved` says that they sit there with these handles and that every
other QP sits above them.  Every call keeps it but two: `roce_destroy_qp` of the
GSI QP empties slot 1 and clears the handle, and an initialisation whose
`roce_alloc_special_qps` failed never had it.

    devRun_special — along every run that does not destroy the GSI QP both stay
    in place, no other QP gets their numbers, and GSI can be created.
-/

namespace Libroce

open Machine (bind_eq_ok bind_eq_error)

/-! ## What a call does to the table -/

/-- Table and special QPs stay. -/
structure Device.SameTable (d d' : Device) : Prop where
  qps : d'.qps = d.qps
  smi : d'.smi = d.smi
  gsi : d'.gsi = d.gsi

section create

variable {d d' : Device} {a : QpArgs} {rcq calloc : Bool} {random0 random1 : UInt32} {ret : Int}

/-- What `roce_create_qp` can do: fail, use the GSI object, or fill an empty slot. -/
inductive Device.Creates (d d' : Device) (a : QpArgs) (ret : Int) : Prop
  | refused (hret : ret < 0) (h : d.SameTable d')
  | gsi (o : QpObj) (htype : a.qpType = .gsi) (hret : ret = 1) (hfree : d.gsi = some ⟨1, none⟩)
      (hhandle : o.qp.handle = 1) (hgsi : o.qp.qpType = .gsi) (hqps : d'.qps = d.qps)
      (hsmi : d'.smi = d.smi) (hd' : d'.gsi = some ⟨1, some o⟩)
  | heap (i : Nat) (o : QpObj) (htype : a.qpType ≠ .gsi) (hret : ret = i)
      (hempty : d.qps[i]? = some none) (hhandle : o.qp.handle = UInt32.ofNat i)
      (hkind : o.qp.qpType = a.qpType) (hqps : d'.qps = d.qps.set i (some (.heap o)))
      (hsmi : d'.smi = d.smi) (hgsi : d'.gsi = d.gsi)

theorem Device.createQp_creates (hc : d.createQp a calloc random0 random1 = .ok (ret, d')) :
    d.Creates d' a ret := by
  rcases Device.createQp_makes hc with ⟨hret, rfl | ⟨ctx, ctx', -, -, rfl⟩⟩ |
    ⟨rcq, ctx, cqs, -, hm, -, -⟩
  · exact .refused hret ⟨rfl, rfl, rfl⟩
  · exact .refused hret ⟨rfl, rfl, rfl⟩
  cases hm with
  | refused hput =>
    obtain ⟨hret, ctx', cqs', -, rfl⟩ := Device.putResource_same hput
    exact .refused hret ⟨rfl, rfl, rfl⟩
  | gsi o htype hfree hnew hhandle =>
    obtain ⟨port, r0, r1, qpn, rfl⟩ := hnew
    exact .gsi _ htype rfl hfree hhandle htype rfl rfl rfl
  | heap i o htype hcalloc hempty hnew hhandle =>
    obtain ⟨port, r0, r1, qpn, rfl⟩ := hnew
    exact .heap i _ htype rfl hempty hhandle rfl rfl rfl rfl

end create

/-- What a step can do to the QPs: nothing, or one of the calls that reach them. -/
inductive Device.StepsQps (d d' : Device) : DevOp → Prop
  | same {op : DevOp} (h : d.SameTable d') : StepsQps d d' op
  | createQp {a : QpArgs} {calloc : Bool} {random0 random1 : UInt32} {ret : Int}
      (h : d.createQp a calloc random0 random1 = .ok (ret, d')) :
      StepsQps d d' (.createQp a calloc random0 random1)
  | destroyQp {i : Nat} {ret : Int} (h : d.destroyQp i = .ok (ret, d')) : StepsQps d d' (.destroyQp i)
  | onQp {i : Nat} {call : QpCall} (h : d.onQp i call = .ok d') : StepsQps d d' (.onQp i call)
  | netRecv {iovs : List (List UInt8)} {calloc : Bool} {pkt : Decap}
      (hdecap : roceNetDecap d.ctx iovs = .ok (some pkt)) (h0 : (ibBthGetDestqp pkt.bth).toNat ≠ 0)
      (h : d.onQp (ibBthGetDestqp pkt.bth).toNat (.recv pkt calloc) = .ok d') :
      StepsQps d d' (.netRecv iovs calloc)

theorem devStep_qps {d d' : Device} {op : DevOp} (hs : devStep d op = .ok d') : d.StepsQps d' op := by
  cases op with
  | allocPd calloc =>
    obtain rfl := Except.ok.inj hs
    exact .same ⟨rfl, rfl, rfl⟩
  | deallocPd pdHandle =>
    obtain rfl := Except.ok.inj hs
    exact .same ⟨rfl, rfl, rfl⟩
  | createCq cqe calloc =>
    obtain rfl := Except.ok.inj hs
    apply Device.StepsQps.same
    unfold roceCreateCq
    split
    · exact ⟨rfl, rfl, rfl⟩
    · split
      · split
        · exact ⟨rfl, rfl, rfl⟩
        · exact ⟨rfl, rfl, rfl⟩
      · exact ⟨rfl, rfl, rfl⟩
  | destroyCq cqHandle =>
    obtain rfl := Except.ok.inj hs
    apply Device.StepsQps.same
    unfold roceDestroyCq
    split
    · exact ⟨rfl, rfl, rfl⟩
    · split
      · exact ⟨rfl, rfl, rfl⟩
      · exact ⟨rfl, rfl, rfl⟩
  | createAh pdHandle attr calloc =>
    obtain ⟨r, -, hs⟩ := bind_eq_ok.mp hs
    obtain rfl := Except.ok.inj hs
    exact .same ⟨rfl, rfl, rfl⟩
  | destroyAh ahHandle =>
    obtain ⟨r, -, hs⟩ := bind_eq_ok.mp hs
    obtain rfl := Except.ok.inj hs
    exact .same ⟨rfl, rfl, rfl⟩
  | createMr a calloc random0 random1 =>
    obtain ⟨r, -, hs⟩ := bind_eq_ok.mp hs
    obtain rfl := Except.ok.inj hs
    exact .same ⟨rfl, rfl, rfl⟩
  | destroyMr mrHandle =>
    obtain ⟨r, -, hs⟩ := bind_eq_ok.mp hs
    obtain rfl := Except.ok.inj hs
    exact .same ⟨rfl, rfl, rfl⟩
  | createQp a calloc random0 random1 =>
    obtain ⟨⟨ret, d1⟩, hr, hs⟩ := bind_eq_ok.mp hs
    obtain rfl := Except.ok.inj hs
    exact .createQp hr
  | destroyQp qpHandle =>
    obtain ⟨⟨ret, d1⟩, hr, hs⟩ := bind_eq_ok.mp hs
    obtain rfl := Except.ok.inj hs
    exact .destroyQp hr
  | onQp qpHandle call => exact .onQp hs
  | netRecv iovs calloc =>
    unfold devStep Device.netRecv at hs
    obtain ⟨pkt, hdecap, hs⟩ := bind_eq_ok.mp hs
    cases pkt with
    | none =>
      obtain rfl := Except.ok.inj hs
      exact .same ⟨rfl, rfl, rfl⟩
    | some pkt =>
      dsimp only at hs
      by_cases hdest : (ibBthGetDestqp pkt.bth).toNat = 0 ∨ d.getQp (ibBthGetDestqp pkt.bth).toNat = none
      · rw [if_pos hdest] at hs
        obtain rfl := Except.ok.inj hs
        exact .same ⟨rfl, rfl, rfl⟩
      · rw [if_neg hdest] at hs
        exact .netRecv hdecap (fun h0 => hdest (Or.inl h0)) hs

/-! ## The invariant -/

/-- What sits in slot `i` above the special QPs. -/
def QpPtr.Ordinary (i : Nat) (ptr : QpPtr) : Prop :=
  ∃ o, ptr = .heap o ∧ o.qp.handle.toNat = i ∧ o.qp.qpType ≠ .gsi

/-- SMI and GSI sit in their slots, everybody else above. -/
structure Device.Reserved (d : Device) : Prop where
  smiSlot : Refs.get d.qps 0 = some .smi
  gsiSlot : Refs.get d.qps 1 = some .gsi
  others : ∀ i ptr, 2 ≤ i → Refs.get d.qps i = some ptr → ptr.Ordinary i
  smi : d.smi = some ⟨0, none⟩
  gsi : ∃ used, d.gsi = some ⟨1, used⟩ ∧ ∀ o, used = some o → o.qp.handle = 1 ∧ o.qp.qpType = .gsi
  few : d.qps.length ≤ 2 ^ 24

section step

variable {d d' : Device}

theorem Device.Reserved.congr (h : d.Reserved) (hsame : d.SameTable d') : d'.Reserved := by
  constructor
  · rw [hsame.qps]
    exact h.smiSlot
  · rw [hsame.qps]
    exact h.gsiSlot
  · rw [hsame.qps]
    exact h.others
  · rw [hsame.smi]
    exact h.smi
  · rw [hsame.gsi]
    exact h.gsi
  · rw [hsame.qps]
    exact h.few

/-- A slot above them is filled or emptied. -/
theorem Device.Reserved.set {i : Nat} {v : Option QpPtr} (h : d.Reserved) (hi : 2 ≤ i)
    (hlt : i < d.qps.length) (hv : ∀ ptr, v = some ptr → ptr.Ordinary i)
    (hqps : d'.qps = d.qps.set i v) (hsmi : d'.smi = d.smi) (hgsi : d'.gsi = d.gsi) :
    d'.Reserved := by
  constructor
  · rw [hqps, Refs.get_set hlt, if_neg (by omega)]
    exact h.smiSlot
  · rw [hqps, Refs.get_set hlt, if_neg (by omega)]
    exact h.gsiSlot
  · intro j ptr hj hget
    rw [hqps, Refs.get_set hlt] at hget
    by_cases hij : i = j
    · rw [if_pos hij] at hget
      rw [← hij]
      exact hv ptr hget
    · rw [if_neg hij] at hget
      exact h.others j ptr hj hget
  · rw [hsmi]
    exact h.smi
  · rw [hgsi]
    exact h.gsi
  · rw [hqps, List.length_set]
    exact h.few

/-- The GSI object is used, or changes. -/
theorem Device.Reserved.setGsi {o : QpObj} (h : d.Reserved) (hhandle : o.qp.handle = 1)
    (htype : o.qp.qpType = .gsi) (hqps : d'.qps = d.qps) (hsmi : d'.smi = d.smi)
    (hgsi : d'.gsi = some ⟨1, some o⟩) : d'.Reserved := by
  constructor
  · rw [hqps]
    exact h.smiSlot
  · rw [hqps]
    exact h.gsiSlot
  · rw [hqps]
    exact h.others
  · rw [hsmi]
    exact h.smi
  · refine ⟨some o, hgsi, ?_⟩
    intro q hq
    obtain rfl := Option.some.inj hq
    exact ⟨hhandle, htype⟩
  · rw [hqps]
    exact h.few

theorem Device.Reserved.not_empty (h : d.Reserved) {i : Nat} (hempty : d.qps[i]? = some none) :
    2 ≤ i := by
  have hnone : Refs.get d.qps i = none := by
    unfold Refs.get
    rw [hempty]
    rfl
  by_contra hlt
  have hi : i = 0 ∨ i = 1 := by omega
  rcases hi with rfl | rfl
  · rw [h.smiSlot] at hnone
    cases hnone
  · rw [h.gsiSlot] at hnone
    cases hnone

/-- Where a QP that is found sits. -/
theorem Device.Reserved.getQp (h : d.Reserved) {i : Nat} {o : QpObj} (hget : d.getQp i = some o) :
    (2 ≤ i ∧ Refs.get d.qps i = some (.heap o) ∧ o.qp.handle.toNat = i ∧ o.qp.qpType ≠ .gsi) ∨
    (i = 1 ∧ d.gsi = some ⟨1, some o⟩ ∧ o.qp.handle = 1 ∧ o.qp.qpType = .gsi) := by
  unfold Device.getQp at hget
  obtain ⟨ptr, hptr, hobj⟩ := Option.bind_eq_some_iff.mp hget
  have hslot : Refs.get d.qps i = some ptr := hptr
  rcases i with _ | _ | i
  · rw [h.smiSlot] at hslot
    obtain rfl := Option.some.inj hslot
    unfold Device.objOf at hobj
    rw [h.smi] at hobj
    cases hobj
  · rw [Nat.zero_add, h.gsiSlot] at hslot
    obtain rfl := Option.some.inj hslot
    obtain ⟨used, hgsi, hused⟩ := h.gsi
    unfold Device.objOf at hobj
    rw [hgsi] at hobj
    have hobj : used = some o := hobj
    obtain ⟨h1, h2⟩ := hused o hobj
    exact Or.inr ⟨rfl, by rw [hgsi, hobj], h1, h2⟩
  · obtain ⟨q, rfl, hhandle, htype⟩ := h.others (i + 2) ptr (by omega) hslot
    obtain rfl := Option.some.inj hobj
    exact Or.inl ⟨by omega, hslot, hhandle, htype⟩

theorem Device.Reserved.createQp {a : QpArgs} {calloc : Bool} {random0 random1 : UInt32} {ret : Int}
    (h : d.Reserved) (hc : d.createQp a calloc random0 random1 = .ok (ret, d')) : d'.Reserved := by
  cases Device.createQp_creates hc with
  | refused hret hsame => exact h.congr hsame
  | gsi o htype hret hfree hhandle hgsi hqps hsmi hd' => exact h.setGsi hhandle hgsi hqps hsmi hd'
  | heap i o htype hret hempty hhandle hkind hqps hsmi hgsi =>
    have hlt := (List.getElem?_eq_some_iff.mp hempty).1
    have hfew := h.few
    refine h.set (h.not_empty hempty) hlt ?_ hqps hsmi hgsi
    rintro ptr hptr
    obtain rfl := Option.some.inj hptr
    refine ⟨o, rfl, ?_, by rw [hkind]; exact htype⟩
    rw [hhandle, UInt32.toNat_ofNat']
    omega

/-- Destroying another QP. -/
theorem Device.Reserved.destroyQp {i : Nat} {ret : Int} (h : d.Reserved) (hi : i ≠ 1)
    (hd : d.destroyQp i = .ok (ret, d')) : d'.Reserved := by
  unfold Device.destroyQp at hd
  split at hd
  · cases hd
  next o hget =>
  split at hd
  swap
  · cases hd
  obtain ⟨ctx1, -, hd⟩ := bind_eq_ok.mp hd
  obtain ⟨cqs1, -, hd⟩ := bind_eq_ok.mp hd
  obtain ⟨cqs2, -, hd⟩ := bind_eq_ok.mp hd
  obtain ⟨ctx2, -, hd⟩ := bind_eq_ok.mp hd
  obtain ⟨ctx3, -, hd⟩ := bind_eq_ok.mp hd
  obtain ⟨-, rfl⟩ := Prod.mk.inj (Except.ok.inj hd)
  rcases h.getQp hget with ⟨hge, hslot, hhandle, htype⟩ | ⟨rfl, -⟩
  · unfold Device.releaseQp
    rw [if_neg htype, hhandle]
    refine h.set (v := none) hge (Refs.lt_of_get hslot) ?_ rfl rfl rfl
    intro ptr hptr
    cases hptr
  · exact absurd rfl hi

theorem Device.Reserved.onQp {i : Nat} {call : QpCall} (h : d.Reserved) (hc : d.onQp i call = .ok d') :
    d'.Reserved := by
  unfold Device.onQp at hc
  split at hc
  · cases hc
  next o hget =>
  obtain ⟨s, hs, hc⟩ := bind_eq_ok.mp hc
  obtain rfl := Except.ok.inj hc
  have hlinks : s.qp.links = o.qp.links := (qpStep_keeps hs).links
  simp only [RoceQp.links, Prod.mk.injEq] at hlinks
  obtain ⟨hhandle', htype', -⟩ := hlinks
  unfold Device.putBack
  rcases h.getQp hget with ⟨hge, hslot, hhandle, htype⟩ | ⟨rfl, hgsi, hhandle, htype⟩
  · have hslot' : roceResourceGet d.qps i = some (.heap o) := hslot
    simp only [hslot']
    refine h.set (v := some (.heap { o with qp := s.qp })) hge (Refs.lt_of_get hslot) ?_ rfl rfl rfl
    intro ptr hptr
    obtain rfl := Option.some.inj hptr
    exact ⟨_, rfl, by rw [← hhandle, hhandle'], by rw [htype']; exact htype⟩
  · have hslot' : roceResourceGet d.qps 1 = some .gsi := h.gsiSlot
    simp only [hslot']
    refine h.setGsi (o := { o with qp := s.qp }) (hhandle'.trans hhandle) (htype'.trans htype) rfl rfl ?_
    show d.gsi.map _ = _
    rw [hgsi]
    rfl

/-- One step of the device. -/
theorem devStep_reserved (d : Device) (op : DevOp) (d' : Device) (h : d.Reserved)
    (hno : op ≠ .destroyQp 1) (hs : devStep d op = .ok d') : d'.Reserved := by
  cases devStep_qps hs with
  | same hsame => exact h.congr hsame
  | createQp hr => exact h.createQp hr
  | @destroyQp i ret hr =>
    refine h.destroyQp ?_ hr
    rintro rfl
    exact hno rfl
  | onQp hr => exact h.onQp hr
  | netRecv hdecap h0 hr => exact h.onQp hr

theorem roceInitDevice_reserved {ctx : RoceCtx} {para : RoceDevicePara} {calloc callocQp : Nat → Bool}
    (h : roceInitDevice ctx para calloc callocQp = .ok d) (hsmi : callocQp 0 = true)
    (hgsi : callocQp 1 = true) : d.Reserved := by
  obtain ⟨rfl, -, -, hqp3, hqp⟩ := roceInitDevice_ok h
  obtain ⟨n, hn⟩ : ∃ n, para.maxQp.toNat = n + 2 := ⟨para.maxQp.toNat - 2, by omega⟩
  rw [Device.allocSpecialQps_eq (d := para.device ctx) (n := n)
    (by unfold RoceDevicePara.device; rw [hn]), if_pos ⟨hsmi, hgsi⟩]
  refine ⟨rfl, rfl, ?_, rfl, ⟨none, rfl, ?_⟩, ?_⟩
  · intro i ptr hi hget
    obtain ⟨j, rfl⟩ : ∃ j, i = j + 2 := ⟨i - 2, by omega⟩
    have hget' : Refs.get (List.replicate n (none : Option QpPtr)) j = some ptr := hget
    rw [Refs.get_replicate_none] at hget'
    cases hget'
  · intro o ho
    cases ho
  · simp only [List.length_cons, List.length_replicate]
    omega

end step

/-! ## What it is for -/

section create

variable {d : Device} {a : QpArgs} {rcq calloc : Bool} {random0 random1 : UInt32} {e : Fault}

/-- The faults of `roce_create_qp` that have nothing to do with GSI. -/
def Fault.Plain (e : Fault) : Prop :=
  e = .abort .putPd ∨ e = .abort .putCq ∨ e = .undefined .port

theorem assertPutPd_plain {ctx : RoceCtx} {pd : Nat} (h : assertPutPd ctx pd = .error e) : e.Plain := by
  unfold assertPutPd at h
  split at h
  · exact Or.inl (Except.error.inj h).symm
  · cases h

theorem assertPutCq_plain {cqs : List (Option RoceCq)} {i : Nat} (h : assertPutCq cqs i = .error e) :
    e.Plain := by
  unfold assertPutCq at h
  split at h
  · exact Or.inr (Or.inl (Except.error.inj h).symm)
  · cases h

theorem portAt_plain {ctx : RoceCtx} {portNum : UInt8} (h : portAt ctx portNum = .error e) : e.Plain := by
  unfold portAt at h
  split at h
  · exact Or.inr (Or.inr (Except.error.inj h).symm)
  · split at h
    · exact Or.inr (Or.inr (Except.error.inj h).symm)
    · cases h

theorem Device.putResource_plain (h : d.putResource a rcq = .error e) : e.Plain := by
  unfold Device.putResource at h
  rcases bind_eq_error.mp h with h | ⟨ctx, -, h⟩
  · exact assertPutPd_plain h
  · rcases bind_eq_error.mp h with h | ⟨cqs, -, h⟩
    · exact assertPutCq_plain h
    · cases rcq with
      | false => cases h
      | true =>
        rcases bind_eq_error.mp h with h | ⟨cqs2, -, h⟩
        · exact assertPutCq_plain h
        · cases h

theorem Device.createQpObj_plain (hgsi : d.gsi.map (·.handle) = some 1)
    (h : d.createQpObj a rcq calloc random0 random1 = .error e) : e.Plain := by
  unfold Device.createQpObj at h
  rcases bind_eq_error.mp h with h | ⟨port, -, h⟩
  · exact portAt_plain h
  · by_cases htype : a.qpType = .gsi
    · rw [if_pos htype] at h
      split at h
      · next hnone =>
        rw [hnone] at hgsi
        cases hgsi
      · next g hg =>
        split at h
        · exact Device.putResource_plain h
        · have hassert : roceAssert (g.handle == 1) .gsiHandle = .ok () := by
            rw [hg] at hgsi
            have hg1 : g.handle = 1 := Option.some.inj hgsi
            rw [hg1]
            rfl
          rw [hassert] at h
          cases h
    · rw [if_neg htype] at h
      split at h
      · split at h
        · exact Device.putResource_plain h
        · cases h
      · exact Device.putResource_plain h

/-- The assertions about GSI hold. -/
theorem Device.Reserved.createQp_plain (h : d.Reserved)
    (hc : d.createQp a calloc random0 random1 = .error e) : e.Plain := by
  have hgsi : d.gsi.map (·.handle) = some 1 := by
    obtain ⟨used, hgsi, -⟩ := h.gsi
    rw [hgsi]
    rfl
  unfold Device.createQp at hc
  split at hc
  · cases hc
  split at hc
  · cases hc
  split at hc
  · cases hc
  split at hc
  · rcases bind_eq_error.mp hc with hc | ⟨ctx, -, hc⟩
    · exact assertPutPd_plain hc
    · cases hc
  split at hc
  · refine Device.createQpObj_plain ?_ hc
    exact hgsi
  · refine Device.createQpObj_plain ?_ hc
    exact hgsi

theorem Device.createQpObj_gsi (htype : a.qpType = .gsi) (hgsi : d.gsi = some ⟨1, none⟩)
    (hports : d.ctx.ports ≠ []) :
    ∃ d', d.createQpObj a rcq calloc random0 random1 = .ok (1, d') := by
  obtain ⟨port, ports, hp⟩ := List.exists_cons_of_ne_nil hports
  have hport : portAt d.ctx 1 = .ok port := by
    unfold portAt
    rw [hp]
    rfl
  refine ⟨{ d with gsi := some ⟨1, some (a.newQp port rcq random0 random1 1)⟩ }, ?_⟩
  unfold Device.createQpObj
  refine bind_eq_ok.mpr ⟨port, hport, ?_⟩
  rw [if_pos htype, hgsi]
  rfl

/-- A GSI QP can be created whenever there is none. -/
theorem Device.Reserved.createGsi (h : d.Reserved) (htype : a.qpType = .gsi) (hfree : d.getQp 1 = none)
    (hports : d.ctx.ports ≠ []) (hcap : roceVerifyQpCap d.ctx a.cap = 0)
    (hpd : roceResourceGet d.ctx.pds a.pd ≠ none) (hscq : roceResourceGet d.cqs a.sendCq ≠ none) :
    ∃ d', d.createQp a calloc random0 random1 = .ok (1, d') := by
  obtain ⟨used, hgsi, -⟩ := h.gsi
  have hslot : roceResourceGet d.qps 1 = some .gsi := h.gsiSlot
  have hused : used = none := by
    unfold Device.getQp Device.objOf at hfree
    rw [hslot] at hfree
    dsimp only [Option.bind_some] at hfree
    rw [hgsi] at hfree
    exact hfree
  rw [hused] at hgsi
  obtain ⟨pd, hpd⟩ := Option.ne_none_iff_exists'.mp hpd
  obtain ⟨cq, hscq⟩ := Option.ne_none_iff_exists'.mp hscq
  unfold Device.createQp
  rw [if_neg (fun hno => hno.1 htype), if_neg (not_not.mpr hcap)]
  simp only [roceGetPd, hpd, roceGetCq, hscq]
  split
  · exact Device.createQpObj_gsi htype hgsi hports
  · exact Device.createQpObj_gsi htype hgsi hports

end create

/-- SMI and GSI are in the slots 0 and 1 under these handles, no other QP gets
their numbers, the assertions about GSI hold, and a GSI QP can be created while
there is none. -/
structure Device.SpecialKept (d : Device) : Prop where
  smi : roceResourceGet d.qps 0 = some .smi ∧ d.smi.map (·.handle) = some 0
  gsi : roceResourceGet d.qps 1 = some .gsi ∧ d.gsi.map (·.handle) = some 1
  number : ∀ a calloc random0 random1 ret d', a.qpType ≠ .gsi →
    d.createQp a calloc random0 random1 = .ok (ret, d') → 0 ≤ ret → 2 ≤ ret
  asserted : ∀ a calloc random0 random1,
    d.createQp a calloc random0 random1 ≠ .error (.abort .gsiHandle) ∧
      d.createQp a calloc random0 random1 ≠ .error (.abort .gsiAlloc)
  again : ∀ a calloc random0 random1, a.qpType = .gsi → d.getQp 1 = none → d.ctx.ports ≠ [] →
    roceVerifyQpCap d.ctx a.cap = 0 → roceResourceGet d.ctx.pds a.pd ≠ none →
    roceResourceGet d.cqs a.sendCq ≠ none → ∃ d', d.createQp a calloc random0 random1 = .ok (1, d')

theorem Device.Reserved.kept {d : Device} (h : d.Reserved) : d.SpecialKept := by
  constructor
  · exact ⟨h.smiSlot, by rw [h.smi]; rfl⟩
  · obtain ⟨used, hgsi, -⟩ := h.gsi
    exact ⟨h.gsiSlot, by rw [hgsi]; rfl⟩
  · intro a calloc random0 random1 ret d' htype hc hret
    cases Device.createQp_creates hc with
    | refused hneg hsame => omega
    | gsi o hgsi => exact absurd hgsi htype
    | heap i o htype hi hempty =>
      have := h.not_empty hempty
      omega
  · intro a calloc random0 random1
    constructor
    · intro hc
      rcases h.createQp_plain hc with he | he | he
      · cases he
      · cases he
      · cases he
    · intro hc
      rcases h.createQp_plain hc with he | he | he
      · cases he
      · cases he
      · cases he
  · intro a calloc random0 random1 htype hfree hports hcap hpd hscq
    exact h.createGsi htype hfree hports hcap hpd hscq

/-- **SMI and GSI stay** throughout every run that does not destroy the GSI QP,
if `roce_init_device` got the memory for both. -/
theorem devRun_special {ctx : RoceCtx} {para : RoceDevicePara} {calloc callocQp : Nat → Bool}
    {d : Device} (h0 : roceInitDevice ctx para calloc callocQp = .ok d) (hsmi : callocQp 0 = true)
    (hgsi : callocQp 1 = true) (ops : List DevOp)
    (hno : Machine.Along devStep (fun _ op => op ≠ .destroyQp 1) d ops) :
    Machine.Throughout devStep Device.SpecialKept d ops :=
  Machine.throughout_imp (fun _ h => h.kept)
    (Machine.throughout_of_along devStep_reserved (roceInitDevice_reserved h0 hsmi hgsi) hno)

/-- A GSI QP and an RC QP, of which the RC QP is destroyed. -/
theorem devRun_special_two :
    ∃ d, roceInitDevice smallCtx smallPara (fun _ => true) (fun _ => true) = .ok d ∧
      Machine.Throughout devStep Device.SpecialKept d
        [.allocPd true, .createCq 16 true, .createQp (smallQpArgs .gsi 0) true 0 0,
          .createQp (smallQpArgs .rc 0) true 0 0, .destroyQp 2] := by
  have hinit : roceInitDevice smallCtx smallPara (fun _ => true) (fun _ => true) = .ok _ := rfl
  refine ⟨_, hinit, devRun_special hinit rfl rfl _ ?_⟩
  have hno : ∀ (x : DevOp) (d : Device) (is : List DevOp), x ≠ .destroyQp 1 →
      (∀ d', devStep d x = .ok d' → Machine.Along devStep (fun _ op => op ≠ .destroyQp 1) d' is) →
        Machine.Along devStep (fun _ op => op ≠ .destroyQp 1) d (x :: is) := fun _ _ _ h1 h2 => ⟨h1, h2⟩
  refine hno _ _ _ (by simp) fun d1 _ => hno _ _ _ (by simp) fun d2 _ => hno _ _ _ (by simp)
    fun d3 _ => hno _ _ _ (by simp) fun d4 _ => hno _ _ _ (by simp) fun d5 _ => trivial

/-- A GSI QP that is destroyed cannot be created again: its handle is 0. -/
theorem devRun_special_destroyed :
    ¬ ∀ (ctx : RoceCtx) (para : RoceDevicePara) (calloc callocQp : Nat → Bool) (d : Device)
      (ops : List DevOp), roceInitDevice ctx para calloc callocQp = .ok d →
        Machine.Throughout devStep Device.SpecialKept d ops := by
  intro h
  obtain ⟨d, hd, t, ht, habort⟩ : ∃ d, roceInitDevice smallCtx smallPara (fun _ => true)
      (fun _ => true) = .ok d ∧ ∃ t, Machine.run devStep d
        [.allocPd true, .createCq 16 true, .createQp (smallQpArgs .gsi 0) true 0 0, .destroyQp 1] =
          .ok t ∧
        t.createQp (smallQpArgs .gsi 0) true 0 0 = .error (.abort .gsiHandle) :=
    ⟨_, rfl, _, rfl, rfl⟩
  have hkept := Machine.throughout_iff.mp (h _ _ _ _ d _ hd) _ [] t (List.append_nil _).symm ht
  exact (hkept.asserted _ _ _ _).1 habort

end Libroce
