import Libroce.DeviceFrame

/-!
# The QP table

What each call does to the table of QPs.  `Device.liveQps` are the QPs in use
and `Device.Placed` says that each of them knows the slot it sits in.  A call
adds one to them, takes one away or changes one:

    createQpObj_makes  : Makes      — refused, or a new QP in the GSI object or an empty slot
    Placed.destroyQp   : Destroys   — the QP leaves, its references are given back
    Placed.onQp        : Replaces   — the QP changes, the others stay
-/

namespace Libroce

open Machine (bind_eq_ok)

/-! ## Who is alive -/

/-- The QP object of its own that a slot points to. -/
def QpPtr.heapObj : QpPtr → Option QpObj
  | .smi => none
  | .gsi => none
  | .heap o => some o

/-- The GSI QP, while it is in use. -/
def Device.gsiQp (d : Device) : Option QpObj := d.gsi.bind (·.used)

/-- The QPs in use. -/
def Device.liveQps (d : Device) : List QpObj :=
  d.gsiQp.toList ++ d.qps.reduceOption.filterMap QpPtr.heapObj

theorem Device.length_liveQps_le (d : Device) : d.liveQps.length ≤ d.qps.length + 1 := by
  have h1 : d.gsiQp.toList.length ≤ 1 := by
    cases d.gsiQp with
    | none => exact Nat.zero_le 1
    | some o => exact Nat.le_refl 1
  have h2 := List.length_filterMap_le QpPtr.heapObj d.qps.reduceOption
  have h3 := Refs.length_entries_le d.qps
  unfold Device.liveQps
  rw [List.length_append]
  omega

/-- Each QP knows the slot it sits in; SMI is never used, and the GSI object is
in slot 1 as long as it has that handle. -/
structure Device.Placed (d : Device) : Prop where
  heap : ∀ i o, Refs.get d.qps i = some (.heap o) → o.qp.handle.toNat = i ∧ o.qp.qpType ≠ .gsi
  smi : ∀ g, d.smi = some g → g.used = none
  gsi : ∀ g, d.gsi = some g → g.handle = 1 → Refs.get d.qps 1 = some .gsi
  used : ∀ g o, d.gsi = some g → g.used = some o →
    g.handle = 1 ∧ o.qp.handle = 1 ∧ o.qp.qpType = .gsi

theorem Device.Placed.congr {d d' : Device} (h : d.Placed) (hqps : d'.qps = d.qps)
    (hsmi : d'.smi = d.smi) (hgsi : d'.gsi = d.gsi) : d'.Placed := by
  constructor
  · rw [hqps]
    exact h.heap
  · rw [hsmi]
    exact h.smi
  · rw [hgsi, hqps]
    exact h.gsi
  · rw [hgsi]
    exact h.used

/-- Where a QP that is found sits. -/
theorem Device.Placed.getQp {d : Device} {i : Nat} {o : QpObj} (h : d.Placed)
    (hget : d.getQp i = some o) :
    (Refs.get d.qps i = some (.heap o) ∧ o.qp.handle.toNat = i ∧ o.qp.qpType ≠ .gsi) ∨
    (Refs.get d.qps i = some .gsi ∧ Refs.get d.qps 1 = some .gsi ∧ d.gsi = some ⟨1, some o⟩ ∧
      o.qp.handle = 1 ∧ o.qp.qpType = .gsi) := by
  unfold Device.getQp at hget
  obtain ⟨ptr, hptr, hobj⟩ := Option.bind_eq_some_iff.mp hget
  cases ptr with
  | smi =>
    obtain ⟨g, hg, hused⟩ := Option.bind_eq_some_iff.mp hobj
    rw [h.smi g hg] at hused
    cases hused
  | gsi =>
    obtain ⟨g, hg, hused⟩ := Option.bind_eq_some_iff.mp hobj
    obtain ⟨h1, h2, h3⟩ := h.used g o hg hused
    refine Or.inr ⟨hptr, h.gsi g hg h1, ?_, h2, h3⟩
    rw [hg, ← h1, ← hused]
  | heap o' =>
    obtain rfl := Option.some.inj hobj
    exact Or.inl ⟨hptr, h.heap i o' hptr⟩

/-- The QPs in use are those that a handle leads to. -/
theorem Device.Placed.mem_liveQps {d : Device} (h : d.Placed) {o : QpObj} :
    o ∈ d.liveQps ↔ ∃ i, d.getQp i = some o := by
  unfold Device.liveQps
  rw [List.mem_append, Option.mem_toList, List.mem_filterMap]
  constructor
  · rintro (hgsi | ⟨ptr, hmem, hobj⟩)
    · obtain ⟨g, hg, hused⟩ := Option.bind_eq_some_iff.mp hgsi
      have hslot : roceResourceGet d.qps 1 = some .gsi := h.gsi g hg (h.used g o hg hused).1
      refine ⟨1, ?_⟩
      unfold Device.getQp
      rw [hslot]
      exact hgsi
    · obtain ⟨i, hi⟩ := Refs.mem_entries.mp hmem
      have hslot : roceResourceGet d.qps i = some ptr := hi
      refine ⟨i, ?_⟩
      unfold Device.getQp
      rw [hslot]
      cases ptr with
      | smi => cases hobj
      | gsi => cases hobj
      | heap q => exact hobj
  · rintro ⟨i, hi⟩
    rcases h.getQp hi with ⟨hslot, -⟩ | ⟨-, -, hgsi, -⟩
    · exact Or.inr ⟨.heap o, Refs.mem_entries.mpr ⟨i, hslot⟩, rfl⟩
    · left
      unfold Device.gsiQp
      rw [hgsi]
      rfl

/-! ## A slot that changes -/

section slot

variable {d d' : Device} {i : Nat} {o : QpObj}

/-- A slot filled with a QP of its own, or emptied. -/
theorem Device.Placed.set {v : Option QpPtr} (h : d.Placed) (hlt : i < d.qps.length)
    (hgsi1 : Refs.get d.qps i ≠ some .gsi)
    (hv : ∀ ptr, v = some ptr → ∃ o, ptr = .heap o ∧ o.qp.handle.toNat = i ∧ o.qp.qpType ≠ .gsi)
    (hqps : d'.qps = d.qps.set i v) (hsmi : d'.smi = d.smi) (hgsi : d'.gsi = d.gsi) :
    d'.Placed := by
  constructor
  · intro j q hj
    rw [hqps, Refs.get_set hlt] at hj
    by_cases hij : i = j
    · rw [if_pos hij] at hj
      obtain ⟨q', hq', hhandle, htype⟩ := hv _ hj
      obtain rfl := QpPtr.heap.inj hq'
      exact ⟨hhandle.trans hij, htype⟩
    · rw [if_neg hij] at hj
      exact h.heap j q hj
  · rw [hsmi]
    exact h.smi
  · rw [hgsi]
    intro g hg hh
    have h1 := h.gsi g hg hh
    rw [hqps, Refs.get_set hlt, if_neg, h1]
    rintro rfl
    exact hgsi1 h1
  · rw [hgsi]
    exact h.used

theorem liveQps_emptied (h : Refs.get d.qps i = some (.heap o)) :
    d.liveQps.Perm (o :: (d.gsiQp.toList ++ (d.qps.set i none).reduceOption.filterMap QpPtr.heapObj)) := by
  have hp := (Refs.entries_free h).filterMap QpPtr.heapObj
  rw [List.filterMap_cons] at hp
  exact (hp.append_left _).trans List.perm_middle

theorem liveQps_gsi (h : d.gsi = some ⟨1, some o⟩) :
    d.liveQps = o :: d.qps.reduceOption.filterMap QpPtr.heapObj := by
  unfold Device.liveQps Device.gsiQp
  rw [h]
  rfl

end slot

/-! ## Creating a QP -/

/-- A QP as `roce_create_qp` sets it up. -/
def QpObj.NewFor (o : QpObj) (a : QpArgs) (rcq : Bool) : Prop :=
  ∃ port random0 random1 qpn, o = a.newQp port rcq random0 random1 qpn

/-- What `roce_create_qp` does once it holds its references: it gives them back,
uses the GSI object, or fills an empty slot. -/
inductive Device.Makes (d : Device) (a : QpArgs) (rcq calloc : Bool) : Int → Device → Prop
  | refused {ret : Int} {d' : Device} (h : d.putResource a rcq = .ok (ret, d')) :
      Makes d a rcq calloc ret d'
  | gsi (o : QpObj) (htype : a.qpType = .gsi) (hfree : d.gsi = some ⟨1, none⟩)
      (hnew : o.NewFor a rcq) (hhandle : o.qp.handle = 1) :
      Makes d a rcq calloc 1 { d with gsi := some ⟨1, some o⟩ }
  | heap (i : Nat) (o : QpObj) (htype : a.qpType ≠ .gsi) (hcalloc : calloc = true)
      (hempty : d.qps[i]? = some none) (hnew : o.NewFor a rcq)
      (hhandle : o.qp.handle = UInt32.ofNat i) :
      Makes d a rcq calloc i { d with qps := d.qps.set i (some (.heap o)) }

section create

variable {d d' : Device} {a : QpArgs} {rcq calloc : Bool} {random0 random1 : UInt32} {ret : Int}

theorem Device.createQpObj_makes (hc : d.createQpObj a rcq calloc random0 random1 = .ok (ret, d')) :
    d.Makes a rcq calloc ret d' := by
  unfold Device.createQpObj at hc
  obtain ⟨port, -, hc⟩ := bind_eq_ok.mp hc
  by_cases hgsi : a.qpType = .gsi
  · rw [if_pos hgsi] at hc
    split at hc
    · cases hc
    · next g hg =>
      split at hc
      · exact .refused hc
      · next hunused =>
        obtain ⟨⟨⟩, hhandle, hc⟩ := bind_eq_ok.mp hc
        obtain ⟨rfl, rfl⟩ := Prod.mk.inj (Except.ok.inj hc)
        have h1 : g.handle = 1 := (roceAssert_ok hhandle).symm
        have hnone : g.used = none := Option.not_isSome_iff_eq_none.mp hunused
        have hg1 : g = ⟨1, none⟩ := by rw [← h1, ← hnone]
        subst hg1
        exact .gsi _ hgsi hg ⟨port, random0, random1, 1, rfl⟩ rfl
  · rw [if_neg hgsi] at hc
    split at hc
    · next hcalloc =>
      split at hc
      · exact .refused hc
      · next i qps halloc =>
        obtain ⟨rfl, rfl⟩ := Prod.mk.inj (Except.ok.inj hc)
        obtain ⟨hempty, rfl⟩ := roceResourceAlloc_ok halloc
        exact .heap i _ hgsi hcalloc hempty ⟨port, random0, random1, UInt32.ofNat i, rfl⟩ rfl
    · exact .refused hc

/-- The references that `roce_create_qp` takes; `rcq` tells whether the receive
CQ is one of them. -/
structure Device.TakesRefs (d : Device) (a : QpArgs) (rcq : Bool) (ctx : RoceCtx)
    (cqs : List (Option RoceCq)) : Prop where
  pd : roceGetPd d.ctx a.pd = some ctx
  cqs : ∃ cqs1, roceGetCq d.cqs a.sendCq = some cqs1 ∧
    if rcq then roceGetCq cqs1 a.recvCq = some cqs else roceGetCq cqs1 a.recvCq = none ∧ cqs = cqs1

/-- `roce_create_qp` fails before that, or makes the QP. -/
theorem Device.createQp_makes (hc : d.createQp a calloc random0 random1 = .ok (ret, d')) :
    ret < 0 ∧ (d' = d ∨ ∃ ctx ctx', roceGetPd d.ctx a.pd = some ctx ∧
        assertPutPd ctx a.pd = .ok ctx' ∧ d' = { d with ctx := ctx' }) ∨
      ∃ rcq ctx cqs, d.TakesRefs a rcq ctx cqs ∧
        Device.Makes { d with ctx := ctx, cqs := cqs } a rcq calloc ret d' ∧
        (a.qpType = .gsi ∨ a.qpType = .rc ∨ a.qpType = .ud) ∧ roceVerifyQpCap d.ctx a.cap = 0 := by
  unfold Device.createQp at hc
  split at hc
  · obtain ⟨rfl, rfl⟩ := Prod.mk.inj (Except.ok.inj hc)
    exact Or.inl ⟨by decide, Or.inl rfl⟩
  next htype =>
  split at hc
  · obtain ⟨rfl, rfl⟩ := Prod.mk.inj (Except.ok.inj hc)
    exact Or.inl ⟨by decide, Or.inl rfl⟩
  next hcap =>
  split at hc
  · obtain ⟨rfl, rfl⟩ := Prod.mk.inj (Except.ok.inj hc)
    exact Or.inl ⟨by decide, Or.inl rfl⟩
  next ctx hpd =>
  split at hc
  · obtain ⟨ctx', hput, hc⟩ := bind_eq_ok.mp hc
    obtain ⟨rfl, rfl⟩ := Prod.mk.inj (Except.ok.inj hc)
    exact Or.inl ⟨by decide, Or.inr ⟨ctx, ctx', hpd, hput, rfl⟩⟩
  next cqs1 hscq =>
  have hkind : a.qpType = .gsi ∨ a.qpType = .rc ∨ a.qpType = .ud := by
    by_contra hno
    simp only [not_or] at hno
    exact htype hno
  split at hc
  · next hnone =>
    refine Or.inr ⟨false, ctx, cqs1, ⟨hpd, cqs1, hscq, ?_⟩, Device.createQpObj_makes hc, hkind,
      not_not.mp hcap⟩
    exact ⟨hnone, rfl⟩
  · next cqs2 hrcq =>
    exact Or.inr ⟨true, ctx, cqs2, ⟨hpd, cqs1, hscq, hrcq⟩, Device.createQpObj_makes hc, hkind,
      not_not.mp hcap⟩

theorem Device.putResource_same (hput : d.putResource a rcq = .ok (ret, d')) :
    ret < 0 ∧ ∃ ctx cqs, assertPutPd d.ctx a.pd = .ok ctx ∧ d' = { d with ctx := ctx, cqs := cqs } := by
  unfold Device.putResource at hput
  obtain ⟨ctx, hpd, hput⟩ := bind_eq_ok.mp hput
  obtain ⟨cqs, -, hput⟩ := bind_eq_ok.mp hput
  cases rcq with
  | false =>
    obtain ⟨rfl, rfl⟩ := Prod.mk.inj (Except.ok.inj hput)
    exact ⟨by decide, ctx, cqs, hpd, rfl⟩
  | true =>
    obtain ⟨cqs2, -, hput⟩ := bind_eq_ok.mp hput
    obtain ⟨rfl, rfl⟩ := Prod.mk.inj (Except.ok.inj hput)
    exact ⟨by decide, ctx, cqs2, hpd, rfl⟩

/-- The QP that is made joins the live ones, in a place of its own. -/
theorem Device.Makes.live (hm : d.Makes a rcq calloc ret d') (h : d.Placed)
    (hlen : d.qps.length ≤ 2 ^ 24) :
    d.putResource a rcq = .ok (ret, d') ∨
      ∃ o, o.NewFor a rcq ∧ d'.liveQps.Perm (o :: d.liveQps) ∧ d'.Placed ∧
        d'.qps.length = d.qps.length ∧ d'.ctx = d.ctx ∧ d'.cqs = d.cqs := by
  cases hm with
  | refused hput => exact Or.inl hput
  | gsi o htype hfree hnew hhandle =>
    have hgsi : o.qp.qpType = .gsi := by
      obtain ⟨port, random0, random1, qpn, rfl⟩ := hnew
      exact htype
    refine Or.inr ⟨o, hnew, ?_, ⟨h.heap, h.smi, ?_, ?_⟩, rfl, rfl, rfl⟩
    · unfold Device.liveQps Device.gsiQp
      rw [hfree]
      exact List.Perm.refl _
    · intro g _ _
      exact h.gsi _ hfree rfl
    · rintro g q hg hq
      obtain rfl := Option.some.inj hg
      obtain rfl := Option.some.inj hq
      exact ⟨rfl, hhandle, hgsi⟩
  | heap i o htype hcalloc hempty hnew hhandle =>
    have hlt : i < d.qps.length := (List.getElem?_eq_some_iff.mp hempty).1
    have hkind : o.qp.qpType ≠ .gsi := by
      obtain ⟨port, random0, random1, qpn, rfl⟩ := hnew
      exact htype
    refine Or.inr ⟨o, hnew, ?_, h.set (v := some (.heap o)) hlt ?_ ?_ rfl rfl rfl, List.length_set,
      rfl, rfl⟩
    · have hp := (Refs.entries_alloc (QpPtr.heap o) hempty).filterMap QpPtr.heapObj
      rw [List.filterMap_cons] at hp
      exact (hp.append_left _).trans List.perm_middle
    · intro hgsi
      rw [Refs.getElem?_of_get hgsi] at hempty
      cases hempty
    · intro ptr hptr
      obtain rfl := Option.some.inj hptr
      refine ⟨o, rfl, ?_, hkind⟩
      rw [hhandle, UInt32.toNat_ofNat']
      omega

end create

/-! ## Destroying a QP -/

/-- What `roce_destroy_qp` does when it finds the QP `o`. -/
structure Device.Destroys (d : Device) (i : Nat) (o : QpObj) (d' : Device) : Prop where
  got : d.getQp i = some o
  hasRcq : o.hasRcq = true
  refs : ∃ ctx1 ctx2 cqs1, assertPutPd d.ctx o.qp.pd = .ok ctx1 ∧
    assertPutCq d.cqs o.qp.scq = .ok cqs1 ∧ assertPutCq cqs1 o.qp.rcq = .ok d'.cqs ∧
    freeSendWrs ctx1 o.qp.sq = .ok ctx2 ∧ freeRecvWrs ctx2 o.qp.rq = .ok d'.ctx
  live : d.liveQps.Perm (o :: d'.liveQps)
  placed : d'.Placed
  qps : d'.qps.length = d.qps.length

section destroy

variable {d d' : Device} {i : Nat} {ret : Int}

theorem Device.Placed.destroyQp (h : d.Placed) (hd : d.destroyQp i = .ok (ret, d')) :
    ∃ o, d.Destroys i o d' := by
  unfold Device.destroyQp at hd
  split at hd
  · cases hd
  next o hget =>
  split at hd
  swap
  · cases hd
  next hhas =>
  obtain ⟨ctx1, hpd, hd⟩ := bind_eq_ok.mp hd
  obtain ⟨cqs1, hscq, hd⟩ := bind_eq_ok.mp hd
  obtain ⟨cqs2, hrcq, hd⟩ := bind_eq_ok.mp hd
  obtain ⟨ctx2, hsend, hd⟩ := bind_eq_ok.mp hd
  obtain ⟨ctx3, hrecv, hd⟩ := bind_eq_ok.mp hd
  obtain ⟨-, rfl⟩ := Prod.mk.inj (Except.ok.inj hd)
  unfold Device.releaseQp
  rcases h.getQp hget with ⟨hslot, hhandle, htype⟩ | ⟨-, hslot, hgsi, hhandle, htype⟩
  · have hlt := Refs.lt_of_get hslot
    rw [if_neg htype, hhandle]
    refine ⟨o, hget, hhas, ⟨ctx1, ctx2, cqs1, hpd, hscq, hrcq, hsend, hrecv⟩, liveQps_emptied hslot,
      h.set (v := none) hlt ?_ ?_ rfl rfl rfl, List.length_set⟩
    · rw [hslot]
      intro hno
      cases hno
    · intro ptr hptr
      cases hptr
  · have hlt := Refs.lt_of_get hslot
    have h1 : o.qp.handle.toNat = 1 := by
      rw [hhandle]
      rfl
    have hreleased : d.gsi.map (fun _ => (⟨0, none⟩ : SpecialQp)) = some ⟨0, none⟩ := by
      rw [hgsi]
      rfl
    rw [if_pos htype, h1, hreleased]
    refine ⟨o, hget, hhas, ⟨ctx1, ctx2, cqs1, hpd, hscq, hrcq, hsend, hrecv⟩, ?_, ⟨?_, h.smi, ?_, ?_⟩,
      List.length_set⟩
    · rw [liveQps_gsi hgsi]
      exact ((Refs.entries_free hslot).filterMap QpPtr.heapObj).cons o
    · intro j q hj
      have hj' : Refs.get (d.qps.set 1 none) j = some (.heap q) := hj
      rw [Refs.get_set hlt] at hj'
      split at hj'
      · cases hj'
      · exact h.heap j q hj'
    · rintro g hg hh
      obtain rfl := Option.some.inj hg
      cases hh
    · rintro g q hg hq
      obtain rfl := Option.some.inj hg
      cases hq

end destroy

/-! ## Calls on a QP -/

/-- What a call on the QP `o` does: it is replaced, the `rest` stay. -/
structure Device.Replaces (d : Device) (i : Nat) (call : QpCall) (o : QpObj) (s : St)
    (rest : List QpObj) (d' : Device) : Prop where
  got : d.getQp i = some o
  step : qpStep ⟨d.ctx, o.qp⟩ call = .ok s
  old : d.liveQps.Perm (o :: rest)
  new : d'.liveQps.Perm ({ o with qp := s.qp } :: rest)
  ctx : d'.ctx = s.ctx
  cqs : d'.cqs = d.cqs
  placed : d'.Placed
  qps : d'.qps.length = d.qps.length

theorem Device.Placed.onQp {d d' : Device} {i : Nat} {call : QpCall} (h : d.Placed)
    (hc : d.onQp i call = .ok d') : ∃ o s rest, d.Replaces i call o s rest d' := by
  unfold Device.onQp at hc
  split at hc
  · cases hc
  next o hget =>
  obtain ⟨s, hs, hc⟩ := bind_eq_ok.mp hc
  obtain rfl := Except.ok.inj hc
  have hlinks : s.qp.links = o.qp.links := (qpStep_keeps hs).links
  simp only [RoceQp.links, Prod.mk.injEq] at hlinks
  obtain ⟨hhandle', htype', -⟩ := hlinks
  unfold Device.putBack
  rcases h.getQp hget with ⟨hslot, hhandle, htype⟩ | ⟨hslot, hone, hgsi, hhandle, htype⟩
  · have hslot' : roceResourceGet d.qps i = some (.heap o) := hslot
    simp only [hslot']
    refine ⟨o, s, _, hget, hs, liveQps_emptied hslot, ?_, rfl, rfl,
      h.set (v := some (.heap { o with qp := s.qp })) (Refs.lt_of_get hslot) ?_ ?_ rfl rfl rfl,
      List.length_set⟩
    · have hp := (Refs.entries_replace (QpPtr.heap { o with qp := s.qp }) hslot).filterMap QpPtr.heapObj
      rw [List.filterMap_cons] at hp
      exact (hp.append_left _).trans List.perm_middle
    · rw [hslot]
      intro hno
      cases hno
    · intro ptr hptr
      obtain rfl := Option.some.inj hptr
      exact ⟨_, rfl, by rw [← hhandle, hhandle'], by rw [htype']; exact htype⟩
  · have hslot' : roceResourceGet d.qps i = some .gsi := hslot
    have hput : d.gsi.map (fun g => { g with used := some { o with qp := s.qp } }) =
        some ⟨1, some { o with qp := s.qp }⟩ := by
      rw [hgsi]
      rfl
    simp only [hslot', hput]
    refine ⟨o, s, d.qps.reduceOption.filterMap QpPtr.heapObj, hget, hs, ?_, ?_, rfl, rfl,
      ⟨h.heap, h.smi, fun _ _ _ => hone, ?_⟩, rfl⟩
    · rw [liveQps_gsi hgsi]
    · exact List.Perm.refl _
    · rintro g q hg hq
      obtain rfl := Option.some.inj hg
      obtain rfl := Option.some.inj hq
      exact ⟨rfl, hhandle'.trans hhandle, htype'.trans htype⟩

end Libroce
