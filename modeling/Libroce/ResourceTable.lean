import Libroce.Device
import Libroce.Lib.SlotMap

/-!
# The tables of `resource.c`

A table by the addresses it holds, beside the handles that its objects carry:
`res->handle` is written when an object is given a slot, and `roce_resource_get`
asserts that it is still the index.

    FreshRun r ops      no object is allocated that has a slot already
    Represents r m      the table is the slot map `m`

Main statement: `roceResource_refines`.
-/

namespace Libroce

open SlotMap

/-- `roce_resource`, and what `res->handle` holds for the objects -/
structure RoceResource where
  size : UInt32
  addr : List (Option Nat)
  handle : Nat → UInt32

/-- `roce_resource_init`; `spinInit` is what `roce_spin_init` returns and `calloc`
the answer of `roce_calloc`. -/
def RoceResource.init (size : UInt32) (spinInit : Int) (calloc : Bool) (handle : Nat → UInt32) :
    Except Int RoceResource :=
  if size = 0 ∨ size > roceMaxGeneral then .error eINVAL
  else if spinInit ≠ 0 then .error spinInit
  else if calloc then .ok ⟨size, List.replicate size.toNat none, handle⟩
  else .error eNOMEM

/-- `resource->addr` with `res` at `i`, and `res->handle = i` -/
def RoceResource.put (r : RoceResource) (addr : List (Option Nat)) (i res : Nat) : RoceResource :=
  { r with addr := addr, handle := Function.update r.handle res (UInt32.ofNat i) }

/-- `roce_resource_alloc` -/
def RoceResource.alloc (r : RoceResource) : Option Nat → Int × RoceResource
  | none => (eINVAL, r)
  | some res =>
    match roceResourceAlloc r.addr fun _ => res with
    | none => (eBUSY, r)
    | some (i, addr) => (i, r.put addr i res)

/-- `roce_resource_alloc_at` -/
def RoceResource.allocAt (r : RoceResource) (res : Option Nat) (index : UInt32) : Int × RoceResource :=
  match res with
  | none => (eINVAL, r)
  | some res =>
    if index ≥ r.size then (eINVAL, r)
    else
      match roceResourceGet r.addr index.toNat with
      | some _ => (eBUSY, r)
      | none => (index.toNat, r.put (r.addr.set index.toNat (some res)) index.toNat res)

/-- `roce_resource_get`; `none` is a failing assertion. -/
def RoceResource.get (r : RoceResource) (index : UInt32) : Option (Option Nat) :=
  if index ≥ r.size then some none
  else
    match roceResourceGet r.addr index.toNat with
    | none => some none
    | some res => if r.handle res = index then some (some res) else none

/-- `roce_resource_free` -/
def RoceResource.free (r : RoceResource) (index : UInt32) : Int × RoceResource :=
  if index ≥ r.size then (eINVAL, r)
  else
    match roceResourceFree r.addr index.toNat with
    | none => (eINVAL, r)
    | some addr => (0, { r with addr := addr })

/-! ## Runs -/

inductive ResourceOp where
  | alloc (res : Option Nat)
  | allocAt (res : Option Nat) (index : UInt32)
  | free (index : UInt32)

def ResourceOp.step (r : RoceResource) : ResourceOp → Int × RoceResource
  | .alloc res => r.alloc res
  | .allocAt res index => r.allocAt res index
  | .free index => r.free index

/-- The object that would be given a slot. -/
def ResourceOp.object : ResourceOp → Option Nat
  | .alloc res => res
  | .allocAt res _ => res
  | .free _ => none

/-- What is returned, call after call, and the table at the end. -/
def resourceRun (r : RoceResource) : List ResourceOp → List Int × RoceResource
  | [] => ([], r)
  | op :: ops => ((op.step r).1 :: (resourceRun (op.step r).2 ops).1, (resourceRun (op.step r).2 ops).2)

/-- No object is allocated while it has a slot. -/
def FreshRun (r : RoceResource) : List ResourceOp → Prop
  | [] => True
  | op :: ops => (∀ res, op.object = some res → ∀ i, roceResourceGet r.addr i ≠ some res) ∧
      FreshRun (op.step r).2 ops

/-! ## The slot map of a table -/

/-- The operation, by what it is for. -/
def ResourceOp.spec : ResourceOp → Op Nat
  | .alloc res => .alloc res
  | .allocAt res index => .allocAt res index.toNat
  | .free index => .free index.toNat

/-- The value that stands for an answer. -/
def ResourceOp.ret : ResourceOp → Answer → Int
  | .free _, .done _ => 0
  | _, .done i => i
  | _, .busy => eBUSY
  | _, .invalid => eINVAL

/-- The table holds what the map says, and every object its handle. -/
structure Represents {size : Nat} (r : RoceResource) (m : SlotMap size Nat) : Prop where
  bound : r.size.toNat = size
  length : r.addr.length = size
  slot : ∀ i, roceResourceGet r.addr i = m.slot i
  handle : ∀ i res, m.slot i = some res → (r.handle res).toNat = i

section represents

variable {size : Nat} {r : RoceResource} {m : SlotMap size Nat}

theorem Represents.put (h : Represents r m) {i res : Nat} (hi : i < size) (hfresh : m.Fresh res) :
    Represents (r.put (r.addr.set i (some res)) i res) (m.insert i res hi hfresh) := by
  have hsize := h.bound
  have hlt := r.size.toNat_lt
  refine ⟨h.bound, ?_, fun j => ?_, fun j res' hslot => ?_⟩
  · show (r.addr.set i (some res)).length = size
    rw [List.length_set, h.length]
  · show roceResourceGet (r.addr.set i (some res)) j = if j = i then some res else m.slot j
    unfold roceResourceGet
    by_cases hj : j = i
    · rw [hj, if_pos rfl, List.getElem?_set_self (by rw [h.length]; exact hi)]
      rfl
    · rw [if_neg hj, List.getElem?_set_ne (fun he => hj he.symm)]
      exact h.slot j
  · show (Function.update r.handle res (UInt32.ofNat i) res').toNat = j
    have hcase : (if j = i then some res else m.slot j) = some res' := hslot
    by_cases hj : j = i
    · rw [if_pos hj] at hcase
      obtain rfl := Option.some.inj hcase
      rw [Function.update_self, UInt32.toNat_ofNat', Nat.mod_eq_of_lt (by omega), hj]
    · rw [if_neg hj] at hcase
      have hne : res' ≠ res := by
        intro he
        rw [he] at hcase
        exact hfresh j hcase
      rw [Function.update_of_ne hne]
      exact h.handle j res' hcase

theorem Represents.erase (h : Represents r m) (i : Nat) :
    Represents { r with addr := r.addr.set i none } (m.erase i) := by
  refine ⟨h.bound, ?_, fun j => ?_, fun j res hslot => ?_⟩
  · show (r.addr.set i none).length = size
    rw [List.length_set, h.length]
  · show roceResourceGet (r.addr.set i none) j = if j = i then none else m.slot j
    unfold roceResourceGet
    by_cases hj : j = i
    · rw [hj, if_pos rfl, List.getElem?_set]
      by_cases hi : i < r.addr.length
      · rw [if_pos rfl, if_pos hi]
        rfl
      · rw [if_pos rfl, if_neg hi]
        rfl
    · rw [if_neg hj, List.getElem?_set_ne (fun he => hj he.symm)]
      exact h.slot j
  · have hslot : (if j = i then none else m.slot j) = some res := hslot
    by_cases hj : j = i
    · rw [if_pos hj] at hslot
      cases hslot
    · rw [if_neg hj] at hslot
      exact h.handle j res hslot

theorem Represents.lt_iff (h : Represents r m) (index : UInt32) : index ≥ r.size ↔ size ≤ index.toNat := by
  have hsize := h.bound
  rw [ge_iff_le, UInt32.le_iff_toNat_le, hsize]

/-- The least empty slot, when there is one. -/
theorem Represents.vacant (h : Represents r m) (i : Nat) : m.Vacant i ↔ r.addr[i]? = some none := by
  have hslot := h.slot i
  have hlen := h.length
  unfold roceResourceGet at hslot
  unfold SlotMap.Vacant
  rw [← hslot]
  constructor
  · rintro ⟨hi, hnone⟩
    rw [List.getElem?_eq_getElem (by omega)] at hnone ⊢
    rw [show r.addr[i] = none from hnone]
  · intro hnone
    rw [hnone]
    obtain ⟨hi, -⟩ := List.getElem?_eq_some_iff.mp hnone
    exact ⟨by omega, rfl⟩

theorem Represents.alloc (h : Represents r m) {res : Nat} (hfresh : m.Fresh res) :
    ∃ answer m', Step m (.alloc (some res)) answer m' ∧
      (r.alloc (some res)).1 = (ResourceOp.alloc (some res)).ret answer ∧
        Represents (r.alloc (some res)).2 m' := by
  unfold RoceResource.alloc roceResourceAlloc
  cases hfind : r.addr.findIdx? Option.isNone with
  | none =>
    refine ⟨.busy, m, .full fun i hi => ?_, rfl, h⟩
    rw [h.vacant] at hi
    have hall := List.findIdx?_eq_none_iff.mp hfind
    cases hall none (List.mem_of_getElem? hi)
  | some i =>
    obtain ⟨hlt, hnone, hleast⟩ := List.findIdx?_eq_some_iff_getElem.mp hfind
    have hvacant : m.Vacant i := by
      rw [h.vacant, List.getElem?_eq_getElem hlt, Option.isNone_iff_eq_none.mp hnone]
    refine ⟨.done i, _, .alloc hvacant (fun j hj => ?_) hfresh, rfl, h.put hvacant.1 hfresh⟩
    by_contra hji
    rw [h.vacant] at hj
    obtain ⟨hj', hval⟩ := List.getElem?_eq_some_iff.mp hj
    apply hleast j (by omega)
    rw [hval]
    rfl

theorem Represents.allocAt (h : Represents r m) {res : Nat} (hfresh : m.Fresh res) (index : UInt32) :
    ∃ answer m', Step m (.allocAt (some res) index.toNat) answer m' ∧
      (r.allocAt (some res) index).1 = (ResourceOp.allocAt (some res) index).ret answer ∧
      Represents (r.allocAt (some res) index).2 m' := by
  unfold RoceResource.allocAt
  simp only
  by_cases hrange : index ≥ r.size
  · rw [if_pos hrange]
    exact ⟨.invalid, m, .allocAtRange ((h.lt_iff index).mp hrange), rfl, h⟩
  · rw [if_neg hrange]
    have hi : index.toNat < size := by
      rw [h.lt_iff] at hrange
      omega
    have hslot := h.slot index.toNat
    cases hget : roceResourceGet r.addr index.toNat with
    | some b =>
      rw [hget] at hslot
      exact ⟨.busy, m, .occupied hslot.symm, rfl, h⟩
    | none =>
      rw [hget] at hslot
      exact ⟨.done index.toNat, _, .allocAt ⟨hi, hslot.symm⟩ hfresh, rfl, h.put hi hfresh⟩

theorem Represents.free (h : Represents r m) (index : UInt32) :
    ∃ answer m', Step m (.free index.toNat) answer m' ∧
      (r.free index).1 = (ResourceOp.free index).ret answer ∧ Represents (r.free index).2 m' := by
  unfold RoceResource.free roceResourceFree
  by_cases hrange : index ≥ r.size
  · rw [if_pos hrange]
    exact ⟨.invalid, m, .freeRange ((h.lt_iff index).mp hrange), rfl, h⟩
  · rw [if_neg hrange]
    have hi : index.toNat < size := by
      rw [h.lt_iff] at hrange
      omega
    have hslot := h.slot index.toNat
    cases hget : roceResourceGet r.addr index.toNat with
    | some b =>
      rw [hget] at hslot
      exact ⟨.done index.toNat, _, .free hslot.symm, rfl, h.erase index.toNat⟩
    | none =>
      rw [hget] at hslot
      exact ⟨.invalid, m, .freeVacant ⟨hi, hslot.symm⟩, rfl, h⟩

/-- One call is one step of the slot map. -/
theorem Represents.step (h : Represents r m) {op : ResourceOp}
    (hfresh : ∀ res, op.object = some res → ∀ i, roceResourceGet r.addr i ≠ some res) :
    ∃ answer m', Step m op.spec answer m' ∧ (op.step r).1 = op.ret answer ∧ Represents (op.step r).2 m' := by
  have hnew : ∀ res, op.object = some res → m.Fresh res := by
    intro res hobj i hslot
    rw [← h.slot] at hslot
    exact hfresh res hobj i hslot
  cases op with
  | alloc obj =>
    cases obj with
    | none => exact ⟨.invalid, m, .allocNull, rfl, h⟩
    | some res => exact h.alloc (hnew res rfl)
  | allocAt obj index =>
    cases obj with
    | none => exact ⟨.invalid, m, .allocAtNull, rfl, h⟩
    | some res => exact h.allocAt (hnew res rfl) index
  | free index => exact h.free index

theorem Represents.run (h : Represents r m) {ops : List ResourceOp} (hfresh : FreshRun r ops) :
    ∃ answers m', Run m (ops.map ResourceOp.spec) answers m' ∧
      (resourceRun r ops).1 = List.zipWith ResourceOp.ret ops answers ∧
        Represents (resourceRun r ops).2 m' := by
  induction ops generalizing r m with
  | nil => exact ⟨[], m, .nil, rfl, h⟩
  | cons op ops ih =>
    obtain ⟨hop, hops⟩ := hfresh
    obtain ⟨answer, m1, hstep, hret, h1⟩ := h.step hop
    obtain ⟨answers, m2, hrun, hrets, h2⟩ := ih h1 hops
    refine ⟨answer :: answers, m2, .cons hstep hrun, ?_, h2⟩
    show (op.step r).1 :: (resourceRun (op.step r).2 ops).1 = op.ret answer :: List.zipWith _ _ _
    rw [hret, hrets]

/-- `roce_resource_get` finds the object, with its index for a handle. -/
theorem Represents.get (h : Represents r m) (index : UInt32) :
    r.get index = some (m.slot index.toNat) ∧
      ∀ res, m.slot index.toNat = some res → r.handle res = index := by
  have hhandle : ∀ res, m.slot index.toNat = some res → r.handle res = index :=
    fun res hslot => UInt32.toNat_inj.mp (h.handle _ res hslot)
  refine ⟨?_, hhandle⟩
  have hslot := h.slot index.toNat
  unfold RoceResource.get
  by_cases hrange : index ≥ r.size
  · rw [if_pos hrange]
    cases hm : m.slot index.toNat with
    | none => rfl
    | some res =>
      have hi := m.inside hm
      rw [h.lt_iff] at hrange
      omega
  · rw [if_neg hrange]
    cases hget : roceResourceGet r.addr index.toNat with
    | none =>
      rw [hget] at hslot
      rw [← hslot]
    | some res =>
      rw [hget] at hslot
      show (if r.handle res = index then some (some res) else none) = _
      rw [if_pos (hhandle res hslot.symm), hslot]

end represents

/-- An empty table. -/
theorem RoceResource.init_represents {size : UInt32} {spinInit : Int} {calloc : Bool} {handle : Nat → UInt32}
    {r : RoceResource} (h : RoceResource.init size spinInit calloc handle = .ok r) :
    Represents r (SlotMap.empty size.toNat Nat) := by
  unfold RoceResource.init at h
  by_cases hsize : size = 0 ∨ size > roceMaxGeneral
  · rw [if_pos hsize] at h
    cases h
  by_cases hspin : spinInit ≠ 0
  · rw [if_neg hsize, if_pos hspin] at h
    cases h
  rw [if_neg hsize, if_neg hspin] at h
  cases calloc with
  | false => cases h
  | true =>
    obtain rfl := Except.ok.inj h
    refine ⟨rfl, List.length_replicate, fun i => ?_, fun i res hslot => by cases hslot⟩
    show ((List.replicate size.toNat none)[i]?).join = none
    rw [List.getElem?_replicate]
    by_cases hi : i < size.toNat
    · rw [if_pos hi]
      rfl
    · rw [if_neg hi]
      rfl

/-- **Tables.**  A table of any size is a partial injective map from its indices
to objects: every sequence of calls that allocates no object which has a slot
answers as the map does, and `roce_resource_get` reads the map. -/
theorem roceResource_refines {size : UInt32} {spinInit : Int} {calloc : Bool} {handle : Nat → UInt32}
    {r : RoceResource} (hinit : RoceResource.init size spinInit calloc handle = .ok r) {ops : List ResourceOp}
    (hfresh : FreshRun r ops) :
    ∃ answers, ∃ m : SlotMap size.toNat Nat,
      Run (SlotMap.empty size.toNat Nat) (ops.map ResourceOp.spec) answers m ∧
      (resourceRun r ops).1 = List.zipWith ResourceOp.ret ops answers ∧
      ∀ index, (resourceRun r ops).2.get index = some (m.slot index.toNat) ∧
        ∀ res, m.slot index.toNat = some res → (resourceRun r ops).2.handle res = index := by
  obtain ⟨answers, m, hrun, hrets, hm⟩ := (RoceResource.init_represents hinit).run hfresh
  exact ⟨answers, m, hrun, hrets, hm.get⟩

theorem ne_of_notMem {addr : List (Option Nat)} {res : Nat} (h : some res ∉ addr) (i : Nat) :
    roceResourceGet addr i ≠ some res := by
  intro hget
  exact h (List.mem_of_getElem? (Option.join_eq_some_iff.mp hget))

/-- Two slots: filled, one of them freed and filled again from the other end. -/
theorem roceResource_refines_reuse :
    ∃ answers, ∃ m : SlotMap 2 Nat,
      Run (SlotMap.empty 2 Nat)
        [.alloc (some 0x10), .allocAt (some 0x20) 1, .free 0, .alloc (some 0x30)] answers m ∧
      [0, 1, 0, 0] = List.zipWith ResourceOp.ret
        [.alloc (some 0x10), .allocAt (some 0x20) 1, .free 0, .alloc (some 0x30)] answers := by
  have hinit : RoceResource.init 2 0 true (fun _ => 7) = .ok ⟨2, [none, none], fun _ => 7⟩ := rfl
  have hfresh : FreshRun ⟨2, [none, none], fun _ => 7⟩
      [.alloc (some 0x10), .allocAt (some 0x20) 1, .free 0, .alloc (some 0x30)] := by
    refine ⟨fun res hres i => ?_, fun res hres i => ?_, fun res hres => ?_, fun res hres i => ?_, trivial⟩
    · obtain rfl := Option.some.inj hres
      exact ne_of_notMem (by decide) i
    · obtain rfl := Option.some.inj hres
      exact ne_of_notMem (by decide) i
    · cases hres
    · obtain rfl := Option.some.inj hres
      exact ne_of_notMem (by decide) i
  obtain ⟨answers, m, hrun, hrets, -⟩ := roceResource_refines hinit hfresh
  exact ⟨answers, m, hrun, hrets⟩

end Libroce
