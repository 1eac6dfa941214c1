import Libroce.Device
import Libroce.Lib.Blocks

/-!
# The memory of the tables

`roce_init_device` allocates a table for each of seven resources, and frees them
again when one fails.  `resource->size` says that a table is there; no function
sets it back.

    DeviceMem               the records of the tables, and what is done with their memory
    DeviceMem.initDevice    roce_init_device
    DeviceMem.freeCtx       roce_free_ctx
    Tidy es                 no dead table is used or freed, and none is left
    CleanFailure m          nothing that was freed is recorded, and what follows is tidy

Main statement: `initDevice_clean`.
-/

namespace Libroce

open Blocks (run)

abbrev TableEvent := Blocks.Event (Option Nat)

/-- `roce_resource`: its size and the block that `addr` points to -/
structure ResourceRecord where
  size : UInt32
  addr : Option Nat

/-- `roce_device`.  A block is named by its number among the allocations; SMI and
GSI count only as pointers that are set; `used p i` says that the entry `i` behind
`p` is not `NULL`. -/
structure DeviceMem where
  resources : List ResourceRecord
  smi : Bool
  gsi : Bool
  used : Option Nat → Nat → Bool
  allocs : Nat
  trace : List TableEvent

/-- The device of a context that `roce_create_ctx` has just allocated. -/
def DeviceMem.fresh : DeviceMem := ⟨List.replicate 7 ⟨0, none⟩, false, false, fun _ _ => false, 0, []⟩

def DeviceMem.emit (m : DeviceMem) (es : List TableEvent) : DeviceMem :=
  { m with trace := m.trace ++ es }

/-! ## Tables -/

/-- `roce_resource_init`; `spinInit` and `calloc` are what `roce_spin_init` and
`roce_calloc` answer. -/
def DeviceMem.resourceInit (m : DeviceMem) (i : Nat) (size : UInt32) (spinInit : Int) (calloc : Bool) :
    Int × DeviceMem :=
  if size = 0 ∨ size > roceMaxGeneral then (eINVAL, m)
  else if spinInit ≠ 0 then (spinInit, m)
  -- the size is stored before the allocation is looked at
  else if calloc then
    (0, ({ m with
      resources := m.resources.set i ⟨size, some m.allocs⟩
      used := Function.update m.used (some m.allocs) fun _ => false
      allocs := m.allocs + 1 } : DeviceMem).emit [.alloc (some m.allocs)])
  else (eNOMEM, { m with resources := m.resources.set i ⟨size, none⟩ })

/-- `roce_resource_destroy`; to free `NULL` does nothing. -/
def resourceDestroy (resource : ResourceRecord) : List TableEvent :=
  if resource.size = 0 then []
  else if resource.addr = none then []
  else [.free resource.addr]

/-- `roce_destroy_all_resources` -/
def DeviceMem.destroyAllResources (m : DeviceMem) : DeviceMem := m.emit (m.resources.flatMap resourceDestroy)

/-- The table of the QPs, `ROCE_RESOURCE_QP`. -/
def DeviceMem.qpTable (m : DeviceMem) : ResourceRecord := m.resources.getD 4 ⟨0, none⟩

/-- `roce_resource_alloc_at` on it, and whether it succeeds -/
def DeviceMem.resourceAllocAt (m : DeviceMem) (index : Nat) : Bool × DeviceMem :=
  let p := m.qpTable.addr
  if index ≥ m.qpTable.size.toNat then (false, m)
  else if m.used p index then (false, m.emit [.use p])
  else
    (true, ({ m with used := Function.update m.used p (Function.update (m.used p) index true) } :
      DeviceMem).emit [.use p])

/-- `roce_resource_free` on it -/
def DeviceMem.resourceFree (m : DeviceMem) (index : Nat) : DeviceMem :=
  let p := m.qpTable.addr
  if index ≥ m.qpTable.size.toNat then m
  else
    ({ m with used := Function.update m.used p (Function.update (m.used p) index false) } :
      DeviceMem).emit [.use p]

/-! ## The device -/

/-- The loop of `roce_init_device` over `resources[]`, and whether it reaches the end -/
def DeviceMem.initResources (spinInit : Nat → Int) (calloc : Nat → Bool) :
    Nat → List (UInt32 × UInt32 × UInt32) → DeviceMem → Bool × DeviceMem
  | _, [], m => (true, m)
  | i, (size, min, max) :: rs, m =>
    if size < min ∨ size > max then (false, m)
    else if size = 0 then initResources spinInit calloc (i + 1) rs m
    else
      let r := m.resourceInit i size (spinInit i) (calloc i)
      if r.1 ≠ 0 then (false, r.2) else initResources spinInit calloc (i + 1) rs r.2

/-- `roce_alloc_special_qps`.  Where it fails after the first allocation, `dev.smi`
keeps pointing to what was freed. -/
def DeviceMem.allocSpecialQps (m : DeviceMem) (calloc : Nat → Bool) : DeviceMem :=
  if calloc 0 then
    let r := ({ m with smi := true } : DeviceMem).resourceAllocAt 0
    if r.1 then
      if calloc 1 then
        let q := ({ r.2 with gsi := true } : DeviceMem).resourceAllocAt 1
        if q.1 then q.2 else q.2.resourceFree 0
      else ({ r.2 with gsi := false } : DeviceMem).resourceFree 0
    else r.2
  else { m with smi := false }

/-- `roce_destroy_special_qps`, when GSI has not been created -/
def DeviceMem.destroySpecialQps (m : DeviceMem) : DeviceMem :=
  let m := if m.smi then m.resourceFree 0 else m
  if m.gsi then m.resourceFree 1 else m

/-- `roce_init_device` -/
def DeviceMem.initDevice (m : DeviceMem) (ctx : RoceCtx) (para : RoceDevicePara) (spinInit : Nat → Int)
    (calloc callocQp : Nat → Bool) : Int × DeviceMem :=
  if para.maxMrSize < ctx.pageSize ∨ !rocePowerOf2 para.maxMrSize.toUInt64 then (eINVAL, m)
  else if para.maxSge.toNat ≥ roceMaxSge then (eINVAL, m)
  else if para.maxInlineData ≥ roceMaxInlineData then (eINVAL, m)
  else if para.maxPkeys = 0 ∨ para.maxPkeys > roceMaxPkey then (eINVAL, m)
  else if para.physPortCnt = 0 ∨ para.physPortCnt > roceMaxPorts then (eINVAL, m)
  else
    let r := m.initResources spinInit calloc 0 (devResources para)
    if r.1 then (0, r.2.allocSpecialQps callocQp) else (eNOMEM, r.2.destroyAllResources)

/-- What `roce_free_dev` does with a table: it looks at every entry and frees it. -/
def freeTable (resource : ResourceRecord) : List TableEvent :=
  if resource.size = 0 then []
  else List.replicate resource.size.toNat (.use resource.addr) ++ resourceDestroy resource

/-- `roce_free_dev` -/
def DeviceMem.freeDev (m : DeviceMem) : DeviceMem :=
  m.destroySpecialQps.emit (m.destroySpecialQps.resources.flatMap freeTable)

/-- `roce_free_ctx` -/
def DeviceMem.freeCtx (m : DeviceMem) : DeviceMem := m.freeDev

/-! ## Clean failures -/

/-- Every table that is used or freed is live, and at the end none is: each was
freed once. -/
def Tidy (es : List TableEvent) : Prop := run ∅ es = some ∅

/-- After a failure no record points to a freed table, and `roce_free_ctx` is tidy,
at once or after a retry that succeeds. -/
structure CleanFailure (m : DeviceMem) : Prop where
  records : ∀ r ∈ m.resources, r.size ≠ 0 → .free r.addr ∉ m.trace
  freeCtx : Tidy m.freeCtx.trace
  retry : ∀ ctx para spinInit calloc callocQp, (m.initDevice ctx para spinInit calloc callocQp).1 = 0 →
    Tidy (m.initDevice ctx para spinInit calloc callocQp).2.freeCtx.trace

/-- One of the checks before the loop fails. -/
def ParaRefused (ctx : RoceCtx) (para : RoceDevicePara) : Prop :=
  (para.maxMrSize < ctx.pageSize ∨ !rocePowerOf2 para.maxMrSize.toUInt64) ∨
    para.maxSge.toNat ≥ roceMaxSge ∨ para.maxInlineData ≥ roceMaxInlineData ∨
    (para.maxPkeys = 0 ∨ para.maxPkeys > roceMaxPkey) ∨
    (para.physPortCnt = 0 ∨ para.physPortCnt > roceMaxPorts)

/-- The failure comes before the size of the first table, that of the PDs, is
stored. -/
def FailsFirst (ctx : RoceCtx) (para : RoceDevicePara) (spinInit : Nat → Int) : Prop :=
  ParaRefused ctx para ∨ (para.maxPd < 1 ∨ para.maxPd > roceMaxGeneral) ∨ spinInit 0 ≠ 0

section tables

variable {m m' : DeviceMem} {ctx : RoceCtx} {para : RoceDevicePara} {spinInit : Nat → Int}
  {calloc callocQp : Nat → Bool}

@[simp] theorem DeviceMem.emit_trace (m : DeviceMem) (es : List TableEvent) :
    (m.emit es).trace = m.trace ++ es := rfl

/-! ## SMI and GSI -/

/-- The QP table alone is looked at, if it is there. -/
def QpTableOnly (m m' : DeviceMem) : Prop :=
  m'.resources = m.resources ∧
    ∃ n, m'.trace = m.trace ++ List.replicate n (.use m.qpTable.addr) ∧ (n ≠ 0 → m.qpTable.size ≠ 0)

theorem QpTableOnly.refl (m : DeviceMem) : QpTableOnly m m :=
  ⟨rfl, 0, (List.append_nil _).symm, fun h => absurd rfl h⟩

theorem QpTableOnly.trans {m'' : DeviceMem} (h1 : QpTableOnly m m') (h2 : QpTableOnly m' m'') :
    QpTableOnly m m'' := by
  obtain ⟨hres1, n1, htrace1, hsize1⟩ := h1
  obtain ⟨hres2, n2, htrace2, hsize2⟩ := h2
  have htable : m'.qpTable = m.qpTable := by
    unfold DeviceMem.qpTable
    rw [hres1]
  refine ⟨hres2.trans hres1, n1 + n2, ?_, ?_⟩
  · rw [htrace2, htrace1, htable, List.append_assoc, ← List.replicate_add]
  · rw [htable] at hsize2
    intro hn
    by_cases hn1 : n1 = 0
    · exact hsize2 (by omega)
    · exact hsize1 hn1

/-- One entry. -/
theorem QpTableOnly.entry {m1 : DeviceMem} {index : Nat} (hres : m1.resources = m.resources)
    (htrace : m1.trace = m.trace) (hindex : ¬index ≥ m.qpTable.size.toNat) :
    QpTableOnly m (m1.emit [.use m.qpTable.addr]) := by
  refine ⟨hres, 1, ?_, fun _ hzero => ?_⟩
  · rw [DeviceMem.emit_trace, htrace]
    rfl
  · rw [hzero] at hindex
    exact hindex (Nat.zero_le _)

theorem resourceAllocAt_only (m : DeviceMem) (index : Nat) : QpTableOnly m (m.resourceAllocAt index).2 := by
  unfold DeviceMem.resourceAllocAt
  dsimp only
  by_cases hindex : index ≥ m.qpTable.size.toNat
  · rw [if_pos hindex]
    exact .refl m
  · rw [if_neg hindex]
    split
    · exact .entry rfl rfl hindex
    · exact .entry rfl rfl hindex

theorem resourceFree_only (m : DeviceMem) (index : Nat) : QpTableOnly m (m.resourceFree index) := by
  unfold DeviceMem.resourceFree
  dsimp only
  by_cases hindex : index ≥ m.qpTable.size.toNat
  · rw [if_pos hindex]
    exact .refl m
  · rw [if_neg hindex]
    exact .entry rfl rfl hindex

/-- The pointers to SMI and GSI are no tables. -/
theorem QpTableOnly.pointers (m : DeviceMem) (smi gsi : Bool) :
    QpTableOnly m { m with smi := smi, gsi := gsi } :=
  .refl m

theorem allocSpecialQps_only (m : DeviceMem) (calloc : Nat → Bool) :
    QpTableOnly m (m.allocSpecialQps calloc) := by
  unfold DeviceMem.allocSpecialQps
  dsimp only
  have hsmi : QpTableOnly m (({ m with smi := true } : DeviceMem).resourceAllocAt 0).2 :=
    (QpTableOnly.pointers m true m.gsi).trans (resourceAllocAt_only _ 0)
  generalize ({ m with smi := true } : DeviceMem).resourceAllocAt 0 = r at hsmi
  have hgsi : QpTableOnly m (({ r.2 with gsi := true } : DeviceMem).resourceAllocAt 1).2 :=
    (hsmi.trans (.pointers r.2 r.2.smi true)).trans (resourceAllocAt_only _ 1)
  generalize ({ r.2 with gsi := true } : DeviceMem).resourceAllocAt 1 = q at hgsi
  split
  · split
    · split
      · split
        · exact hgsi
        · exact hgsi.trans (resourceFree_only _ 0)
      · exact (hsmi.trans (.pointers r.2 r.2.smi false)).trans (resourceFree_only _ 0)
    · exact hsmi
  · exact .pointers m false m.gsi

theorem destroySpecialQps_only (m : DeviceMem) : QpTableOnly m m.destroySpecialQps := by
  have hsmi : QpTableOnly m (if m.smi then m.resourceFree 0 else m) := by
    split
    · exact resourceFree_only m 0
    · exact .refl m
  unfold DeviceMem.destroySpecialQps
  dsimp only
  generalize (if m.smi then m.resourceFree 0 else m) = m1 at hsmi
  split
  · exact hsmi.trans (resourceFree_only m1 1)
  · exact hsmi

/-! ## The loop -/

/-- The table that a record stands for. -/
def ResourceRecord.table (r : ResourceRecord) : Option Nat := if r.size = 0 then none else r.addr

theorem resourceInit_zero {i : Nat} {size : UInt32} {spin : Int} {c : Bool}
    (h : (m.resourceInit i size spin c).1 = 0) :
    size ≠ 0 ∧ (m.resourceInit i size spin c).2.resources = m.resources.set i ⟨size, some m.allocs⟩ ∧
      (m.resourceInit i size spin c).2.trace = m.trace ++ [.alloc (some m.allocs)] ∧
      (m.resourceInit i size spin c).2.allocs = m.allocs + 1 := by
  have hinval : ¬eINVAL = 0 := by decide
  have hnomem : ¬eNOMEM = 0 := by decide
  unfold DeviceMem.resourceInit at h ⊢
  by_cases hsize : size = 0 ∨ size > roceMaxGeneral
  · rw [if_pos hsize] at h
    exact absurd h hinval
  · rw [if_neg hsize] at h ⊢
    by_cases hspin : spin ≠ 0
    · rw [if_pos hspin] at h
      exact absurd h hspin
    · rw [if_neg hspin] at h ⊢
      cases c with
      | true => exact ⟨fun hz => hsize (Or.inl hz), rfl, rfl, rfl⟩
      | false => exact absurd h hnomem

/-- The loop has made `news` of the records from `i` on, with the next `n` blocks. -/
structure Makes (m m' : DeviceMem) (i : Nat) (news : List ResourceRecord) (n : Nat) : Prop where
  resources : m'.resources = m.resources.take i ++ news
  trace : m'.trace = m.trace ++ ((List.range' m.allocs n).map some).map .alloc
  tables : news.filterMap ResourceRecord.table = List.range' m.allocs n
  present : ∀ r ∈ news, r.size ≠ 0 → r.addr ≠ none

/-- A resource that may have size 0 and has it keeps its record, so that has to be
empty. -/
def ZeroKept (resources : List ResourceRecord) (i : Nat) (rs : List (UInt32 × UInt32 × UInt32)) : Prop :=
  ∀ k max, rs[k]? = some (0, 0, max) → ∃ r, resources[i + k]? = some r ∧ r.size = 0

/-- **The loop that reaches the end.** -/
theorem initResources_makes {rs : List (UInt32 × UInt32 × UInt32)} {i : Nat}
    (h : (m.initResources spinInit calloc i rs).1 = true) (hlen : m.resources.length = i + rs.length)
    (hzero : ZeroKept m.resources i rs) :
    ∃ news n, Makes m (m.initResources spinInit calloc i rs).2 i news n := by
  induction rs generalizing i m with
  | nil =>
    have htake : m.resources.take i = m.resources :=
      List.take_of_length_le (by rw [hlen]; exact Nat.le_refl _)
    refine ⟨[], 0, ?_, (List.append_nil _).symm, rfl, fun r hr => absurd hr List.not_mem_nil⟩
    rw [htake, List.append_nil]
    rfl
  | cons r rs ih =>
    obtain ⟨size, min, max⟩ := r
    rw [List.length_cons] at hlen
    have hi : i < m.resources.length := by omega
    unfold DeviceMem.initResources at h ⊢
    by_cases hrange : size < min ∨ size > max
    · rw [if_pos hrange] at h
      cases h
    rw [if_neg hrange] at h ⊢
    by_cases hsize : size = 0
    · rw [if_pos hsize] at h ⊢
      have hnext : ZeroKept m.resources (i + 1) rs := by
        intro k max hk
        rw [Nat.add_right_comm, Nat.add_assoc]
        exact hzero (k + 1) max hk
      have hmin : min = 0 := by
        by_contra hne
        rw [hsize] at hrange
        exact hrange (Or.inl (UInt32.pos_iff_ne_zero.mpr hne))
      obtain ⟨old, hold, hempty⟩ := hzero 0 max (by rw [hsize, hmin]; rfl)
      obtain ⟨news, n, hmakes⟩ := ih h (by omega) hnext
      have htake : m.resources.take (i + 1) = m.resources.take i ++ [old] := by
        rw [List.take_add_one, show m.resources[i]? = some old from hold]
        rfl
      refine ⟨old :: news, n, ?_, hmakes.trace, ?_, ?_⟩
      · rw [hmakes.resources, htake, List.append_assoc]
        rfl
      · have hnone : old.table = none := if_pos hempty
        rw [List.filterMap_cons_none hnone]
        exact hmakes.tables
      · intro r hr hne
        rcases List.mem_cons.mp hr with rfl | hr
        · exact absurd hempty hne
        · exact hmakes.present r hr hne
    · rw [if_neg hsize] at h ⊢
      dsimp only at h ⊢
      by_cases hret : (m.resourceInit i size (spinInit i) (calloc i)).1 ≠ 0
      · rw [if_pos hret] at h
        cases h
      rw [if_neg hret] at h ⊢
      obtain ⟨-, hres, htrace, hallocs⟩ := resourceInit_zero (not_not.mp hret)
      generalize (m.resourceInit i size (spinInit i) (calloc i)).2 = m1 at h hres htrace hallocs ⊢
      have hnext : ZeroKept m1.resources (i + 1) rs := by
        intro k max hk
        obtain ⟨r, hr, hz⟩ := hzero (k + 1) max hk
        refine ⟨r, ?_, hz⟩
        rw [hres, List.getElem?_set_ne (by omega), Nat.add_right_comm, Nat.add_assoc]
        exact hr
      obtain ⟨news, n, hmakes⟩ := ih h (by rw [hres, List.length_set]; omega) hnext
      have htake : m1.resources.take (i + 1) = m.resources.take i ++ [⟨size, some m.allocs⟩] := by
        rw [List.take_add_one, hres, List.take_set_of_le (Nat.le_refl i), List.getElem?_set_self hi]
        rfl
      refine ⟨⟨size, some m.allocs⟩ :: news, n + 1, ?_, ?_, ?_, ?_⟩
      · rw [hmakes.resources, htake, List.append_assoc]
        rfl
      · rw [hmakes.trace, htrace, hallocs, List.append_assoc, List.range'_succ]
        rfl
      · have hsome : (⟨size, some m.allocs⟩ : ResourceRecord).table = some m.allocs := if_neg hsize
        rw [List.filterMap_cons_some hsome, hmakes.tables, hallocs, List.range'_succ]
      · intro r hr hne
        rcases List.mem_cons.mp hr with rfl | hr
        · exact Option.some_ne_none _
        · exact hmakes.present r hr hne

/-- Freeing tables that are all live. -/
theorem run_freeTable {news : List ResourceRecord} {live : Finset (Option Nat)}
    (hpresent : ∀ r ∈ news, r.size ≠ 0 → r.addr ≠ none) (hnodup : (news.filterMap ResourceRecord.table).Nodup)
    (hlive : ∀ b ∈ news.filterMap ResourceRecord.table, some b ∈ live) :
    run live (news.flatMap freeTable) =
      some (live \ ((news.filterMap ResourceRecord.table).map some).toFinset) := by
  induction news generalizing live with
  | nil =>
    rw [List.filterMap_nil, List.map_nil, List.toFinset_nil, Finset.sdiff_empty]
    rfl
  | cons r news ih =>
    have hrest : ∀ r ∈ news, r.size ≠ 0 → r.addr ≠ none := fun q hq => hpresent q (List.mem_cons_of_mem _ hq)
    rw [List.flatMap_cons]
    by_cases hsize : r.size = 0
    · have hnone : r.table = none := if_pos hsize
      rw [List.filterMap_cons_none hnone] at hnodup hlive ⊢
      rw [show freeTable r = [] from if_pos hsize]
      exact ih hrest hnodup hlive
    · obtain ⟨b, hb⟩ := Option.ne_none_iff_exists'.mp (hpresent r List.mem_cons_self hsize)
      have hsome : r.table = some b := (if_neg hsize).trans hb
      rw [List.filterMap_cons_some hsome] at hnodup hlive ⊢
      obtain ⟨hnew, hnodup⟩ := List.nodup_cons.mp hnodup
      have hmem := hlive b List.mem_cons_self
      have hfree : freeTable r = List.replicate r.size.toNat (.use (some b)) ++ [.free (some b)] := by
        unfold freeTable resourceDestroy
        rw [if_neg hsize, if_neg hsize, hb, if_neg (Option.some_ne_none b)]
      have hclose : run live (freeTable r) = some (live.erase (some b)) := by
        rw [hfree, Blocks.run_append (Blocks.run_uses hmem _)]
        exact Blocks.run_free hmem
      rw [Blocks.run_append hclose, ih hrest hnodup]
      · rw [List.map_cons, List.toFinset_cons, Finset.sdiff_insert, Finset.erase_sdiff_comm]
      · intro c hc
        refine Finset.mem_erase.mpr ⟨fun he => ?_, hlive c (List.mem_cons_of_mem _ hc)⟩
        rw [Option.some.inj he] at hc
        exact hnew hc

/-- A turn stores into its own record. -/
theorem resourceInit_other (m : DeviceMem) {i k : Nat} (size : UInt32) (spin : Int) (c : Bool) (hk : k < i) :
    (m.resourceInit i size spin c).2.resources[k]? = m.resources[k]? := by
  unfold DeviceMem.resourceInit
  split
  · rfl
  · split
    · rfl
    · split
      · exact List.getElem?_set_ne (by omega)
      · exact List.getElem?_set_ne (by omega)

theorem initResources_other (rs : List (UInt32 × UInt32 × UInt32)) {i k : Nat} (m : DeviceMem) (hk : k < i) :
    (m.initResources spinInit calloc i rs).2.resources[k]? = m.resources[k]? := by
  induction rs generalizing i m with
  | nil => rfl
  | cons r rs ih =>
    obtain ⟨size, min, max⟩ := r
    unfold DeviceMem.initResources
    dsimp only
    split
    · rfl
    · split
      · exact ih m (by omega)
      · split
        · exact resourceInit_other m size _ _ hk
        · exact (ih _ (by omega)).trans (resourceInit_other m size _ _ hk)

/-! ## Initialisation -/

/-- A device that owns nothing: seven records, and those of the MWs and SRQs empty. -/
structure Vacant (m : DeviceMem) : Prop where
  tidy : Tidy m.trace
  length : m.resources.length = 7
  unused : ∀ k ∈ [3, 5], ∃ r, m.resources[k]? = some r ∧ r.size = 0

theorem fresh_vacant : Vacant .fresh := ⟨rfl, rfl, by
  intro k hk
  rcases List.mem_pair.mp hk with rfl | rfl
  · exact ⟨_, rfl, rfl⟩
  · exact ⟨_, rfl, rfl⟩⟩

theorem initDevice_refused (h : ParaRefused ctx para) :
    m.initDevice ctx para spinInit calloc callocQp = (eINVAL, m) := by
  unfold ParaRefused at h
  unfold DeviceMem.initDevice
  by_cases h1 : para.maxMrSize < ctx.pageSize ∨ !rocePowerOf2 para.maxMrSize.toUInt64
  · exact if_pos h1
  by_cases h2 : para.maxSge.toNat ≥ roceMaxSge
  · rw [if_neg h1, if_pos h2]
  by_cases h3 : para.maxInlineData ≥ roceMaxInlineData
  · rw [if_neg h1, if_neg h2, if_pos h3]
  by_cases h4 : para.maxPkeys = 0 ∨ para.maxPkeys > roceMaxPkey
  · rw [if_neg h1, if_neg h2, if_neg h3, if_pos h4]
  rw [if_neg h1, if_neg h2, if_neg h3, if_neg h4]
  refine if_pos ?_
  rcases h with h | h | h | h | h
  · exact absurd h h1
  · exact absurd h h2
  · exact absurd h h3
  · exact absurd h h4
  · exact h

theorem initDevice_accepted (h : ¬ParaRefused ctx para) :
    m.initDevice ctx para spinInit calloc callocQp =
      if (m.initResources spinInit calloc 0 (devResources para)).1 then
        (0, (m.initResources spinInit calloc 0 (devResources para)).2.allocSpecialQps callocQp)
      else (eNOMEM, (m.initResources spinInit calloc 0 (devResources para)).2.destroyAllResources) := by
  unfold ParaRefused at h
  unfold DeviceMem.initDevice
  rw [if_neg fun h1 => h (Or.inl h1), if_neg fun h2 => h (Or.inr (Or.inl h2)),
    if_neg fun h3 => h (Or.inr (Or.inr (Or.inl h3))), 
    if_neg fun h4 => h (Or.inr (Or.inr (Or.inr (Or.inl h4)))),
    if_neg fun h5 => h (Or.inr (Or.inr (Or.inr (Or.inr h5))))]

/-- Only the MWs and the SRQs may have size 0. -/
theorem Vacant.zeroKept (hv : Vacant m) (para : RoceDevicePara) :
    ZeroKept m.resources 0 (devResources para) := by
  intro k max hk
  rw [Nat.zero_add]
  apply hv.unused
  have hlt : k < 7 := (List.getElem?_eq_some_iff.mp hk).1
  have hk' : k = 0 ∨ k = 1 ∨ k = 2 ∨ k = 3 ∨ k = 4 ∨ k = 5 ∨ k = 6 := by omega
  rcases hk' with rfl | rfl | rfl | rfl | rfl | rfl | rfl <;> simp [devResources] at hk ⊢

/-- **A device that is initialised and freed.** -/
theorem initDevice_tidy (hv : Vacant m) (h : (m.initDevice ctx para spinInit calloc callocQp).1 = 0) :
    Tidy (m.initDevice ctx para spinInit calloc callocQp).2.freeCtx.trace := by
  have hinval : ¬eINVAL = 0 := by decide
  have hnomem : ¬eNOMEM = 0 := by decide
  by_cases hpara : ParaRefused ctx para
  · rw [initDevice_refused hpara] at h
    exact absurd h hinval
  rw [initDevice_accepted hpara] at h ⊢
  by_cases hloop : (m.initResources spinInit calloc 0 (devResources para)).1 = true
  swap
  · rw [if_neg hloop] at h
    exact absurd h hnomem
  rw [if_pos hloop]
  obtain ⟨news, n, hmakes⟩ := initResources_makes hloop (by rw [hv.length]; rfl) (hv.zeroKept para)
  generalize (m.initResources spinInit calloc 0 (devResources para)).2 = m1 at hmakes
  have honly := (allocSpecialQps_only m1 callocQp).trans
    (destroySpecialQps_only (m1.allocSpecialQps callocQp))
  have hfree : (m1.allocSpecialQps callocQp).freeCtx.trace =
      (m1.allocSpecialQps callocQp).destroySpecialQps.trace ++
        (m1.allocSpecialQps callocQp).destroySpecialQps.resources.flatMap freeTable := rfl
  rw [hfree]
  generalize (m1.allocSpecialQps callocQp).destroySpecialQps = m2 at honly
  obtain ⟨hres, k, htrace, htable⟩ := honly
  rw [hres, htrace, hmakes.trace, hmakes.resources, List.take_zero, List.nil_append]
  -- the tables of the records, allocated in turn
  have hnodup : (List.range' m.allocs n).Nodup := List.nodup_range'
  have hblocks : ((List.range' m.allocs n).map some).Nodup := hnodup.map (Option.some_injective Nat)
  have hallocs := Blocks.run_allocs hblocks fun a _ => Finset.notMem_empty a
  rw [Finset.empty_union] at hallocs
  have hnews : ∀ b ∈ List.range' m.allocs n, some b ∈ ((List.range' m.allocs n).map some).toFinset :=
    fun b hb => List.mem_toFinset.mpr (List.mem_map_of_mem hb)
  have huses : run ((List.range' m.allocs n).map some).toFinset (List.replicate k (.use m1.qpTable.addr)) =
      some ((List.range' m.allocs n).map some).toFinset := by
    by_cases hk : k = 0
    · rw [hk]
      rfl
    · refine Blocks.run_uses ?_ k
      obtain ⟨r, hr, hsize⟩ : ∃ r ∈ news, r.size ≠ 0 ∧ m1.qpTable.addr = r.addr := by
        have hsize := htable hk
        unfold DeviceMem.qpTable at hsize ⊢
        rw [hmakes.resources, List.take_zero, List.nil_append, List.getD_eq_getElem?_getD] at hsize ⊢
        cases hget : news[4]? with
        | none =>
          rw [hget] at hsize
          exact absurd rfl hsize
        | some r =>
          rw [hget] at hsize
          exact ⟨r, List.mem_of_getElem? hget, hsize, rfl⟩
      obtain ⟨b, hb⟩ := Option.ne_none_iff_exists'.mp (hmakes.present r hr hsize.1)
      rw [hsize.2, hb]
      apply hnews
      rw [← hmakes.tables]
      exact List.mem_filterMap.mpr ⟨r, hr, (if_neg hsize.1).trans hb⟩
  have hclose := run_freeTable hmakes.present (by rw [hmakes.tables]; exact hnodup)
    (by rw [hmakes.tables]; exact hnews)
  rw [hmakes.tables, Finset.sdiff_self] at hclose
  unfold Tidy
  rw [List.append_assoc, List.append_assoc, Blocks.run_append hv.tidy, Blocks.run_append hallocs,
    Blocks.run_append huses, hclose]

/-- The turn of the PDs, once the parameters are accepted. -/
theorem initResources_first (m : DeviceMem) (hpd : ¬(para.maxPd < 1 ∨ para.maxPd > roceMaxGeneral)) :
    m.initResources spinInit calloc 0 (devResources para) =
      if (m.resourceInit 0 para.maxPd (spinInit 0) (calloc 0)).1 ≠ 0 then
        (false, (m.resourceInit 0 para.maxPd (spinInit 0) (calloc 0)).2)
      else (m.resourceInit 0 para.maxPd (spinInit 0) (calloc 0)).2.initResources spinInit calloc 1
        (devResources para).tail := by
  have hsize : ¬para.maxPd = 0 := by
    intro hzero
    rw [hzero] at hpd
    exact hpd (Or.inl (by decide))
  unfold devResources
  rw [List.tail_cons]
  conv_lhs => unfold DeviceMem.initResources
  dsimp only
  rw [if_neg hpd, if_neg hsize]

/-- The record of the PDs after a failure that is not the first. -/
theorem initDevice_recorded (hfirst : ¬FailsFirst ctx para spinInit)
    (hfails : (DeviceMem.fresh.initDevice ctx para spinInit calloc callocQp).1 ≠ 0) :
    ∃ m, (DeviceMem.fresh.initDevice ctx para spinInit calloc callocQp).2 = m.destroyAllResources ∧
      para.maxPd ≠ 0 ∧ (calloc 0 = true ∧ m.resources[0]? = some ⟨para.maxPd, some 0⟩ ∨
        m = { DeviceMem.fresh with resources := DeviceMem.fresh.resources.set 0 ⟨para.maxPd, none⟩ }) := by
  have hpara : ¬ParaRefused ctx para := fun h => hfirst (Or.inl h)
  have hpd : ¬(para.maxPd < 1 ∨ para.maxPd > roceMaxGeneral) := fun h => hfirst (Or.inr (Or.inl h))
  have hspin : spinInit 0 = 0 := by
    by_contra hne
    exact hfirst (Or.inr (Or.inr hne))
  have hsize : para.maxPd ≠ 0 := by
    intro hzero
    rw [hzero] at hpd
    exact hpd (Or.inl (by decide))
  rw [initDevice_accepted hpara] at hfails ⊢
  by_cases hloop : (DeviceMem.fresh.initResources spinInit calloc 0 (devResources para)).1 = true
  · rw [if_pos hloop] at hfails
    exact absurd rfl hfails
  rw [if_neg hloop]
  refine ⟨_, rfl, hsize, ?_⟩
  have hbad : ¬(para.maxPd = 0 ∨ para.maxPd > roceMaxGeneral) := by
    rintro (hzero | hlarge)
    · exact hsize hzero
    · exact hpd (Or.inr hlarge)
  rw [initResources_first _ hpd, hspin]
  unfold DeviceMem.resourceInit
  rw [if_neg hbad, if_neg (not_not.mpr rfl)]
  cases hcalloc : calloc 0 with
  | true =>
    refine Or.inl ⟨rfl, ?_⟩
    rw [if_pos rfl, if_neg (not_not.mpr rfl)]
    exact initResources_other _ _ (by decide)
  | false =>
    have hnomem : eNOMEM ≠ 0 := by decide
    refine Or.inr ?_
    rw [if_neg Bool.false_ne_true, if_pos hnomem]

theorem CleanFailure.fresh : CleanFailure .fresh := by
  refine ⟨fun r hr _ hmem => absurd hmem List.not_mem_nil, rfl, ?_⟩
  intro ctx para spinInit calloc callocQp h
  exact initDevice_tidy fresh_vacant h

/-- A failure before the first record leaves the device as it was. -/
theorem initDevice_first (hfirst : FailsFirst ctx para spinInit) :
    (DeviceMem.fresh.initDevice ctx para spinInit calloc callocQp).2 = .fresh := by
  by_cases hpara : ParaRefused ctx para
  · rw [initDevice_refused hpara]
  rw [initDevice_accepted hpara]
  have hloop : DeviceMem.fresh.initResources spinInit calloc 0 (devResources para) = (false, .fresh) := by
    by_cases hpd : para.maxPd < 1 ∨ para.maxPd > roceMaxGeneral
    · unfold devResources DeviceMem.initResources
      exact if_pos hpd
    · have hspin : spinInit 0 ≠ 0 := (hfirst.resolve_left hpara).resolve_left hpd
      have hbad : ¬(para.maxPd = 0 ∨ para.maxPd > roceMaxGeneral) := by
        rintro (hzero | hlarge)
        · rw [hzero] at hpd
          exact hpd (Or.inl (by decide))
        · exact hpd (Or.inr hlarge)
      have hinit : DeviceMem.fresh.resourceInit 0 para.maxPd (spinInit 0) (calloc 0) =
        (spinInit 0, .fresh) := by
        unfold DeviceMem.resourceInit
        rw [if_neg hbad, if_pos hspin]
      rw [initResources_first _ hpd, hinit, if_pos hspin]
  rw [hloop]
  rfl

/-! ### The device by its values -/

/-- Where no lock fails, the loops agree. -/
theorem initResources_agrees {rs : List (UInt32 × UInt32 × UInt32)} (hmax : ∀ r ∈ rs, r.2.2 ≤ roceMaxGeneral)
    (i : Nat) (m : DeviceMem) :
    (m.initResources (fun _ => 0) calloc i rs).1 = initResources calloc i rs := by
  induction rs generalizing i m with
  | nil => rfl
  | cons r rs ih =>
    obtain ⟨size, min, max⟩ := r
    have hle : max ≤ roceMaxGeneral := hmax _ List.mem_cons_self
    have hnext := ih fun r hr => hmax r (List.mem_cons_of_mem _ hr)
    have hnomem : eNOMEM ≠ 0 := by decide
    unfold DeviceMem.initResources initResources initResource
    by_cases hrange : size < min ∨ size > max
    · have hout : (decide (size < min) || decide (size > max)) = true := by
        rw [Bool.or_eq_true, decide_eq_true_eq, decide_eq_true_eq]
        exact hrange
      rw [if_pos hrange, hout]
      rfl
    have hin : (decide (size < min) || decide (size > max)) = false := by
      rw [Bool.or_eq_false_iff, decide_eq_false_iff_not, decide_eq_false_iff_not]
      exact not_or.mp hrange
    rw [if_neg hrange, hin]
    by_cases hsize : size = 0
    · rw [if_pos hsize, hnext, hsize]
      rfl
    have hbad : ¬(size = 0 ∨ size > roceMaxGeneral) := by
      rintro (hzero | hlarge)
      · exact hsize hzero
      · exact (not_or.mp hrange).2 (UInt32.lt_of_le_of_lt hle hlarge)
    rw [if_neg hsize, beq_eq_false_iff_ne.mpr hsize]
    unfold DeviceMem.resourceInit
    rw [if_neg hbad, if_neg (not_not.mpr rfl)]
    dsimp only
    cases hcalloc : calloc i with
    | true =>
      rw [if_pos rfl, if_neg (not_not.mpr rfl), hnext]
      rfl
    | false =>
      rw [if_neg Bool.false_ne_true, if_pos hnomem]
      rfl

/-- **Two views of `roce_init_device`.**  With locks that can be made, this one
succeeds when the one that builds the tables' contents does. -/
theorem initDevice_agrees (m : DeviceMem) (ctx : RoceCtx) (para : RoceDevicePara)
    (calloc callocQp : Nat → Bool) :
    (m.initDevice ctx para (fun _ => 0) calloc callocQp).1 = 0 ↔
      ∃ d, roceInitDevice ctx para calloc callocQp = .ok d := by
  have hinval : ¬eINVAL = 0 := by decide
  have hnomem : ¬eNOMEM = 0 := by decide
  have hrefused : ∀ e : Int, ¬∃ d : Device, (Except.error e : Except Int Device) = .ok d := by
    rintro e ⟨d, hd⟩
    cases hd
  have hmax : ∀ r ∈ devResources para, r.2.2 ≤ roceMaxGeneral := by
    unfold devResources
    simp only [List.forall_mem_cons]
    exact ⟨by decide, by decide, by decide, by decide, by decide, by decide, by decide,
      fun r hr => absurd hr List.not_mem_nil⟩
  unfold DeviceMem.initDevice roceInitDevice
  by_cases h1 : para.maxMrSize < ctx.pageSize ∨ !rocePowerOf2 para.maxMrSize.toUInt64
  · rw [if_pos h1, if_pos h1]
    exact iff_of_false hinval (hrefused _)
  rw [if_neg h1, if_neg h1]
  by_cases h2 : para.maxSge.toNat ≥ roceMaxSge
  · rw [if_pos h2, if_pos h2]
    exact iff_of_false hinval (hrefused _)
  rw [if_neg h2, if_neg h2]
  by_cases h3 : para.maxInlineData ≥ roceMaxInlineData
  · rw [if_pos h3, if_pos h3]
    exact iff_of_false hinval (hrefused _)
  rw [if_neg h3, if_neg h3]
  by_cases h4 : para.maxPkeys = 0 ∨ para.maxPkeys > roceMaxPkey
  · rw [if_pos h4, if_pos h4]
    exact iff_of_false hinval (hrefused _)
  rw [if_neg h4, if_neg h4]
  by_cases h5 : para.physPortCnt = 0 ∨ para.physPortCnt > roceMaxPorts
  · rw [if_pos h5, if_pos h5]
    exact iff_of_false hinval (hrefused _)
  rw [if_neg h5, if_neg h5]
  dsimp only
  rw [initResources_agrees hmax]
  by_cases hloop : initResources calloc 0 (devResources para) = true
  · rw [if_pos hloop, if_pos hloop]
    exact iff_of_true rfl ⟨_, rfl⟩
  · rw [if_neg hloop, if_neg hloop]
    exact iff_of_false hnomem (hrefused _)

end tables

/-- **Failed initialisation.**  It is clean exactly when it comes before the first
table is recorded. -/
theorem initDevice_clean {ctx : RoceCtx} {para : RoceDevicePara} {spinInit : Nat → Int}
    {calloc callocQp : Nat → Bool}
    (hfails : (DeviceMem.fresh.initDevice ctx para spinInit calloc callocQp).1 ≠ 0) :
    CleanFailure (DeviceMem.fresh.initDevice ctx para spinInit calloc callocQp).2 ↔
      FailsFirst ctx para spinInit := by
  constructor
  · intro hclean
    by_contra hfirst
    obtain ⟨m, hm, hsize, ⟨-, hrecord⟩ | rfl⟩ := initDevice_recorded hfirst hfails
    · -- the table of the PDs is freed and stays recorded
      rw [hm] at hclean
      have hmem := List.mem_of_getElem? hrecord
      refine hclean.records _ hmem hsize ?_
      refine List.mem_append_right _ (List.mem_flatMap.mpr ⟨_, hmem, ?_⟩)
      unfold resourceDestroy
      rw [if_neg hsize, if_neg (Option.some_ne_none 0)]
      exact List.mem_singleton_self _
    · -- a table of the PDs is recorded that was never there
      rw [hm] at hclean
      obtain ⟨n, hn⟩ : ∃ n, para.maxPd.toNat = n + 1 :=
        Nat.exists_eq_succ_of_ne_zero fun hzero => hsize (UInt32.toNat_inj.mp hzero)
      have hdestroy : resourceDestroy ⟨para.maxPd, none⟩ = [] := by
        unfold resourceDestroy
        rw [if_neg hsize, if_pos rfl]
      have hlook : freeTable ⟨para.maxPd, none⟩ = List.replicate (n + 1) (.use none) := by
        unfold freeTable
        rw [if_neg hsize, hdestroy, List.append_nil, ← hn]
      have hfree := hclean.freeCtx
      unfold Tidy at hfree
      have htrace : (DeviceMem.destroyAllResources { DeviceMem.fresh with
          resources := DeviceMem.fresh.resources.set 0 ⟨para.maxPd, none⟩ }).freeCtx.trace =
          (resourceDestroy ⟨para.maxPd, none⟩ ++ []) ++ (freeTable ⟨para.maxPd, none⟩ ++ []) := rfl
      rw [htrace, hdestroy, hlook, List.replicate_succ, List.append_nil, List.append_nil, List.nil_append,
        Blocks.run_use_dead (Finset.notMem_empty _)] at hfree
      cases hfree
  · intro hfirst
    rw [initDevice_first hfirst]
    exact .fresh

/-- The CQ table is not allocated: the PD table is freed, and `roce_free_ctx` looks
into it and frees it again.  When the PD table is not allocated, `roce_free_ctx`
looks behind `NULL`. -/
theorem initDevice_clean_dangling :
    ¬CleanFailure (DeviceMem.fresh.initDevice smallCtx smallPara (fun _ => 0)
      (fun i => i != 1) fun _ => true).2 ∧
      ¬Tidy (DeviceMem.fresh.initDevice smallCtx smallPara (fun _ => 0)
        (fun i => i != 1) fun _ => true).2.freeCtx.trace ∧
      ¬Tidy (DeviceMem.fresh.initDevice smallCtx smallPara (fun _ => 0)
        (fun i => i != 0) fun _ => true).2.freeCtx.trace := by
  refine ⟨fun h => ?_, fun h => ?_, fun h => ?_⟩
  · exact h.records ⟨smallPara.maxPd, some 0⟩ (List.mem_cons_self) (by decide) (by decide)
  · cases h
  · cases h

/-- A lock that cannot be made for the PDs, and one for the CQs. -/
theorem initDevice_clean_lock :
    CleanFailure (DeviceMem.fresh.initDevice smallCtx smallPara (fun _ => eNOMEM)
      (fun _ => true) fun _ => true).2 ∧
      ¬CleanFailure (DeviceMem.fresh.initDevice smallCtx smallPara (fun i => if i = 1 then eNOMEM else 0)
        (fun _ => true) fun _ => true).2 := by
  constructor
  · refine (initDevice_clean (by decide)).mpr ?_
    exact Or.inr (Or.inr (by decide))
  · intro h
    have hfirst := (initDevice_clean (by decide)).mp h
    rcases hfirst with hpara | hpd | hspin
    · revert hpara
      unfold ParaRefused
      decide
    · revert hpd
      decide
    · exact hspin rfl

end Libroce
