import Libroce.Iov
import Libroce.Sge
import Libroce.Resource

/-!
# Memory regions

`mr.c`.  `roceMrMapSge` turns a scatter/gather list into iovecs of host
memory; it is the only check between a key that came over the network and
that memory.  `roceGetMrs`/`rocePutMrs` count references, and the last put of
a region marked `DESTROYED` frees it.
-/

namespace Libroce

/-! ## Keys and creation -/

def roceKeyToIndex (key : UInt32) : Nat := (key >>> 8).toNat

def roceNewKey (index random : UInt32) : UInt32 := (index <<< 8) ||| (random % 256)

def eNOMEM : Int := -12

/-- The fields `roce_create_mr` fills once the arguments passed. -/
structure MrArgs where
  pd : Nat
  type : MrType
  iova : UInt64
  length : UInt32
  access : UInt32
  iovs : List Iovec
  pageSize : UInt32

/-- The switch of `roce_create_mr`: the state and the iovecs of the new MR, or
the error. -/
def createMrType (ctx : RoceCtx) (a : MrArgs) (pageSize : UInt32) :
    Except Fault (Except Int (MrState × List Iovec)) :=
  match a.type with
  | .mem =>
    if a.iovs = [] then .error (.abort .iovEmpty)
    else if UInt32.ofNat (a.iovs.map (·.len)).sum > ctx.devAttr.maxMrSize then .ok (.error eINVAL)
    else if a.length = 0 then .ok (.error eINVAL)
    else .ok (.ok (.valid, a.iovs))
  | .frmr =>
    if a.iovs ≠ [] then .ok (.error eINVAL)
    else if a.length = 0 ∨ a.length < ctx.pageSize ∨ a.length % pageSize ≠ 0 then .ok (.error eINVAL)
    else .ok (.ok (.free, []))
  | .dma => .ok (.ok (.valid, []))

/-- `roce_create_mr` from the allocation on; the caller's PD is referenced. -/
def createMrAlloc (ctx : RoceCtx) (a : MrArgs) (pageSize : UInt32) (calloc : Bool)
    (random0 random1 : UInt32) : Except Fault (Int × RoceCtx) :=
  let putPd (ret : Int) : Except Fault (Int × RoceCtx) :=
    match assertPutPd ctx a.pd with
    | .error e => .error e
    | .ok ctx => .ok (ret, ctx)
  if calloc then
    match createMrType ctx a pageSize with
    | .error e => .error e
    | .ok (.error ret) => putPd ret
    | .ok (.ok (state, iovs)) =>
      let mr (key : Nat) : RoceMr :=
        { ref := 0, pd := a.pd, state := state, type := a.type, iova := a.iova, length := a.length,
          lkey := roceNewKey (UInt32.ofNat key) random0,
          rkey := roceNewKey (UInt32.ofNat key) random1,
          access := a.access, pageSize := pageSize, iovs := iovs }
      match roceResourceAlloc ctx.mrs mr with
      | none => putPd eBUSY
      | some (key, mrs) => .ok (key, { ctx with mrs := mrs })
  else putPd eNOMEM

/-- `roce_create_mr`; `calloc` and `random0/1` are what `roce_calloc` and the
two calls of `random` answer. -/
def roceCreateMr (ctx : RoceCtx) (a : MrArgs) (calloc : Bool) (random0 random1 : UInt32) :
    Except Fault (Int × RoceCtx) :=
  if a.pageSize ≠ 0 ∧ (a.pageSize < ctx.pageSize ∨ !rocePowerOf2 a.pageSize.toUInt64) then
    .ok (eINVAL, ctx)
  else
    match roceGetPd ctx a.pd with
    | none => .ok (eINVAL, ctx)
    | some ctx =>
      createMrAlloc ctx a (if a.pageSize ≠ 0 then a.pageSize else ctx.pageSize) calloc random0 random1

/-! ## References -/

def roceGetMrNoref (ctx : RoceCtx) (mr : Nat) : Option RoceMr := roceResourceGet ctx.mrs mr

/-- Store an MR back into its slot. -/
def setMr (ctx : RoceCtx) (i : Nat) (mr : RoceMr) : RoceCtx :=
  { ctx with mrs := ctx.mrs.set i (some mr) }

/-- `roce_get_mr` -/
def roceGetMr (ctx : RoceCtx) (mrHandle : Nat) : Option RoceCtx :=
  match roceGetMrNoref ctx mrHandle with
  | none => none
  | some mr => some (setMr ctx mrHandle { mr with ref := mr.ref + 1 })

/-- `roce_destroy_mr` -/
def roceDestroyMr (ctx : RoceCtx) (mrHandle : Nat) : Except Fault (Int × RoceCtx) :=
  match roceGetMrNoref ctx mrHandle with
  | none => .ok (eINVAL, ctx)
  | some mr =>
    if mr.ref ≠ 0 then .ok (0, setMr ctx mrHandle { mr with state := .destroyed })
    else
      match assertPutPd { ctx with mrs := ctx.mrs.set mrHandle none } mr.pd with
      | .error e => .error e
      | .ok ctx => .ok (0, ctx)

/-- `roce_put_mr` -/
def rocePutMr (ctx : RoceCtx) (mrHandle : Nat) : Except Fault RoceCtx :=
  match roceGetMrNoref ctx mrHandle with
  | none => .ok ctx
  | some mr =>
    if mr.state = .destroyed then
      match roceDestroyMr (setMr ctx mrHandle { mr with ref := mr.ref - 1 }) mrHandle with
      | .error e => .error e
      | .ok (_, ctx) => .ok ctx
    else .ok (setMr ctx mrHandle { mr with ref := mr.ref - 1 })

/-- `roce_put_mrs` -/
def rocePutMrs (ctx : RoceCtx) : List RoceSge → Except Fault RoceCtx
  | [] => .ok ctx
  | sge :: sges =>
    match rocePutMr ctx (roceKeyToIndex sge.lkey) with
    | .error e => .error e
    | .ok ctx => rocePutMrs ctx sges

/-- The loop of `roce_get_mrs`: the references taken, last first, and whether
it reached the end. -/
def getMrsLoop (ctx : RoceCtx) (taken : List RoceSge) : List RoceSge → Bool × List RoceSge × RoceCtx
  | [] => (true, taken, ctx)
  | sge :: sges =>
    match roceGetMr ctx (roceKeyToIndex sge.lkey) with
    | none => (false, taken, ctx)
    | some ctx => getMrsLoop ctx (sge :: taken) sges

/-- `roce_get_mrs`: all the references, or none and `-EACCES`. -/
def roceGetMrs (ctx : RoceCtx) (sges : List RoceSge) : Except Fault (Int × RoceCtx) :=
  match getMrsLoop ctx [] sges with
  | (true, _, ctx) => .ok (0, ctx)
  | (false, taken, ctx) =>
    match rocePutMrs ctx taken with
    | .error e => .error e
    | .ok ctx => .ok (eACCES, ctx)

/-! ### What the references leave alone -/

/-- Only MRs and PDs changed. -/
def RefsOnly (ctx ctx' : RoceCtx) : Prop := ctx' = { ctx with pds := ctx'.pds, mrs := ctx'.mrs }

theorem RefsOnly.refl (ctx : RoceCtx) : RefsOnly ctx ctx := rfl

theorem RefsOnly.trans {a b c : RoceCtx} (h1 : RefsOnly a b) (h2 : RefsOnly b c) : RefsOnly a c := by
  unfold RefsOnly at h1 h2 ⊢
  rw [h2, h1]

theorem RefsOnly.trace {a b : RoceCtx} (h : RefsOnly a b) : b.trace = a.trace := by rw [h]

theorem assertPutPd_refsOnly {ctx ctx' : RoceCtx} {pd : Nat} (h : assertPutPd ctx pd = .ok ctx') :
    RefsOnly ctx ctx' := by
  obtain ⟨x, -, rfl⟩ := assertPutPd_ok h
  rfl

/-- A call that fails behind a PD puts it back. -/
theorem assertPutPd_then {ctx : RoceCtx} {pd : Nat} {ret : Int} {r : Int × RoceCtx}
    (h : (match assertPutPd ctx pd with
      | .error e => .error e
      | .ok ctx => .ok (ret, ctx) : Except Fault (Int × RoceCtx)) = .ok r) :
    r.1 = ret ∧ assertPutPd ctx pd = .ok r.2 := by
  cases hput : assertPutPd ctx pd with
  | error e =>
    rw [hput] at h
    cases h
  | ok ctx' =>
    rw [hput] at h
    obtain rfl := Except.ok.inj h
    exact ⟨rfl, rfl⟩

/-- The page size of a new MR. -/
def MrArgs.pages (a : MrArgs) (ctx : RoceCtx) : UInt32 := if a.pageSize ≠ 0 then a.pageSize else ctx.pageSize

/-- The new MR under a key. -/
def MrArgs.mr (a : MrArgs) (pageSize : UInt32) (state : MrState) (iovs : List Iovec)
    (random0 random1 : UInt32) (key : Nat) : RoceMr where
  ref := 0
  pd := a.pd
  state := state
  type := a.type
  iova := a.iova
  length := a.length
  lkey := roceNewKey (UInt32.ofNat key) random0
  rkey := roceNewKey (UInt32.ofNat key) random1
  access := a.access
  pageSize := pageSize
  iovs := iovs

/-- What `roce_create_mr` can do: refuse, put the PD back, or fill an empty slot. -/
inductive MakesMr (ctx : RoceCtx) (a : MrArgs) (random0 random1 : UInt32) (ret : Int) (ctx' : RoceCtx) : Prop
  | refused (hret : ret < 0) (h : ctx' = ctx)
  | released (ctx1 : RoceCtx) (hret : ret < 0) (hget : roceGetPd ctx a.pd = some ctx1)
      (hput : assertPutPd ctx1 a.pd = .ok ctx')
  | created (ctx1 : RoceCtx) (key : Nat) (state : MrState) (iovs : List Iovec)
      (hpages : a.pageSize = 0 ∨ rocePowerOf2 a.pageSize.toUInt64 = true)
      (hget : roceGetPd ctx a.pd = some ctx1)
      (htype : createMrType ctx1 a (a.pages ctx1) = .ok (.ok (state, iovs)))
      (hempty : ctx1.mrs[key]? = some none) (hret : ret = key)
      (h : ctx' = setMr ctx1 key (a.mr (a.pages ctx1) state iovs random0 random1 key))

theorem createMrType_error {ctx : RoceCtx} {a : MrArgs} {pageSize : UInt32} {ret : Int}
    (h : createMrType ctx a pageSize = .ok (.error ret)) : ret < 0 := by
  have hinval : eINVAL < 0 := by decide
  unfold createMrType at h
  cases htype : a.type with
  | mem =>
    simp only [htype] at h
    split at h
    · cases h
    · split at h
      · rwa [← Except.error.inj (Except.ok.inj h)]
      · split at h
        · rwa [← Except.error.inj (Except.ok.inj h)]
        · cases h
  | frmr =>
    simp only [htype] at h
    split at h
    · rwa [← Except.error.inj (Except.ok.inj h)]
    · split at h
      · rwa [← Except.error.inj (Except.ok.inj h)]
      · cases h
  | dma =>
    simp only [htype] at h
    cases h

theorem roceCreateMr_makes {ctx ctx' : RoceCtx} {a : MrArgs} {calloc : Bool} {random0 random1 : UInt32}
    {ret : Int} (hc : roceCreateMr ctx a calloc random0 random1 = .ok (ret, ctx')) :
    MakesMr ctx a random0 random1 ret ctx' := by
  unfold roceCreateMr at hc
  by_cases hbad : a.pageSize ≠ 0 ∧ (a.pageSize < ctx.pageSize ∨ !rocePowerOf2 a.pageSize.toUInt64)
  · rw [if_pos hbad] at hc
    obtain ⟨rfl, rfl⟩ := Prod.mk.inj (Except.ok.inj hc)
    exact .refused (by decide) rfl
  · rw [if_neg hbad] at hc
    have hpages : a.pageSize = 0 ∨ rocePowerOf2 a.pageSize.toUInt64 = true := by
      by_cases hzero : a.pageSize = 0
      · exact Or.inl hzero
      · refine Or.inr ?_
        by_contra hpow
        exact hbad ⟨hzero, Or.inr (by simpa using hpow)⟩
    cases hget : roceGetPd ctx a.pd with
    | none =>
      simp only [hget] at hc
      obtain ⟨rfl, rfl⟩ := Prod.mk.inj (Except.ok.inj hc)
      exact .refused (by decide) rfl
    | some ctx1 =>
      simp only [hget] at hc
      unfold createMrAlloc at hc
      simp only at hc
      split at hc
      · cases htype : createMrType ctx1 a (if a.pageSize ≠ 0 then a.pageSize else ctx1.pageSize) with
        | error e =>
          simp only [htype] at hc
          cases hc
        | ok r =>
          simp only [htype] at hc
          cases r with
          | error e =>
            obtain ⟨rfl, hput⟩ := assertPutPd_then hc
            exact .released ctx1 (createMrType_error htype) hget hput
          | ok r =>
            obtain ⟨state, iovs⟩ := r
            dsimp only at hc
            split at hc
            · obtain ⟨rfl, hput⟩ := assertPutPd_then hc
              exact .released ctx1 (by decide) hget hput
            · next key mrs halloc =>
              obtain ⟨rfl, rfl⟩ := Prod.mk.inj (Except.ok.inj hc)
              obtain ⟨hempty, rfl⟩ := roceResourceAlloc_ok halloc
              exact .created ctx1 key state iovs hpages hget htype hempty rfl rfl
      · obtain ⟨rfl, hput⟩ := assertPutPd_then hc
        exact .released ctx1 (by decide) hget hput

theorem roceDestroyMr_refsOnly {ctx ctx' : RoceCtx} {i : Nat} {ret : Int}
    (h : roceDestroyMr ctx i = .ok (ret, ctx')) : RefsOnly ctx ctx' := by
  unfold roceDestroyMr at h
  split at h
  · obtain ⟨-, rfl⟩ := Prod.mk.inj (Except.ok.inj h)
    rfl
  · split at h
    · obtain ⟨-, rfl⟩ := Prod.mk.inj (Except.ok.inj h)
      rfl
    · split at h
      · cases h
      · next hp =>
        obtain ⟨-, rfl⟩ := Prod.mk.inj (Except.ok.inj h)
        exact RefsOnly.trans (show RefsOnly ctx { ctx with mrs := ctx.mrs.set i none } from rfl)
          (assertPutPd_refsOnly hp)

theorem rocePutMr_refsOnly {ctx ctx' : RoceCtx} {i : Nat} (h : rocePutMr ctx i = .ok ctx') :
    RefsOnly ctx ctx' := by
  unfold rocePutMr at h
  split at h
  · obtain rfl := Except.ok.inj h
    rfl
  · next mr _ =>
    split at h
    · split at h
      · cases h
      · next hd =>
        obtain rfl := Except.ok.inj h
        exact RefsOnly.trans (show RefsOnly ctx (setMr ctx i { mr with ref := mr.ref - 1 }) from rfl)
          (roceDestroyMr_refsOnly hd)
    · obtain rfl := Except.ok.inj h
      rfl

theorem rocePutMrs_refsOnly {ctx ctx' : RoceCtx} {sges : List RoceSge}
    (h : rocePutMrs ctx sges = .ok ctx') : RefsOnly ctx ctx' := by
  induction sges generalizing ctx with
  | nil =>
    obtain rfl := Except.ok.inj h
    rfl
  | cons sge sges ih =>
    rw [rocePutMrs] at h
    split at h
    · cases h
    · next hm => exact (rocePutMr_refsOnly hm).trans (ih h)

theorem getMrsLoop_refsOnly (ctx : RoceCtx) (taken sges : List RoceSge) :
    RefsOnly ctx (getMrsLoop ctx taken sges).2.2 := by
  induction sges generalizing ctx taken with
  | nil => rfl
  | cons sge sges ih =>
    rw [getMrsLoop]
    split
    · rfl
    · next ctx1 hg =>
      refine RefsOnly.trans ?_ (ih ctx1 _)
      unfold roceGetMr at hg
      split at hg
      · cases hg
      · obtain rfl := Option.some.inj hg
        rfl

theorem roceGetMrs_refsOnly {ctx ctx' : RoceCtx} {sges : List RoceSge} {ret : Int}
    (h : roceGetMrs ctx sges = .ok (ret, ctx')) : RefsOnly ctx ctx' := by
  have hl := getMrsLoop_refsOnly ctx [] sges
  unfold roceGetMrs at h
  split at h
  · next he =>
    obtain ⟨-, rfl⟩ := Prod.mk.inj (Except.ok.inj h)
    rwa [he] at hl
  · next he =>
    rw [he] at hl
    split at h
    · cases h
    · next hp =>
      obtain ⟨-, rfl⟩ := Prod.mk.inj (Except.ok.inj h)
      exact hl.trans (rocePutMrs_refsOnly hp)

/-! ### What the references find -/

/-- Taking a reference leaves every slot as full or empty as it was. -/
theorem roceGetMr_present {ctx ctx' : RoceCtx} {i : Nat} (h : roceGetMr ctx i = some ctx') (j : Nat) :
    roceGetMrNoref ctx' j ≠ none ↔ roceGetMrNoref ctx j ≠ none := by
  unfold roceGetMr at h
  split at h
  · cases h
  · next mr hmr =>
    obtain rfl := Option.some.inj h
    show roceResourceGet (ctx.mrs.set i _) j ≠ none ↔ _
    rw [roceResourceGet_set ctx.mrs i j mr _ hmr]
    split
    · next hij =>
      subst hij
      exact iff_of_true (Option.some_ne_none _) (by rw [hmr]; exact Option.some_ne_none _)
    · exact Iff.rfl

/-- The loop reaches the end when every key finds an MR. -/
theorem getMrsLoop_fst (ctx : RoceCtx) (taken sges : List RoceSge) :
    (getMrsLoop ctx taken sges).1 = true ↔
      ∀ sge ∈ sges, roceGetMrNoref ctx (roceKeyToIndex sge.lkey) ≠ none := by
  induction sges generalizing ctx taken with
  | nil => simp [getMrsLoop]
  | cons sge sges ih =>
    rw [getMrsLoop, List.forall_mem_cons]
    split
    · next hnone =>
      have hno : roceGetMrNoref ctx (roceKeyToIndex sge.lkey) = none := by
        unfold roceGetMr at hnone
        split at hnone
        · assumption
        · cases hnone
      simp [hno]
    · next ctx1 hsome =>
      have hyes : roceGetMrNoref ctx (roceKeyToIndex sge.lkey) ≠ none := by
        intro hno
        unfold roceGetMr at hsome
        rw [hno] at hsome
        cases hsome
      rw [ih]
      simp only [roceGetMr_present hsome, hyes, not_false_eq_true, ne_eq, true_and]

theorem roceGetMrs_ret {ctx ctx' : RoceCtx} {sges : List RoceSge} {ret : Int}
    (h : roceGetMrs ctx sges = .ok (ret, ctx')) : ret = 0 ∨ ret = eACCES := by
  unfold roceGetMrs at h
  split at h
  · exact Or.inl (Prod.mk.inj (Except.ok.inj h)).1.symm
  · split at h
    · cases h
    · exact Or.inr (Prod.mk.inj (Except.ok.inj h)).1.symm

/-- `roce_get_mrs` succeeds exactly when every key finds an MR. -/
theorem roceGetMrs_eq_zero {ctx ctx' : RoceCtx} {sges : List RoceSge} {ret : Int}
    (h : roceGetMrs ctx sges = .ok (ret, ctx')) :
    ret = 0 ↔ ∀ sge ∈ sges, roceGetMrNoref ctx (roceKeyToIndex sge.lkey) ≠ none := by
  rw [← getMrsLoop_fst ctx [] sges]
  unfold roceGetMrs at h
  split at h
  · next he =>
    obtain ⟨rfl, -⟩ := Prod.mk.inj (Except.ok.inj h)
    simp [he]
  · next he =>
    split at h
    · cases h
    · obtain ⟨rfl, -⟩ := Prod.mk.inj (Except.ok.inj h)
      simp [he, eACCES]

/-- Dropping references can only fail on a PD that is gone. -/
theorem rocePutMrs_error {ctx : RoceCtx} {sges : List RoceSge} {e : Fault}
    (h : rocePutMrs ctx sges = .error e) : e = .abort .putPd := by
  have hput : ∀ (ctx : RoceCtx) (i : Nat) (e : Fault), rocePutMr ctx i = .error e →
      e = .abort .putPd := by
    intro ctx i e h
    unfold rocePutMr at h
    split at h
    · cases h
    · split at h
      · split at h
        · next e' hd =>
          obtain rfl := Except.error.inj h
          unfold roceDestroyMr at hd
          split at hd
          · cases hd
          · split at hd
            · cases hd
            · split at hd
              · next hp =>
                obtain rfl := Except.error.inj hd
                unfold assertPutPd at hp
                split at hp
                · exact (Except.error.inj hp).symm
                · cases hp
              · cases hd
        · cases h
      · cases h
  induction sges generalizing ctx with
  | nil => cases h
  | cons sge sges ih =>
    rw [rocePutMrs] at h
    split at h
    · next hm =>
      obtain rfl := Except.error.inj h
      exact hput _ _ _ hm
    · exact ih h

/-! ## Mapping -/

/-- What `roce_mr_map_sge` leaves: the iovecs it stored (an entry that is
counted but not written is `none`) and `*dmamap`. -/
structure MapRes where
  refused : Bool
  iovs : List (Option Iovec)
  dmamap : Bool
  deriving DecidableEq

/-- The value `roce_mr_map_sge` returns. -/
def MapRes.ret (r : MapRes) : Int := if r.refused then eACCES else r.iovs.length

/-- The iovecs of a range that passed the range check.  `mr->num_iov -
off_pages` is unsigned. -/
def mrIovCopy (mr : RoceMr) (sge : RoceSge) : Except Fault (List (Option Iovec)) :=
  let pageSize := mr.pageSize.toUInt64
  let offPages := (sge.addr / pageSize - mr.iova / pageSize).toUInt32.toNat
  let offBytes := (sge.addr % pageSize).toUInt32.toNat
  if offPages > mr.iovs.length then
    if sge.length = 0 then .ok [] else .error (.undefined .mrIovs)
  else roceIovCopy (mr.iovs.drop offPages) offBytes sge.length.toNat

/-- One turn of the loop of `roce_mr_map_sge`: `none` is `-EACCES`, else the
type of the MR and the iovecs stored. -/
def mrMapOne (ctx : RoceCtx) (qp : RoceQp) (isLocal : Bool) (access : UInt32)
    (mrType : Option MrType) (sge : RoceSge) :
    Except Fault (Option (MrType × List (Option Iovec))) :=
  match roceGetMrNoref ctx (roceKeyToIndex sge.lkey) with
  | none => .ok none
  | some mr =>
    if (if isLocal then mr.lkey else mr.rkey) ≠ sge.lkey then .ok none
    else if mr.pd ≠ qp.pd then .ok none
    else if mr.state ≠ .valid then .ok none
    else if access &&& mr.access ≠ access then .ok none
    else if mrType ≠ none ∧ mrType ≠ some mr.type then .ok none
    else if mr.type = .dma then
      if qp.qpType ≠ .gsi then .ok none
      else .ok (some (mr.type, [some ⟨ctx.dmaMap sge.addr sge.length, sge.length.toNat⟩]))
    else if sge.addr < mr.iova ∨
        sge.addr + sge.length.toUInt64 > mr.iova + mr.length.toUInt64 then .ok none
    else
      match mrIovCopy mr sge with
      | .error e => .error e
      | .ok iovs => .ok (some (mr.type, iovs))

/-- The loop of `roce_mr_map_sge`; a refusal keeps what was stored before. -/
def mrMapLoop (ctx : RoceCtx) (qp : RoceQp) (isLocal : Bool) (access : UInt32) :
    List RoceSge → Option MrType → Bool → Except Fault MapRes
  | [], _, dmamap => .ok ⟨false, [], dmamap⟩
  | sge :: sges, mrType, dmamap =>
    match mrMapOne ctx qp isLocal access mrType sge with
    | .error e => .error e
    | .ok none => .ok ⟨true, [], dmamap⟩
    | .ok (some (type, iovs)) =>
      match mrMapLoop ctx qp isLocal access sges (some type) (type == .dma) with
      | .error e => .error e
      | .ok r => .ok { r with iovs := iovs ++ r.iovs }

/-- `roce_mr_map_sge`.  Without SGEs `*dmamap` stays unset, which no caller
can tell from `false`: there is nothing to unmap. -/
def roceMrMapSge (ctx : RoceCtx) (qp : RoceQp) (sges : List RoceSge) (isLocal : Bool)
    (access : UInt32) : Except Fault MapRes :=
  mrMapLoop ctx qp isLocal access sges none false

/-- `roce_mr_unmap_sge`, as the calls of `dma_unmap` it makes. -/
def roceMrUnmapSge (dmamap : Bool) (iovs : List Iovec) : List Event :=
  if dmamap then iovs.map .dmaUnmap else []

/-- What a mapping reads of the context and the QP. -/
structure SameMrs (ctx : RoceCtx) (qp : RoceQp) (ctx' : RoceCtx) (qp' : RoceQp) : Prop where
  mrs : ctx'.mrs = ctx.mrs
  dmaMap : ctx'.dmaMap = ctx.dmaMap
  pd : qp'.pd = qp.pd
  qpType : qp'.qpType = qp.qpType

theorem SameMrs.mrMapOne {ctx ctx' : RoceCtx} {qp qp' : RoceQp} (h : SameMrs ctx qp ctx' qp')
    (isLocal : Bool) (access : UInt32) (mrType : Option MrType) (sge : RoceSge) :
    mrMapOne ctx' qp' isLocal access mrType sge = mrMapOne ctx qp isLocal access mrType sge := by
  unfold Libroce.mrMapOne roceGetMrNoref
  rw [h.mrs, h.dmaMap, h.pd, h.qpType]

/-- A mapping is what its turns are. -/
theorem roceMrMapSge_congr {ctx ctx' : RoceCtx} {qp qp' : RoceQp} {isLocal : Bool} {access : UInt32}
    (h : ∀ mrType sge, mrMapOne ctx' qp' isLocal access mrType sge =
      mrMapOne ctx qp isLocal access mrType sge) (sges : List RoceSge) :
    roceMrMapSge ctx' qp' sges isLocal access = roceMrMapSge ctx qp sges isLocal access := by
  have hloop : ∀ mrType dmamap, mrMapLoop ctx' qp' isLocal access sges mrType dmamap =
      mrMapLoop ctx qp isLocal access sges mrType dmamap := by
    induction sges with
    | nil => exact fun _ _ => rfl
    | cons sge sges ih =>
      intro mrType dmamap
      simp only [mrMapLoop, h, ih]
  exact hloop none false

theorem SameMrs.roceMrMapSge {ctx ctx' : RoceCtx} {qp qp' : RoceQp} (h : SameMrs ctx qp ctx' qp')
    (sges : List RoceSge) (isLocal : Bool) (access : UInt32) :
    roceMrMapSge ctx' qp' sges isLocal access = roceMrMapSge ctx qp sges isLocal access :=
  roceMrMapSge_congr (h.mrMapOne isLocal access) sges

/-- The count of an MR is not read. -/
theorem roceGetMr_mapOne {ctx ctx' : RoceCtx} {i : Nat} (h : roceGetMr ctx i = some ctx') (qp : RoceQp)
    (isLocal : Bool) (access : UInt32) (mrType : Option MrType) (sge : RoceSge) :
    mrMapOne ctx' qp isLocal access mrType sge = mrMapOne ctx qp isLocal access mrType sge := by
  unfold roceGetMr at h
  split at h
  · cases h
  · next mr hmr =>
    obtain rfl := Option.some.inj h
    have hget : ∀ j, roceGetMrNoref (setMr ctx i { mr with ref := mr.ref + 1 }) j =
        if i = j then some { mr with ref := mr.ref + 1 } else roceGetMrNoref ctx j :=
      fun j => roceResourceGet_set ctx.mrs i j mr _ hmr
    unfold mrMapOne
    rw [hget]
    by_cases hi : i = roceKeyToIndex sge.lkey
    · rw [if_pos hi, ← hi, hmr]
      rfl
    · rw [if_neg hi]
      rfl

theorem getMrsLoop_map (ctx : RoceCtx) (taken sges : List RoceSge) (qp : RoceQp) (isLocal : Bool)
    (access : UInt32) (mrType : Option MrType) (sge : RoceSge) :
    mrMapOne (getMrsLoop ctx taken sges).2.2 qp isLocal access mrType sge =
      mrMapOne ctx qp isLocal access mrType sge := by
  induction sges generalizing ctx taken with
  | nil => rfl
  | cons s sges ih =>
    rw [getMrsLoop]
    cases h : roceGetMr ctx (roceKeyToIndex s.lkey) with
    | none => rfl
    | some ctx' => exact (ih ctx' (s :: taken)).trans (roceGetMr_mapOne h qp isLocal access mrType sge)

/-- Mapped with the references taken as before. -/
theorem roceGetMrs_map {ctx ctx' : RoceCtx} {refs : List RoceSge} (h : roceGetMrs ctx refs = .ok (0, ctx'))
    (qp : RoceQp) (isLocal : Bool) (access : UInt32) (sges : List RoceSge) :
    roceMrMapSge ctx' qp sges isLocal access = roceMrMapSge ctx qp sges isLocal access := by
  have hctx : ctx' = (getMrsLoop ctx [] refs).2.2 := by
    unfold roceGetMrs at h
    split at h
    · next taken ctx1 hloop =>
      obtain ⟨-, rfl⟩ := Prod.mk.inj (Except.ok.inj h)
      rw [hloop]
    · split at h
      · cases h
      · obtain ⟨hret, -⟩ := Prod.mk.inj (Except.ok.inj h)
        exact absurd hret (by decide)
  rw [hctx]
  exact roceMrMapSge_congr (getMrsLoop_map ctx [] refs qp isLocal access) sges

/-! ## What a mapping guarantees -/

/-- The checks of one turn, as far as the keys, the PD, the state, the rights
and the type go. -/
structure MrGrants (ctx : RoceCtx) (qp : RoceQp) (isLocal : Bool) (access : UInt32)
    (sge : RoceSge) (mr : RoceMr) : Prop where
  live : roceGetMrNoref ctx (roceKeyToIndex sge.lkey) = some mr
  key : (if isLocal then mr.lkey else mr.rkey) = sge.lkey
  pd : mr.pd = qp.pd
  valid : mr.state = .valid
  rights : access &&& mr.access = access

/-- The range check as the code computes it. -/
def RangeChecked (sge : RoceSge) (mr : RoceMr) : Prop :=
  mr.iova ≤ sge.addr ∧ sge.addr + sge.length.toUInt64 ≤ mr.iova + mr.length.toUInt64

/-- Behind the checks stands the copy. -/
theorem MrGrants.mrMapOne_eq {ctx : RoceCtx} {qp : RoceQp} {isLocal : Bool} {access : UInt32}
    {mrType : Option MrType} {sge : RoceSge} {mr : RoceMr} (h : MrGrants ctx qp isLocal access sge mr)
    (hdma : mr.type ≠ .dma) (htype : mrType = none ∨ mrType = some mr.type) (hrange : RangeChecked sge mr) :
    mrMapOne ctx qp isLocal access mrType sge = (mrIovCopy mr sge).map fun iovs => some (mr.type, iovs) := by
  have hin : ¬(sge.addr < mr.iova ∨ sge.addr + sge.length.toUInt64 > mr.iova + mr.length.toUInt64) := by
    rintro (hlt | hgt)
    · exact UInt64.not_lt.mpr hrange.1 hlt
    · exact UInt64.not_lt.mpr hrange.2 hgt
  have hsame : ¬(mrType ≠ none ∧ mrType ≠ some mr.type) := by
    rcases htype with rfl | rfl
    · exact fun hne => hne.1 rfl
    · exact fun hne => hne.2 rfl
  unfold mrMapOne
  rw [h.live]
  dsimp only
  rw [if_neg (not_not.mpr h.key), if_neg (not_not.mpr h.pd), if_neg (not_not.mpr h.valid),
    if_neg (not_not.mpr h.rights), if_neg hsame, if_neg hdma, if_neg hin]
  cases mrIovCopy mr sge with
  | error e => rfl
  | ok iovs => rfl

/-- A test that answers does not fault. -/
theorem ite_ok_error {α β : Type} {p : Prop} [Decidable p] {a : α} {x : Except β α} {e : β}
    (h : (if p then .ok a else x) = .error e) : ¬p ∧ x = .error e := by
  by_cases hp : p
  · rw [if_pos hp] at h
    cases h
  · rw [if_neg hp] at h
    exact ⟨hp, h⟩

/-- A turn that faults does so in the copy. -/
theorem mrMapOne_error {ctx : RoceCtx} {qp : RoceQp} {isLocal : Bool} {access : UInt32}
    {mrType : Option MrType} {sge : RoceSge} {e : Fault}
    (h : mrMapOne ctx qp isLocal access mrType sge = .error e) :
    ∃ mr, MrGrants ctx qp isLocal access sge mr ∧ mr.type ≠ .dma ∧ RangeChecked sge mr ∧
      mrIovCopy mr sge = .error e := by
  unfold mrMapOne at h
  cases hmr : roceGetMrNoref ctx (roceKeyToIndex sge.lkey) with
  | none =>
    simp only [hmr] at h
    cases h
  | some mr =>
    simp only [hmr] at h
    obtain ⟨hkey, h⟩ := ite_ok_error h
    obtain ⟨hpd, h⟩ := ite_ok_error h
    obtain ⟨hstate, h⟩ := ite_ok_error h
    obtain ⟨hrights, h⟩ := ite_ok_error h
    obtain ⟨-, h⟩ := ite_ok_error h
    have hg : MrGrants ctx qp isLocal access sge mr :=
      ⟨hmr, not_not.mp hkey, not_not.mp hpd, not_not.mp hstate, not_not.mp hrights⟩
    by_cases hdma : mr.type = .dma
    · rw [if_pos hdma] at h
      obtain ⟨-, h⟩ := ite_ok_error h
      cases h
    · rw [if_neg hdma] at h
      obtain ⟨hrange, h⟩ := ite_ok_error h
      obtain ⟨hlow, hhigh⟩ := not_or.mp hrange
      refine ⟨mr, hg, hdma, ⟨UInt64.not_lt.mp hlow, UInt64.not_lt.mp hhigh⟩, ?_⟩
      cases hcopy : mrIovCopy mr sge with
      | error e' =>
        simp only [hcopy] at h
        exact congrArg Except.error (Except.error.inj h)
      | ok iovs =>
        simp only [hcopy] at h
        cases h

theorem mrMapOne_ok {ctx : RoceCtx} {qp : RoceQp} {isLocal : Bool} {access : UInt32}
    {mrType : Option MrType} {sge : RoceSge} {type : MrType} {iovs : List (Option Iovec)}
    (h : mrMapOne ctx qp isLocal access mrType sge = .ok (some (type, iovs))) :
    ∃ mr, MrGrants ctx qp isLocal access sge mr ∧ type = mr.type ∧
      (mrType = none ∨ mrType = some type) ∧
      (mr.type = .dma ∧ qp.qpType = .gsi ∧
          iovs = [some ⟨ctx.dmaMap sge.addr sge.length, sge.length.toNat⟩] ∨
        mr.type ≠ .dma ∧ RangeChecked sge mr ∧ mrIovCopy mr sge = .ok iovs) := by
  unfold mrMapOne at h
  split at h
  · cases h
  next mr hmr =>
  by_cases hkey : (if isLocal then mr.lkey else mr.rkey) = sge.lkey
  swap
  · rw [if_pos hkey] at h
    cases h
  by_cases hpd : mr.pd = qp.pd
  swap
  · rw [if_neg (not_not.mpr hkey), if_pos hpd] at h
    cases h
  by_cases hst : mr.state = .valid
  swap
  · rw [if_neg (not_not.mpr hkey), if_neg (not_not.mpr hpd), if_pos hst] at h
    cases h
  by_cases hacc : access &&& mr.access = access
  swap
  · rw [if_neg (not_not.mpr hkey), if_neg (not_not.mpr hpd), if_neg (not_not.mpr hst),
      if_pos hacc] at h
    cases h
  have hg : MrGrants ctx qp isLocal access sge mr := ⟨hmr, hkey, hpd, hst, hacc⟩
  rw [if_neg (not_not.mpr hkey), if_neg (not_not.mpr hpd), if_neg (not_not.mpr hst),
    if_neg (not_not.mpr hacc)] at h
  split at h
  · cases h
  next hty =>
  have hty' : mrType = none ∨ mrType = some mr.type := by
    rcases not_and_or.mp hty with h1 | h1
    · exact Or.inl (not_not.mp h1)
    · exact Or.inr (not_not.mp h1)
  split at h
  · next hdma =>
    split at h
    · cases h
    · next hgsi =>
      obtain ⟨rfl, rfl⟩ := Prod.mk.inj (Option.some.inj (Except.ok.inj h))
      exact ⟨mr, hg, rfl, hty', Or.inl ⟨hdma, not_not.mp hgsi, rfl⟩⟩
  · next hdma =>
    split at h
    · cases h
    · next hrange =>
      obtain ⟨h1, h2⟩ := not_or.mp hrange
      split at h
      · cases h
      · next iovs' hcopy =>
        obtain ⟨rfl, rfl⟩ := Prod.mk.inj (Option.some.inj (Except.ok.inj h))
        exact ⟨mr, hg, rfl, hty', Or.inr
          ⟨hdma, ⟨UInt64.not_lt.mp h1, UInt64.not_lt.mp h2⟩, hcopy⟩⟩

/-- One step of the loop that was not refused. -/
theorem mrMapLoop_cons_ok {ctx : RoceCtx} {qp : RoceQp} {isLocal : Bool} {access : UInt32}
    {sge : RoceSge} {sges : List RoceSge} {mrType : Option MrType} {dmamap : Bool} {r : MapRes}
    (h : mrMapLoop ctx qp isLocal access (sge :: sges) mrType dmamap = .ok r)
    (hr : r.refused = false) :
    ∃ type iovs r', mrMapOne ctx qp isLocal access mrType sge = .ok (some (type, iovs)) ∧
      mrMapLoop ctx qp isLocal access sges (some type) (type == .dma) = .ok r' ∧
      r'.refused = false ∧ r = { r' with iovs := iovs ++ r'.iovs } := by
  rw [mrMapLoop] at h
  split at h
  · cases h
  · obtain rfl := Except.ok.inj h
    cases hr
  · next type iovs hone =>
    split at h
    · cases h
    · next r' hloop =>
      obtain rfl := Except.ok.inj h
      exact ⟨type, iovs, r', hone, hloop, hr, rfl⟩

/-- The iovecs of a mapping denote no more than its SGEs ask for. -/
theorem mrMapLoop_total {ctx : RoceCtx} {qp : RoceQp} {isLocal : Bool} {access : UInt32}
    {sges : List RoceSge} {mrType : Option MrType} {dmamap : Bool} {r : MapRes}
    (h : mrMapLoop ctx qp isLocal access sges mrType dmamap = .ok r) :
    iovTotal r.iovs ≤ sgeTotal sges := by
  induction sges generalizing mrType dmamap r with
  | nil =>
    obtain rfl := Except.ok.inj h
    exact Nat.zero_le _
  | cons sge sges ih =>
    rw [mrMapLoop] at h
    split at h
    · cases h
    · obtain rfl := Except.ok.inj h
      exact Nat.zero_le _
    · next type iovs hone =>
      split at h
      · cases h
      · next r' hloop =>
        obtain rfl := Except.ok.inj h
        have hrest := ih hloop
        have hfirst : iovTotal iovs ≤ sge.length.toNat := by
          obtain ⟨mr, -, -, -, hcase⟩ := mrMapOne_ok hone
          rcases hcase with ⟨-, -, rfl⟩ | ⟨-, -, hcopy⟩
          · exact Nat.le_refl _
          · unfold mrIovCopy at hcopy
            simp only at hcopy
            split at hcopy
            · split at hcopy
              · obtain rfl := Except.ok.inj hcopy
                exact Nat.zero_le _
              · cases hcopy
            · rw [roceIovCopy_total hcopy]
              exact Nat.min_le_left _ _
        show iovTotal (iovs ++ r'.iovs) ≤ _
        rw [iovTotal_append, sgeTotal_cons]
        omega

theorem ret_nonneg (r : MapRes) : 0 ≤ r.ret ↔ r.refused = false := by
  unfold MapRes.ret eACCES
  cases r.refused
  · simp
  · simp

/-! ## Mappings outlive references -/

/-- A valid MR stays in its slot; only its count may change. -/
def MrsKept (ctx ctx' : RoceCtx) : Prop :=
  ∀ i mr, roceGetMrNoref ctx i = some mr → mr.state = .valid →
    ∃ ref, roceGetMrNoref ctx' i = some { mr with ref := ref }

theorem MrsKept.refl (ctx : RoceCtx) : MrsKept ctx ctx := fun _ mr h _ => ⟨mr.ref, h⟩

theorem MrsKept.trans {a b c : RoceCtx} (h1 : MrsKept a b) (h2 : MrsKept b c) : MrsKept a c := by
  intro i mr hi hv
  obtain ⟨ref, hb⟩ := h1 i mr hi hv
  exact h2 i { mr with ref := ref } hb hv

theorem mrsKept_of_eq {ctx ctx' : RoceCtx} (h : ctx'.mrs = ctx.mrs) : MrsKept ctx ctx' := by
  intro i mr hi _
  refine ⟨mr.ref, ?_⟩
  unfold roceGetMrNoref at hi ⊢
  rw [h, hi]

/-- Storing into one slot. -/
theorem mrsKept_set {ctx ctx' : RoceCtx} {i : Nat} {mr : RoceMr} {v : Option RoceMr}
    (hi : roceGetMrNoref ctx i = some mr) (hset : ctx'.mrs = ctx.mrs.set i v)
    (hv : mr.state = .valid → ∃ ref, v = some { mr with ref := ref }) : MrsKept ctx ctx' := by
  intro j mr' hj hvalid
  unfold roceGetMrNoref at hi hj ⊢
  rw [hset, roceResourceGet_set ctx.mrs i j mr v hi]
  by_cases hij : i = j
  · subst hij
    obtain rfl := Option.some.inj (hi.symm.trans hj)
    rw [if_pos rfl]
    exact hv hvalid
  · rw [if_neg hij, hj]
    exact ⟨mr'.ref, rfl⟩

/-- The slot ends up with a lower count, or empty when the MR was destroyed. -/
theorem rocePutMr_mrs {ctx ctx' : RoceCtx} {i : Nat} {mr : RoceMr} (h : rocePutMr ctx i = .ok ctx')
    (hmr : roceGetMrNoref ctx i = some mr) :
    ∃ v, ctx'.mrs = ctx.mrs.set i v ∧
      (mr.state ≠ .destroyed → v = some { mr with ref := mr.ref - 1 }) ∧
      (v = none ∨ v.map (·.ref) = some (mr.ref - 1)) := by
  unfold rocePutMr at h
  simp only [hmr] at h
  by_cases hst : mr.state = .destroyed
  · rw [if_pos hst] at h
    have hslot : roceGetMrNoref (setMr ctx i { mr with ref := mr.ref - 1 }) i =
        some { mr with ref := mr.ref - 1 } := by
      unfold roceGetMrNoref setMr at *
      rw [roceResourceGet_set ctx.mrs i i mr _ hmr, if_pos rfl]
    cases hd : roceDestroyMr (setMr ctx i { mr with ref := mr.ref - 1 }) i with
    | error e =>
      rw [hd] at h
      cases h
    | ok r =>
      obtain ⟨ret, ctx1⟩ := r
      simp only [hd] at h
      obtain rfl := Except.ok.inj h
      unfold roceDestroyMr at hd
      simp only [hslot] at hd
      split at hd
      · obtain ⟨-, rfl⟩ := Prod.mk.inj (Except.ok.inj hd)
        refine ⟨_, List.set_set _, fun hne => absurd hst hne, Or.inr rfl⟩
      · split at hd
        · cases hd
        · next hp =>
          obtain ⟨-, rfl⟩ := Prod.mk.inj (Except.ok.inj hd)
          obtain ⟨pd, -, rfl⟩ := assertPutPd_ok hp
          exact ⟨none, List.set_set _, fun hne => absurd hst hne, Or.inl rfl⟩
  · rw [if_neg hst] at h
    obtain rfl := Except.ok.inj h
    exact ⟨_, rfl, fun _ => rfl, Or.inr rfl⟩

theorem rocePutMr_kept {ctx ctx' : RoceCtx} {i : Nat} (h : rocePutMr ctx i = .ok ctx') :
    MrsKept ctx ctx' := by
  cases hmr : roceGetMrNoref ctx i with
  | none =>
    unfold rocePutMr at h
    rw [hmr] at h
    obtain rfl := Except.ok.inj h
    exact .refl ctx
  | some mr =>
    obtain ⟨v, hv, hlive, -⟩ := rocePutMr_mrs h hmr
    refine mrsKept_set hmr hv fun hvalid => ⟨_, hlive ?_⟩
    rw [hvalid]
    exact fun hd => by cases hd

theorem rocePutMrs_kept {ctx ctx' : RoceCtx} {sges : List RoceSge}
    (h : rocePutMrs ctx sges = .ok ctx') : MrsKept ctx ctx' := by
  induction sges generalizing ctx with
  | nil =>
    obtain rfl := Except.ok.inj h
    exact .refl ctx
  | cons sge sges ih =>
    rw [rocePutMrs] at h
    split at h
    · cases h
    · next hm => exact (rocePutMr_kept hm).trans (ih h)

theorem roceGetMr_kept {ctx ctx' : RoceCtx} {i : Nat} (h : roceGetMr ctx i = some ctx') :
    MrsKept ctx ctx' := by
  unfold roceGetMr at h
  split at h
  · cases h
  · next mr hmr =>
    obtain rfl := Option.some.inj h
    exact mrsKept_set hmr rfl fun _ => ⟨_, rfl⟩

theorem getMrsLoop_kept (ctx : RoceCtx) (taken sges : List RoceSge) :
    MrsKept ctx (getMrsLoop ctx taken sges).2.2 := by
  induction sges generalizing ctx taken with
  | nil => exact .refl ctx
  | cons sge sges ih =>
    rw [getMrsLoop]
    split
    · exact .refl ctx
    · next ctx1 hget => exact (roceGetMr_kept hget).trans (ih ctx1 _)

theorem roceGetMrs_kept {ctx ctx' : RoceCtx} {sges : List RoceSge} {ret : Int}
    (h : roceGetMrs ctx sges = .ok (ret, ctx')) : MrsKept ctx ctx' := by
  have hloop := getMrsLoop_kept ctx [] sges
  unfold roceGetMrs at h
  split at h
  · next heq =>
    rw [heq] at hloop
    obtain ⟨-, rfl⟩ := Prod.mk.inj (Except.ok.inj h)
    exact hloop
  · next heq =>
    rw [heq] at hloop
    split at h
    · cases h
    · next hput =>
      obtain ⟨-, rfl⟩ := Prod.mk.inj (Except.ok.inj h)
      exact hloop.trans (rocePutMrs_kept hput)

/-- A granted turn is granted again. -/
theorem MrsKept.mrMapOne {ctx ctx' : RoceCtx} {qp qp' : RoceQp} (h : MrsKept ctx ctx')
    (hdma : ctx'.dmaMap = ctx.dmaMap) (hpd : qp'.pd = qp.pd) (htype : qp'.qpType = qp.qpType)
    {isLocal : Bool} {access : UInt32} {mrType : Option MrType} {sge : RoceSge}
    {r : MrType × List (Option Iovec)}
    (hok : mrMapOne ctx qp isLocal access mrType sge = .ok (some r)) :
    mrMapOne ctx' qp' isLocal access mrType sge = .ok (some r) := by
  have hpair : Libroce.mrMapOne ctx qp isLocal access mrType sge = .ok (some (r.1, r.2)) := hok
  obtain ⟨mr, hg, -⟩ := mrMapOne_ok hpair
  obtain ⟨ref, hlive⟩ := h _ mr hg.live hg.valid
  unfold Libroce.mrMapOne at hok ⊢
  rw [hg.live] at hok
  rw [hlive, hdma, hpd, htype]
  exact hok

theorem MrsKept.mrMapLoop {ctx ctx' : RoceCtx} {qp qp' : RoceQp} (h : MrsKept ctx ctx')
    (hdma : ctx'.dmaMap = ctx.dmaMap) (hpd : qp'.pd = qp.pd) (htype : qp'.qpType = qp.qpType)
    {sges : List RoceSge} {isLocal : Bool} {access : UInt32} {mrType : Option MrType} {dmamap : Bool}
    {r : MapRes} (hok : mrMapLoop ctx qp isLocal access sges mrType dmamap = .ok r)
    (hr : r.refused = false) : mrMapLoop ctx' qp' isLocal access sges mrType dmamap = .ok r := by
  induction sges generalizing mrType dmamap r with
  | nil => exact hok
  | cons sge sges ih =>
    obtain ⟨type, iovs, r', hone, hrest, hr', rfl⟩ := mrMapLoop_cons_ok hok hr
    rw [Libroce.mrMapLoop, h.mrMapOne hdma hpd htype hone]
    simp only
    rw [ih hrest hr']

/-- A granted mapping is granted again, with the same iovecs. -/
theorem MrsKept.roceMrMapSge {ctx ctx' : RoceCtx} {qp qp' : RoceQp} (h : MrsKept ctx ctx')
    (hdma : ctx'.dmaMap = ctx.dmaMap) (hpd : qp'.pd = qp.pd) (htype : qp'.qpType = qp.qpType)
    {sges : List RoceSge} {isLocal : Bool} {access : UInt32} {r : MapRes}
    (hok : roceMrMapSge ctx qp sges isLocal access = .ok r) (hr : r.refused = false) :
    roceMrMapSge ctx' qp' sges isLocal access = .ok r :=
  h.mrMapLoop hdma hpd htype hok hr

/-! ### No reference is dropped in vain -/

/-- Every MR has its PD. -/
def PdsLive (ctx : RoceCtx) : Prop :=
  ∀ i mr, roceGetMrNoref ctx i = some mr → roceResourceGet ctx.pds mr.pd ≠ none

theorem assertPutPd_live {ctx : RoceCtx} {pd : Nat} (h : roceResourceGet ctx.pds pd ≠ none) :
    ∃ ctx', assertPutPd ctx pd = .ok ctx' ∧ ctx'.mrs = ctx.mrs ∧
      ∀ j, roceResourceGet ctx.pds j ≠ none → roceResourceGet ctx'.pds j ≠ none := by
  unfold assertPutPd rocePutPd
  cases hpd : roceResourceGet ctx.pds pd with
  | none => exact absurd hpd h
  | some r =>
    refine ⟨_, rfl, rfl, ?_⟩
    intro j hj
    show roceResourceGet (ctx.pds.set pd _) j ≠ none
    rw [roceResourceGet_set ctx.pds pd j r _ hpd]
    split
    · exact Option.some_ne_none _
    · exact hj

/-- A slot that is emptied, or gets an MR of the same PD. -/
theorem PdsLive.set {ctx ctx' : RoceCtx} (h : PdsLive ctx) {i : Nat} {mr : RoceMr} {v : Option RoceMr}
    (hi : roceGetMrNoref ctx i = some mr) (hset : ctx'.mrs = ctx.mrs.set i v)
    (hv : ∀ mr', v = some mr' → mr'.pd = mr.pd)
    (hpds : ∀ j, roceResourceGet ctx.pds j ≠ none → roceResourceGet ctx'.pds j ≠ none) :
    PdsLive ctx' := by
  intro j mr' hj
  unfold roceGetMrNoref at hi hj
  rw [hset, roceResourceGet_set ctx.mrs i j mr v hi] at hj
  apply hpds
  by_cases hij : i = j
  · rw [if_pos hij] at hj
    rw [hv mr' hj]
    exact h i mr hi
  · rw [if_neg hij] at hj
    exact h j mr' hj

theorem roceDestroyMr_live {ctx : RoceCtx} (h : PdsLive ctx) (i : Nat) :
    ∃ r, roceDestroyMr ctx i = .ok r ∧ PdsLive r.2 := by
  unfold roceDestroyMr
  cases hmr : roceGetMrNoref ctx i with
  | none => exact ⟨_, rfl, h⟩
  | some mr =>
    by_cases href : mr.ref ≠ 0
    · refine ⟨_, if_pos href, h.set hmr rfl ?_ fun j hj => hj⟩
      rintro mr' ⟨⟩
      rfl
    · have hpd : roceResourceGet { ctx with mrs := ctx.mrs.set i none }.pds mr.pd ≠ none := h i mr hmr
      obtain ⟨ctx', hput, hmrs, hpds⟩ := assertPutPd_live hpd
      simp only [if_neg href, hput]
      refine ⟨_, rfl, h.set hmr hmrs ?_ hpds⟩
      intro mr' hmr'
      cases hmr'

theorem rocePutMr_live {ctx : RoceCtx} (h : PdsLive ctx) (i : Nat) :
    ∃ ctx', rocePutMr ctx i = .ok ctx' ∧ PdsLive ctx' := by
  unfold rocePutMr
  cases hmr : roceGetMrNoref ctx i with
  | none => exact ⟨ctx, rfl, h⟩
  | some mr =>
    have hset : PdsLive (setMr ctx i { mr with ref := mr.ref - 1 }) := by
      refine h.set hmr rfl ?_ fun j hj => hj
      rintro mr' ⟨⟩
      rfl
    simp only
    split
    · obtain ⟨r, hdestroy, hlive⟩ := roceDestroyMr_live hset i
      rw [hdestroy]
      exact ⟨r.2, rfl, hlive⟩
    · exact ⟨_, rfl, hset⟩

/-- With its PDs in place a context can drop every reference. -/
theorem rocePutMrs_live {ctx : RoceCtx} (h : PdsLive ctx) (sges : List RoceSge) :
    ∃ ctx', rocePutMrs ctx sges = .ok ctx' ∧ PdsLive ctx' := by
  induction sges generalizing ctx with
  | nil => exact ⟨ctx, rfl, h⟩
  | cons sge sges ih =>
    obtain ⟨ctx1, hput, h1⟩ := rocePutMr_live h (roceKeyToIndex sge.lkey)
    rw [rocePutMrs, hput]
    exact ih h1

theorem roceGetMr_live {ctx ctx' : RoceCtx} {i : Nat} (h : PdsLive ctx) (hget : roceGetMr ctx i = some ctx') :
    PdsLive ctx' := by
  unfold roceGetMr at hget
  split at hget
  · cases hget
  · next mr hmr =>
    obtain rfl := Option.some.inj hget
    refine h.set hmr rfl ?_ fun j hj => hj
    rintro mr' ⟨⟩
    rfl

theorem getMrsLoop_live {ctx : RoceCtx} (h : PdsLive ctx) (taken sges : List RoceSge) :
    PdsLive (getMrsLoop ctx taken sges).2.2 := by
  induction sges generalizing ctx taken with
  | nil => exact h
  | cons sge sges ih =>
    rw [getMrsLoop]
    split
    · exact h
    · next ctx1 hget => exact ih (roceGetMr_live h hget) _

theorem roceGetMrs_live {ctx ctx' : RoceCtx} {sges : List RoceSge} {ret : Int} (h : PdsLive ctx)
    (hget : roceGetMrs ctx sges = .ok (ret, ctx')) : PdsLive ctx' := by
  have hloop := getMrsLoop_live h [] sges
  unfold roceGetMrs at hget
  split at hget
  · next heq =>
    rw [heq] at hloop
    obtain ⟨-, rfl⟩ := Prod.mk.inj (Except.ok.inj hget)
    exact hloop
  · next taken ctx1 heq =>
    rw [heq] at hloop
    obtain ⟨ctx2, hput, hlive⟩ := rocePutMrs_live hloop taken
    rw [hput] at hget
    obtain ⟨-, rfl⟩ := Prod.mk.inj (Except.ok.inj hget)
    exact hlive

end Libroce
