import Libroce.Types

/-!
# Resource tables and protection domains

`resource.c` and the reference counts of `pd.c`.  A table is a list of slots
of fixed length; a handle is the index of its slot, so `res->handle` always
matches the slot it was read from.
-/

namespace Libroce

/-! ## Tables -/

/-- `roce_resource_get` -/
def roceResourceGet {α : Type} (addr : List (Option α)) (index : Nat) : Option α :=
  (addr[index]?).join

/-- `roce_resource_alloc`: the first empty slot, or `-EBUSY`.  The resource is
given as what it is under its handle. -/
def roceResourceAlloc {α : Type} (addr : List (Option α)) (res : Nat → α) :
    Option (Nat × List (Option α)) :=
  match addr.findIdx? Option.isNone with
  | none => none
  | some i => some (i, addr.set i (some (res i)))

/-- `roce_resource_free`; `none` is `-EINVAL`. -/
def roceResourceFree {α : Type} (addr : List (Option α)) (index : Nat) : Option (List (Option α)) :=
  match roceResourceGet addr index with
  | none => none
  | some _ => some (addr.set index none)

theorem roceResourceGet_set {α : Type} (addr : List (Option α)) (i j : Nat) (x : α) (v : Option α)
    (h : roceResourceGet addr i = some x) :
    roceResourceGet (addr.set i v) j = if i = j then v else roceResourceGet addr j := by
  unfold roceResourceGet at h ⊢
  rw [List.getElem?_set]
  split
  · next hij =>
    split
    · rfl
    · next hge =>
      rw [List.getElem?_eq_none (by omega)] at h
      cases h
  · rfl

/-- A new resource goes to a slot that is empty. -/
theorem roceResourceAlloc_ok {α : Type} {addr addr' : List (Option α)} {res : Nat → α} {i : Nat}
    (h : roceResourceAlloc addr res = some (i, addr')) :
    addr[i]? = some none ∧ addr' = addr.set i (some (res i)) := by
  unfold roceResourceAlloc at h
  split at h
  · cases h
  · next k hk =>
    obtain ⟨rfl, rfl⟩ := Prod.mk.inj (Option.some.inj h)
    obtain ⟨hlt, hnone, -⟩ := List.findIdx?_eq_some_iff_getElem.mp hk
    refine ⟨?_, rfl⟩
    rw [List.getElem?_eq_getElem hlt, Option.isNone_iff_eq_none.mp hnone]

/-! ## Protection domains -/

/-- `roce_get_pd` -/
def roceGetPd (ctx : RoceCtx) (pdHandle : Nat) : Option RoceCtx :=
  match roceResourceGet ctx.pds pdHandle with
  | none => none
  | some pd => some { ctx with pds := ctx.pds.set pdHandle (some { pd with ref := pd.ref + 1 }) }

/-- `roce_put_pd`; `none` is `-EINVAL`. -/
def rocePutPd (ctx : RoceCtx) (pdHandle : Nat) : Option RoceCtx :=
  match roceResourceGet ctx.pds pdHandle with
  | none => none
  | some pd => some { ctx with pds := ctx.pds.set pdHandle (some { pd with ref := pd.ref - 1 }) }

/-- `ROCE_ASSERT(!roce_put_pd(ctx, pd_handle))` -/
def assertPutPd (ctx : RoceCtx) (pdHandle : Nat) : Except Fault RoceCtx :=
  match rocePutPd ctx pdHandle with
  | none => .error (.abort .putPd)
  | some ctx => .ok ctx

theorem assertPutPd_ok {ctx ctx' : RoceCtx} {i : Nat} (h : assertPutPd ctx i = .ok ctx') :
    ∃ pd, roceResourceGet ctx.pds i = some pd ∧
      ctx' = { ctx with pds := ctx.pds.set i (some { pd with ref := pd.ref - 1 }) } := by
  unfold assertPutPd rocePutPd at h
  cases hget : roceResourceGet ctx.pds i with
  | none =>
    rw [hget] at h
    cases h
  | some pd =>
    rw [hget] at h
    exact ⟨pd, rfl, (Except.ok.inj h).symm⟩

end Libroce
