import Libroce.AddressVector

/-!
# The GID table

`port.c` keeps the GIDs of a port in an array of eight, where an entry of zeros
is a free one.

    port.gidMap i        the GID under index `i`, if there is one
    call.spec m          what a call is for, on a map from indices to GIDs
    BehavesAsMap         every call answers as the map does, and touches one entry
    MindsTable           indices of the table, and no GID of zeros for a free entry

Main statement: `gidRun_map`.
-/

namespace Libroce

/-- `roce_get_gid`, with what it stores to `gid` -/
def roceGetGid (ctx : RoceCtx) (portNum index : UInt8) : Except Fault (Int × Option (Vector UInt8 16)) :=
  if portNum = 0 ∨ portNum > roceMaxPorts then .ok (eINVAL, none)
  else
    match portAt ctx portNum with
    | .error e => .error e
    | .ok port =>
      match port.gids[index.toNat]? with
      | none => .error (.undefined .gid)
      | some gid => if roceEmptyGid gid then .ok (eBUSY, none) else .ok (0, some gid)

inductive GidCall where
  | add (portNum index : UInt8) (gid : Vector UInt8 16)
  | del (portNum index : UInt8)
  | get (portNum index : UInt8)

def GidCall.portNum : GidCall → UInt8
  | .add portNum _ _ => portNum
  | .del portNum _ => portNum
  | .get portNum _ => portNum

def GidCall.index : GidCall → UInt8
  | .add _ index _ => index
  | .del _ index => index
  | .get _ index => index

/-- What the call returns and stores, and the context after it. -/
def GidCall.step (ctx : RoceCtx) : GidCall → Except Fault ((Int × Option (Vector UInt8 16)) × RoceCtx)
  | .add portNum index gid => (roceAddGid ctx portNum index gid).map fun r => ((r.1, none), r.2)
  | .del portNum index => (roceDelGid ctx portNum index).map fun r => ((r.1, none), r.2)
  | .get portNum index => (roceGetGid ctx portNum index).map fun r => (r, ctx)

/-! ## The map -/

/-- The GIDs of a port by their indices. -/
def RocePort.gidMap (port : RocePort) (i : Nat) : Option (Vector UInt8 16) :=
  (port.gids[i]?).filter fun gid => !roceEmptyGid gid

inductive GidAnswer where
  | failed
  | done
  | got (gid : Vector UInt8 16)

/-- What the calls are for. -/
def GidCall.spec (m : Nat → Option (Vector UInt8 16)) : GidCall → GidAnswer × (Nat → Option (Vector UInt8 16))
  | .add portNum index gid =>
    if portNum = 1 ∧ index < roceGidTblLen ∧ m index.toNat = none then
      (.done, Function.update m index.toNat (some gid))
    else (.failed, m)
  | .del portNum index =>
    if portNum = 1 ∧ m index.toNat ≠ none then (.done, Function.update m index.toNat none) else (.failed, m)
  | .get portNum index =>
    if portNum = 1 then ((m index.toNat).elim .failed .got, m) else (.failed, m)

/-- The answer as a returned value and what was stored; a failure is a negative
number. -/
def GidAnswer.Is (out : Int × Option (Vector UInt8 16)) : GidAnswer → Prop
  | .failed => out.1 < 0 ∧ out.2 = none
  | .done => out = (0, none)
  | .got gid => out = (0, some gid)

/-- Nothing but the entry of the call has changed. -/
def OneEntry (ctx ctx' : RoceCtx) (index : UInt8) : Prop :=
  ∃ port gids, ctx.ports = [port] ∧ ctx' = { ctx with ports := [{ port with gids := gids }] } ∧
    ∀ j ≠ index.toNat, gids[j]? = port.gids[j]?

/-- Each call answers as the map does, and at the end the table reads as the map. -/
def BehavesAsMap (ctx : RoceCtx) (m : Nat → Option (Vector UInt8 16)) : List GidCall → Prop
  | [] => ∀ index < roceGidTblLen, ∃ out, roceGetGid ctx 1 index = .ok out ∧
      ((GidCall.get 1 index).spec m).1.Is out
  | call :: calls => ∃ out ctx', call.step ctx = .ok (out, ctx') ∧ (call.spec m).1.Is out ∧
      OneEntry ctx ctx' call.index ∧ BehavesAsMap ctx' (call.spec m).2 calls

/-- On the port of the device, the index is in the table, and no GID of zeros is
put into a free entry. -/
def GidCall.Minds (ctx : RoceCtx) (call : GidCall) : Prop :=
  call.portNum = 1 → call.index < roceGidTblLen ∧
    ∀ gid, call = .add call.portNum call.index gid → roceEmptyGid gid = true →
      ∀ port ∈ ctx.ports, port.gidMap call.index.toNat ≠ none

def MindsTable (ctx : RoceCtx) : List GidCall → Prop
  | [] => True
  | call :: calls => call.Minds ctx ∧ ∀ out ctx', call.step ctx = .ok (out, ctx') → MindsTable ctx' calls

/-! ## One call -/

section calls

variable {ctx : RoceCtx} {port : RocePort}

/-- A table of eight entries at the only port. -/
structure GidDevice (ctx : RoceCtx) (port : RocePort) : Prop where
  ports : ctx.ports = [port]
  length : port.gids.length = roceGidTblLen.toNat

theorem port_valid (portNum : UInt8) : (portNum = 0 ∨ portNum > roceMaxPorts) ↔ portNum ≠ 1 := by
  have hmax : roceMaxPorts.toNat = 1 := rfl
  rw [gt_iff_lt, UInt8.lt_iff_toNat_lt, hmax, ← UInt8.toNat_inj, Ne, ← UInt8.toNat_inj]
  show portNum.toNat = 0 ∨ 1 < portNum.toNat ↔ ¬ portNum.toNat = 1
  omega

theorem GidDevice.portAt (h : GidDevice ctx port) : portAt ctx 1 = .ok port := by
  unfold Libroce.portAt
  rw [h.ports]
  rfl

/-- A call on a port that the device does not have. -/
theorem step_badPort {call : GidCall} (hport : call.portNum ≠ 1) (m : Nat → Option (Vector UInt8 16)) :
    call.step ctx = .ok ((eINVAL, none), ctx) ∧ call.spec m = (.failed, m) := by
  cases call with
  | add portNum index gid =>
    have hport : portNum ≠ 1 := hport
    refine ⟨?_, if_neg fun h => hport h.1⟩
    unfold GidCall.step roceAddGid
    simp only [if_pos ((port_valid portNum).mpr hport)]
    rfl
  | del portNum index =>
    have hport : portNum ≠ 1 := hport
    refine ⟨?_, if_neg fun h => hport h.1⟩
    unfold GidCall.step roceDelGid
    simp only [if_pos ((port_valid portNum).mpr hport)]
    rfl
  | get portNum index =>
    have hport : portNum ≠ 1 := hport
    refine ⟨?_, if_neg hport⟩
    unfold GidCall.step roceGetGid
    simp only [if_pos ((port_valid portNum).mpr hport)]
    rfl

/-- What the calls do to an entry of the table. -/
def GidCall.onEntry (old : Vector UInt8 16) : GidCall → (Int × Option (Vector UInt8 16)) × Vector UInt8 16
  | .add _ _ gid => if roceEmptyGid old then ((0, none), gid) else ((eBUSY, none), old)
  | .del _ _ => if roceEmptyGid old then ((eINVAL, none), old) else ((0, none), Vector.replicate 16 0)
  | .get _ _ => if roceEmptyGid old then ((eBUSY, none), old) else ((0, some old), old)

theorem GidDevice.setGid (h : GidDevice ctx port) (index : UInt8) (gid : Vector UInt8 16) :
    ctx.setGid 1 port index gid =
      { ctx with ports := [{ port with gids := port.gids.set index.toNat gid }] } := by
  unfold RoceCtx.setGid
  rw [h.ports]
  rfl

theorem GidDevice.set_self (h : GidDevice ctx port) {i : Nat} {old : Vector UInt8 16}
    (hold : port.gids[i]? = some old) :
      { ctx with ports := [{ port with gids := port.gids.set i old }] } = ctx := by
  obtain ⟨hi, hval⟩ := List.getElem?_eq_some_iff.mp hold
  rw [← hval, List.set_getElem_self, ← h.ports]

/-- A call on an entry of the table. -/
theorem GidDevice.step (h : GidDevice ctx port) {call : GidCall} (hport : call.portNum = 1)
    {old : Vector UInt8 16} (hold : port.gids[call.index.toNat]? = some old) :
    call.step ctx = .ok ((call.onEntry old).1,
      { ctx with ports := [{ port with gids := port.gids.set call.index.toNat (call.onEntry old).2 }] }) := by
  have hself := h.set_self hold
  have hvalid : ¬ ((1 : UInt8) = 0 ∨ 1 > roceMaxPorts) := fun hbad => (port_valid 1).mp hbad rfl
  cases call with
  | add portNum index gid =>
    obtain rfl : portNum = 1 := hport
    have hold : port.gids[index.toNat]? = some old := hold
    unfold GidCall.step roceAddGid GidCall.onEntry GidCall.index at *
    simp only [if_neg hvalid, h.portAt, hold, h.setGid]
    cases hempty : roceEmptyGid old with
    | true => rfl
    | false =>
      simp only [Bool.not_false, if_true, Bool.false_eq_true, if_false, hself]
      rfl
  | del portNum index =>
    obtain rfl : portNum = 1 := hport
    have hold : port.gids[index.toNat]? = some old := hold
    unfold GidCall.step roceDelGid GidCall.onEntry GidCall.index at *
    simp only [if_neg hvalid, h.portAt, hold, h.setGid]
    cases hempty : roceEmptyGid old with
    | true =>
      simp only [if_true, hself]
      rfl
    | false => rfl
  | get portNum index =>
    obtain rfl : portNum = 1 := hport
    have hold : port.gids[index.toNat]? = some old := hold
    unfold GidCall.step roceGetGid GidCall.onEntry GidCall.index at *
    simp only [if_neg hvalid, h.portAt, hold]
    cases hempty : roceEmptyGid old with
    | true =>
      simp only [if_true, hself]
      rfl
    | false =>
      simp only [Bool.false_eq_true, if_false, hself]
      rfl

/-- An index outside the table. -/
theorem GidDevice.step_outside (h : GidDevice ctx port) {call : GidCall} (hport : call.portNum = 1)
    (hidx : ¬ call.index < roceGidTblLen) : call.step ctx = .error (.undefined .gid) := by
  have hvalid : ¬ ((1 : UInt8) = 0 ∨ 1 > roceMaxPorts) := fun hbad => (port_valid 1).mp hbad rfl
  have hnone : port.gids[call.index.toNat]? = none := by
    rw [List.getElem?_eq_none_iff, h.length]
    exact Nat.le_of_not_lt fun hlt => hidx (UInt8.lt_iff_toNat_lt.mpr hlt)
  cases call with
  | add portNum index gid =>
    obtain rfl : portNum = 1 := hport
    have hnone : port.gids[index.toNat]? = none := hnone
    unfold GidCall.step roceAddGid
    simp only [if_neg hvalid, h.portAt, hnone]
    rfl
  | del portNum index =>
    obtain rfl : portNum = 1 := hport
    have hnone : port.gids[index.toNat]? = none := hnone
    unfold GidCall.step roceDelGid
    simp only [if_neg hvalid, h.portAt, hnone]
    rfl
  | get portNum index =>
    obtain rfl : portNum = 1 := hport
    have hnone : port.gids[index.toNat]? = none := hnone
    unfold GidCall.step roceGetGid
    simp only [if_neg hvalid, h.portAt, hnone]
    rfl

/-- What is known of an entry, as an entry of the map. -/
def entryOf (old : Vector UInt8 16) : Option (Vector UInt8 16) := if roceEmptyGid old then none else some old

theorem vacant_of_entryOf {old : Vector UInt8 16} (h : entryOf old = none) : roceEmptyGid old = true := by
  by_contra hno
  rw [show entryOf old = some old from if_neg hno] at h
  cases h

theorem gidMap_at {i : Nat} {old : Vector UInt8 16} (hold : port.gids[i]? = some old) :
    port.gidMap i = entryOf old := by
  unfold RocePort.gidMap entryOf
  rw [hold]
  cases hempty : roceEmptyGid old with
  | true => simp [Option.filter, hempty]
  | false => simp [Option.filter, hempty]

theorem gidMap_set {i : Nat} (hi : i < port.gids.length) (new : Vector UInt8 16) :
    ({ port with gids := port.gids.set i new } : RocePort).gidMap =
      Function.update port.gidMap i (entryOf new) := by
  funext j
  by_cases hj : j = i
  · rw [hj, Function.update_self]
    exact gidMap_at (List.getElem?_set_self hi)
  · rw [Function.update_of_ne hj]
    unfold RocePort.gidMap
    rw [List.getElem?_set_ne fun he => hj he.symm]

/-- On an entry of the table a call answers as it should, unless a GID of zeros
is put into a free one. -/
theorem onEntry_spec {call : GidCall} (hport : call.portNum = 1) (hidx : call.index < roceGidTblLen)
    {old : Vector UInt8 16} {m : Nat → Option (Vector UInt8 16)} (hm : m call.index.toNat = entryOf old)
    (hzero : ∀ gid, call = .add call.portNum call.index gid → roceEmptyGid gid = true → entryOf old ≠ none) :
    (call.spec m).1.Is (call.onEntry old).1 ∧
      (call.spec m).2 = Function.update m call.index.toNat (entryOf (call.onEntry old).2) := by
  have hself : Function.update m call.index.toNat (entryOf old) = m := by
    rw [← hm]
    exact Function.update_eq_self _ _
  cases call with
  | add portNum index gid =>
    obtain rfl : portNum = 1 := hport
    have hm : m index.toNat = entryOf old := hm
    cases hempty : roceEmptyGid old with
    | true =>
      have hnone : entryOf old = none := if_pos hempty
      have hgid : roceEmptyGid gid = false := by
        by_contra hz
        exact hzero gid rfl (by simpa using hz) hnone
      have hentry : entryOf gid = some gid := if_neg (by rw [hgid]; decide)
      have hspec : (GidCall.add 1 index gid).spec m = (.done, Function.update m index.toNat (some gid)) :=
        if_pos ⟨rfl, hidx, hm.trans hnone⟩
      have hon : (GidCall.add 1 index gid).onEntry old = ((0, none), gid) := if_pos hempty
      rw [hspec, hon, hentry]
      exact ⟨rfl, rfl⟩
    | false =>
      have hsome : entryOf old = some old := if_neg (by rw [hempty]; decide)
      have hspec : (GidCall.add 1 index gid).spec m = (.failed, m) := by
        refine if_neg fun hfree => ?_
        rw [hm, hsome] at hfree
        cases hfree.2.2
      have hon : (GidCall.add 1 index gid).onEntry old = ((eBUSY, none), old) :=
        if_neg (by rw [hempty]; decide)
      rw [hspec, hon, hself]
      exact ⟨⟨(by decide : eBUSY < 0), rfl⟩, rfl⟩
  | del portNum index =>
    obtain rfl : portNum = 1 := hport
    have hm : m index.toNat = entryOf old := hm
    cases hempty : roceEmptyGid old with
    | true =>
      have hnone : entryOf old = none := if_pos hempty
      have hspec : (GidCall.del 1 index).spec m = (.failed, m) := if_neg fun hocc => hocc.2 (hm.trans hnone)
      have hon : (GidCall.del 1 index).onEntry old = ((eINVAL, none), old) := if_pos hempty
      rw [hspec, hon, hself]
      exact ⟨⟨(by decide : eINVAL < 0), rfl⟩, rfl⟩
    | false =>
      have hsome : entryOf old = some old := if_neg (by rw [hempty]; decide)
      have hspec : (GidCall.del 1 index).spec m = (.done, Function.update m index.toNat none) := by
        refine if_pos ⟨rfl, ?_⟩
        rw [hm, hsome]
        exact Option.some_ne_none _
      have hon : (GidCall.del 1 index).onEntry old = ((0, none), Vector.replicate 16 0) :=
        if_neg (by rw [hempty]; decide)
      rw [hspec, hon]
      exact ⟨rfl, rfl⟩
  | get portNum index =>
    obtain rfl : portNum = 1 := hport
    have hm : m index.toNat = entryOf old := hm
    have hspec : (GidCall.get 1 index).spec m = ((entryOf old).elim .failed .got, m) := by
      rw [← hm]
      rfl
    cases hempty : roceEmptyGid old with
    | true =>
      have hon : (GidCall.get 1 index).onEntry old = ((eBUSY, none), old) := if_pos hempty
      rw [hspec, hon, hself, show entryOf old = none from if_pos hempty]
      exact ⟨⟨(by decide : eBUSY < 0), rfl⟩, rfl⟩
    | false =>
      have hon : (GidCall.get 1 index).onEntry old = ((0, some old), old) := if_neg (by rw [hempty]; decide)
      rw [hspec, hon, hself, show entryOf old = some old from if_neg (by rw [hempty]; decide)]
      exact ⟨rfl, rfl⟩

/-- **One call.**  It minds the table, and then answers as the map does. -/
theorem GidDevice.call (h : GidDevice ctx port) {call : GidCall} (hminds : call.Minds ctx) :
    ∃ out ctx' port', call.step ctx = .ok (out, ctx') ∧ (call.spec port.gidMap).1.Is out ∧
      OneEntry ctx ctx' call.index ∧ GidDevice ctx' port' ∧ port'.gidMap = (call.spec port.gidMap).2 := by
  by_cases hport : call.portNum = 1
  · obtain ⟨hidx, hzero⟩ := hminds hport
    have hi : call.index.toNat < port.gids.length := by
      rw [h.length]
      exact UInt8.lt_iff_toNat_lt.mp hidx
    have hold := List.getElem?_eq_getElem hi
    have hentry := gidMap_at hold
    obtain ⟨hanswer, hmap⟩ := onEntry_spec hport hidx hentry fun gid hadd hempty hnone =>
      hzero gid hadd hempty port (by rw [h.ports]; exact List.mem_singleton_self _) (hentry.trans hnone)
    refine ⟨_, _,
      { port with gids := port.gids.set call.index.toNat (call.onEntry port.gids[call.index.toNat]).2 },
      h.step hport hold, hanswer, ⟨port, _, h.ports, rfl, fun j hj => ?_⟩, ⟨rfl, ?_⟩, ?_⟩
    · exact List.getElem?_set_ne fun he => hj he.symm
    · show (port.gids.set _ _).length = _
      rw [List.length_set, h.length]
    · rw [hmap, gidMap_set hi]
  · obtain ⟨hstep, hspec⟩ := @step_badPort ctx call hport port.gidMap
    rw [hspec]
    refine ⟨_, _, port, hstep, ⟨(by decide : eINVAL < 0), rfl⟩,
      ⟨port, port.gids, h.ports, ?_, fun _ _ => rfl⟩, h, rfl⟩
    rw [← h.ports]

/-! ## Runs -/

/-- The map has a GID where the table has zeros. -/
def Diverged (port : RocePort) (m : Nat → Option (Vector UInt8 16)) (i : UInt8) : Prop :=
  i < roceGidTblLen ∧ port.gids[i.toNat]? = some (Vector.replicate 16 0) ∧ m i.toNat ≠ none

/-- A free entry answers as no entry of the map does. -/
theorem Diverged.answers {m : Nat → Option (Vector UInt8 16)} {call : GidCall} {i : UInt8}
    (hd : Diverged port m i) (hport : call.portNum = 1) (hidx : call.index = i) :
    ¬ (call.spec m).1.Is (call.onEntry (Vector.replicate 16 0)).1 := by
  obtain ⟨-, -, hm⟩ := hd
  cases call with
  | add portNum index gid =>
    obtain rfl : portNum = 1 := hport
    obtain rfl : index = i := hidx
    have hspec : (GidCall.add 1 index gid).spec m = (.failed, m) := if_neg fun hfree => hm hfree.2.2
    have hon : (GidCall.add 1 index gid).onEntry (Vector.replicate 16 0) = ((0, none), gid) := rfl
    rw [hspec, hon]
    rintro ⟨hneg, -⟩
    exact absurd hneg (by decide : ¬ (0 : Int) < 0)
  | del portNum index =>
    obtain rfl : portNum = 1 := hport
    obtain rfl : index = i := hidx
    have hspec : (GidCall.del 1 index).spec m = (.done, Function.update m index.toNat none) :=
      if_pos ⟨rfl, hm⟩
    have hon : (GidCall.del 1 index).onEntry (Vector.replicate 16 0) =
      ((eINVAL, none), Vector.replicate 16 0) := rfl
    rw [hspec, hon]
    intro hdone
    cases (Prod.mk.inj hdone).1
  | get portNum index =>
    obtain rfl : portNum = 1 := hport
    obtain rfl : index = i := hidx
    obtain ⟨gid, hgid⟩ := Option.ne_none_iff_exists'.mp hm
    have hspec : (GidCall.get 1 index).spec m = (.got gid, m) := by
      have hval : (GidCall.get 1 index).spec m = ((m index.toNat).elim .failed .got, m) := rfl
      rw [hval, hgid]
      rfl
    have hon : (GidCall.get 1 index).onEntry (Vector.replicate 16 0) =
      ((eBUSY, none), Vector.replicate 16 0) := rfl
    rw [hspec, hon]
    intro hgot
    cases (Prod.mk.inj hgot).1

/-- The map of another entry stays as it is. -/
theorem GidCall.spec_other (call : GidCall) (m : Nat → Option (Vector UInt8 16)) {i : Nat}
    (hi : call.portNum ≠ 1 ∨ call.index.toNat ≠ i) : (call.spec m).2 i = m i := by
  cases call with
  | add portNum index gid =>
    dsimp only [GidCall.spec]
    by_cases hcond : portNum = 1 ∧ index < roceGidTblLen ∧ m index.toNat = none
    · rw [if_pos hcond]
      have hne : index.toNat ≠ i := hi.resolve_left fun hp => hp hcond.1
      exact Function.update_of_ne hne.symm _ _
    · rw [if_neg hcond]
  | del portNum index =>
    dsimp only [GidCall.spec]
    by_cases hcond : portNum = 1 ∧ m index.toNat ≠ none
    · rw [if_pos hcond]
      have hne : index.toNat ≠ i := hi.resolve_left fun hp => hp hcond.1
      exact Function.update_of_ne hne.symm _ _
    · rw [if_neg hcond]
  | get portNum index =>
    dsimp only [GidCall.spec]
    by_cases hcond : portNum = 1
    · rw [if_pos hcond]
    · rw [if_neg hcond]

/-- From there on no sequence of calls behaves as the map. -/
theorem Diverged.not_behaves {m : Nat → Option (Vector UInt8 16)} {i : UInt8} (h : GidDevice ctx port)
    (hd : Diverged port m i) (calls : List GidCall) : ¬ BehavesAsMap ctx m calls := by
  induction calls generalizing ctx port m with
  | nil =>
    intro hall
    obtain ⟨out, hget, his⟩ := hall i hd.1
    have hstep := @GidDevice.step ctx port h (.get 1 i) rfl _ hd.2.1
    dsimp only [GidCall.step] at hstep
    rw [hget] at hstep
    have hout : out = ((GidCall.get 1 i).onEntry (Vector.replicate 16 0)).1 :=
      (Prod.mk.inj (Except.ok.inj hstep)).1
    rw [hout] at his
    exact @Diverged.answers port m (.get 1 i) i hd rfl rfl his
  | cons call calls ih =>
    rintro ⟨out, ctx', hstep, his, -, hrest⟩
    by_cases hport : call.portNum = 1
    · by_cases hidx : call.index < roceGidTblLen
      · by_cases hi : call.index = i
        · have hstep' := h.step hport (by rw [hi]; exact hd.2.1)
          obtain ⟨hout, -⟩ := Prod.mk.inj (Except.ok.inj (hstep.symm.trans hstep'))
          rw [hout] at his
          exact hd.answers hport hi his
        · have hlen : call.index.toNat < port.gids.length := by
            rw [h.length]
            exact UInt8.lt_iff_toNat_lt.mp hidx
          have hstep' := h.step hport (List.getElem?_eq_getElem hlen)
          obtain ⟨-, rfl⟩ := Prod.mk.inj (Except.ok.inj (hstep.symm.trans hstep'))
          have hne : call.index.toNat ≠ i.toNat := fun he => hi (UInt8.toNat_inj.mp he)
          refine ih ⟨rfl, ?_⟩ ⟨hd.1, ?_, ?_⟩ hrest
          · show (port.gids.set _ _).length = _
            rw [List.length_set, h.length]
          · show (port.gids.set _ _)[i.toNat]? = _
            rw [List.getElem?_set_ne hne]
            exact hd.2.1
          · rw [call.spec_other m (Or.inr hne)]
            exact hd.2.2
      · rw [h.step_outside hport hidx] at hstep
        cases hstep
    · obtain ⟨hstep', hspec⟩ := @step_badPort ctx call hport m
      obtain ⟨-, rfl⟩ := Prod.mk.inj (Except.ok.inj (hstep.symm.trans hstep'))
      rw [hspec] at hrest
      exact ih h hd hrest

/-- A call that does not mind the table faults, or leaves zeros where the map has a
GID. -/
theorem GidDevice.not_behaves (h : GidDevice ctx port) {call : GidCall} (hminds : ¬ call.Minds ctx)
    (calls : List GidCall) : ¬ BehavesAsMap ctx port.gidMap (call :: calls) := by
  rintro ⟨out, ctx', hstep, -, -, hrest⟩
  obtain ⟨hport, hbad⟩ := Classical.not_imp.mp hminds
  by_cases hidx : call.index < roceGidTblLen
  · have hi : call.index.toNat < port.gids.length := by
      rw [h.length]
      exact UInt8.lt_iff_toNat_lt.mp hidx
    obtain ⟨gid, hadd, hempty, hfree⟩ : ∃ gid, call = .add call.portNum call.index gid ∧
      roceEmptyGid gid = true ∧ port.gidMap call.index.toNat = none := by
      by_contra hno
      refine hbad ⟨hidx, fun gid hadd hempty q hq hfree => hno ⟨gid, hadd, hempty, ?_⟩⟩
      rw [h.ports] at hq
      rw [← List.mem_singleton.mp hq]
      exact hfree
    obtain ⟨old, hold⟩ : ∃ old, port.gids[call.index.toNat]? = some old := ⟨_, List.getElem?_eq_getElem hi⟩
    have hvacant := vacant_of_entryOf ((gidMap_at hold).symm.trans hfree)
    have hstep' := h.step hport hold
    obtain ⟨-, rfl⟩ := Prod.mk.inj (Except.ok.inj (hstep.symm.trans hstep'))
    rw [hport] at hadd
    have hspec : call.spec port.gidMap =
      (.done, Function.update port.gidMap call.index.toNat (some gid)) := by
      rw [hadd]
      exact if_pos ⟨rfl, hidx, hfree⟩
    have hon : (call.onEntry old).2 = Vector.replicate 16 0 := by
      rw [hadd, ← roceEmptyGid_eq hempty]
      exact congrArg Prod.snd (if_pos hvacant)
    rw [hon, hspec] at hrest
    refine Diverged.not_behaves ⟨rfl, ?_⟩ ⟨hidx, ?_, ?_⟩ calls hrest
    · show (port.gids.set _ _).length = _
      rw [List.length_set, h.length]
    · exact List.getElem?_set_self hi
    · show Function.update port.gidMap call.index.toNat (some gid) call.index.toNat ≠ none
      rw [Function.update_self]
      exact Option.some_ne_none gid
  · rw [h.step_outside hport hidx] at hstep
    cases hstep

end calls

/-- **The GID table.**  A sequence of calls behaves as a map from the indices of
the table to GIDs exactly when every call minds the table. -/
theorem gidRun_map {ctx : RoceCtx} {port : RocePort} (hports : ctx.ports = [port])
    (hlength : port.gids.length = roceGidTblLen.toNat) (calls : List GidCall) :
    BehavesAsMap ctx port.gidMap calls ↔ MindsTable ctx calls := by
  have h : GidDevice ctx port := ⟨hports, hlength⟩
  clear hports hlength
  induction calls generalizing ctx port with
  | nil =>
    refine ⟨fun _ => trivial, fun _ index hidx => ?_⟩
    obtain ⟨out, ctx', -, hstep, his, -⟩ := @GidDevice.call ctx port h (.get 1 index) fun _ =>
      ⟨hidx, fun gid hadd => by cases hadd⟩
    dsimp only [GidCall.step] at hstep
    cases hget : roceGetGid ctx 1 index with
    | error e =>
      rw [hget] at hstep
      cases hstep
    | ok r =>
      rw [hget] at hstep
      obtain ⟨rfl, -⟩ := Prod.mk.inj (Except.ok.inj hstep)
      exact ⟨r, rfl, his⟩
  | cons call calls ih =>
    by_cases hminds : call.Minds ctx
    · obtain ⟨out, ctx', port', hstep, his, hone, h', hmap⟩ := h.call hminds
      constructor
      · rintro ⟨out1, ctx1, hstep1, -, -, hrest⟩
        refine ⟨hminds, fun out2 ctx2 hstep2 => ?_⟩
        obtain ⟨-, rfl⟩ := Prod.mk.inj (Except.ok.inj (hstep.symm.trans hstep1))
        obtain ⟨-, rfl⟩ := Prod.mk.inj (Except.ok.inj (hstep.symm.trans hstep2))
        rw [← hmap] at hrest
        exact (ih h').mp hrest
      · rintro ⟨-, hrest⟩
        refine ⟨out, ctx', hstep, his, hone, ?_⟩
        rw [← hmap]
        exact (ih h').mpr (hrest out ctx' hstep)
    · exact ⟨fun hrun => absurd hrun (h.not_behaves hminds calls), fun hrun => absurd hrun.1 hminds⟩

/-- The ninth entry is behind the array; a GID of zeros is added and cannot be
found. -/
theorem gidRun_map_unchecked :
    ¬ BehavesAsMap smallCtx smallPort.gidMap [.add 1 8 (Vector.replicate 16 1)] ∧
      ¬ BehavesAsMap smallCtx smallPort.gidMap [.add 1 0 (Vector.replicate 16 0), .get 1 0] := by
  have h : GidDevice smallCtx smallPort := ⟨rfl, by decide⟩
  constructor
  · refine h.not_behaves (fun hminds => ?_) []
    exact absurd (hminds rfl).1 (by decide)
  · refine h.not_behaves (fun hminds => ?_) _
    exact (hminds rfl).2 _ rfl (by decide) smallPort (List.mem_singleton_self _) (by decide)

/-- A GID is added, found, deleted and missed. -/
theorem gidRun_map_round : BehavesAsMap smallCtx smallPort.gidMap
    [.add 1 7 (Vector.replicate 16 1), .get 1 7, .del 1 7, .get 1 7, .get 2 9] := by
  refine (gidRun_map rfl (by decide) _).mpr ?_
  have hone : ¬ roceEmptyGid (Vector.replicate 16 1) = true := by decide
  refine ⟨fun _ => ⟨by decide, fun gid hadd hempty => ?_⟩,
    fun _ _ _ => ⟨fun _ => ⟨by decide, ?_⟩, fun _ _ _ =>
    ⟨fun _ => ⟨by decide, ?_⟩, fun _ _ _ => ⟨fun _ => ⟨by decide, ?_⟩, fun _ _ _ => ⟨fun hport => ?_, ?_⟩⟩⟩⟩⟩
  · cases hadd
    exact absurd hempty hone
  · exact fun gid hadd => by cases hadd
  · exact fun gid hadd => by cases hadd
  · exact fun gid hadd => by cases hadd
  · exact absurd hport (by decide : ¬ (2 : UInt8) = 1)
  · exact fun _ _ _ => trivial

end Libroce
