import Libroce.Framing

/-!
# Address vectors

`roce_netpkt_set_eth` takes the source GID that an address vector selects and
writes the header of the family of the destination GID.  `roce_modify_qp` looks
at both when the vector is set, `roce_create_ah` at neither, and the GID under
an index comes and goes with `roce_add_gid` and `roce_del_gid`.

    AvValid      the index is in the table, and the families agree
    GidOp        a step of the device, or a GID added or deleted
    MindsGids    what a step has to mind for the vectors to stay valid

Main statement: `gidRun_avs`.
-/

namespace Libroce

open Outcome Machine

/-! ## Valid vectors -/

/-- The index is in the table, and the source GID there is of the family of the
destination GID. -/
def AvValid (ctx : RoceCtx) (ahAttr : RoceAhAttr) : Prop :=
  ahAttr.sgidIndex < roceGidTblLen ∧
    ∀ port ∈ ctx.ports, ∃ sgid, port.gids[ahAttr.sgidIndex.toNat]? = some sgid ∧
      roceGidIsIpv4 sgid = roceGidIsIpv4 ahAttr.gid

section av

variable {ctx ctx' : RoceCtx} {ahAttr : RoceAhAttr}

theorem AvValid.congr (h : AvValid ctx ahAttr) (hports : ctx'.ports = ctx.ports) : AvValid ctx' ahAttr := by
  refine ⟨h.1, ?_⟩
  rw [hports]
  exact h.2

theorem AvValid.gidIn (h : AvValid ctx ahAttr) : GidIn ctx ahAttr := by
  intro port hport
  obtain ⟨sgid, hget, -⟩ := h.2 port hport
  exact (List.getElem?_eq_some_iff.mp hget).1

/-- What `roce_modify_qp_ah` lets through. -/
theorem avValid_of_not_refused (hports : ctx.ports.length = roceMaxPorts.toNat) (htables : GidTables ctx)
    (h : avRefused ctx ahAttr = false) : AvValid ctx ahAttr := by
  have hone : ctx.ports.length = 1 := hports
  unfold avRefused at h
  by_cases hlen : ahAttr.sgidIndex ≥ roceGidTblLen
  · rw [if_pos hlen] at h
    cases h
  rw [if_neg hlen] at h
  refine ⟨UInt8.not_le.mp hlen, fun port hport => ?_⟩
  have hat : portAt ctx 1 = .ok port := by
    obtain ⟨p, hp⟩ := List.length_eq_one_iff.mp hone
    rw [hp] at hport
    obtain rfl := List.mem_singleton.mp hport
    unfold portAt
    rw [hp]
    rfl
  have hidx : ahAttr.sgidIndex.toNat < port.gids.length := by
    rw [htables port hport]
    exact UInt8.lt_iff_toNat_lt.mp (UInt8.not_le.mp hlen)
  have hget := List.getElem?_eq_getElem hidx
  simp only [hat, hget] at h
  refine ⟨_, hget, ?_⟩
  simpa using h

end av

/-! ## The GID table -/

/-- `roce_empty_gid` -/
def roceEmptyGid (gid : Vector UInt8 16) : Bool := Vector.replicate 16 0 == gid

/-- Store into `port->gids[index]`. -/
def RoceCtx.setGid (ctx : RoceCtx) (portNum : UInt8) (port : RocePort) (index : UInt8)
    (gid : Vector UInt8 16) : RoceCtx :=
  { ctx with
    ports := ctx.ports.set (portNum.toNat - 1) { port with gids := port.gids.set index.toNat gid } }

/-- `roce_add_gid` -/
def roceAddGid (ctx : RoceCtx) (portNum index : UInt8) (gid : Vector UInt8 16) :
    Except Fault (Int × RoceCtx) :=
  if portNum = 0 ∨ portNum > roceMaxPorts then .ok (eINVAL, ctx)
  else
    match portAt ctx portNum with
    | .error e => .error e
    | .ok port =>
      match port.gids[index.toNat]? with
      | none => .error (.undefined .gid)
      | some old =>
        if !roceEmptyGid old then .ok (eBUSY, ctx) else .ok (0, ctx.setGid portNum port index gid)

/-- `roce_del_gid` -/
def roceDelGid (ctx : RoceCtx) (portNum index : UInt8) : Except Fault (Int × RoceCtx) :=
  if portNum = 0 ∨ portNum > roceMaxPorts then .ok (eINVAL, ctx)
  else
    match portAt ctx portNum with
    | .error e => .error e
    | .ok port =>
      match port.gids[index.toNat]? with
      | none => .error (.undefined .gid)
      | some old =>
        if roceEmptyGid old then .ok (eINVAL, ctx)
        else .ok (0, ctx.setGid portNum port index (Vector.replicate 16 0))

section table

variable {ctx ctx' : RoceCtx} {portNum index : UInt8} {gid : Vector UInt8 16} {ret : Int}

/-- A GID was put in the place of another. -/
def PutsGid (ctx : RoceCtx) (portNum index : UInt8) (old gid : Vector UInt8 16) (ctx' : RoceCtx) : Prop :=
  ∃ port, port ∈ ctx.ports ∧ port.gids[index.toNat]? = some old ∧
    ctx' = ctx.setGid portNum port index gid

theorem roceAddGid_ok (h : roceAddGid ctx portNum index gid = .ok (ret, ctx')) :
    ctx' = ctx ∨ ∃ old, roceEmptyGid old = true ∧ PutsGid ctx portNum index old gid ctx' := by
  unfold roceAddGid at h
  split at h
  · obtain ⟨-, rfl⟩ := Prod.mk.inj (Except.ok.inj h)
    exact Or.inl rfl
  cases hport : portAt ctx portNum with
  | error e =>
    simp only [hport] at h
    cases h
  | ok port =>
    simp only [hport] at h
    cases hold : port.gids[index.toNat]? with
    | none =>
      simp only [hold] at h
      cases h
    | some old =>
      simp only [hold] at h
      by_cases hempty : roceEmptyGid old = true
      · rw [hempty, if_neg (by decide)] at h
        obtain ⟨-, rfl⟩ := Prod.mk.inj (Except.ok.inj h)
        exact Or.inr ⟨old, hempty, port, (portAt_ends ctx portNum).result hport, hold, rfl⟩
      · rw [Bool.not_eq_true] at hempty
        rw [hempty, if_pos (by decide)] at h
        obtain ⟨-, rfl⟩ := Prod.mk.inj (Except.ok.inj h)
        exact Or.inl rfl

theorem roceDelGid_ok (h : roceDelGid ctx portNum index = .ok (ret, ctx')) :
    ctx' = ctx ∨ ∃ old, PutsGid ctx portNum index old (Vector.replicate 16 0) ctx' := by
  unfold roceDelGid at h
  split at h
  · obtain ⟨-, rfl⟩ := Prod.mk.inj (Except.ok.inj h)
    exact Or.inl rfl
  cases hport : portAt ctx portNum with
  | error e =>
    simp only [hport] at h
    cases h
  | ok port =>
    simp only [hport] at h
    cases hold : port.gids[index.toNat]? with
    | none =>
      simp only [hold] at h
      cases h
    | some old =>
      simp only [hold] at h
      split at h
      · obtain ⟨-, rfl⟩ := Prod.mk.inj (Except.ok.inj h)
        exact Or.inl rfl
      · obtain ⟨-, rfl⟩ := Prod.mk.inj (Except.ok.inj h)
        exact Or.inr ⟨old, port, (portAt_ends ctx portNum).result hport, hold, rfl⟩

theorem PutsGid.ports_length {old : Vector UInt8 16} (h : PutsGid ctx portNum index old gid ctx') :
    ctx'.ports.length = ctx.ports.length := by
  obtain ⟨port, -, -, rfl⟩ := h
  exact List.length_set

theorem PutsGid.gidTables {old : Vector UInt8 16} (h : PutsGid ctx portNum index old gid ctx')
    (htables : GidTables ctx) : GidTables ctx' := by
  obtain ⟨port, hmem, -, rfl⟩ := h
  intro q hq
  rcases List.mem_or_eq_of_mem_set hq with hq | rfl
  · exact htables q hq
  · show (port.gids.set index.toNat gid).length = _
    rw [List.length_set]
    exact htables port hmem

/-- A vector that selects the entry stays valid if the family does. -/
theorem PutsGid.avValid {old : Vector UInt8 16} {ahAttr : RoceAhAttr}
    (h : PutsGid ctx portNum index old gid ctx') (hv : AvValid ctx ahAttr)
    (hsame : ahAttr.sgidIndex = index → roceGidIsIpv4 gid = roceGidIsIpv4 old) : AvValid ctx' ahAttr := by
  obtain ⟨port, hmem, hold, rfl⟩ := h
  refine ⟨hv.1, fun q hq => ?_⟩
  rcases List.mem_or_eq_of_mem_set hq with hq | rfl
  · exact hv.2 q hq
  · obtain ⟨sgid, hget, hfam⟩ := hv.2 port hmem
    by_cases hidx : ahAttr.sgidIndex = index
    · subst hidx
      obtain rfl := Option.some.inj (hold.symm.trans hget)
      refine ⟨gid, ?_, by rw [hsame rfl, hfam]⟩
      exact List.getElem?_set_self (List.getElem?_eq_some_iff.mp hget).1
    · refine ⟨sgid, ?_, hfam⟩
      have hne : index.toNat ≠ ahAttr.sgidIndex.toNat := fun he => hidx (UInt8.toNat_inj.mp he).symm
      show (port.gids.set index.toNat gid)[ahAttr.sgidIndex.toNat]? = _
      rw [List.getElem?_set_ne hne]
      exact hget

end table

/-! ## The machine -/

/-- A step of the device, or a GID added or deleted. -/
inductive GidOp where
  | dev (op : DevOp)
  | addGid (portNum index : UInt8) (gid : Vector UInt8 16)
  | delGid (portNum index : UInt8)

def gidStep (d : Device) : GidOp → Except Fault Device
  | .dev op => devStep d op
  | .addGid portNum index gid => do
    let r ← roceAddGid d.ctx portNum index gid
    return d.withCtx r
  | .delGid portNum index => do
    let r ← roceDelGid d.ctx portNum index
    return d.withCtx r

/-- The vector of a new QP. -/
def unsetAv : RoceAhAttr := ⟨Vector.replicate 16 0, Vector.replicate 6 0, 0, 0, 0, 0, 0⟩

/-- The entries under an index are of IPv6. -/
def Ipv6At (ctx : RoceCtx) (index : UInt8) : Prop :=
  ∀ port ∈ ctx.ports, ∀ gid, port.gids[index.toNat]? = some gid → roceGidIsIpv4 gid = false

/-- No AH selects the index, and no QP that was given a vector. -/
structure Device.Unselected (d : Device) (index : UInt8) : Prop where
  ahs : ∀ i ah, roceResourceGet d.ctx.ahs i = some ah → ah.attr.sgidIndex ≠ index
  qps : d.EachQp fun o => o.qp.attr.ahAttr = unsetAv ∨ o.qp.attr.ahAttr.sgidIndex ≠ index

/-- An AH is created with a valid vector; a QP that was given none builds packets
only while GID 0 is of IPv6; an IPv4 GID comes to a free entry and goes only under
an index that nothing selects. -/
def Device.MindsGids (d : Device) : GidOp → Prop
  | .dev op => (∀ ahAttr, op.NewAh ahAttr → AvValid d.ctx ahAttr) ∧
    ∀ o call, d.Performs o op call → call.Uses ⟨d.ctx, o.qp⟩ unsetAv → Ipv6At d.ctx 0
  | .addGid _ index gid => roceGidIsIpv4 gid = true →
    (∃ port ∈ d.ctx.ports, port.gids[index.toNat]? = some (Vector.replicate 16 0)) → d.Unselected index
  | .delGid _ index => Ipv6At d.ctx index ∨ d.Unselected index

/-- What the steps of the device keep. -/
structure Device.Vectors (d : Device) : Prop where
  ports : d.ctx.ports.length = roceMaxPorts.toNat
  tables : GidTables d.ctx
  ahs : ∀ i ah, roceResourceGet d.ctx.ahs i = some ah → AvValid d.ctx ah.attr
  qps : d.EachQp fun o => o.qp.attr.ahAttr = unsetAv ∨ AvValid d.ctx o.qp.attr.ahAttr

/-- The vectors that its calls give to `roce_netpkt_set_eth` are valid, it looks
up no GID outside the table, and what is built is built for them. -/
def Device.AvsValid (d : Device) : GidOp → Prop
  | .dev op => devStep d op ≠ .error (.undefined .gid) ∧
    ∀ o call, d.Performs o op call →
      (∀ ahAttr, call.Uses ⟨d.ctx, o.qp⟩ ahAttr → AvValid d.ctx ahAttr) ∧
      ∀ t, qpStep ⟨d.ctx, o.qp⟩ call = .ok t → Issues (call.Frames ⟨d.ctx, o.qp⟩) ⟨d.ctx, o.qp⟩ t
  | .addGid _ _ _ => True
  | .delGid _ _ => True

/-! ### One step -/

section step

variable {d d' : Device}

theorem roceGidIsIpv4_zero : roceGidIsIpv4 (Vector.replicate 16 0) = false := by decide

theorem roceEmptyGid_eq {gid : Vector UInt8 16} (h : roceEmptyGid gid = true) :
    gid = Vector.replicate 16 0 := (beq_iff_eq.mp h).symm

theorem avValid_unset {ctx : RoceCtx} (htables : GidTables ctx) (h : Ipv6At ctx 0) : AvValid ctx unsetAv := by
  refine ⟨by decide, fun port hport => ?_⟩
  have hidx : (0 : UInt8).toNat < port.gids.length := by
    rw [htables port hport]
    decide
  refine ⟨_, List.getElem?_eq_getElem hidx, ?_⟩
  rw [h port hport _ (List.getElem?_eq_getElem hidx)]
  exact roceGidIsIpv4_zero.symm

/-- The vectors that a call uses. -/
theorem Device.Vectors.uses (h : d.Vectors) {o : QpObj} {op : DevOp} {call : QpCall}
    (hperf : d.Performs o op call) (hunset : call.Uses ⟨d.ctx, o.qp⟩ unsetAv → Ipv6At d.ctx 0)
    {ahAttr : RoceAhAttr} (hu : call.Uses ⟨d.ctx, o.qp⟩ ahAttr) : AvValid d.ctx ahAttr := by
  obtain ⟨i, hget⟩ := hperf.getQp
  -- the QP's own
  have hown : ahAttr = o.qp.attr.ahAttr → AvValid d.ctx ahAttr := by
    intro heq
    rcases h.qps.getQp hget with hq | hq
    · rw [heq, hq] at hu ⊢
      exact avValid_unset h.tables (hunset hu)
    · rw [heq]
      exact hq
  cases call with
  | modify attr attrMask => exact hu.elim
  | postRecv p wrId sge => exact hu.elim
  | postSend wr calloc =>
    by_cases hrc : o.qp.qpType = .rc
    · exact hown ((if_pos hrc).mp hu)
    · obtain ⟨ah, hah, rfl⟩ := (if_neg hrc).mp hu
      exact h.ahs _ ah hah
  | recv pkt calloc => exact hown hu.2

/-- A call whose vectors are valid looks up no GID outside the table. -/
theorem QpCall.gidsIn_of_valid {s : St} {call : QpCall} (htables : GidTables s.ctx)
    (h : ∀ ahAttr, call.Uses s ahAttr → AvValid s.ctx ahAttr) : call.gidsIn s := by
  cases call with
  | modify attr attrMask => exact htables
  | postRecv p wrId sge => exact trivial
  | postSend wr calloc =>
    constructor
    · intro hrc
      exact (h _ ((if_pos hrc).mpr rfl)).gidIn
    · intro hud ah hah
      have hrc : s.qp.qpType ≠ .rc := by
        rcases hud with hud | hud
        · rw [hud]
          decide
        · rw [hud]
          decide
      exact (h _ ((if_neg hrc).mpr ⟨ah, hah, rfl⟩)).gidIn
  | recv pkt calloc => exact fun hrc => (h _ ⟨hrc, rfl⟩).gidIn

/-- An attribute that is stored was not refused. -/
theorem storedBits_not_refused {ctx : RoceCtx} {qp : RoceQp} {attr : RoceQpAttr} {attrMask bit : UInt32}
    (h : bit ∈ storedBits ctx qp attr attrMask) : bitRefused ctx qp.req attr bit = false := by
  unfold storedBits at h
  by_cases hmask : attrMask &&& unsupportedQpAttr ≠ 0
  · rw [if_pos hmask] at h
    cases h
  · rw [if_neg hmask] at h
    have hpassed := List.all_eq_true.mp List.all_takeWhile bit h
    simpa using hpassed

/-- A step of the device keeps the vectors valid. -/
theorem devStep_vectors (h : d.Vectors) {op : DevOp} (hop : d.MindsGids (.dev op))
    (hs : devStep d op = .ok d') : d'.Vectors := by
  have hends : Ends (fun d' => Addresses op.NewAh d.ctx d'.ctx) (Fault.Blames True True) (devStep d op) :=
    devStep_ends (fun _ => trivial) (fun _ _ _ _ => trivial) fun _ _ _ _ => trivial
  have hctx := hends.result hs
  refine ⟨by rw [hctx.ports]; exact h.ports, ?_, ?_, ?_⟩
  · intro port hport
    rw [hctx.ports] at hport
    exact h.tables port hport
  · intro i ah hget
    rcases hctx.ahs i ah hget with hnew | ⟨ah', hget', hattr⟩
    · exact (hop.1 ah.attr hnew).congr hctx.ports
    · rw [← hattr]
      exact (h.ahs i ah' hget').congr hctx.ports
  · have hqps : d'.EachQp fun o => o.qp.attr.ahAttr = unsetAv ∨ AvValid d.ctx o.qp.attr.ahAttr := by
      refine h.qps.devStep ?_ ?_ hs
      · rintro o a rcq ⟨port, random0, random1, qpn, rfl⟩
        exact Or.inl rfl
      · intro o call s hold hperf hstep
        have hroute := ((qpStep_ends ⟨d.ctx, o.qp⟩ call).result hstep).2
        have hav : s.qp.attr.ahAttr = (call.route ⟨d.ctx, o.qp⟩).2.2 := congrArg (·.2.2) hroute
        show s.qp.attr.ahAttr = unsetAv ∨ AvValid d.ctx s.qp.attr.ahAttr
        rw [hav]
        cases call with
        | modify attr attrMask =>
          show (if roceQpAv ∈ storedBits d.ctx o.qp attr attrMask then attr.ahAttr else o.qp.attr.ahAttr) =
            unsetAv ∨ AvValid d.ctx (if roceQpAv ∈ storedBits d.ctx o.qp attr attrMask then attr.ahAttr
              else o.qp.attr.ahAttr)
          by_cases hbit : roceQpAv ∈ storedBits d.ctx o.qp attr attrMask
          · rw [if_pos hbit]
            exact Or.inr (avValid_of_not_refused h.ports h.tables (storedBits_not_refused hbit))
          · rw [if_neg hbit]
            exact hold
        | postRecv p wrId sge => exact hold
        | postSend wr calloc => exact hold
        | recv pkt calloc => exact hold
    exact hqps.mono fun o ho => ho.imp_right fun hv => hv.congr hctx.ports

/-- A GID put where no valid vector notices it. -/
theorem Device.Vectors.putsGid (h : d.Vectors) {portNum index : UInt8} {old gid : Vector UInt8 16}
    {ctx : RoceCtx} (hput : PutsGid d.ctx portNum index old gid ctx)
    (hsame : roceGidIsIpv4 gid = roceGidIsIpv4 old ∨ d.Unselected index) :
    Device.Vectors { d with ctx := ctx } := by
  have hahs : ctx.ahs = d.ctx.ahs := by
    obtain ⟨port, -, -, rfl⟩ := hput
    rfl
  refine ⟨hput.ports_length.trans h.ports, hput.gidTables h.tables, ?_, ?_⟩
  · intro i ah hget
    have hget' : roceResourceGet d.ctx.ahs i = some ah := by
      rw [← hahs]
      exact hget
    refine hput.avValid (h.ahs i ah hget') fun hidx => ?_
    rcases hsame with hsame | hun
    · exact hsame
    · exact absurd hidx (hun.ahs i ah hget')
  · have hboth : d.EachQp fun o => o.qp.attr.ahAttr = unsetAv ∨ AvValid ctx o.qp.attr.ahAttr := by
      rcases hsame with hsame | hun
      · exact h.qps.mono fun o ho => ho.imp_right fun hv => hput.avValid hv fun _ => hsame
      · refine (h.qps.and hun.qps).mono ?_
        rintro o ⟨ho, hne⟩
        rcases ho with ho | hv
        · exact Or.inl ho
        · rcases hne with hne | hne
          · exact Or.inl hne
          · exact Or.inr (hput.avValid hv fun hidx => absurd hidx hne)
    exact hboth.congr ⟨rfl, rfl, rfl⟩

theorem gidStep_vectors (h : d.Vectors) {op : GidOp} (hop : d.MindsGids op) (hs : gidStep d op = .ok d') :
    d'.Vectors := by
  cases op with
  | dev op => exact devStep_vectors h hop hs
  | addGid portNum index gid =>
    obtain ⟨⟨ret, ctx⟩, hadd, hs⟩ := bind_eq_ok.mp hs
    obtain rfl := Except.ok.inj hs
    rcases roceAddGid_ok hadd with hsame | ⟨old, hempty, hput⟩
    · obtain rfl : ctx = d.ctx := hsame
      exact h
    · obtain rfl := roceEmptyGid_eq hempty
      refine h.putsGid hput ?_
      by_cases hv4 : roceGidIsIpv4 gid = true
      · obtain ⟨port, hmem, hold, -⟩ := hput
        exact Or.inr (hop hv4 ⟨port, hmem, hold⟩)
      · left
        rw [roceGidIsIpv4_zero]
        simpa using hv4
  | delGid portNum index =>
    obtain ⟨⟨ret, ctx⟩, hdel, hs⟩ := bind_eq_ok.mp hs
    obtain rfl := Except.ok.inj hs
    rcases roceDelGid_ok hdel with hsame | ⟨old, hput⟩
    · obtain rfl : ctx = d.ctx := hsame
      exact h
    · refine h.putsGid hput ?_
      rcases hop with hv6 | hun
      · obtain ⟨port, hmem, hold, -⟩ := hput
        left
        rw [roceGidIsIpv4_zero, hv6 port hmem old hold]
      · exact Or.inr hun

/-- **One step.**  The vectors in use are valid. -/
theorem gidStep_avs (h : d.Vectors) {op : GidOp} (hop : d.MindsGids op) : d.AvsValid op := by
  cases op with
  | dev op =>
    have huses : ∀ o call, d.Performs o op call →
        ∀ ahAttr, call.Uses ⟨d.ctx, o.qp⟩ ahAttr → AvValid d.ctx ahAttr :=
      fun o call hperf ahAttr hu => h.uses hperf (hop.2 o call hperf) hu
    constructor
    · intro he
      have hends : Ends (fun d' => Addresses op.NewAh d.ctx d'.ctx) (Fault.Blames True False)
          (devStep d op) :=
        devStep_ends (fun _ => trivial) (fun _ _ _ _ => trivial) fun o call hperf hn =>
          hn (QpCall.gidsIn_of_valid h.tables (huses o call hperf))
      exact hends.fault he
    · exact fun o call hperf => ⟨huses o call hperf, fun t hstep => qpStep_issues hstep⟩
  | addGid portNum index gid => exact trivial
  | delGid portNum index => exact trivial

end step

/-! ### Runs -/

theorem roceInitDevice_vectors {ctx : RoceCtx} {para : RoceDevicePara} {calloc callocQp : Nat → Bool}
    {d : Device} (h : roceInitDevice ctx para calloc callocQp = .ok d)
    (hports : ctx.ports.length = roceMaxPorts.toNat) (htables : GidTables ctx) : d.Vectors := by
  have hfresh := roceInitDevice_fresh h
  obtain ⟨rfl, -⟩ := roceInitDevice_ok h
  have hctx := Device.allocSpecialQps_ctx (para.device ctx) callocQp
  refine ⟨by rw [hctx]; exact hports, by rw [hctx]; exact htables, ?_, hfresh.eachQp⟩
  intro i ah hget
  rw [hctx] at hget
  have hslot : (List.replicate para.maxAh.toNat (none : Option RoceAh))[i]? = some (some ah) :=
    Option.join_eq_some_iff.mp hget
  rw [List.getElem?_replicate] at hslot
  split at hslot
  · cases Option.some.inj hslot
  · cases hslot

/-- **Address vectors.**  Along a run from `roce_init_device` that minds its
GIDs, every vector given to `roce_netpkt_set_eth` is valid. -/
theorem gidRun_avs {ctx : RoceCtx} {para : RoceDevicePara} {calloc callocQp : Nat → Bool} {d : Device}
    (h0 : roceInitDevice ctx para calloc callocQp = .ok d)
    (hports : ctx.ports.length = roceMaxPorts.toNat) (htables : GidTables ctx) (ops : List GidOp)
    (hminds : Along gidStep Device.MindsGids d ops) : Along gidStep Device.AvsValid d ops := by
  have hkeep : ∀ d op d', Device.Vectors d → Device.MindsGids d op → gidStep d op = .ok d' →
      Device.Vectors d' := fun d op d' h hop hs => gidStep_vectors h hop hs
  apply along_of_inv hkeep ?_ (roceInitDevice_vectors h0 hports htables) hminds
  exact fun d op h hop => gidStep_avs h hop

/-- 10.0.0.1 as a GID. -/
def ipv4Gid : Vector UInt8 16 := #v[0, 0, 0, 0, 0, 0, 0, 0, 0, 0, 0xff, 0xff, 10, 0, 0, 1]

/-- A UD QP at handle 2, and an AH with these attributes. -/
def makeUdQp (ahAttr : RoceAhAttr) : List GidOp :=
  [.dev (.allocPd true), .dev (.createCq 16 true), .dev (.createQp (smallQpArgs .ud 0) true 0 0),
    .dev (.createAh 0 ahAttr true)]

def postOne : GidOp := .dev (.onQp 2 (.postSend (smallSend 1 .send) fun _ => true))

/-- An RC QP whose vector names an IPv4 GID, which is then deleted. -/
def deleteGid : List GidOp :=
  [.addGid 1 0 ipv4Gid] ++ makeRcQp.map .dev ++
    [.dev (.onQp 2 (.modify { smallQp.attr with ahAttr := { unsetAv with gid := ipv4Gid } } roceQpAv)),
      .delGid 1 0]

/-- The source of a packet over IPv4. -/
def NetHdr.ipv4Source : NetHdr → Option UInt32
  | .ip4 h => some h.saddr
  | .ip6 _ => none

/-- `roce_create_ah` takes index 200, and the next datagram reads there.  Once
its GID is deleted an RC QP sends over IPv4 without a source. -/
theorem gidRun_avs_unchecked :
    ∃ d t u v, roceInitDevice smallCtx smallPara (fun _ => true) (fun _ => true) = .ok d ∧
      run gidStep d (makeUdQp { unsetAv with sgidIndex := 200 }) = .ok t ∧
      gidStep t postOne = .error (.undefined .gid) ∧
      run gidStep d deleteGid = .ok u ∧ gidStep u postOne = .ok v ∧
      (sentPkts v.ctx.trace).map (·.ip.ipv4Source) = [some 0] :=
  ⟨_, _, _, _, rfl, rfl, rfl, rfl, rfl, rfl⟩

/-- A datagram over IPv6. -/
theorem gidRun_avs_ipv6 :
    smallCtx.ports.length = roceMaxPorts.toNat ∧ GidTables smallCtx ∧
    ∃ d, roceInitDevice smallCtx smallPara (fun _ => true) (fun _ => true) = .ok d ∧
      Along gidStep Device.AvsValid d
        (.addGid 1 0 (Vector.replicate 16 1) :: (makeUdQp unsetAv ++ [postOne])) := by
  have htables : GidTables smallCtx := by
    intro port hport
    obtain rfl := List.mem_singleton.mp hport
    rfl
  have hinit : roceInitDevice smallCtx smallPara (fun _ => true) (fun _ => true) = .ok _ := rfl
  refine ⟨rfl, htables, _, hinit, gidRun_avs hinit rfl htables _ ?_⟩
  -- the table after the first step, which stays
  have hv6 : ∀ d : Device,
      d.ctx.ports = [{ smallPort with gids := smallPort.gids.set 0 (Vector.replicate 16 1) }] →
        GidTables d.ctx ∧ Ipv6At d.ctx 0 := by
    intro d hd
    unfold GidTables Ipv6At
    rw [hd]
    constructor
    · intro port hport
      obtain rfl := List.mem_singleton.mp hport
      rfl
    · intro port hport gid hgid
      obtain rfl := List.mem_singleton.mp hport
      obtain rfl := Option.some.inj hgid
      decide
  have hquiet : ∀ (d : Device) (op : DevOp), (∀ ahAttr, ¬op.NewAh ahAttr) →
      (∀ o call, ¬d.Performs o op call) → d.MindsGids (.dev op) := by
    intro d op hnew hperf
    exact ⟨fun ahAttr h => absurd h (hnew ahAttr), fun o call h => absurd h (hperf o call)⟩
  refine ⟨fun h => absurd h (by decide), fun d0 h0 => ?_⟩
  obtain rfl := Except.ok.inj h0
  refine ⟨hquiet _ _ (fun _ h => h) (fun _ _ h => by cases h), fun d1 h1 => ?_⟩
  obtain rfl := Except.ok.inj h1
  refine ⟨hquiet _ _ (fun _ h => h) (fun _ _ h => by cases h), fun d2 h2 => ?_⟩
  obtain rfl := Except.ok.inj h2
  refine ⟨hquiet _ _ (fun _ h => h) (fun _ _ h => by cases h), fun d3 h3 => ?_⟩
  obtain rfl := Except.ok.inj h3
  refine ⟨⟨?_, fun o call h => by cases h⟩, fun d4 h4 => ?_⟩
  · intro ahAttr hnew
    obtain rfl : ahAttr = unsetAv := hnew
    exact avValid_unset (hv6 _ rfl).1 (hv6 _ rfl).2
  obtain rfl := Except.ok.inj h4
  refine ⟨⟨fun ahAttr h => h.elim, fun o call _ _ => (hv6 _ rfl).2⟩, fun d5 _ => ?_⟩
  exact trivial

end Libroce
