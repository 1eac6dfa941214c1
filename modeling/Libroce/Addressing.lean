import Libroce.Lib.Outcome
import Libroce.DeviceFrame

/-!
# Where ports and GIDs are looked up

Two tables are indexed by numbers that a caller chose: `ctx->ports` by a port
number, and the GIDs of a port by the index of an address vector.

    Fault.Blames P G   a lookup outside the ports only if P, outside the GIDs only if G
    Inner x            x looks up neither
    SameRoute s t      the tables are the same, and so are the numbers

Each function of the requester and the responder keeps the route, and blames
the port number of its QP and the address vector it was given.
-/

namespace Libroce

open Outcome Machine

/-! ## Faults -/

/-- Outside the ports only if `port`, outside the GIDs only if `gid`. -/
def Fault.Blames (port gid : Prop) : Fault → Prop
  | .undefined .port => port
  | .undefined .gid => gid
  | _ => True

theorem Fault.Blames.mono {P P' G G' : Prop} (hP : P → P') (hG : G → G') {e : Fault}
    (h : e.Blames P G) : e.Blames P' G' := by
  unfold Fault.Blames at h ⊢
  split
  · exact hP h
  · exact hG h
  · trivial

/-- No port and no GID is looked up. -/
def Inner {α : Type} (x : Except Fault α) : Prop := Ends (fun _ => True) (Fault.Blames False False) x

section inner

variable {α β : Type} {x : Except Fault α} {f : α → Except Fault β} {Q : β → Prop} {P G : Prop}

theorem Inner.fault {e : Fault} (h : Inner x) (hx : x = .error e) : e.Blames P G :=
  (Ends.fault h hx).mono False.elim False.elim

theorem Inner.bind (h : Inner x) (hf : ∀ a, x = .ok a → Ends Q (Fault.Blames P G) (f a)) :
    Ends Q (Fault.Blames P G) (x >>= f) :=
  Ends.bind (Ends.weaken h fun _ he => he.mono False.elim False.elim) fun a ha _ => hf a ha

end inner

/-! ## The route -/

/-- Ports stay, and what the AHs say. -/
structure SameTables (ctx ctx' : RoceCtx) : Prop where
  ports : ctx'.ports = ctx.ports
  ahs : ctx'.ahs.map (Option.map RoceAh.attr) = ctx.ahs.map (Option.map RoceAh.attr)

theorem SameTables.refl (ctx : RoceCtx) : SameTables ctx ctx := ⟨rfl, rfl⟩

theorem SameTables.trans {a b c : RoceCtx} (h1 : SameTables a b) (h2 : SameTables b c) :
    SameTables a c := ⟨h2.ports.trans h1.ports, h2.ahs.trans h1.ahs⟩

theorem RefsOnly.sameTables {ctx ctx' : RoceCtx} (h : RefsOnly ctx ctx') : SameTables ctx ctx' := by
  unfold RefsOnly at h
  rw [h]
  exact ⟨rfl, rfl⟩

/-- What a QP looks up by. -/
def RoceQp.route (qp : RoceQp) : QpType × UInt8 × RoceAhAttr :=
  (qp.qpType, qp.attr.portNum, qp.attr.ahAttr)

structure SameRoute (s t : St) : Prop where
  tables : SameTables s.ctx t.ctx
  qp : t.qp.route = s.qp.route

theorem SameRoute.refl (s : St) : SameRoute s s := ⟨.refl _, rfl⟩

theorem SameRoute.trans {s t u : St} (h1 : SameRoute s t) (h2 : SameRoute t u) : SameRoute s u :=
  ⟨h1.tables.trans h2.tables, h2.qp.trans h1.qp⟩

theorem SameRoute.emit (s : St) (es : List Event) : SameRoute s (s.emit es) := ⟨⟨rfl, rfl⟩, rfl⟩

theorem SameRoute.refs {s : St} {ctx : RoceCtx} (h : SameTables s.ctx ctx) :
    SameRoute s { s with ctx := ctx } := ⟨h, rfl⟩

theorem RequesterOnly.route {qp qp' : RoceQp} (h : RequesterOnly qp qp') : qp'.route = qp.route := by
  unfold RequesterOnly at h
  rw [h]
  rfl

theorem Built.route {ctx : RoceCtx} {qp qp' : RoceQp} {wr wr' : SendWr} (h : Built ctx qp wr qp' wr') :
    qp'.route = qp.route := by
  cases h with
  | failed e he => rfl
  | skipped h => rfl
  | queued pkts h hop hs => rfl

/-- An AH whose attributes stay. -/
theorem sameTables_setAh {ctx : RoceCtx} {i : Nat} {ah ah' : RoceAh}
    (h : roceResourceGet ctx.ahs i = some ah) (hattr : ah'.attr = ah.attr) :
    SameTables ctx { ctx with ahs := ctx.ahs.set i (some ah') } := by
  refine ⟨rfl, ?_⟩
  apply List.ext_getElem?
  intro j
  show ((ctx.ahs.set i (some ah')).map (Option.map RoceAh.attr))[j]? = _
  rw [List.getElem?_map, List.getElem?_map, List.getElem?_set]
  by_cases hij : i = j
  · subst hij
    have hget : ctx.ahs[i]? = some (some ah) := Option.join_eq_some_iff.mp h
    obtain ⟨hlt, -⟩ := List.getElem?_eq_some_iff.mp hget
    rw [if_pos rfl, if_pos hlt, hget]
    show some (some ah'.attr) = some (some ah.attr)
    rw [hattr]
  · rw [if_neg hij]

/-- Each AH says what it said. -/
theorem SameTables.ahAttr {a b : RoceCtx} (h : SameTables a b) (i : Nat) :
    (roceResourceGet b.ahs i).map RoceAh.attr = (roceResourceGet a.ahs i).map RoceAh.attr := by
  have hget : (b.ahs[i]?).map (Option.map RoceAh.attr) = (a.ahs[i]?).map (Option.map RoceAh.attr) := by
    rw [← List.getElem?_map, ← List.getElem?_map, h.ahs]
  have hjoin : ∀ o : Option (Option RoceAh),
      o.join.map RoceAh.attr = (o.map (Option.map RoceAh.attr)).join := by
    intro o
    cases o with
    | none => rfl
    | some o => rfl
  unfold roceResourceGet
  rw [hjoin, hjoin, hget]

theorem roceGetAh_tables {ctx ctx' : RoceCtx} {i : Nat} {ah : RoceAh}
    (h : roceGetAh ctx i = some (ah, ctx')) : SameTables ctx ctx' := by
  obtain ⟨hget, rfl⟩ := roceGetAh_ok h
  exact sameTables_setAh hget rfl

theorem rocePutAh_tables (ctx : RoceCtx) (i : Nat) : SameTables ctx (rocePutAh ctx i) := by
  unfold rocePutAh
  split
  · exact .refl ctx
  · next a hget => exact sameTables_setAh hget rfl

/-! ## MRs and SGEs -/

theorem roceAssert_inner (c : Bool) (a : Assertion) : Inner (roceAssert c a) := by
  unfold roceAssert
  split
  · exact trivial
  · exact trivial

theorem assertPutPd_inner (ctx : RoceCtx) (pd : Nat) : Inner (assertPutPd ctx pd) := by
  unfold assertPutPd
  split
  · exact trivial
  · exact trivial

theorem assertPutCq_inner (cqs : List (Option RoceCq)) (cq : Nat) : Inner (assertPutCq cqs cq) := by
  unfold assertPutCq
  split
  · exact trivial
  · exact trivial

theorem roceDestroyMr_inner (ctx : RoceCtx) (i : Nat) : Inner (roceDestroyMr ctx i) := by
  unfold roceDestroyMr
  split
  · exact trivial
  · split
    · exact trivial
    · split
      · next he => exact (assertPutPd_inner _ _).fault he
      · exact trivial

theorem rocePutMr_inner (ctx : RoceCtx) (i : Nat) : Inner (rocePutMr ctx i) := by
  unfold rocePutMr
  split
  · exact trivial
  · split
    · split
      · next he => exact (roceDestroyMr_inner _ _).fault he
      · exact trivial
    · exact trivial

theorem rocePutMrs_inner (sges : List RoceSge) (ctx : RoceCtx) : Inner (rocePutMrs ctx sges) := by
  induction sges generalizing ctx with
  | nil => exact trivial
  | cons sge sges ih =>
    unfold rocePutMrs
    split
    · next he => exact (rocePutMr_inner _ _).fault he
    · exact ih _

theorem roceGetMrs_inner (ctx : RoceCtx) (sges : List RoceSge) : Inner (roceGetMrs ctx sges) := by
  unfold roceGetMrs
  split
  · exact trivial
  · split
    · next he => exact (rocePutMrs_inner _ _).fault he
    · exact trivial

theorem roceFreeRecvWr_inner (ctx : RoceCtx) (p : UInt64) (wr : RecvWr) :
    Inner (roceFreeRecvWr ctx p wr) := by
  unfold roceFreeRecvWr
  split
  · next he => exact (rocePutMrs_inner _ _).fault he
  · exact trivial

theorem roceFreeSendWr_inner (ctx : RoceCtx) (wr : SendWr) : Inner (roceFreeSendWr ctx wr) := by
  unfold roceFreeSendWr
  split
  · exact rocePutMrs_inner _ _
  · exact trivial

theorem mrIovCopy_inner (mr : RoceMr) (sge : RoceSge) : Inner (mrIovCopy mr sge) := by
  unfold mrIovCopy roceIovCopy
  dsimp only
  split
  · split
    · exact trivial
    · exact trivial
  · split
    · exact trivial
    · split
      · exact trivial
      · exact trivial

theorem mrMapOne_inner (ctx : RoceCtx) (qp : RoceQp) (isLocal : Bool) (access : UInt32)
    (mrType : Option MrType) (sge : RoceSge) : Inner (mrMapOne ctx qp isLocal access mrType sge) := by
  have hok : ∀ r : Option (MrType × List (Option Iovec)), Inner (.ok r) := fun _ => trivial
  unfold mrMapOne
  split
  · exact hok _
  · refine Ends.ite (fun _ => hok _) fun _ => ?_
    refine Ends.ite (fun _ => hok _) fun _ => ?_
    refine Ends.ite (fun _ => hok _) fun _ => ?_
    refine Ends.ite (fun _ => hok _) fun _ => ?_
    refine Ends.ite (fun _ => hok _) fun _ => ?_
    refine Ends.ite (fun _ => Ends.ite (fun _ => hok _) fun _ => hok _) fun _ => ?_
    refine Ends.ite (fun _ => hok _) fun _ => ?_
    split
    · next he => exact (mrIovCopy_inner _ _).fault he
    · exact hok _

theorem roceMrMapSge_inner (ctx : RoceCtx) (qp : RoceQp) (sges : List RoceSge) (isLocal : Bool)
    (access : UInt32) : Inner (roceMrMapSge ctx qp sges isLocal access) := by
  have hloop : ∀ sges mrType dmamap, Inner (mrMapLoop ctx qp isLocal access sges mrType dmamap) := by
    intro sges
    induction sges with
    | nil =>
      intro mrType dmamap
      exact trivial
    | cons sge sges ih =>
      intro mrType dmamap
      unfold mrMapLoop
      split
      · next he => exact (mrMapOne_inner _ _ _ _ _ _).fault he
      · exact trivial
      · split
        · next he => exact (ih _ _).fault he
        · exact trivial
  exact hloop sges none false

theorem roceSgeLen_inner (sges : List RoceSge) (i off : Nat) : Inner (roceSgeLen sges i off) := by
  unfold roceSgeLen
  split
  · exact trivial
  · refine Ends.ite (fun _ => ?_) fun _ => trivial
    exact Ends.ite (fun _ => trivial) fun _ => trivial

theorem roceSgePages_inner (sges : List RoceSge) (pageSize : UInt32) :
    Inner (roceSgePages sges pageSize) := Ends.ite (fun _ => trivial) fun _ => trivial

theorem roceSgeAdvance_inner (sges : List RoceSge) (bytes i off : Nat) :
    Inner (roceSgeAdvance sges bytes i off) := by
  unfold roceSgeAdvance
  split
  · exact trivial
  · refine Ends.ite (fun _ => ?_) fun _ => trivial
    refine Ends.ite (fun _ => trivial) fun _ => ?_
    split
    · exact trivial
    · exact trivial

/-! ### What packets carry -/

theorem pktMapSge_inner (ctx : RoceCtx) (qp : RoceQp) (sges : List RoceSge) (pages : UInt32) :
    Inner (pktMapSge ctx qp sges pages) := by
  unfold pktMapSge
  refine (roceMrMapSge_inner _ _ _ _ _).bind fun r _ => ?_
  refine Ends.ite (fun _ => trivial) fun _ => ?_
  exact Ends.ite (fun _ => trivial) fun _ => trivial

theorem onlyPages_inner (ctx : RoceCtx) (wr : SendWr) : Inner (onlyPages ctx wr) :=
  Ends.ite (fun _ => trivial) fun _ => roceSgePages_inner _ _

theorem onlyPayload_inner (ctx : RoceCtx) (qp : RoceQp) (wr : SendWr) (payload pages : UInt32) :
    Inner (onlyPayload ctx qp wr payload pages) :=
  Ends.ite (fun _ => trivial) fun _ => pktMapSge_inner _ _ _ _

theorem onlyUnmap_inner (ctx : RoceCtx) (qp : RoceQp) (wr : SendWr) : Inner (onlyUnmap ctx qp wr) :=
  Ends.ite (fun _ => trivial) fun _ => (roceMrMapSge_inner _ _ _ _ _).bind fun _ _ => trivial

theorem requestLen_inner (wr : SendWr) : Inner (requestLen wr) :=
  Ends.ite (fun _ => trivial) fun _ => roceSgeLen_inner _ _ _

theorem completionEvents_inner (qp : RoceQp) (wr : SendWr) : Inner (completionEvents qp wr) :=
  Ends.ite (fun _ => (roceSgeLen_inner _ _ _).bind fun _ _ => trivial) fun _ => trivial

/-! ## Receive WRs -/

/-- The route stays, and who is to blame for a lookup that fails. -/
def Routes {α : Type} (P G : Prop) (s : St) (st : α → St) (x : Except Fault α) : Prop :=
  Ends (fun r => SameRoute s (st r)) (Fault.Blames P G) x

/-- Nothing is looked up. -/
abbrev Stays {α : Type} (s : St) (st : α → St) (x : Except Fault α) : Prop := Routes False False s st x

theorem Routes.after {α : Type} {P G : Prop} {s t : St} {st : α → St} {x : Except Fault α}
    (h : Routes P G t st x) (ht : SameRoute s t) : Routes P G s st x :=
  Ends.mono h (fun _ _ hr => ht.trans hr) fun _ he => he

theorem Stays.routes {α : Type} {P G : Prop} {s : St} {st : α → St} {x : Except Fault α}
    (h : Stays s st x) : Routes P G s st x :=
  Ends.weaken h fun _ he => he.mono False.elim False.elim

/-- One call after another. -/
theorem Routes.bind {α β : Type} {P G : Prop} {s : St} {st : α → St} {st' : β → St}
    {x : Except Fault α} {f : α → Except Fault β} (hx : Routes P G s st x)
    (hf : ∀ a, x = .ok a → SameRoute s (st a) → Routes P G (st a) st' (f a)) :
    Routes P G s st' (x >>= f) :=
  Ends.bind hx fun a ha hs => (hf a ha hs).after hs

theorem roceFreeRecvWr_tables {ctx ctx' : RoceCtx} {p : UInt64} {wr : RecvWr}
    (h : roceFreeRecvWr ctx p wr = .ok ctx') : SameTables ctx ctx' := by
  unfold roceFreeRecvWr at h
  cases hput : rocePutMrs ctx wr.sge with
  | error e =>
    rw [hput] at h
    cases h
  | ok ctx1 =>
    rw [hput] at h
    obtain rfl := Except.ok.inj h
    exact (rocePutMrs_refsOnly hput).sameTables.trans ⟨rfl, rfl⟩

/-- Freeing a receive WR and then `f`. -/
theorem roceFreeRecvWr_stays {s : St} {p : UInt64} {wr : RecvWr} {f : RoceCtx → Int × St}
    (hf : ∀ ctx, SameRoute { s with ctx := ctx } (f ctx).2) :
    Stays s Prod.snd (match roceFreeRecvWr s.ctx p wr with
      | .error e => .error e
      | .ok ctx => .ok (f ctx)) := by
  split
  · next he => exact (roceFreeRecvWr_inner _ _ _).fault he
  · next ctx hctx => exact (SameRoute.refs (roceFreeRecvWr_tables hctx)).trans (hf ctx)

theorem copyLoop_stays (dsts : List (Option Iovec)) (s : St) (iovs : List (List UInt8)) :
    Stays s id (copyLoop s dsts iovs) := by
  induction dsts generalizing s iovs with
  | nil => exact SameRoute.refl s
  | cons dst dsts ih =>
    cases dst with
    | none => exact trivial
    | some dst =>
      refine (ih _ _).after ?_
      exact ⟨⟨rfl, rfl⟩, rfl⟩

/-- A state that a mapping may refuse to give. -/
def orStay (s : St) (o : Option St) : St := o.getD s

theorem placePayload_stays (s : St) (sges : List RoceSge) (isLocal : Bool) (access : UInt32)
    (iovs : List (List UInt8)) : Stays s (orStay s) (placePayload s sges isLocal access iovs) := by
  unfold placePayload
  refine (roceMrMapSge_inner _ _ _ _ _).bind fun r _ => ?_
  refine Ends.ite (fun _ => trivial) fun _ => ?_
  refine Ends.ite (fun _ => SameRoute.refl s) fun _ => ?_
  refine (roceSgePages_inner _ _).bind fun pages _ => ?_
  refine (roceAssert_inner _ _).bind fun _ _ => ?_
  refine Ends.bind (copyLoop_stays _ s iovs) fun t _ ht => ?_
  exact ht.trans (.emit t _)

theorem recvFinish_stays (s : St) (p : UInt64) (wr : RecvWr) (bufLen : UInt32) (immdt : Option UInt32)
    (opcode : UInt8) : Stays s Prod.snd (recvFinish s p wr bufLen immdt opcode) := by
  unfold recvFinish
  dsimp only
  split
  · exact ⟨⟨rfl, rfl⟩, rfl⟩
  · next e _ =>
    have hemit : SameRoute s ((s.setRecvWr p { wr with byteLen := wr.byteLen + bufLen }).emit [e]) :=
      ⟨⟨rfl, rfl⟩, rfl⟩
    exact Routes.after (roceFreeRecvWr_stays fun ctx => ⟨⟨rfl, rfl⟩, rfl⟩) hemit

theorem rqPop_route (s : St) : SameRoute s (rqPop s).2 := by
  unfold rqPop
  split
  · exact .refl s
  · exact ⟨⟨rfl, rfl⟩, rfl⟩

theorem roceRecvPayload_stays (s : St) (iovs : List (List UInt8)) (immdt : Option UInt32)
    (inprocess : Bool) (opcode : UInt8) :
    Stays s Prod.snd (roceRecvPayload s iovs immdt inprocess opcode) := by
  have hpop : SameRoute s (rocePopRecvWr s inprocess).2 := by
    have hrq := rqPop_route s
    unfold rocePopRecvWr
    split
    · exact .refl s
    · split
      · exact .refl s
      · split
        · next t ht =>
          rw [ht] at hrq
          exact hrq.trans ⟨⟨rfl, rfl⟩, rfl⟩
        · next p t ht =>
          rw [ht] at hrq
          exact hrq.trans ⟨⟨rfl, rfl⟩, rfl⟩
  unfold roceRecvPayload
  split
  · next t ht =>
    rw [ht] at hpop
    exact hpop
  · next p t ht =>
    rw [ht] at hpop
    refine Routes.after ?_ hpop
    split
    · exact trivial
    · unfold recvPayloadWr
      refine (roceSgeLen_inner _ _ _).bind fun len _ => ?_
      refine Ends.ite (fun _ => SameRoute.refl t) fun _ => ?_
      refine (roceSgeAdvance_inner _ _ _ _).bind fun cursor _ => ?_
      refine Ends.bind (placePayload_stays _ _ _ _ _) fun o _ ho => ?_
      have hset : ∀ wr, SameRoute t (t.setRecvWr p wr) := fun _ => ⟨⟨rfl, rfl⟩, rfl⟩
      cases o with
      | none => exact hset _
      | some u => exact (recvFinish_stays u p _ _ _ _).after ((hset _).trans ho)

theorem writeFinish_stays (s : St) (immdt : Option UInt32) (opcode : UInt8) :
    Stays s Prod.snd (writeFinish s immdt opcode) := by
  unfold writeFinish
  refine Ends.ite (fun _ => ?_) fun _ => SameRoute.refl _
  have hpop := rqPop_route s
  split
  · next t ht =>
    rw [ht] at hpop
    exact hpop
  · next p t ht =>
    rw [ht] at hpop
    refine Routes.after ?_ hpop
    unfold writeComplete
    split
    · exact trivial
    · split
      · exact SameRoute.refl t
      · next e _ =>
        exact Routes.after (roceFreeRecvWr_stays fun ctx => ⟨⟨rfl, rfl⟩, rfl⟩) (SameRoute.emit t [e])

theorem writePlace_stays (s : St) (iovs : List (List UInt8)) (immdt : Option UInt32) (opcode : UInt8) :
    Stays s Prod.snd (writePlace s iovs immdt opcode) := by
  unfold writePlace
  refine Ends.bind (placePayload_stays _ _ _ _ _) fun o _ ho => ?_
  cases o with
  | none => exact SameRoute.refl s
  | some t =>
    have hlen : SameRoute s { t with qp.resp.writtenlen := t.qp.resp.writtenlen + roceIovLen iovs } :=
      ho.trans ⟨⟨rfl, rfl⟩, rfl⟩
    refine writeFinish_stays _ immdt opcode |>.after hlen

theorem rocePostRecv_stays (s : St) (p : UInt64) (wr : RecvWr) : Stays s Prod.snd (rocePostRecv s p wr) := by
  unfold rocePostRecv
  split
  · next he => exact (roceGetMrs_inner _ _).fault he
  · next ret ctx hget =>
    have hrefs : SameRoute s { s with ctx := ctx } := .refs (roceGetMrs_refsOnly hget).sameTables
    refine Routes.after ?_ hrefs
    refine Ends.ite (fun _ => ?_) fun _ => ⟨⟨rfl, rfl⟩, rfl⟩
    exact roceFreeRecvWr_stays (s := { s with ctx := ctx }) fun ctx => .refl _

/-! ## The lookups -/

def PortIn (ctx : RoceCtx) (portNum : UInt8) : Prop := portNum ≠ 0 ∧ portNum.toNat ≤ ctx.ports.length

def GidIn (ctx : RoceCtx) (ahAttr : RoceAhAttr) : Prop :=
  ∀ port ∈ ctx.ports, ahAttr.sgidIndex.toNat < port.gids.length

/-- The port of the device and that of the QP. -/
def PortsIn (ctx : RoceCtx) (qp : RoceQp) : Prop := PortIn ctx 1 ∧ PortIn ctx qp.attr.portNum

theorem portAt_ends (ctx : RoceCtx) (portNum : UInt8) :
    Ends (· ∈ ctx.ports) (Fault.Blames (¬PortIn ctx portNum) False) (portAt ctx portNum) := by
  unfold portAt
  by_cases hzero : portNum = 0
  · rw [if_pos hzero]
    exact fun hin => hin.1 hzero
  · rw [if_neg hzero]
    split
    · next hnone =>
      rintro ⟨-, hle⟩
      have hlen := List.getElem?_eq_none_iff.mp hnone
      have hpos : portNum.toNat ≠ 0 := fun h0 => hzero (UInt8.toNat_inj.mp h0)
      omega
    · next port hport => exact List.mem_of_getElem? hport

theorem roceNetpktSetEth_ends {ctx : RoceCtx} {port : RocePort} (hport : port ∈ ctx.ports)
    (pkt : RoceNetpkt) (ahAttr : RoceAhAttr) :
    Ends (fun _ => True) (Fault.Blames False (¬GidIn ctx ahAttr)) (roceNetpktSetEth pkt port ahAttr) := by
  unfold roceNetpktSetEth
  split
  · next hnone =>
    intro hin
    have hlt := hin port hport
    have hlen := List.getElem?_eq_none_iff.mp hnone
    omega
  · exact Ends.ite (fun _ => trivial) fun _ => trivial

section build

variable {ctx : RoceCtx} {qp : RoceQp} {P G : Prop}

theorem roceGetMtu_ends (hP : ¬PortsIn ctx qp → P) :
    Ends (fun _ => True) (Fault.Blames P G) (roceGetMtu ctx qp) := by
  unfold roceGetMtu
  refine Ends.ite (fun _ => trivial) fun _ => ?_
  split
  · next he =>
    exact ((portAt_ends ctx 1).fault he).mono (fun hn => hP fun h => hn h.1) False.elim
  · exact trivial

theorem roceNetpktAlloc_ends (hP : ¬PortsIn ctx qp → P) (opaquePtr : Option Nat) (padcnt : UInt8)
    (calloc : Bool) :
    Ends (fun _ => True) (Fault.Blames P G) (roceNetpktAlloc ctx qp opaquePtr padcnt calloc) := by
  unfold roceNetpktAlloc roceQpVnetHdr
  cases hport : portAt ctx qp.attr.portNum with
  | error e => exact ((portAt_ends _ _).fault hport).mono (fun hn => hP fun h => hn h.2) False.elim
  | ok port => exact Ends.ite (fun _ => trivial) fun _ => trivial

theorem requestHeaders_ends (hP : ¬PortsIn ctx qp → P) {ahAttr : RoceAhAttr} (hG : ¬GidIn ctx ahAttr → G)
    (pkt : RoceNetpkt) (opcode : UInt8) (se : Bool) (padcnt : UInt8) (destqp : UInt32) (ack : Bool)
    (psn : UInt32) : Ends (fun _ => True) (Fault.Blames P G)
      (requestHeaders ctx qp pkt opcode se padcnt destqp ack psn ahAttr) := by
  unfold requestHeaders
  refine Ends.bind ((portAt_ends _ _).weaken fun _ he => he.mono (fun hn => hP fun h => hn h.2) False.elim)
    fun port _ hport => ?_
  exact (roceNetpktSetEth_ends hport _ _).weaken fun _ he => he.mono False.elim hG

variable (hP : ¬PortsIn ctx qp → P) (hG : ¬GidIn ctx qp.attr.ahAttr → G) (wr : SendWr)
  (calloc : Nat → Bool)

include hP hG

theorem rcOnly_ends (opcode : UInt8) (ext : List UInt8) (payload : UInt32) :
    Ends (fun _ => True) (Fault.Blames P G) (rcOnly ctx qp wr calloc opcode ext payload) := by
  unfold rcOnly
  refine (onlyPages_inner _ _).bind fun pages _ => ?_
  refine Ends.bind (roceNetpktAlloc_ends hP _ _ _) fun o _ _ => ?_
  cases o with
  | none => exact trivial
  | some pkt =>
    refine (onlyPayload_inner _ _ _ _ _).bind fun o _ => ?_
    cases o with
    | none => exact trivial
    | some bytes => exact Ends.bind (requestHeaders_ends hP hG _ _ _ _ _ _ _) fun _ _ _ => trivial

theorem multiPkt_ends (opaquePtr : Option Nat) (sges : List RoceSge) (opcode : UInt8) (ext : List UInt8)
    (se : Bool) (padcnt : UInt8) (ack : Bool) (psn : UInt32) (calloc : Bool) :
    Ends (fun _ => True) (Fault.Blames P G)
      (multiPkt ctx qp opaquePtr sges opcode ext se padcnt ack psn calloc) := by
  unfold multiPkt
  refine (roceSgePages_inner _ _).bind fun pages _ => ?_
  refine Ends.bind (roceNetpktAlloc_ends hP _ _ _) fun o _ _ => ?_
  cases o with
  | none => exact trivial
  | some pkt =>
    refine (pktMapSge_inner _ _ _ _).bind fun o _ => ?_
    cases o with
    | none => exact trivial
    | some bytes => exact Ends.bind (requestHeaders_ends hP hG _ _ _ _ _ _ _) fun _ _ _ => trivial

theorem multiStep_ends (opcode : UInt8) (ext : List UInt8) (mtu : UInt16) (m : MultiState) :
    Ends (fun _ => True) (Fault.Blames P G) (multiStep ctx qp wr calloc opcode ext mtu m) := by
  unfold multiStep
  refine (roceSgeAdvance_inner _ _ _ _).bind fun cursor _ => ?_
  refine Ends.bind (multiPkt_ends hP hG _ _ _ _ _ _ _ _ _) fun o _ _ => ?_
  cases o with
  | none => exact trivial
  | some pkt => exact trivial

theorem multiMiddle_ends (opcode : UInt8) (mtu : UInt16) (fuel : Nat) (m : MultiState) :
    Ends (fun _ => True) (Fault.Blames P G) (multiMiddle ctx qp wr calloc opcode mtu fuel m) := by
  induction fuel generalizing m with
  | zero => exact trivial
  | succ fuel ih =>
    unfold multiMiddle
    refine Ends.ite (fun _ => ?_) fun _ => trivial
    refine Ends.bind (multiStep_ends hP hG _ _ _ _ _ _) fun o _ _ => ?_
    cases o with
    | none => exact trivial
    | some m => exact ih m

theorem rcMulti_ends (kind : MultiKind) (payload : UInt32) (mtu : UInt16) :
    Ends (fun _ => True) (Fault.Blames P G) (rcMulti ctx qp wr calloc kind payload mtu) := by
  unfold rcMulti
  refine Ends.bind (multiStep_ends hP hG _ _ _ _ _ _) fun o _ _ => ?_
  cases o with
  | none => exact trivial
  | some m =>
    refine Ends.bind (multiMiddle_ends hP hG _ _ _ _ _ _) fun o _ _ => ?_
    cases o with
    | none => exact trivial
    | some m =>
      refine (roceSgeAdvance_inner _ _ _ _).bind fun cursor _ => ?_
      refine Ends.bind (multiPkt_ends hP hG _ _ _ _ _ _ _ _ _) fun o _ _ => ?_
      cases o with
      | none => exact trivial
      | some pkt => exact trivial

theorem roceRcBuildPkts_ends :
    Ends (fun _ => True) (Fault.Blames P G) (roceRcBuildPkts ctx qp wr calloc) := by
  have honly := rcOnly_ends hP hG wr calloc
  have hsend : ∀ inv imm, Ends (fun _ => True) (Fault.Blames P G)
      (roceRcSendPkts ctx qp wr calloc inv imm) := by
    intro inv imm
    refine Ends.bind (roceGetMtu_ends hP) fun mtu _ _ => ?_
    refine (roceAssert_inner _ _).bind fun _ _ => ?_
    refine (requestLen_inner wr).bind fun payload _ => ?_
    refine Ends.ite (fun _ => ?_) fun _ => ?_
    · exact Ends.ite (fun _ => honly _ _ _) fun _ => Ends.ite (fun _ => honly _ _ _) fun _ => honly _ _ _
    · refine (roceAssert_inner _ _).bind fun _ _ => ?_
      exact rcMulti_ends hP hG wr calloc _ _ _
  have hwrite : ∀ imm, Ends (fun _ => True) (Fault.Blames P G)
      (roceRcWritePkts ctx qp wr calloc imm) := by
    intro imm
    refine Ends.bind (roceGetMtu_ends hP) fun mtu _ _ => ?_
    refine (requestLen_inner wr).bind fun payload _ => ?_
    refine Ends.ite (fun _ => ?_) fun _ => rcMulti_ends hP hG wr calloc _ _ _
    exact Ends.ite (fun _ => honly _ _ _) fun _ => honly _ _ _
  unfold roceRcBuildPkts
  refine Ends.ite (fun _ => trivial) fun _ => ?_
  cases wr.opcode with
  | sendWithImm => exact hsend _ _
  | sendWithInv => exact hsend _ _
  | send => exact hsend _ _
  | rdmaWriteWithImm => exact hwrite _
  | rdmaWrite => exact hwrite _
  | _ => exact trivial

end build

/-! ## The requester -/

theorem SameRoute.portsIn {s t : St} (h : SameRoute s t) (hin : PortsIn s.ctx s.qp) :
    PortsIn t.ctx t.qp := by
  have hnum : t.qp.attr.portNum = s.qp.attr.portNum := congrArg (·.2.1) h.qp
  unfold PortsIn PortIn at hin ⊢
  rw [h.tables.ports, hnum]
  exact hin

theorem SameRoute.gidIn {s t : St} (h : SameRoute s t) (hin : GidIn s.ctx s.qp.attr.ahAttr) :
    GidIn t.ctx t.qp.attr.ahAttr := by
  have hah : t.qp.attr.ahAttr = s.qp.attr.ahAttr := congrArg (·.2.2) h.qp
  unfold GidIn at hin ⊢
  rw [h.tables.ports, hah]
  exact hin

theorem roceCompleteHead_route (s : St) : SameRoute s (roceCompleteHead s) := ⟨⟨rfl, rfl⟩, rfl⟩

theorem roceRcCompleteSendWr_stays (s : St) (pkt : RoceNetpkt) :
    Stays s id (roceRcCompleteSendWr s pkt) := by
  unfold roceRcCompleteSendWr
  dsimp only
  split
  · exact ⟨⟨rfl, rfl⟩, rfl⟩
  · split
    · exact trivial
    · next wr sq _ =>
      refine Ends.ite (fun _ => ?_) fun _ => trivial
      refine (completionEvents_inner _ _).bind fun reports _ => ?_
      refine (roceFreeSendWr_inner _ _).bind fun ctx hctx => ?_
      have htables := (roceFreeSendWr_refsOnly hctx).sameTables
      exact ⟨⟨htables.ports, htables.ahs⟩, rfl⟩

theorem ackLoop_stays (psn : UInt32) (pkts : List RoceNetpkt) (s : St) : Stays s id (ackLoop psn pkts s) := by
  induction pkts generalizing s with
  | nil => exact SameRoute.refl s
  | cons pkt pkts ih =>
    unfold ackLoop
    refine Ends.ite (fun _ => SameRoute.refl s) fun _ => ?_
    have htake : SameRoute s (({ s with qp.req.outgoingPkts := pkts } : St).emit [.acked pkt]) :=
      ⟨⟨rfl, rfl⟩, rfl⟩
    have hdone := roceRcCompleteSendWr_stays
      (({ s with qp.req.outgoingPkts := pkts } : St).emit [.acked pkt]) pkt
    split
    · next he => exact hdone.fault he
    · next t ht => exact (ih t).after (htake.trans (hdone.result ht))

theorem roceHandleAck_stays (s : St) (psn : UInt32) : Stays s id (roceHandleAck s psn) := by
  unfold roceHandleAck
  split
  · exact SameRoute.refl s
  · split
    · exact SameRoute.refl s
    · exact ackLoop_stays psn _ s

theorem roceXmitPkts_stays (s : St) : Stays s id (roceXmitPkts s) := by
  have hpending : SameRoute s (xmitPending s) := ⟨⟨rfl, rfl⟩, rfl⟩
  unfold roceXmitPkts
  split
  · exact hpending
  · simp only
    -- the distance itself does not matter
    generalize roceComparePsn _ _ = diff
    refine Ends.ite (fun _ => ?_) fun _ => trivial
    refine Ends.ite (fun _ => ?_) fun _ => trivial
    exact Ends.ite (fun _ => SameRoute.refl s) fun _ => hpending

theorem roceHandleAcknowledge_stays (s : St) (syndrome : Syndrome) (val : UInt8) (psn msn : UInt32) :
    Stays s id (roceHandleAcknowledge s syndrome val psn msn) := by
  unfold roceHandleAcknowledge
  cases syndrome with
  | ack =>
    refine (roceHandleAck_stays s psn).bind fun t _ _ => ?_
    exact roceXmitPkts_stays t
  | nak =>
    refine (roceHandleAck_stays s _).bind fun t _ _ => ?_
    exact (roceXmitPkts_stays _).after (.emit t _)
  | rnrNak => exact SameRoute.refl s
  | reserved => exact SameRoute.refl s

theorem postGetMrs_stays (s : St) (wr : SendWr) : Stays s Prod.fst (postGetMrs s wr) := by
  unfold postGetMrs
  refine Ends.ite (fun _ => SameRoute.refl s) fun _ => ?_
  refine (roceGetMrs_inner _ _).bind fun r hr => ?_
  exact SameRoute.refs (roceGetMrs_refsOnly hr).sameTables

section calls

variable {s : St} {P G : Prop} (hP : ¬PortsIn s.ctx s.qp → P)

include hP

theorem roceRequestRc_routes (hG : ¬GidIn s.ctx s.qp.attr.ahAttr → G) (wr : SendWr)
    (calloc : Nat → Bool) : Routes P G s id (roceRequestRc s wr calloc) := by
  unfold roceRequestRc
  have hqueue : Routes P G s id (requestQueue s wr calloc) := by
    unfold requestQueue requestBuild
    have hbuild : Ends (fun r : RoceQp × SendWr => r.1.route = s.qp.route) (Fault.Blames P G)
        (if wr.error = 0 then roceRcBuildPkts s.ctx s.qp wr calloc else .ok (s.qp, wr)) := by
      refine Ends.ite (fun _ => ?_) fun _ => rfl
      refine (roceRcBuildPkts_ends hP hG wr calloc).mono (fun r hr _ => ?_) fun _ he => he
      exact (roceRcBuildPkts_ok hr).route
    refine Ends.bind hbuild fun r _ hr => ?_
    exact ⟨.refl _, hr⟩
  refine hqueue.bind fun t _ _ => ?_
  refine (roceXmitPkts_stays t).routes.bind fun u _ _ => ?_
  exact roceCompleteHead_route u

/-- A WR whose AH names a GID of each port. -/
def AhIn (s : St) (wr : SendWr) : Prop :=
  ∀ ah, roceResourceGet s.ctx.ahs wr.ud.ah = some ah → GidIn s.ctx ah.attr

omit hP in
theorem AhIn.route {t : St} {wr : SendWr} {e : UInt8} {m : Bool} (h : AhIn s wr) (ht : SameRoute s t) :
    AhIn t { wr with error := e, mapped := m } := by
  intro ah hget
  have hattr := ht.tables.ahAttr wr.ud.ah
  rw [show roceResourceGet t.ctx.ahs wr.ud.ah = some ah from hget] at hattr
  obtain ⟨ah', hget', hattr'⟩ := Option.map_eq_some_iff.mp hattr.symm
  have hin := h ah' hget'
  unfold GidIn at hin ⊢
  rw [ht.tables.ports, ← hattr']
  exact hin

theorem udPkt_ends (wr : SendWr) {ahAttr : RoceAhAttr} (hG : ¬GidIn s.ctx ahAttr → G)
    (calloc imm : Bool) (payload : UInt32) :
    Ends (fun _ => True) (Fault.Blames P G) (udPkt s.ctx s.qp wr calloc imm payload ahAttr) := by
  unfold udPkt
  refine (onlyPages_inner _ _).bind fun pages _ => ?_
  refine Ends.bind (roceNetpktAlloc_ends hP _ _ _) fun o _ _ => ?_
  cases o with
  | none => exact trivial
  | some pkt =>
    refine (onlyPayload_inner _ _ _ _ _).bind fun o _ => ?_
    cases o with
    | none => exact trivial
    | some bytes =>
      refine (onlyUnmap_inner _ _ _).bind fun unmaps _ => ?_
      exact Ends.bind (requestHeaders_ends hP hG _ _ _ _ _ _ _) fun _ _ _ => trivial

theorem roceUdSendPkt_routes (wr : SendWr) (hG : ¬AhIn s wr → G) (calloc imm : Bool)
    (payload : UInt32) : Routes P G s Prod.fst (roceUdSendPkt s wr calloc imm payload) := by
  unfold roceUdSendPkt
  cases hget : roceGetAh s.ctx wr.ud.ah with
  | none => exact SameRoute.refl s
  | some r =>
    obtain ⟨ah, ctx⟩ := r
    have htables := roceGetAh_tables hget
    have hroute : SameRoute s { s with ctx := ctx } := .refs htables
    have hP' : ¬PortsIn ctx s.qp → P := fun hn => hP fun hin => hn (hroute.portsIn hin)
    have hG' : ¬GidIn ctx ah.attr → G := by
      refine fun hn => hG fun hin => hn ?_
      have hgid := hin ah (roceGetAh_ok hget).1
      unfold GidIn at hgid ⊢
      rw [htables.ports]
      exact hgid
    refine Ends.bind (udPkt_ends (s := { s with ctx := ctx }) hP' wr hG' calloc imm payload) fun o _ _ => ?_
    have hput : ∀ t, SameRoute { s with ctx := ctx } t →
        SameRoute s { t with ctx := rocePutAh t.ctx wr.ud.ah } :=
      fun t ht => (hroute.trans ht).trans (.refs (rocePutAh_tables _ _))
    cases o with
    | none => exact hput _ (.refl _)
    | some r =>
      obtain ⟨pkt, unmaps⟩ := r
      refine hput (({ s with ctx := ctx, qp.req.psn := roceQpPsnInc s.qp.req.psn } : St).emit
        (.netXmit pkt :: unmaps)) ?_
      exact ⟨⟨rfl, rfl⟩, rfl⟩

theorem udSwitch_routes (wr : SendWr) (hG : ¬AhIn s wr → G) (calloc : Bool) :
    Routes P G s Prod.fst (udSwitch s wr calloc) := by
  unfold udSwitch
  refine Ends.bind (roceGetMtu_ends hP) fun mtu _ _ => ?_
  refine (requestLen_inner wr).bind fun payload _ => ?_
  refine Ends.ite (fun _ => SameRoute.refl s) fun _ => ?_
  have hsent := fun imm => roceUdSendPkt_routes hP wr hG calloc imm payload
  cases wr.opcode with
  | sendWithImm => exact (hsent true).bind fun r _ _ => SameRoute.refl r.1
  | send => exact (hsent false).bind fun r _ _ => SameRoute.refl r.1
  | _ => exact SameRoute.refl s

theorem roceRequestUd_routes (wr : SendWr) (hG : ¬AhIn s wr → G) (calloc : Bool) :
    Routes P G s id (roceRequestUd s wr calloc) := by
  unfold roceRequestUd
  have hreq : Routes P G s Prod.fst (udRequest s wr calloc) :=
    Ends.ite (fun _ => udSwitch_routes hP wr hG calloc) fun _ => SameRoute.refl s
  refine hreq.bind fun r _ _ => ?_
  obtain ⟨t, wr', byteLen⟩ := r
  dsimp only
  have hemit : SameRoute t (if wrSignaled t.qp wr' || wr'.error != 0 then
      t.emit [.cqComp (sendWc t.qp wr' wr'.error byteLen) t.qp.scq] else t) := by
    split
    · exact .emit t _
    · exact .refl t
  refine (roceFreeSendWr_inner _ _).bind fun ctx hctx => ?_
  exact hemit.trans (.refs (roceFreeSendWr_refsOnly hctx).sameTables)

/-- The address vector that a post goes by names a GID of each port. -/
def PostGidIn (s : St) (wr : SendWr) : Prop :=
  (s.qp.qpType = .rc → GidIn s.ctx s.qp.attr.ahAttr) ∧
    (s.qp.qpType = .gsi ∨ s.qp.qpType = .ud → AhIn s wr)

/-- **Posting a send.** -/
theorem rocePostSend_routes (wr : SendWr) (hG : ¬PostGidIn s wr → G) (calloc : Nat → Bool) :
    Routes P G s id (rocePostSend s wr calloc) := by
  unfold rocePostSend
  refine (postGetMrs_stays s wr).routes.bind fun r hr hroute => ?_
  obtain ⟨t, wr'⟩ := r
  dsimp only at hroute ⊢
  have hP' : ¬PortsIn t.ctx t.qp → P := fun hn => hP fun hin => hn (hroute.portsIn hin)
  have htype : t.qp.qpType = s.qp.qpType := congrArg (·.1) hroute.qp
  obtain ⟨-, e, m, rfl⟩ := postGetMrs_ok hr
  have hrc : s.qp.qpType = .rc → ¬GidIn t.ctx t.qp.attr.ahAttr → G := by
    intro hty hn
    refine hG fun hin => hn (hroute.gidIn (hin.1 hty))
  have hud : s.qp.qpType = .gsi ∨ s.qp.qpType = .ud →
      ¬AhIn t { wr with error := e, mapped := m } → G := by
    intro hty hn
    refine hG fun hin => hn ?_
    exact (hin.2 hty).route hroute
  rw [← htype] at hrc hud
  cases hcase : t.qp.qpType with
  | rc => exact roceRequestRc_routes hP' (hrc hcase) _ calloc
  | gsi => exact roceRequestUd_routes hP' _ (hud (Or.inl hcase)) _
  | ud => exact roceRequestUd_routes hP' _ (hud (Or.inr hcase)) _
  | _ => exact trivial

/-! ## The responder -/

variable (hG : ¬GidIn s.ctx s.qp.attr.ahAttr → G)

include hG

theorem roceNetpktAcknowledge_routes (syndrome : Syndrome) (val : UInt8) (psn : UInt32) (calloc : Bool) :
    Routes P G s id (roceNetpktAcknowledge s syndrome val psn calloc) := by
  have hpkt : Ends (fun _ => True) (Fault.Blames P G)
      (acknowledgePkt s.ctx s.qp syndrome val psn calloc) := by
    unfold acknowledgePkt
    have halloc := roceNetpktAlloc_ends (G := G) hP none 0 calloc
    split
    · next he => exact halloc.fault he
    · exact trivial
    · dsimp only
      have hport := portAt_ends s.ctx s.qp.attr.portNum
      split
      · next he => exact (hport.fault he).mono (fun hn => hP fun h => hn h.2) False.elim
      · next port he =>
        exact (roceNetpktSetEth_ends (hport.result he) _ _).weaken fun _ he => he.mono False.elim hG
  unfold roceNetpktAcknowledge
  refine Ends.ite (fun _ => ?_) fun _ => trivial
  split
  · next he => exact hpkt.fault he
  · exact ⟨⟨rfl, rfl⟩, rfl⟩

theorem roceRdmaWritePayload_routes (iovs : List (List UInt8)) (reth : Option IbReth)
    (immdt : Option UInt32) (inprocess : Bool) (opcode : UInt8) (calloc : Bool) :
    Routes P G s Prod.snd (roceRdmaWritePayload s iovs reth immdt inprocess opcode calloc) := by
  have hack := roceNetpktAcknowledge_routes hP hG .nak 1 s.qp.attr.rqPsn calloc
  unfold roceRdmaWritePayload
  refine Ends.ite (fun _ => ?_) fun _ => ?_
  · split
    · next he => exact hack.fault he
    · next t ht => exact hack.result ht
  · refine Ends.ite (fun _ => ?_) fun _ => (writePlace_stays s iovs immdt opcode).routes
    cases reth with
    | none => exact trivial
    | some reth =>
      have hstart : SameRoute s (writeStart s reth) := ⟨⟨rfl, rfl⟩, rfl⟩
      exact (writePlace_stays _ iovs immdt opcode).routes.after hstart

theorem recvRequest_routes (pkt : Inbound) : Routes P G s Prod.snd (recvRequest s pkt) := by
  have hsend : ∀ iovs immdt inprocess opcode,
      Routes P G s Prod.snd (roceRecvPayload s iovs immdt inprocess opcode) :=
    fun _ _ _ _ => (roceRecvPayload_stays s _ _ _ _).routes
  have hwrite := roceRdmaWritePayload_routes hP hG
  have hdrop : ∀ ret : Int, Routes P G s Prod.snd (.ok (ret, s)) := fun _ => SameRoute.refl s
  unfold recvRequest
  refine Ends.ite (fun _ => hsend _ _ _ _) fun _ => ?_
  refine Ends.ite (fun _ => hsend _ _ _ _) fun _ => ?_
  refine Ends.ite (fun _ => ?_) fun _ => ?_
  · split
    · exact hdrop _
    · exact hsend _ _ _ _
  refine Ends.ite (fun _ => hsend _ _ _ _) fun _ => ?_
  refine Ends.ite (fun _ => ?_) fun _ => ?_
  · split
    · exact hdrop _
    · exact hsend _ _ _ _
  refine Ends.ite (fun _ => hsend _ _ _ _) fun _ => ?_
  refine Ends.ite (fun _ => ?_) fun _ => ?_
  · split
    · exact hdrop _
    · exact hwrite _ _ _ _ _ _
  refine Ends.ite (fun _ => ?_) fun _ => ?_
  · split
    · exact hdrop _
    · split
      · exact hdrop _
      · exact hwrite _ _ _ _ _ _
  refine Ends.ite (fun _ => ?_) fun _ => ?_
  · split
    · exact hdrop _
    · exact hwrite _ _ _ _ _ _
  refine Ends.ite (fun _ => hwrite _ _ _ _ _ _) fun _ => ?_
  refine Ends.ite (fun _ => hwrite _ _ _ _ _ _) fun _ => ?_
  refine Ends.ite (fun _ => ?_) fun _ => hdrop _
  split
  · exact hdrop _
  · exact hwrite _ _ _ _ _ _

theorem recvInSequence_routes (pkt : Inbound) : Routes P G s Prod.snd (recvInSequence s pkt) := by
  have hflag : SameRoute s { s with qp.resp.inPsnNak := false } := ⟨⟨rfl, rfl⟩, rfl⟩
  unfold recvInSequence
  refine Routes.after ?_ hflag
  refine (recvRequest_routes (s := { s with qp.resp.inPsnNak := false }) hP hG pkt).bind
    fun r _ hr => ?_
  obtain ⟨ret, t⟩ := r
  dsimp only at hr ⊢
  have hst : SameRoute s t := hflag.trans hr
  refine Ends.ite (fun _ => SameRoute.refl t) fun _ => ?_
  have hnext : ∀ u : St, SameRoute u { u with qp.attr.rqPsn := roceQpPsnInc u.qp.attr.rqPsn } :=
    fun _ => ⟨⟨rfl, rfl⟩, rfl⟩
  refine Ends.ite (fun _ => ?_) fun _ => hnext t
  have hack := roceNetpktAcknowledge_routes (fun hn => hP fun hin => hn (hst.portsIn hin))
    (fun hn => hG fun hin => hn (hst.gidIn hin)) .ack 0x1f (ibBthGetPsn pkt.bth) pkt.calloc
  exact hack.bind fun u _ _ => hnext u

theorem roceRecvRc_routes (pkt : Inbound) : Routes P G s Prod.snd (roceRecvRc s pkt) := by
  have hdrop : ∀ ret : Int, Routes P G s Prod.snd (.ok (ret, s)) := fun _ => SameRoute.refl s
  unfold roceRecvRc
  refine Ends.ite (fun _ => ?_) fun _ => ?_
  · unfold recvAcknowledge
    split
    · exact hdrop _
    · refine (roceHandleAcknowledge_stays s _ _ _ _).routes.bind fun t _ _ => SameRoute.refl t
  · refine Ends.ite (fun _ => hdrop _) fun _ => ?_
    refine Ends.ite (fun _ => ?_) fun _ => recvInSequence_routes hP hG pkt
    have hack := roceNetpktAcknowledge_routes hP hG .nak 0 s.qp.attr.rqPsn pkt.calloc
    have hout : Routes P G s id (roceOutOfSeq s pkt.calloc) := by
      unfold roceOutOfSeq
      refine Ends.ite (fun _ => SameRoute.refl s) fun _ => ?_
      split
      · next he => exact hack.fault he
      · next t ht => exact (hack.result ht).trans ⟨⟨rfl, rfl⟩, rfl⟩
    exact hout.bind fun t _ _ => SameRoute.refl t

end calls

theorem roceRecvUd_stays (s : St) (pkt : Inbound) (ip : NetHdr) : Stays s Prod.snd (roceRecvUd s pkt ip) := by
  have hdrop : ∀ ret : Int, Stays s Prod.snd (.ok (ret, s)) := fun _ => SameRoute.refl s
  unfold roceRecvUd
  split
  · exact hdrop _
  · next deth iovs _ =>
    dsimp only
    have hfinish : ∀ r : Int × St, SameRoute r.2
        (if r.1 ≠ 0 then (r.1, ({ r.2 with qp.attr.destQpNum := deth.u32_1 &&& ibDethSrcqpMask } : St))
          else (0, { r.2 with
            qp.attr.destQpNum := deth.u32_1 &&& ibDethSrcqpMask
            qp.attr.rqPsn := roceQpPsnInc r.2.qp.attr.rqPsn })).2 := by
      intro r
      split
      · exact ⟨⟨rfl, rfl⟩, rfl⟩
      · exact ⟨⟨rfl, rfl⟩, rfl⟩
    refine Ends.ite (fun _ => ?_) fun _ => ?_
    · split
      · exact hfinish (ePROTO, s)
      · exact (roceRecvPayload_stays s _ _ _ _).bind fun r _ _ => hfinish r
    · refine Ends.ite (fun _ => ?_) fun _ => hdrop _
      exact (roceRecvPayload_stays s _ _ _ _).bind fun r _ _ => hfinish r

section recv

variable {s : St} {P G : Prop} (hP : ¬PortsIn s.ctx s.qp → P)

include hP

/-- **Receiving.**  Only an RC QP answers. -/
theorem roceRecvBth_routes (hG : s.qp.qpType = .rc → ¬GidIn s.ctx s.qp.attr.ahAttr → G) (d : Decap)
    (calloc : Bool) : Routes P G s Prod.snd (roceRecvBth s d calloc) := by
  have hdrop : ∀ ret : Int, Routes P G s Prod.snd (.ok (ret, s)) := fun _ => SameRoute.refl s
  unfold roceRecvBth
  dsimp only
  refine Ends.ite (fun _ => hdrop _) fun _ => ?_
  refine Ends.ite (fun _ => hdrop _) fun _ => ?_
  refine Ends.ite (fun _ => hdrop _) fun _ => ?_
  refine Ends.ite (fun _ => hdrop _) fun _ => ?_
  split
  · exact hdrop _
  · cases htype : s.qp.qpType with
    | rc => exact roceRecvRc_routes hP (hG htype) _
    | ud => exact (roceRecvUd_stays s _ _).routes
    | gsi => exact (roceRecvUd_stays s _ _).routes
    | _ => exact trivial

end recv

end Libroce
