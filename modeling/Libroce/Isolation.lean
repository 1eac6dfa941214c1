import Libroce.MrBalance
import Libroce.Placement
import Libroce.PortRange
import Libroce.Transmit

/-!
# Memory that packets cannot reach

Host memory changes only when payload is placed, and payload is placed only
through `roce_mr_map_sge`.  So a byte that changes is one of the registered range
of an MR of the PD of the QP that a packet came in for, and the MR grants the
right that the packet needs: a SEND the local one, an RDMA WRITE the remote one.

    MayReach ctx qp access a    some mapping that the code grants has host byte `a`
    Exposes ctx qp access a     `a` is registered for `access` in an MR of the PD of `qp`
    Confined s t access         only bytes that are reached changed

The range check adds in 64 bits and the page index is cut to 32: a range that
wraps around 2^64 passes, and may hit pages of the MR.  It hits none of an MR that
is `Clear`.

Main statement: `devRun_confined`.
-/

namespace Libroce

open Machine (bind_eq_ok run)

/-! ## Registered memory -/

/-- An MR of pages, clear of the last 4 GiB before a multiple of 2^32 pages. -/
structure RoceMr.Clear (mr : RoceMr) : Prop where
  paged : mr.Paged
  pageSize : mr.pageSize.toNat ∣ 2 ^ 32
  room : mr.iova.toNat % (2 ^ 32 * mr.pageSize.toNat) + mr.iovs.length * mr.pageSize.toNat + 2 ^ 32 ≤
    2 ^ 32 * mr.pageSize.toNat

/-- The MRs that have a range, and may be used, are clear. -/
def MrsClear (ctx : RoceCtx) : Prop :=
  ∀ mr ∈ ctx.mrs.reduceOption, mr.state = .valid → mr.type ≠ .dma → mr.Clear

/-- Host byte `a` is open to `qp` for the right `access`: it is the byte of an
address in the registered range of a valid MR of the QP's PD that grants the
right, or, on GSI with such a DMA MR, in what `dma_map` answers. -/
inductive Exposes (ctx : RoceCtx) (qp : RoceQp) (access : UInt32) (a : Nat) : Prop where
  | page {i : Nat} {mr : RoceMr} {va : Nat} (live : roceGetMrNoref ctx i = some mr) (pd : mr.pd = qp.pd)
      (valid : mr.state = .valid) (rights : access &&& mr.access = access) (type : mr.type ≠ .dma)
      (lo : mr.iova.toNat ≤ va) (hi : va < mr.iova.toNat + mr.length.toNat) (h : a = mr.host va)
  | dma {i : Nat} {mr : RoceMr} {addr : UInt64} {len : UInt32} (live : roceGetMrNoref ctx i = some mr)
      (pd : mr.pd = qp.pd) (valid : mr.state = .valid) (rights : access &&& mr.access = access)
      (type : mr.type = .dma) (gsi : qp.qpType = .gsi)
      (h : a ∈ List.range' (ctx.dmaMap addr len) len.toNat)

/-- A granted mapping of an SGE has host byte `a`. -/
inductive MayReach (ctx : RoceCtx) (qp : RoceQp) (access : UInt32) (a : Nat) : Prop where
  | sge {isLocal : Bool} {mrType : Option MrType} {sge : RoceSge} {type : MrType} {ds : List Iovec}
      (map : mrMapOne ctx qp isLocal access mrType sge = .ok (some (type, ds.map some)))
      (mem : a ∈ iovAddrs ds)

theorem MayReach.congr {ctx ctx' : RoceCtx} {qp qp' : RoceQp} {access : UInt32} {a : Nat}
    (hsame : SameMrs ctx qp ctx' qp') (h : MayReach ctx' qp' access a) : MayReach ctx qp access a := by
  obtain ⟨hone, ha⟩ := h
  rw [hsame.mrMapOne] at hone
  exact ⟨hone, ha⟩

theorem mrMapLoop_reaches {ctx : RoceCtx} {qp : RoceQp} {isLocal : Bool} {access : UInt32}
    {sges : List RoceSge} {mrType : Option MrType} {dmamap dmamap' : Bool} {ds : List Iovec}
    (h : mrMapLoop ctx qp isLocal access sges mrType dmamap = .ok ⟨false, ds.map some, dmamap'⟩) :
    ∀ a ∈ iovAddrs ds, MayReach ctx qp access a := by
  induction sges generalizing mrType dmamap dmamap' ds with
  | nil =>
    have hds := congrArg MapRes.iovs (Except.ok.inj h)
    obtain rfl := List.map_eq_nil_iff.mp hds.symm
    intro a ha
    cases ha
  | cons sge sges ih =>
    obtain ⟨type, iovs, r', hone, hloop, hr', heq⟩ := mrMapLoop_cons_ok h rfl
    obtain ⟨refused, riovs, rdma⟩ := r'
    obtain rfl : refused = false := hr'
    have hds : ds.map some = iovs ++ riovs := congrArg MapRes.iovs heq
    obtain ⟨ds1, ds2, rfl, rfl, rfl⟩ := List.map_eq_append_iff.mp hds
    intro a ha
    rw [iovAddrs_append] at ha
    rcases List.mem_append.mp ha with ha | ha
    · exact ⟨hone, ha⟩
    · exact ih hloop a ha

section clear

variable {mr : RoceMr} {sge : RoceSge}

/-- From an address on, the pages up to one in the last 4 GiB, counted modulo 2^32. -/
theorem pages_wrap {size iova addr n : Nat} (hpage : size ∣ 2 ^ 32)
    (hroom : iova % (2 ^ 32 * size) + n * size + 2 ^ 32 ≤ 2 ^ 32 * size) (hlo : iova ≤ addr)
    (hwrap : 2 ^ 64 ≤ addr + 2 ^ 32) (haddr : addr < 2 ^ 64) :
    n ≤ (addr / size - iova / size) % 2 ^ 32 := by
  have hsize : 0 < size := Nat.pos_of_dvd_of_pos hpage (by decide)
  obtain ⟨q, hq⟩ := hpage
  have hblock : 2 ^ 64 = 2 ^ 32 * size * q := by
    rw [Nat.mul_assoc, ← hq]
    rfl
  have hpos : 0 < 2 ^ 32 * size := Nat.mul_pos (by decide) hsize
  -- each address is a page of a block of 2^32 pages
  have hsplit : ∀ a, a / size = 2 ^ 32 * (a / (2 ^ 32 * size)) + a % (2 ^ 32 * size) / size := by
    intro a
    rw [Nat.mul_comm (2 ^ 32) size, ← Nat.div_div_eq_div_mul, Nat.mod_mul_right_div_self, Nat.div_add_mod]
  have hlast : addr % (2 ^ 32 * size) + 2 ^ 32 ≥ 2 ^ 32 * size := by
    obtain ⟨k, rfl⟩ : ∃ k, q = k + 1 := Nat.exists_eq_succ_of_ne_zero (by rintro rfl; omega)
    have hmod := Nat.div_add_mod addr (2 ^ 32 * size)
    have hdiv : addr / (2 ^ 32 * size) < k + 1 := Nat.div_lt_of_lt_mul (by omega)
    have hle : 2 ^ 32 * size * (addr / (2 ^ 32 * size)) ≤ 2 ^ 32 * size * k :=
      Nat.mul_le_mul_left _ (by omega)
    rw [Nat.mul_succ] at hblock
    omega
  have hpage : addr % (2 ^ 32 * size) / size < 2 ^ 32 := by
    rw [Nat.div_lt_iff_lt_mul hsize]
    exact Nat.mod_lt _ hpos
  have hbetween : iova % (2 ^ 32 * size) / size + n ≤ addr % (2 ^ 32 * size) / size := by
    rw [← Nat.add_mul_div_right _ _ hsize]
    exact Nat.div_le_div_right (by omega)
  obtain ⟨d, hd⟩ := Nat.exists_eq_add_of_le (Nat.div_le_div_right hlo : iova / (2 ^ 32 * size) ≤ addr / _)
  rw [hsplit addr, hsplit iova, hd, Nat.mul_add, Nat.add_assoc, Nat.add_sub_add_left,
    Nat.add_sub_assoc (by omega), Nat.mul_add_mod,
    Nat.mod_eq_of_lt (Nat.lt_of_le_of_lt (Nat.sub_le _ _) hpage)]
  exact Nat.le_sub_of_add_le' hbetween

/-- A range that wraps around 2^64 begins behind the pages of the MR. -/
theorem RoceMr.Clear.mrIovCopy_wrap (h : mr.Clear) (hlo : mr.iova ≤ sge.addr)
    (hwrap : 2 ^ 64 ≤ sge.addr.toNat + sge.length.toNat) : ∃ e, mrIovCopy mr sge = .error e := by
  have haddr := sge.addr.toNat_lt
  have hlen := sge.length.toNat_lt
  replace hlo : mr.iova.toNat ≤ sge.addr.toNat := UInt64.le_iff_toNat_le.mp hlo
  have hsub : mr.iova / mr.pageSize.toUInt64 ≤ sge.addr / mr.pageSize.toUInt64 := by
    rw [UInt64.le_iff_toNat_le, UInt64.toNat_div, UInt64.toNat_div, UInt32.toNat_toUInt64]
    exact Nat.div_le_div_right hlo
  have hpages : mr.iovs.length ≤
      (sge.addr / mr.pageSize.toUInt64 - mr.iova / mr.pageSize.toUInt64).toUInt32.toNat := by
    rw [UInt64.toNat_toUInt32, UInt64.toNat_sub_of_le _ _ hsub, UInt64.toNat_div, UInt64.toNat_div,
      UInt32.toNat_toUInt64]
    exact pages_wrap h.pageSize h.room hlo (by omega) haddr
  have hne : sge.length ≠ 0 := by
    intro hzero
    rw [hzero] at hwrap
    have : (0 : UInt32).toNat = 0 := rfl
    omega
  unfold Libroce.mrIovCopy
  simp only
  rw [if_neg hne]
  split
  · exact ⟨_, rfl⟩
  · have hdrop : mr.iovs.drop
        (sge.addr / mr.pageSize.toUInt64 - mr.iova / mr.pageSize.toUInt64).toUInt32.toNat = [] := by
      rw [List.drop_eq_nil_iff]
      exact hpages
    unfold roceIovCopy
    rw [if_pos hdrop]
    exact ⟨_, rfl⟩

/-- The checks of the code leave the bytes of the registered range. -/
theorem RoceMr.Clear.mrIovCopy_mem (h : mr.Clear) (hchecked : RangeChecked sge mr) {ds : List Iovec}
    (hcopy : mrIovCopy mr sge = .ok (ds.map some)) {a : Nat} (ha : a ∈ iovAddrs ds) :
    ∃ va, mr.iova.toNat ≤ va ∧ va < mr.iova.toNat + mr.length.toNat ∧ a = mr.host va := by
  have hin : InRange sge mr := by
    refine (rangeChecked_inRange hchecked).mpr (Or.inl ?_)
    by_contra hwrap
    obtain ⟨e, he⟩ := h.mrIovCopy_wrap hchecked.1 (Nat.le_of_not_lt hwrap)
    cases he.symm.trans hcopy
  rw [h.paged.mrIovCopy hin hcopy] at ha
  unfold RoceMr.hosts at ha
  obtain ⟨k, hk, rfl⟩ := List.mem_map.mp ha
  have hk := List.mem_range.mp hk
  obtain ⟨hlo, hhi⟩ := hin
  exact ⟨_, by omega, by omega, rfl⟩

end clear

/-- What a mapping reaches is exposed, where the MRs are clear. -/
theorem MayReach.exposes {ctx : RoceCtx} {qp : RoceQp} {access : UInt32} {a : Nat}
    (h : MayReach ctx qp access a) (hclear : MrsClear ctx) : Exposes ctx qp access a := by
  obtain @⟨_, _, sge, _, ds, hone, ha⟩ := h
  obtain ⟨mr, hg, -, -, ⟨hdma, hgsi, hds⟩ | ⟨hne, hchecked, hcopy⟩⟩ := mrMapOne_ok hone
  · have hsingle : ds = [⟨ctx.dmaMap sge.addr sge.length, sge.length.toNat⟩] :=
      List.map_injective_iff.mpr (Option.some_injective Iovec) hds
    rw [hsingle, iovAddrs_cons, iovAddrs_nil, List.append_nil] at ha
    exact .dma hg.live hg.pd hg.valid hg.rights hdma hgsi ha
  · have hmem : mr ∈ ctx.mrs.reduceOption :=
      List.reduceOption_mem_iff.mpr (List.mem_of_getElem? (Refs.getElem?_of_get hg.live))
    obtain ⟨va, hlo, hhi, h⟩ := (hclear mr hmem hg.valid hne).mrIovCopy_mem hchecked hcopy ha
    exact .page hg.live hg.pd hg.valid hg.rights hne hlo hhi h

/-! ## What changes -/

/-- From `s` to `t` only bytes that the QP of `s` reaches changed. -/
def Confined (s t : St) (access : UInt32) : Prop :=
  ∀ a, t.ctx.mem a ≠ s.ctx.mem a → MayReach s.ctx s.qp access a

section confined

variable {s t u : St} {access : UInt32}

theorem Confined.of_mem (h : t.ctx.mem = s.ctx.mem) : Confined s t access := by
  intro a hne
  rw [h] at hne
  exact absurd rfl hne

/-- Steps before and after that leave memory, and the MRs before. -/
theorem Confined.after {s1 : St} (h : Confined s1 t access) (hsame : SameMrs s.ctx s.qp s1.ctx s1.qp)
    (hmem : s1.ctx.mem = s.ctx.mem) : Confined s t access := by
  intro a hne
  rw [← hmem] at hne
  exact (h a hne).congr hsame

theorem Confined.before (h : Confined s t access) (hmem : u.ctx.mem = t.ctx.mem) : Confined s u access := by
  intro a hne
  rw [hmem] at hne
  exact h a hne

/-- A payload that is placed. -/
theorem Places.confined {sges : List RoceSge} {isLocal : Bool} {dsts : List Iovec} {dmamap : Bool}
    (h : Places s.ctx s.qp sges isLocal access dsts dmamap) {bytes : List UInt8}
    (hmem : t.ctx.mem = placeMem s.ctx.mem dsts bytes) : Confined s t access := by
  intro a hne
  by_contra hno
  have hout : a ∉ iovAddrs dsts := fun ha => hno (mrMapLoop_reaches h.map a ha)
  rw [hmem, placeMem_eq, Scatter.store_other hout] at hne
  exact hne rfl

end confined

/-! ### The responder -/

section responder

variable {s t : St}

theorem roceFreeRecvWr_mem {ctx ctx' : RoceCtx} {p : UInt64} {wr : RecvWr}
    (h : roceFreeRecvWr ctx p wr = .ok ctx') : ctx'.mem = ctx.mem := by
  unfold roceFreeRecvWr at h
  split at h
  · cases h
  · next ctx1 hput =>
    obtain rfl := Except.ok.inj h
    have hrefs := rocePutMrs_refsOnly hput
    unfold RefsOnly at hrefs
    show ctx1.mem = ctx.mem
    rw [hrefs]

theorem Finish.mem {p : UInt64} {wr : RecvWr} {byteLen : UInt32} {immdt : Option UInt32} {opcode : UInt8}
    (h : Finish s p wr byteLen immdt opcode t) : t.ctx.mem = s.ctx.mem := by
  cases h with
  | goesOn _ => rfl
  | @done e ctx _ hfree =>
    show ctx.mem = (s.emit [e]).ctx.mem
    exact roceFreeRecvWr_mem hfree

theorem PayloadStep.confined {iovs : List (List UInt8)} {immdt : Option UInt32} {opcode : UInt8}
    {p : UInt64} {wr : RecvWr} {ret : Int} (h : PayloadStep s iovs immdt opcode p wr ret t) :
    Confined s t roceAccessLocalWrite := by
  cases h with
  | short _ _ => exact .of_mem rfl
  | refused _ _ _ _ _ => exact .of_mem rfl
  | placed _ _ _ hmap hfin => exact hmap.confined hfin.mem

theorem SendStep.confined {iovs : List (List UInt8)} {immdt : Option UInt32} {inprocess : Bool}
    {opcode : UInt8} {ret : Int} (h : SendStep s iovs immdt inprocess opcode ret t) :
    Confined s t roceAccessLocalWrite := by
  cases h with
  | outOfOrder _ => exact .of_mem rfl
  | noWr _ _ _ => exact .of_mem rfl
  | first _ _ _ _ hs => exact hs.confined.after ⟨rfl, rfl, rfl, rfl⟩ rfl
  | next _ _ _ hs => exact hs.confined

theorem PlaceStep.confined {iovs : List (List UInt8)} {immdt : Option UInt32} {opcode : UInt8} {ret : Int}
    (h : PlaceStep s iovs immdt opcode ret t) : Confined s t roceAccessRemoteWrite := by
  cases h with
  | refused _ _ => exact .of_mem rfl
  | plain _ hmap => exact hmap.confined rfl
  | noWr _ _ hmap => exact hmap.confined rfl
  | done _ _ _ hmap _ hfree => exact hmap.confined (roceFreeRecvWr_mem hfree)

theorem WriteStep.confined {iovs : List (List UInt8)} {reth : Option IbReth} {immdt : Option UInt32}
    {inprocess : Bool} {opcode : UInt8} {ret : Int}
    (h : WriteStep s iovs reth immdt inprocess opcode ret t) : Confined s t roceAccessRemoteWrite := by
  cases h with
  | outOfOrder _ => exact .of_mem rfl
  | first _ _ _ hs => exact hs.confined.after ⟨rfl, rfl, rfl, rfl⟩ rfl
  | next _ _ hs => exact hs.confined

end responder

/-! ### Which right a packet needs -/

/-- The opcodes of RDMA WRITE packets. -/
def IsWrite (opcode : UInt8) : Prop :=
  ibOpcodeRdmaWriteFirst ≤ opcode ∧ opcode ≤ ibOpcodeRdmaWriteOnlyWithImmediate

instance (opcode : UInt8) : Decidable (IsWrite opcode) := inferInstanceAs (Decidable (_ ∧ _))

def Request.isWrite : Request → Bool
  | .send _ _ _ => false
  | .write _ _ _ _ => true

/-- The switch tells the two kinds by their opcodes. -/
theorem decodeRequest_isWrite {opcode : UInt8} {iovs : List (List UInt8)} {r : Request}
    (h : decodeRequest opcode iovs = some r) : r.isWrite = decide (IsWrite opcode) := by
  have himm : ∀ {iovs : List (List UInt8)} {f : UInt32 → List (List UInt8) → Request},
      decodeImm iovs f = some r → ∃ immdt iovs', r = f immdt iovs' := decodeImm_some
  unfold decodeRequest at h
  -- the six SEND opcodes
  rcases ite_eq_iff.mp h with ⟨rfl, h⟩ | ⟨-, h⟩
  · obtain rfl := Option.some.inj h
    rfl
  rcases ite_eq_iff.mp h with ⟨rfl, h⟩ | ⟨-, h⟩
  · obtain rfl := Option.some.inj h
    rfl
  rcases ite_eq_iff.mp h with ⟨rfl, h⟩ | ⟨-, h⟩
  · obtain ⟨_, _, rfl⟩ := himm h
    rfl
  rcases ite_eq_iff.mp h with ⟨rfl, h⟩ | ⟨-, h⟩
  · obtain rfl := Option.some.inj h
    rfl
  rcases ite_eq_iff.mp h with ⟨rfl, h⟩ | ⟨-, h⟩
  · obtain ⟨_, _, rfl⟩ := himm h
    rfl
  rcases ite_eq_iff.mp h with ⟨rfl, h⟩ | ⟨-, h⟩
  · obtain rfl := Option.some.inj h
    rfl
  -- the six WRITE opcodes
  rcases ite_eq_iff.mp h with ⟨rfl, h⟩ | ⟨-, h⟩
  · obtain ⟨_, _, hr⟩ := decodeReth_some h
    obtain rfl := Option.some.inj hr
    rfl
  rcases ite_eq_iff.mp h with ⟨rfl, h⟩ | ⟨-, h⟩
  · obtain ⟨_, _, hr⟩ := decodeReth_some h
    obtain ⟨_, _, rfl⟩ := himm hr
    rfl
  rcases ite_eq_iff.mp h with ⟨rfl, h⟩ | ⟨-, h⟩
  · obtain ⟨_, _, hr⟩ := decodeReth_some h
    obtain rfl := Option.some.inj hr
    rfl
  rcases ite_eq_iff.mp h with ⟨rfl, h⟩ | ⟨-, h⟩
  · obtain rfl := Option.some.inj h
    rfl
  rcases ite_eq_iff.mp h with ⟨rfl, h⟩ | ⟨-, h⟩
  · obtain rfl := Option.some.inj h
    rfl
  rcases ite_eq_iff.mp h with ⟨rfl, h⟩ | ⟨-, h⟩
  · obtain ⟨_, _, rfl⟩ := himm h
    rfl
  · cases h

/-- The right that a packet takes on the memory it goes to. -/
def rightOf (opcode : UInt8) : UInt32 :=
  if IsWrite opcode then roceAccessRemoteWrite else roceAccessLocalWrite

section packets

variable {s t : St}

theorem RequestStep.confined {pkt : Inbound} {ret : Int} (h : RequestStep s pkt ret t) :
    Confined s t (rightOf (ibBthGetOpcode pkt.bth)) := by
  unfold rightOf
  cases h with
  | malformed _ => exact .of_mem rfl
  | send hreq hs =>
    have hno : ¬IsWrite (ibBthGetOpcode pkt.bth) := by
      have hkind := decodeRequest_isWrite hreq
      exact of_decide_eq_false hkind.symm
    rw [if_neg hno]
    exact hs.confined
  | write hreq hs =>
    have hyes : IsWrite (ibBthGetOpcode pkt.bth) := by
      have hkind := decodeRequest_isWrite hreq
      exact of_decide_eq_true hkind.symm
    rw [if_pos hyes]
    exact hs.confined

theorem roceNetpktAcknowledge_mem {syndrome : Syndrome} {val : UInt8} {psn : UInt32} {calloc : Bool}
    (h : roceNetpktAcknowledge s syndrome val psn calloc = .ok t) : t.ctx.mem = s.ctx.mem := by
  obtain ⟨pkt, rfl, -⟩ := roceNetpktAcknowledge_ok h
  rfl

/-! ### The requester -/

theorem roceFreeSendWr_mem {ctx ctx' : RoceCtx} {wr : SendWr} (h : roceFreeSendWr ctx wr = .ok ctx') :
    ctx'.mem = ctx.mem := by
  have hrefs := roceFreeSendWr_refsOnly h
  unfold RefsOnly at hrefs
  rw [hrefs]

theorem roceRcCompleteSendWr_mem {pkt : RoceNetpkt} (h : roceRcCompleteSendWr s pkt = .ok t) :
    t.ctx.mem = s.ctx.mem := by
  rcases roceRcCompleteSendWr_ok h with ⟨-, rfl⟩ | ⟨wr, sq, reports, ctx, -, -, -, hfree, rfl⟩
  · rfl
  · show ctx.mem = ((roceCompleteHead s).emit (.leaveSq wr :: reports)).ctx.mem
    exact roceFreeSendWr_mem hfree

theorem roceHandleAck_mem {psn : UInt32} (h : roceHandleAck s psn = .ok t) : t.ctx.mem = s.ctx.mem := by
  revert h
  apply roceHandleAck_inv (P := fun u => u.ctx.mem = s.ctx.mem)
  · rintro u pkt pkts v hu - hc
    rw [roceRcCompleteSendWr_mem hc]
    exact hu
  · rfl

theorem roceXmitPkts_mem (h : roceXmitPkts s = .ok t) : t.ctx.mem = s.ctx.mem := by
  obtain ⟨sent, hctx⟩ := (roceXmitPkts_ok h).ctx
  rw [hctx]

theorem roceHandleAcknowledge_mem {syndrome : Syndrome} {val : UInt8} {psn msn : UInt32}
    (h : roceHandleAcknowledge s syndrome val psn msn = .ok t) : t.ctx.mem = s.ctx.mem := by
  cases syndrome with
  | ack =>
    obtain ⟨u, hack, h⟩ := bind_eq_ok.mp h
    exact (roceXmitPkts_mem h).trans (roceHandleAck_mem hack)
  | nak =>
    obtain ⟨u, hack, h⟩ := bind_eq_ok.mp h
    have hkept : u.ctx.mem = s.ctx.mem := roceHandleAck_mem hack
    exact (roceXmitPkts_mem h).trans hkept
  | rnrNak =>
    obtain rfl := Except.ok.inj h
    rfl
  | reserved =>
    obtain rfl := Except.ok.inj h
    rfl

/-! ### A packet -/

theorem roceRecvRc_confined {pkt : Inbound} {ret : Int} (h : roceRecvRc s pkt = .ok (ret, t)) :
    Confined s t (rightOf (ibBthGetOpcode pkt.bth)) := by
  unfold roceRecvRc at h
  split at h
  · unfold recvAcknowledge at h
    split at h
    · obtain ⟨-, rfl⟩ := Prod.mk.inj (Except.ok.inj h)
      exact .of_mem rfl
    · obtain ⟨u, hack, h⟩ := bind_eq_ok.mp h
      obtain ⟨-, rfl⟩ := Prod.mk.inj (Except.ok.inj h)
      exact .of_mem (roceHandleAcknowledge_mem hack)
  · simp only at h
    split at h
    · obtain ⟨-, rfl⟩ := Prod.mk.inj (Except.ok.inj h)
      exact .of_mem rfl
    · split at h
      · obtain ⟨u, hseq, h⟩ := bind_eq_ok.mp h
        obtain ⟨-, rfl⟩ := Prod.mk.inj (Except.ok.inj h)
        unfold roceOutOfSeq at hseq
        split at hseq
        · obtain rfl := Except.ok.inj hseq
          exact .of_mem rfl
        · split at hseq
          · cases hseq
          · next v hack =>
            obtain rfl := Except.ok.inj hseq
            have hkept : v.ctx.mem = s.ctx.mem := roceNetpktAcknowledge_mem hack
            exact .of_mem hkept
      · rcases recvInSequence_ok h with ⟨-, hstep⟩ | ⟨-, s1, s2, hstep, hack, rfl⟩
        · exact hstep.confined.after ⟨rfl, rfl, rfl, rfl⟩ rfl
        · have hplaced : Confined s s1 (rightOf (ibBthGetOpcode pkt.bth)) :=
            hstep.confined.after ⟨rfl, rfl, rfl, rfl⟩ rfl
          refine hplaced.before ?_
          rcases hack with ⟨-, rfl⟩ | ⟨-, hack⟩
          · rfl
          · show s2.ctx.mem = s1.ctx.mem
            exact roceNetpktAcknowledge_mem hack

/-- A datagram goes to `roce_recv_payload`, or nowhere. -/
theorem roceRecvUd_ctx_cases {pkt : Inbound} {ip : NetHdr} {ret : Int}
    (h : roceRecvUd s pkt ip = .ok (ret, t)) : t.ctx = s.ctx ∨
      ¬IsWrite (ibBthGetOpcode pkt.bth) ∧ ∃ iovs immdt ret' u,
        roceRecvPayload s iovs immdt false (ibBthGetOpcode pkt.bth) = .ok (ret', u) ∧ t.ctx = u.ctx := by
  have hctx : ∀ (r : Int × St) (deth : IbDeth),
      (if r.1 ≠ 0 then (r.1, ({ r.2 with qp.attr.destQpNum := deth.u32_1 &&& ibDethSrcqpMask } : St))
        else (0, { ({ r.2 with qp.attr.destQpNum := deth.u32_1 &&& ibDethSrcqpMask } : St) with
          qp.attr.rqPsn := roceQpPsnInc r.2.qp.attr.rqPsn })).2.ctx = r.2.ctx := by
    intro r deth
    split
    · rfl
    · rfl
  unfold roceRecvUd at h
  simp only at h
  split at h
  · obtain ⟨-, rfl⟩ := Prod.mk.inj (Except.ok.inj h)
    exact Or.inl rfl
  next deth iovs _ =>
  split at h
  · next hop =>
    split at h
    · obtain ⟨-, rfl⟩ := Prod.mk.inj (Except.ok.inj h)
      exact Or.inl rfl
    · next immdt iovs' _ =>
      obtain ⟨r, hr, h⟩ := bind_eq_ok.mp h
      refine Or.inr ⟨by rw [hop]; decide, _, _, r.1, r.2, hr, ?_⟩
      rw [← hctx r deth]
      exact congrArg (fun x => x.2.ctx) (Except.ok.inj h).symm
  · split at h
    · next hop =>
      obtain ⟨r, hr, h⟩ := bind_eq_ok.mp h
      refine Or.inr ⟨by rw [hop]; decide, _, _, r.1, r.2, hr, ?_⟩
      rw [← hctx r deth]
      exact congrArg (fun x => x.2.ctx) (Except.ok.inj h).symm
    · obtain ⟨-, rfl⟩ := Prod.mk.inj (Except.ok.inj h)
      exact Or.inl rfl

/-- A datagram is a SEND. -/
theorem roceRecvUd_confined {pkt : Inbound} {ip : NetHdr} {ret : Int}
    (h : roceRecvUd s pkt ip = .ok (ret, t)) : Confined s t (rightOf (ibBthGetOpcode pkt.bth)) := by
  rcases roceRecvUd_ctx_cases h with hctx | ⟨hno, iovs, immdt, ret', u, hr, hctx⟩
  · exact .of_mem (by rw [hctx])
  · unfold rightOf
    rw [if_neg hno]
    exact (roceRecvPayload_ok hr).confined.before (by rw [hctx])

theorem roceRecvBth_confined {d : Decap} {calloc : Bool} {ret : Int}
    (h : roceRecvBth s d calloc = .ok (ret, t)) : Confined s t (rightOf (ibBthGetOpcode d.bth)) := by
  unfold roceRecvBth at h
  simp only at h
  split at h
  · obtain ⟨-, rfl⟩ := Prod.mk.inj (Except.ok.inj h)
    exact .of_mem rfl
  split at h
  · obtain ⟨-, rfl⟩ := Prod.mk.inj (Except.ok.inj h)
    exact .of_mem rfl
  split at h
  · obtain ⟨-, rfl⟩ := Prod.mk.inj (Except.ok.inj h)
    exact .of_mem rfl
  split at h
  · obtain ⟨-, rfl⟩ := Prod.mk.inj (Except.ok.inj h)
    exact .of_mem rfl
  split at h
  · obtain ⟨-, rfl⟩ := Prod.mk.inj (Except.ok.inj h)
    exact .of_mem rfl
  split at h
  · exact roceRecvRc_confined h
  · exact roceRecvUd_confined h
  · exact roceRecvUd_confined h
  · cases h

end packets

/-! ### Posts -/

section posts

variable {s t : St} {ctx ctx' : RoceCtx}

theorem RefsOnly.mem (h : RefsOnly ctx ctx') : ctx'.mem = ctx.mem := by
  unfold RefsOnly at h
  rw [h]

theorem roceRequestRc_mem {wr : SendWr} {calloc : Nat → Bool} (h : roceRequestRc s wr calloc = .ok t) :
    t.ctx.mem = s.ctx.mem := by
  unfold roceRequestRc requestQueue at h
  obtain ⟨u, hq, h⟩ := bind_eq_ok.mp h
  obtain ⟨v, hx, h⟩ := bind_eq_ok.mp h
  obtain rfl := Except.ok.inj h
  obtain ⟨⟨qp, wr'⟩, -, hq⟩ := bind_eq_ok.mp hq
  obtain rfl := Except.ok.inj hq
  have hv := roceXmitPkts_mem hx
  exact hv

theorem rocePutAh_mem (ctx : RoceCtx) (i : Nat) : (rocePutAh ctx i).mem = ctx.mem := by
  obtain ⟨ahs, h⟩ := rocePutAh_withAhs ctx i
  rw [h]
  rfl

theorem roceUdSendPkt_mem {wr wr' : SendWr} {calloc imm : Bool} {payload : UInt32}
    (h : roceUdSendPkt s wr calloc imm payload = .ok (t, wr')) : t.ctx.mem = s.ctx.mem := by
  unfold roceUdSendPkt at h
  split at h
  · obtain ⟨rfl, -⟩ := Prod.mk.inj (Except.ok.inj h)
    rfl
  · next ah ctx hget =>
    obtain ⟨-, rfl⟩ := roceGetAh_ok hget
    obtain ⟨o, -, h⟩ := bind_eq_ok.mp h
    cases o with
    | none =>
      obtain ⟨rfl, -⟩ := Prod.mk.inj (Except.ok.inj h)
      exact rocePutAh_mem _ _
    | some r =>
      obtain ⟨pkt, unmaps⟩ := r
      obtain ⟨rfl, -⟩ := Prod.mk.inj (Except.ok.inj h)
      exact rocePutAh_mem _ _

theorem udSwitch_mem {wr wr' : SendWr} {calloc : Bool} {len : UInt32}
    (h : udSwitch s wr calloc = .ok (t, wr', len)) : t.ctx.mem = s.ctx.mem := by
  unfold udSwitch at h
  obtain ⟨mtu, -, h⟩ := bind_eq_ok.mp h
  obtain ⟨payload, -, h⟩ := bind_eq_ok.mp h
  split at h
  · obtain ⟨rfl, -⟩ := Prod.mk.inj (Except.ok.inj h)
    rfl
  · split at h
    · obtain ⟨⟨u, wr1⟩, hsend, h⟩ := bind_eq_ok.mp h
      obtain ⟨rfl, -⟩ := Prod.mk.inj (Except.ok.inj h)
      exact roceUdSendPkt_mem hsend
    · obtain ⟨⟨u, wr1⟩, hsend, h⟩ := bind_eq_ok.mp h
      obtain ⟨rfl, -⟩ := Prod.mk.inj (Except.ok.inj h)
      exact roceUdSendPkt_mem hsend
    · obtain ⟨rfl, -⟩ := Prod.mk.inj (Except.ok.inj h)
      rfl

theorem roceRequestUd_mem {wr : SendWr} {calloc : Bool} (h : roceRequestUd s wr calloc = .ok t) :
    t.ctx.mem = s.ctx.mem := by
  unfold roceRequestUd at h
  obtain ⟨⟨u, wr1, len⟩, hreq, h⟩ := bind_eq_ok.mp h
  obtain ⟨ctx, hfree, h⟩ := bind_eq_ok.mp h
  obtain rfl := Except.ok.inj h
  have hreq' : u.ctx.mem = s.ctx.mem := by
    unfold udRequest at hreq
    split at hreq
    · exact udSwitch_mem hreq
    · obtain ⟨rfl, -⟩ := Prod.mk.inj (Except.ok.inj hreq)
      rfl
  have hctx : ctx.mem = u.ctx.mem := by
    have hfree' := roceFreeSendWr_mem hfree
    rw [hfree']
    split
    · rfl
    · rfl
  exact hctx.trans hreq'

theorem rocePostSend_mem {wr : SendWr} {calloc : Nat → Bool} (h : rocePostSend s wr calloc = .ok t) :
    t.ctx.mem = s.ctx.mem := by
  unfold rocePostSend at h
  obtain ⟨⟨u, wr1⟩, hget, h⟩ := bind_eq_ok.mp h
  have hu : u.ctx.mem = s.ctx.mem := by
    unfold postGetMrs at hget
    split at hget
    · obtain ⟨rfl, -⟩ := Prod.mk.inj (Except.ok.inj hget)
      rfl
    · obtain ⟨⟨ret, ctx⟩, hmrs, hget⟩ := bind_eq_ok.mp hget
      obtain ⟨rfl, -⟩ := Prod.mk.inj (Except.ok.inj hget)
      exact (roceGetMrs_refsOnly hmrs).mem
  simp only at h
  split at h
  · exact (roceRequestRc_mem h).trans hu
  · exact (roceRequestUd_mem h).trans hu
  · exact (roceRequestUd_mem h).trans hu
  · cases h

theorem rocePostRecv_mem {p : UInt64} {wr : RecvWr} {ret : Int} (h : rocePostRecv s p wr = .ok (ret, t)) :
    t.ctx.mem = s.ctx.mem := by
  unfold rocePostRecv at h
  split at h
  · cases h
  · next hget =>
    have hmrs := (roceGetMrs_refsOnly hget).mem
    split at h
    · split at h
      · cases h
      · next hfree =>
        obtain ⟨-, rfl⟩ := Prod.mk.inj (Except.ok.inj h)
        exact (roceFreeRecvWr_mem hfree).trans hmrs
    · obtain ⟨-, rfl⟩ := Prod.mk.inj (Except.ok.inj h)
      exact hmrs

/-! ## The device -/

/-- The packet that a call on a QP brings. -/
def QpCall.inbound : QpCall → Option Decap
  | .recv pkt _ => some pkt
  | _ => none

/-- A call on a QP. -/
theorem qpStep_confined {call : QpCall} {a : Nat} (h : qpStep s call = .ok t)
    (hne : t.ctx.mem a ≠ s.ctx.mem a) : ∃ pkt, call.inbound = some pkt ∧
      MayReach s.ctx s.qp (rightOf (ibBthGetOpcode pkt.bth)) a := by
  cases call with
  | modify attr attrMask =>
    obtain ⟨⟨ret, qp⟩, -, h⟩ := bind_eq_ok.mp h
    obtain rfl := Except.ok.inj h
    exact absurd rfl hne
  | postRecv p wrId sge =>
    obtain ⟨⟨ret, t'⟩, hp, h⟩ := bind_eq_ok.mp h
    obtain rfl := Except.ok.inj h
    exact absurd (congrFun (rocePostRecv_mem hp) a) hne
  | postSend wr calloc => exact absurd (congrFun (rocePostSend_mem h) a) hne
  | recv pkt calloc =>
    obtain ⟨⟨ret, t'⟩, hr, h⟩ := bind_eq_ok.mp h
    obtain rfl := Except.ok.inj h
    exact ⟨pkt, rfl, roceRecvBth_confined hr a hne⟩

end posts

/-! ## The other calls -/

/-- No memory changed, and nothing was sent. -/
structure Aside (ctx ctx' : RoceCtx) : Prop where
  mem : ctx'.mem = ctx.mem
  trace : ∃ es, ctx'.trace = ctx.trace ++ es ∧ sentPkts es = []

section calls

variable {ctx ctx' ctx'' : RoceCtx} {ret : Int}

theorem Aside.quiet (hmem : ctx'.mem = ctx.mem) (htrace : ctx'.trace = ctx.trace) : Aside ctx ctx' :=
  ⟨hmem, [], by rw [htrace, List.append_nil], rfl⟩

theorem Aside.trans (h1 : Aside ctx ctx') (h2 : Aside ctx' ctx'') : Aside ctx ctx'' := by
  obtain ⟨es, hes, hsent1⟩ := h1.trace
  obtain ⟨fs, hfs, hsent2⟩ := h2.trace
  refine ⟨h2.mem.trans h1.mem, es ++ fs, by rw [hfs, hes, List.append_assoc], ?_⟩
  rw [sentPkts_append, hsent1, hsent2]
  rfl

theorem RefsOnly.aside (h : RefsOnly ctx ctx') : Aside ctx ctx' := .quiet h.mem h.trace

theorem roceGetPd_aside {pd : Nat} (h : roceGetPd ctx pd = some ctx') : Aside ctx ctx' := by
  unfold roceGetPd at h
  split at h
  · cases h
  · obtain rfl := Option.some.inj h
    exact .quiet rfl rfl

theorem roceAllocPd_aside (ctx : RoceCtx) (calloc : Bool) : Aside ctx (roceAllocPd ctx calloc).2 := by
  unfold roceAllocPd
  split
  · split
    · exact .quiet rfl rfl
    · exact .quiet rfl rfl
  · exact .quiet rfl rfl

theorem roceDeallocPd_aside (ctx : RoceCtx) (pd : Nat) : Aside ctx (roceDeallocPd ctx pd).2 := by
  unfold roceDeallocPd
  split
  · exact .quiet rfl rfl
  · split
    · exact .quiet rfl rfl
    · exact .quiet rfl rfl

theorem roceCreateAh_aside {pd : Nat} {attr : RoceAhAttr} {calloc : Bool}
    (h : roceCreateAh ctx pd attr calloc = .ok (ret, ctx')) : Aside ctx ctx' := by
  unfold roceCreateAh at h
  split at h
  · obtain ⟨-, rfl⟩ := Prod.mk.inj (Except.ok.inj h)
    exact .quiet rfl rfl
  next ctx1 hget =>
  have h1 := roceGetPd_aside hget
  split at h
  · split at h
    · obtain ⟨ctx2, hput, h⟩ := bind_eq_ok.mp h
      obtain ⟨-, rfl⟩ := Prod.mk.inj (Except.ok.inj h)
      exact h1.trans (assertPutPd_refsOnly hput).aside
    · obtain ⟨-, rfl⟩ := Prod.mk.inj (Except.ok.inj h)
      exact h1.trans (.quiet rfl rfl)
  · obtain ⟨ctx2, hput, h⟩ := bind_eq_ok.mp h
    obtain ⟨-, rfl⟩ := Prod.mk.inj (Except.ok.inj h)
    exact h1.trans (assertPutPd_refsOnly hput).aside

theorem roceDestroyAh_aside {i : Nat} (h : roceDestroyAh ctx i = .ok (ret, ctx')) : Aside ctx ctx' := by
  unfold roceDestroyAh at h
  split at h
  · obtain ⟨-, rfl⟩ := Prod.mk.inj (Except.ok.inj h)
    exact .quiet rfl rfl
  split at h
  · obtain ⟨-, rfl⟩ := Prod.mk.inj (Except.ok.inj h)
    exact .quiet rfl rfl
  obtain ⟨ctx2, hput, h⟩ := bind_eq_ok.mp h
  obtain ⟨-, rfl⟩ := Prod.mk.inj (Except.ok.inj h)
  have hset : Aside ctx { ctx with ahs := ctx.ahs.set i none } := .quiet rfl rfl
  exact hset.trans (assertPutPd_refsOnly hput).aside

theorem roceCreateMr_aside {a : MrArgs} {calloc : Bool} {random0 random1 : UInt32}
    (h : roceCreateMr ctx a calloc random0 random1 = .ok (ret, ctx')) : Aside ctx ctx' := by
  cases roceCreateMr_makes h with
  | refused _ h => rw [h]; exact .quiet rfl rfl
  | released ctx1 _ hget hput => exact (roceGetPd_aside hget).trans (assertPutPd_refsOnly hput).aside
  | created ctx1 key state iovs _ hget _ _ _ h =>
    rw [h]
    exact (roceGetPd_aside hget).trans (.quiet rfl rfl)

theorem freeSendWrs_aside {wrs : List SendWr} (h : freeSendWrs ctx wrs = .ok ctx') : Aside ctx ctx' := by
  induction wrs generalizing ctx with
  | nil =>
    obtain rfl := Except.ok.inj h
    exact .quiet rfl rfl
  | cons wr wrs ih =>
    rw [freeSendWrs] at h
    split at h
    · cases h
    · next hfree => exact (roceFreeSendWr_refsOnly hfree).aside.trans (ih h)

theorem freeRecvWrs_aside {ps : List UInt64} (h : freeRecvWrs ctx ps = .ok ctx') : Aside ctx ctx' := by
  induction ps generalizing ctx with
  | nil =>
    obtain rfl := Except.ok.inj h
    exact .quiet rfl rfl
  | cons p ps ih =>
    rw [freeRecvWrs] at h
    split at h
    · cases h
    split at h
    · cases h
    · next hfree =>
      have hone : Aside ctx _ := ⟨roceFreeRecvWr_mem hfree, [.freeRecv p], (roceFreeRecvWr_ok hfree).1, rfl⟩
      exact hone.trans (ih h)

end calls

section qps

variable {d d' : Device} {ret : Int}

theorem Device.putResource_aside {a : QpArgs} {rcq : Bool} (h : d.putResource a rcq = .ok (ret, d')) :
    Aside d.ctx d'.ctx := by
  unfold Device.putResource at h
  obtain ⟨ctx, hput, h⟩ := bind_eq_ok.mp h
  obtain ⟨cqs, -, h⟩ := bind_eq_ok.mp h
  have hctx := (assertPutPd_refsOnly hput).aside
  split at h
  · obtain ⟨cqs', -, h⟩ := bind_eq_ok.mp h
    obtain ⟨-, rfl⟩ := Prod.mk.inj (Except.ok.inj h)
    exact hctx
  · obtain ⟨-, rfl⟩ := Prod.mk.inj (Except.ok.inj h)
    exact hctx

theorem Device.createQp_aside {a : QpArgs} {calloc : Bool} {random0 random1 : UInt32}
    (h : d.createQp a calloc random0 random1 = .ok (ret, d')) : Aside d.ctx d'.ctx := by
  rcases Device.createQp_makes h with
    ⟨-, rfl | ⟨ctx, ctx', hget, hput, rfl⟩⟩ | ⟨rcq, ctx, cqs, ⟨hget, -⟩, hmakes, -⟩
  · exact .quiet rfl rfl
  · exact (roceGetPd_aside hget).trans (assertPutPd_refsOnly hput).aside
  · have hctx := roceGetPd_aside hget
    cases hmakes with
    | refused h => exact hctx.trans (Device.putResource_aside h)
    | gsi o htype hfree hnew hhandle => exact hctx
    | heap i o htype hcalloc hempty hnew hhandle => exact hctx

theorem Device.destroyQp_aside {i : Nat} (h : d.destroyQp i = .ok (ret, d')) : Aside d.ctx d'.ctx := by
  unfold Device.destroyQp at h
  split at h
  · cases h
  next o hget =>
  split at h
  · obtain ⟨ctx1, hput, h⟩ := bind_eq_ok.mp h
    obtain ⟨cqs1, -, h⟩ := bind_eq_ok.mp h
    obtain ⟨cqs2, -, h⟩ := bind_eq_ok.mp h
    obtain ⟨ctx2, hsend, h⟩ := bind_eq_ok.mp h
    obtain ⟨ctx3, hrecv, h⟩ := bind_eq_ok.mp h
    obtain ⟨-, rfl⟩ := Prod.mk.inj (Except.ok.inj h)
    have hctx := ((assertPutPd_refsOnly hput).aside.trans (freeSendWrs_aside hsend)).trans
      (freeRecvWrs_aside hrecv)
    unfold Device.releaseQp
    split
    · exact hctx
    · exact hctx
  · cases h

theorem Device.onQp_ctx {i : Nat} {call : QpCall} (h : d.onQp i call = .ok d') :
    ∃ o s, d.getQp i = some o ∧ qpStep ⟨d.ctx, o.qp⟩ call = .ok s ∧ d'.ctx = s.ctx := by
  unfold Device.onQp at h
  split at h
  · cases h
  next o hget =>
  obtain ⟨s, hs, h⟩ := bind_eq_ok.mp h
  obtain rfl := Except.ok.inj h
  exact ⟨o, s, hget, hs, Device.putBack_ctx _ _ _⟩

/-- **One step.**  It changes no memory and sends nothing, but for the call it makes on a QP. -/
theorem devStep_aside {op : DevOp} (h : devStep d op = .ok d') :
    Aside d.ctx d'.ctx ∨ ∃ o call s, d.Performs o op call ∧ qpStep ⟨d.ctx, o.qp⟩ call = .ok s ∧
      d'.ctx = s.ctx := by
  cases op with
  | allocPd calloc =>
    obtain rfl := Except.ok.inj h
    exact Or.inl (roceAllocPd_aside d.ctx calloc)
  | deallocPd pdHandle =>
    obtain rfl := Except.ok.inj h
    exact Or.inl (roceDeallocPd_aside d.ctx pdHandle)
  | createCq cqe calloc =>
    obtain rfl := Except.ok.inj h
    left
    unfold roceCreateCq
    split
    · exact .quiet rfl rfl
    · split
      · split
        · exact .quiet rfl rfl
        · exact .quiet rfl rfl
      · exact .quiet rfl rfl
  | destroyCq cqHandle =>
    obtain rfl := Except.ok.inj h
    left
    unfold roceDestroyCq
    split
    · exact .quiet rfl rfl
    · split
      · exact .quiet rfl rfl
      · exact .quiet rfl rfl
  | createAh pdHandle attr calloc =>
    obtain ⟨⟨ret, ctx⟩, hc, h⟩ := bind_eq_ok.mp h
    obtain rfl := Except.ok.inj h
    exact Or.inl (roceCreateAh_aside hc)
  | destroyAh ahHandle =>
    obtain ⟨⟨ret, ctx⟩, hc, h⟩ := bind_eq_ok.mp h
    obtain rfl := Except.ok.inj h
    exact Or.inl (roceDestroyAh_aside hc)
  | createMr args calloc random0 random1 =>
    obtain ⟨⟨ret, ctx⟩, hc, h⟩ := bind_eq_ok.mp h
    obtain rfl := Except.ok.inj h
    exact Or.inl (roceCreateMr_aside hc)
  | destroyMr mrHandle =>
    obtain ⟨⟨ret, ctx⟩, hc, h⟩ := bind_eq_ok.mp h
    obtain rfl := Except.ok.inj h
    exact Or.inl (roceDestroyMr_refsOnly hc).aside
  | createQp args calloc random0 random1 =>
    obtain ⟨⟨ret, d1⟩, hc, h⟩ := bind_eq_ok.mp h
    obtain rfl := Except.ok.inj h
    exact Or.inl (Device.createQp_aside hc)
  | destroyQp qpHandle =>
    obtain ⟨⟨ret, d1⟩, hc, h⟩ := bind_eq_ok.mp h
    obtain rfl := Except.ok.inj h
    exact Or.inl (Device.destroyQp_aside hc)
  | onQp qpHandle call =>
    obtain ⟨o, s, hget, hs, hctx⟩ := Device.onQp_ctx h
    exact Or.inr ⟨o, call, s, .call hget, hs, hctx⟩
  | netRecv iovs calloc =>
    have h' : d.netRecv iovs calloc = .ok d' := h
    unfold Device.netRecv at h'
    obtain ⟨r, hdecap, h'⟩ := bind_eq_ok.mp h'
    cases r with
    | none =>
      obtain rfl := Except.ok.inj h'
      exact Or.inl (.quiet rfl rfl)
    | some pkt =>
      dsimp only at h'
      split at h'
      · obtain rfl := Except.ok.inj h'
        exact Or.inl (.quiet rfl rfl)
      · next hdest =>
        obtain ⟨o, s, hget, hs, hctx⟩ := Device.onQp_ctx h'
        exact Or.inr ⟨o, .recv pkt calloc, s, .recv hdecap (fun h0 => hdest (Or.inl h0)) hget, hs, hctx⟩

end qps

/-! ## The device -/

/-- The QP that a step brings a packet to, with the packet. -/
def Device.delivers (d : Device) : DevOp → Option (QpObj × Decap)
  | .onQp qpHandle call => do
    let o ← d.getQp qpHandle
    let pkt ← call.inbound
    return (o, pkt)
  | .netRecv iovs _ =>
    match roceNetDecap d.ctx iovs with
    | .ok (some pkt) => do
      let o ← d.getQp (ibBthGetDestqp pkt.bth).toNat
      return (o, pkt)
    | _ => none
  | _ => none

section device

variable {d d' : Device} {a : Nat}

theorem Device.Performs.delivers {o : QpObj} {op : DevOp} {call : QpCall} {pkt : Decap}
    (h : d.Performs o op call) (hpkt : call.inbound = some pkt) : d.delivers op = some (o, pkt) := by
  cases h with
  | call hget =>
    simp only [Device.delivers, hget, hpkt]
    rfl
  | recv hdecap h0 hget =>
    obtain rfl := Option.some.inj hpkt
    simp only [Device.delivers, hdecap, hget]
    rfl

/-- A byte that a step changes is reached by the QP that the step brings a packet to. -/
theorem devStep_confined {op : DevOp} (h : devStep d op = .ok d') (hne : d'.ctx.mem a ≠ d.ctx.mem a) :
    ∃ o pkt, d.delivers op = some (o, pkt) ∧
      MayReach d.ctx o.qp (rightOf (ibBthGetOpcode pkt.bth)) a := by
  rcases devStep_aside h with haside | ⟨o, call, s, hperf, hs, hctx⟩
  · exact absurd (congrFun haside.mem a) hne
  · rw [hctx] at hne
    obtain ⟨pkt, hpkt, hreaches⟩ := qpStep_confined hs hne
    exact ⟨o, pkt, hperf.delivers hpkt, hreaches⟩

/-- **Isolation.**  A host byte that a run of the device changes was changed by a
packet, and then it was registered for the right of the packet's opcode in an MR of
the PD of its QP. -/
theorem devRun_confined {ops : List DevOp} (hclear : Machine.Along devStep (fun u _ => MrsClear u.ctx) d ops)
    (h : run devStep d ops = .ok d') (hne : d'.ctx.mem a ≠ d.ctx.mem a) :
    ∃ before op after u v o pkt, ops = before ++ op :: after ∧ run devStep d before = .ok u ∧
      devStep u op = .ok v ∧ u.delivers op = some (o, pkt) ∧
      Exposes u.ctx o.qp (rightOf (ibBthGetOpcode pkt.bth)) a := by
  obtain ⟨before, op, after, u, v, hops, hu, hv, hchange⟩ :=
    Machine.exists_step_of_ne (f := fun d : Device => d.ctx.mem a) h hne
  obtain ⟨o, pkt, hdelivers, hreaches⟩ := devStep_confined hv hchange
  have hnow := Machine.along_iff.mp hclear before op after u hops hu
  exact ⟨before, op, after, u, v, o, pkt, hops, hu, hv, hdelivers, hreaches.exposes hnow⟩

/-- The packet of a SEND for a posted WR. -/
def sendOps : List DevOp := receiverOps ++ [postRecvOp, .onQp 2 (.recv sendFirst true)]

instance (mr : RoceMr) : Decidable mr.Clear :=
  decidable_of_iff (mr.Paged ∧ mr.pageSize.toNat ∣ 2 ^ 32 ∧
      mr.iova.toNat % (2 ^ 32 * mr.pageSize.toNat) + mr.iovs.length * mr.pageSize.toNat + 2 ^ 32 ≤
        2 ^ 32 * mr.pageSize.toNat)
    ⟨fun ⟨hpaged, hsize, hroom⟩ => ⟨hpaged, hsize, hroom⟩, fun h => ⟨h.paged, h.pageSize, h.room⟩⟩

instance (ctx : RoceCtx) : Decidable (MrsClear ctx) :=
  inferInstanceAs (Decidable (∀ mr ∈ ctx.mrs.reduceOption, _ → _ → _))

/-- It stores two bytes. -/
theorem devRun_confined_send : ∃ d,
    roceInitDevice smallCtx smallPara (fun _ => true) (fun _ => true) = .ok d ∧ d.ctx.mem 0x10001 = 0 ∧
    ∃ t, run devStep d sendOps = .ok t ∧ t.ctx.mem 0x10001 = 2 ∧
      ∃ before op after u v o pkt, sendOps = before ++ op :: after ∧
        run devStep d before = .ok u ∧ devStep u op = .ok v ∧ u.delivers op = some (o, pkt) ∧
        Exposes u.ctx o.qp (rightOf (ibBthGetOpcode pkt.bth)) 0x10001 := by
  obtain ⟨d, hd, hclear, hzero, t, ht, htwo⟩ : ∃ d,
      roceInitDevice smallCtx smallPara (fun _ => true) (fun _ => true) = .ok d ∧
      Machine.Along devStep (fun u _ => MrsClear u.ctx) d sendOps ∧ d.ctx.mem 0x10001 = 0 ∧
      ∃ t, run devStep d sendOps = .ok t ∧ t.ctx.mem 0x10001 = 2 := by decide +kernel
  refine ⟨d, hd, hzero, t, ht, htwo, devRun_confined hclear ht ?_⟩
  rw [hzero, htwo]
  decide

end device

end Libroce
