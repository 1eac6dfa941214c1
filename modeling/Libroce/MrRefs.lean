import Libroce.DeviceFrame
import Libroce.ResponderUnion

/-!
# Who holds references to MRs

A send WR whose references were taken names an MR in each of its SGEs, and so
does a receive WR until it is freed.  `Owned` says that the MRs count the uses
of a list of WRs, wherever these are queued.

    roceFreeSendWr, roceFreeRecvWr : a WR leaves the list with its references
    Owned.addRecv                  : one joins it
-/

namespace Libroce

open Machine (bind_eq_ok)
open Refs (Tally)

/-! ## References -/

/-- The MRs that SGEs name, one for each. -/
def sgeMrs (sges : List RoceSge) : List Nat := sges.map fun sge => roceKeyToIndex sge.lkey

section refs

variable {ctx ctx' : RoceCtx} {i : Nat} {sges : List RoceSge} {uses : List Nat} {ret : Int}

theorem roceGetMr_mrTally (h : roceGetMr ctx i = some ctx') (ht : Tally RoceMr.ref ctx.mrs uses)
    (hfew : uses.count i + 1 < 2 ^ 32) : Tally RoceMr.ref ctx'.mrs (i :: uses) := by
  unfold roceGetMr at h
  split at h
  · cases h
  · next mr hmr =>
    obtain rfl := Option.some.inj h
    exact ht.incr_of_count hmr rfl hfew

/-- `roce_destroy_mr` frees the MR when nobody uses it. -/
theorem roceDestroyMr_mrTally (h : roceDestroyMr ctx i = .ok (ret, ctx'))
    (ht : Tally RoceMr.ref ctx.mrs uses) : Tally RoceMr.ref ctx'.mrs uses := by
  unfold roceDestroyMr at h
  split at h
  · obtain ⟨-, rfl⟩ := Prod.mk.inj (Except.ok.inj h)
    exact ht
  · next mr hmr =>
    split at h
    · obtain ⟨-, rfl⟩ := Prod.mk.inj (Except.ok.inj h)
      exact ht.update hmr rfl
    · next hzero =>
      split at h
      · cases h
      · next ctx1 hput =>
        obtain ⟨-, rfl⟩ := Prod.mk.inj (Except.ok.inj h)
        have hmrs : ctx1.mrs = ctx.mrs.set i none := by
          obtain ⟨pd, -, rfl⟩ := assertPutPd_ok hput
          rfl
        rw [hmrs]
        exact ht.free hmr (not_not.mp hzero)

/-- The last reference to an MR marked `DESTROYED` frees it. -/
theorem rocePutMr_mrTally (h : rocePutMr ctx i = .ok ctx')
    (ht : Tally RoceMr.ref ctx.mrs (i :: uses)) : Tally RoceMr.ref ctx'.mrs uses := by
  unfold rocePutMr at h
  split at h
  · next hnone => exact absurd hnone (ht.live i List.mem_cons_self)
  · next mr hmr =>
    have hput : Tally RoceMr.ref (setMr ctx i { mr with ref := mr.ref - 1 }).mrs uses :=
      ht.decr hmr rfl
    split at h
    · split at h
      · cases h
      · next hd =>
        obtain rfl := Except.ok.inj h
        exact roceDestroyMr_mrTally hd hput
    · obtain rfl := Except.ok.inj h
      exact hput

theorem rocePutMrs_mrTally (h : rocePutMrs ctx sges = .ok ctx')
    (ht : Tally RoceMr.ref ctx.mrs (sgeMrs sges ++ uses)) : Tally RoceMr.ref ctx'.mrs uses := by
  induction sges generalizing ctx with
  | nil =>
    obtain rfl := Except.ok.inj h
    exact ht
  | cons sge sges ih =>
    rw [rocePutMrs] at h
    split at h
    · cases h
    · next hput => exact ih h (rocePutMr_mrTally hput ht)

/-- The loop adds what it takes, and takes all when it reaches the end. -/
theorem getMrsLoop_mrTally (taken sges : List RoceSge)
    (ht : Tally RoceMr.ref ctx.mrs (sgeMrs taken ++ uses))
    (hfew : ∀ i, roceGetMrNoref ctx i ≠ none →
      (sgeMrs taken ++ uses).count i + (sgeMrs sges).count i < 2 ^ 32) :
    Tally RoceMr.ref (getMrsLoop ctx taken sges).2.2.mrs
        (sgeMrs (getMrsLoop ctx taken sges).2.1 ++ uses) ∧
      ((getMrsLoop ctx taken sges).1 = true →
        (getMrsLoop ctx taken sges).2.1 = sges.reverse ++ taken) := by
  induction sges generalizing ctx taken with
  | nil => exact ⟨ht, fun _ => rfl⟩
  | cons sge sges ih =>
    rw [getMrsLoop]
    split
    · refine ⟨ht, ?_⟩
      intro hno
      cases hno
    · next ctx1 hget =>
      have hcount : ∀ i, (sgeMrs (sge :: taken) ++ uses).count i + (sgeMrs sges).count i =
          (sgeMrs taken ++ uses).count i + (sgeMrs (sge :: sges)).count i := by
        intro i
        unfold sgeMrs
        simp only [List.map_cons, List.cons_append, List.count_cons, List.count_append]
        omega
      have hone : (sgeMrs taken ++ uses).count (roceKeyToIndex sge.lkey) + 1 < 2 ^ 32 := by
        have hfound : roceGetMrNoref ctx (roceKeyToIndex sge.lkey) ≠ none := by
          intro hno
          unfold roceGetMr at hget
          rw [hno] at hget
          cases hget
        have hi := hfew (roceKeyToIndex sge.lkey) hfound
        unfold sgeMrs at hi ⊢
        rw [List.map_cons, List.count_cons_self] at hi
        omega
      obtain ⟨ht', hall⟩ := ih (sge :: taken) (roceGetMr_mrTally hget ht hone)
        (fun i hi => by rw [hcount i]; exact hfew i ((roceGetMr_present hget i).mp hi))
      refine ⟨ht', ?_⟩
      intro hyes
      rw [hall hyes, List.reverse_cons, List.append_assoc]
      rfl

theorem sgeMrs_reverse (sges : List RoceSge) : (sgeMrs sges.reverse).Perm (sgeMrs sges) := by
  unfold sgeMrs
  exact (List.reverse_perm sges).map _

/-- No count wraps around when each of the SGEs takes its reference. -/
def RefsFit (ctx : RoceCtx) (sges : List RoceSge) : Prop :=
  ∀ i mr, roceGetMrNoref ctx i = some mr → mr.ref.toNat + (sgeMrs sges).count i < 2 ^ 32

/-- All the references, or none. -/
theorem roceGetMrs_mrTally (h : roceGetMrs ctx sges = .ok (ret, ctx'))
    (ht : Tally RoceMr.ref ctx.mrs uses) (hfit : RefsFit ctx sges) :
    (ret = 0 → Tally RoceMr.ref ctx'.mrs (sgeMrs sges ++ uses)) ∧
      (ret ≠ 0 → Tally RoceMr.ref ctx'.mrs uses) := by
  have hfew : ∀ i, roceGetMrNoref ctx i ≠ none → uses.count i + (sgeMrs sges).count i < 2 ^ 32 := by
    intro i hi
    obtain ⟨mr, hmr⟩ := Option.ne_none_iff_exists'.mp hi
    rw [← ht.count i mr hmr]
    exact hfit i mr hmr
  have hloop := getMrsLoop_mrTally [] sges ht hfew
  unfold roceGetMrs at h
  split at h
  · next heq =>
    rw [heq] at hloop
    obtain ⟨rfl, rfl⟩ := Prod.mk.inj (Except.ok.inj h)
    refine ⟨fun _ => ?_, fun hne => absurd rfl hne⟩
    obtain ⟨ht', hall⟩ := hloop
    have hall := hall rfl
    simp only [List.append_nil] at hall
    subst hall
    exact ht'.perm ((sgeMrs_reverse sges).append_right uses)
  · next heq =>
    rw [heq] at hloop
    split at h
    · cases h
    · next hput =>
      obtain ⟨rfl, rfl⟩ := Prod.mk.inj (Except.ok.inj h)
      refine ⟨fun hno => absurd hno (by decide), fun _ => ?_⟩
      exact rocePutMrs_mrTally hput hloop.1

end refs

/-! ## Owners -/

/-- The references a send WR holds: none when it is inline, or when they could
not be taken. -/
def SendWr.mrUses (wr : SendWr) : List Nat := if wr.mapped then sgeMrs wr.sge else []

theorem mrUses_unmapped {wr : SendWr} (h : wr.mapped = false) : wr.mrUses = [] := by
  unfold SendWr.mrUses
  rw [h]
  rfl

/-- Those of a receive WR. -/
def recvWrUses : Option RecvWr → List Nat
  | none => []
  | some wr => sgeMrs wr.sge

/-- Those of the receive WRs at these addresses. -/
def recvUses (ctx : RoceCtx) (ptrs : List UInt64) : List Nat :=
  ptrs.flatMap fun p => recvWrUses (ctx.recvWrs p)

/-- The MRs count the uses of send WRs and of receive WRs, which are live and
distinct. -/
structure Owned (ctx : RoceCtx) (sends : List SendWr) (ptrs : List UInt64) : Prop where
  tally : Tally RoceMr.ref ctx.mrs (sends.flatMap SendWr.mrUses ++ recvUses ctx ptrs)
  nodup : ptrs.Nodup
  live : ∀ p ∈ ptrs, p ≠ 0 ∧ ctx.recvWrs p ≠ none

theorem recvUses_congr {ctx ctx' : RoceCtx} {ptrs : List UInt64}
    (h : ∀ p ∈ ptrs, recvWrUses (ctx'.recvWrs p) = recvWrUses (ctx.recvWrs p)) :
    recvUses ctx' ptrs = recvUses ctx ptrs := by
  unfold recvUses
  exact List.flatMap_congr h

section owned

variable {ctx ctx' : RoceCtx} {sends sends' : List SendWr} {ptrs ptrs' : List UInt64} {p : UInt64}

theorem Owned.perm (h : Owned ctx sends ptrs) (hs : sends.Perm sends') (hp : ptrs.Perm ptrs') :
    Owned ctx sends' ptrs' := by
  refine ⟨h.tally.perm ?_, hp.nodup_iff.mp h.nodup, ?_⟩
  · exact (hs.flatMap_right _).append (hp.flatMap_right _)
  · exact fun q hq => h.live q (hp.mem_iff.mpr hq)

/-- What `Owned` speaks about. -/
theorem Owned.congr (h : Owned ctx sends ptrs) (hmrs : ctx'.mrs = ctx.mrs)
    (hrecv : ctx'.recvWrs = ctx.recvWrs) (hs : sends'.flatMap SendWr.mrUses = sends.flatMap SendWr.mrUses) :
    Owned ctx' sends' ptrs := by
  refine ⟨?_, h.nodup, by rw [hrecv]; exact h.live⟩
  have huses : recvUses ctx' ptrs = recvUses ctx ptrs := by
    unfold recvUses
    rw [hrecv]
  rw [hmrs, hs, huses]
  exact h.tally

/-- References taken or given back. -/
theorem Owned.refs (h : Owned ctx sends ptrs) (hrefs : RefsOnly ctx ctx')
    (ht : Tally RoceMr.ref ctx'.mrs (sends'.flatMap SendWr.mrUses ++ recvUses ctx ptrs)) :
    Owned ctx' sends' ptrs := by
  have hrecv : ctx'.recvWrs = ctx.recvWrs := by rw [hrefs]
  refine ⟨?_, h.nodup, by rw [hrecv]; exact h.live⟩
  have huses : recvUses ctx' ptrs = recvUses ctx ptrs := by
    unfold recvUses
    rw [hrecv]
  rw [huses]
  exact ht

theorem roceFreeSendWr_owned {wr : SendWr} (hf : roceFreeSendWr ctx wr = .ok ctx')
    (h : Owned ctx (wr :: sends) ptrs) : Owned ctx' sends ptrs := by
  have hrefs := roceFreeSendWr_refsOnly hf
  have ht := h.tally
  rw [List.flatMap_cons, List.append_assoc] at ht
  unfold SendWr.mrUses at ht
  unfold roceFreeSendWr at hf
  split at hf
  · next hmapped =>
    rw [if_pos hmapped] at ht
    exact h.refs hrefs (rocePutMrs_mrTally hf ht)
  · next hmapped =>
    rw [if_neg hmapped] at ht
    obtain rfl := Except.ok.inj hf
    exact ⟨ht, h.nodup, h.live⟩

theorem freeSendWrs_owned {wrs : List SendWr} (hf : freeSendWrs ctx wrs = .ok ctx')
    (h : Owned ctx (wrs ++ sends) ptrs) : Owned ctx' sends ptrs := by
  induction wrs generalizing ctx with
  | nil =>
    obtain rfl := Except.ok.inj hf
    exact h
  | cons wr wrs ih =>
    rw [freeSendWrs] at hf
    split at hf
    · cases hf
    · next hfree => exact ih hf (roceFreeSendWr_owned hfree h)

/-- A receive WR whose SGEs are those of the object it is stored in. -/
theorem roceFreeRecvWr_owned {wr wr0 : RecvWr} (hf : roceFreeRecvWr ctx p wr = .ok ctx')
    (hwr : ctx.recvWrs p = some wr0) (hsge : wr.sge = wr0.sge) (h : Owned ctx sends (p :: ptrs)) :
    Owned ctx' sends ptrs := by
  obtain ⟨hnot, hnodup⟩ := List.nodup_cons.mp h.nodup
  have hrecv := (roceFreeRecvWr_ok hf).2
  have hsame : ∀ q ∈ ptrs, ctx'.recvWrs q = ctx.recvWrs q := by
    intro q hq
    rw [hrecv, if_neg]
    rintro rfl
    exact hnot hq
  refine ⟨?_, hnodup, ?_⟩
  · rw [recvUses_congr fun q hq => congrArg recvWrUses (hsame q hq)]
    unfold roceFreeRecvWr at hf
    split at hf
    · cases hf
    · next ctx1 hput =>
      obtain rfl := Except.ok.inj hf
      show Tally RoceMr.ref ctx1.mrs _
      refine rocePutMrs_mrTally hput (h.tally.perm ?_)
      have huses : recvUses ctx (p :: ptrs) = sgeMrs wr.sge ++ recvUses ctx ptrs := by
        unfold recvUses
        rw [List.flatMap_cons, hwr, hsge]
        rfl
      rw [huses, ← List.append_assoc, ← List.append_assoc]
      exact List.perm_append_comm.append_right _
  · intro q hq
    rw [hsame q hq]
    exact h.live q (List.mem_cons_of_mem p hq)

/-- A receive WR with its references, at an address of its own. -/
theorem Owned.addRecv {wr : RecvWr} (h : Owned ctx sends ptrs) (hp : p ≠ 0) (hnot : p ∉ ptrs)
    (hwr : ctx'.recvWrs p = some wr) (hsame : ∀ q ∈ ptrs, ctx'.recvWrs q = ctx.recvWrs q)
    (ht : Tally RoceMr.ref ctx'.mrs
      (sgeMrs wr.sge ++ (sends.flatMap SendWr.mrUses ++ recvUses ctx ptrs))) :
    Owned ctx' sends (p :: ptrs) := by
  refine ⟨?_, List.nodup_cons.mpr ⟨hnot, h.nodup⟩, ?_⟩
  · have huses : recvUses ctx' (p :: ptrs) = sgeMrs wr.sge ++ recvUses ctx ptrs := by
      rw [← recvUses_congr fun q hq => congrArg recvWrUses (hsame q hq)]
      unfold recvUses
      rw [List.flatMap_cons, hwr]
      rfl
    rw [huses]
    refine ht.perm ?_
    rw [← List.append_assoc, ← List.append_assoc]
    exact List.perm_append_comm.append_right _
  · intro q hq
    rcases List.mem_cons.mp hq with rfl | hq
    · exact ⟨hp, by rw [hwr]; exact Option.some_ne_none wr⟩
    · rw [hsame q hq]
      exact h.live q hq

theorem freeRecvWrs_owned {ps : List UInt64} (hf : freeRecvWrs ctx ps = .ok ctx')
    (h : Owned ctx sends (ps ++ ptrs)) : Owned ctx' sends ptrs := by
  induction ps generalizing ctx with
  | nil =>
    obtain rfl := Except.ok.inj hf
    exact h
  | cons p ps ih =>
    rw [freeRecvWrs] at hf
    split at hf
    · cases hf
    · next wr hwr =>
      split at hf
      · cases hf
      · next hfree => exact ih hf (roceFreeRecvWr_owned hfree hwr rfl h)

end owned

end Libroce
