import Libroce.Landing
import Libroce.ResponderDatagram
import Libroce.Transmit

/-!
# Iovecs and pages

A caller of `roce_mr_map_sge` expects as many iovecs as `roce_sge_pages` counts
pages of the context.  What each of the two counts:

    roceIovCopy    the iovecs of the MR that the range touches   (roceIovCopy_length)
    sgePages       the pages of the context that it touches      (sgePages_toNat)

Main statement: `roceMrMapSge_pages`.
-/

namespace Libroce

/-! ## The two counts -/

/-- **Page counting.**  The two agree exactly when the SGEs touch as many iovecs
as pages. -/
theorem roceMrMapSge_pages (ctx : RoceCtx) (hp : rocePowerOf2 ctx.pageSize.toUInt64 = true) (qp : RoceQp)
    (sges : List RoceSge) (isLocal : Bool) (access : UInt32) (r : MapRes)
    (hmap : roceMrMapSge ctx qp sges isLocal access = .ok r) (hr : r.refused = false) :
    roceSgePages sges ctx.pageSize = .ok (UInt32.ofInt r.ret) ↔ SamePages ctx sges :=
  samePages_iff hp (roceMrMapSge_ret hmap hr)

/-- Two bytes on both sides of a page boundary, in a page of twice the size. -/
def hugeMr : MrArgs := { smallMr with length := 8192, iovs := [⟨0x10000, 8192⟩], pageSize := 8192 }

/-- One iovec, and two pages: a packet with these two bytes aborts. -/
theorem roceMrMapSge_pages_huge :
    ∃ ctx r, roceCreateMr smallCtx hugeMr true 0 0 = .ok (0, ctx) ∧
      roceMrMapSge ctx smallQp [⟨0x10fff, 2, 0⟩] true 2 = .ok r ∧ r.refused = false ∧
      roceSgePages [⟨0x10fff, 2, 0⟩] ctx.pageSize ≠ .ok (UInt32.ofInt r.ret) ∧
      (∃ s, rocePostRecv ⟨ctx, smallQp⟩ 0x1000 (.fresh 0 [⟨0x10fff, 2, 0⟩]) = .ok (0, s) ∧
        roceRecvRc s (smallPkt ibOpcodeSendOnly 0 [[1, 2]]) = .error (.abort .recvPages)) :=
  ⟨_, _, rfl, rfl, rfl, by decide, _, rfl, rfl⟩

/-- The same two bytes in pages of the context. -/
theorem roceMrMapSge_pages_small :
    ∃ r, roceMrMapSge (withMr smallCtx smallMr) smallQp [⟨0x10ffe, 2, 0⟩] true 2 = .ok r ∧
      roceSgePages [⟨0x10ffe, 2, 0⟩] 4096 = .ok (UInt32.ofInt r.ret) :=
  ⟨_, rfl, (roceMrMapSge_pages (withMr smallCtx smallMr) (by decide) smallQp [⟨0x10ffe, 2, 0⟩] true 2 _ rfl
    rfl).mpr (by unfold SamePages; decide)⟩

/-! ### The assertions -/

theorem pktMapSge_pages {ctx : RoceCtx} (hp : rocePowerOf2 ctx.pageSize.toUInt64 = true) {qp : RoceQp}
    {sges : List RoceSge} {r : MapRes} {pages : UInt32}
    (hmap : roceMrMapSge ctx qp sges true 0 = .ok r) (hr : r.refused = false)
    (hpages : roceSgePages sges ctx.pageSize = .ok pages) :
    pktMapSge ctx qp sges pages = .error (.abort .mapPages) ↔ ¬SamePages ctx sges := by
  have hiff := samePages_iff hp (roceMrMapSge_ret hmap hr)
  rw [hpages] at hiff
  rw [← hiff]
  unfold pktMapSge
  simp only [bind, Except.bind, hmap]
  rw [if_neg (UInt32.not_lt.mpr UInt32.zero_le)]
  by_cases heq : pages = UInt32.ofInt r.ret
  · rw [if_pos heq, heq]
    exact iff_of_false (fun h => by cases h) (fun h => h rfl)
  · rw [if_neg heq]
    exact iff_of_true rfl fun h => heq (Except.ok.inj h)

theorem copyLoop_no_abort {s : St} {dsts : List (Option Iovec)} {iovs : List (List UInt8)} {a : Assertion} :
    copyLoop s dsts iovs ≠ .error (.abort a) := by
  induction dsts generalizing s iovs with
  | nil => rintro ⟨⟩
  | cons d dsts ih =>
    cases d with
    | none => rintro ⟨⟩
    | some d => exact ih

theorem placePayload_pages {s : St} (hp : rocePowerOf2 s.ctx.pageSize.toUInt64 = true)
    {sges : List RoceSge} {isLocal : Bool} {access : UInt32} {iovs : List (List UInt8)} {r : MapRes}
    (hmap : roceMrMapSge s.ctx s.qp sges isLocal access = .ok r) (hr : r.refused = false)
    (hfits : r.iovs.length ≤ 2 * roceMaxSge) :
    placePayload s sges isLocal access iovs = .error (.abort .recvPages) ↔ ¬SamePages s.ctx sges := by
  have hiff := samePages_iff hp (roceMrMapSge_ret hmap hr)
  obtain ⟨pages, hpages, -⟩ := roceSgePages_toNat hp sges
  have hret : ¬r.ret < 0 := Int.not_lt.mpr ((ret_nonneg r).mpr hr)
  rw [← hiff, hpages]
  unfold placePayload
  simp only [bind, Except.bind, hmap, if_neg (Nat.not_lt.mpr hfits), if_neg hret, hpages]
  unfold roceAssert
  by_cases heq : UInt32.ofInt r.ret = pages
  · rw [if_pos (beq_iff_eq.mpr heq), heq]
    refine iff_of_false ?_ (fun h => h rfl)
    cases hcopy : copyLoop s r.iovs iovs with
    | error e =>
      intro habort
      obtain rfl : e = .abort .recvPages := Except.error.inj habort
      exact copyLoop_no_abort hcopy
    | ok t => rintro ⟨⟩
  · rw [if_neg fun h => heq (beq_iff_eq.mp h)]
    exact iff_of_true rfl fun h => heq (Except.ok.inj h).symm

/-! ## The array of the responder -/

section inside

variable {ctx : RoceCtx} {qp : RoceQp} {isLocal : Bool} {access : UInt32} {sges : List RoceSge}

end inside

end Libroce
