import Libroce.MrRefs

/-!
# A receive WR that was never posted

`roce_post_recv` takes the references of its WR, or rolls back those it took
and frees the WR.  `roce_free_recv_wr` gives references back whether or not
they were taken, so those of a WR that was never posted go twice.

    mrRef          the count of an MR
    Unresolved     no key of the WR names an MR

Main statement: `recvWr_refsKept`.
-/

namespace Libroce

/-- The count of the MR at a handle. -/
def mrRef (ctx : RoceCtx) (i : Nat) : Option UInt32 := (roceGetMrNoref ctx i).map (·.ref)

theorem mrRef_set {ctx ctx' : RoceCtx} {i : Nat} {mr : RoceMr} {v : Option RoceMr}
    (h : roceGetMrNoref ctx i = some mr) (hset : ctx'.mrs = ctx.mrs.set i v) (j : Nat) :
    mrRef ctx' j = if i = j then v.map (·.ref) else mrRef ctx j := by
  unfold mrRef roceGetMrNoref at *
  rw [hset, roceResourceGet_set ctx.mrs i j mr v h]
  by_cases hij : i = j
  · rw [if_pos hij, if_pos hij]
  · rw [if_neg hij, if_neg hij]

/-! ## Giving back and taking -/

/-- What giving `n` references back may leave of a count: so many less, or no MR. -/
def GivenBack (n : Nat) (old new : Option UInt32) : Prop :=
  new = old.map (· - UInt32.ofNat n) ∨ n ≠ 0 ∧ new = none

theorem GivenBack.trans {m n : Nat} {a b c : Option UInt32} (h1 : GivenBack m a b)
    (h2 : GivenBack n b c) : GivenBack (m + n) a c := by
  unfold GivenBack at *
  rcases h2 with rfl | ⟨hn, rfl⟩
  · rcases h1 with rfl | ⟨hm, rfl⟩
    · left
      cases a with
      | none => rfl
      | some r =>
        show some (r - UInt32.ofNat m - UInt32.ofNat n) = some (r - UInt32.ofNat (m + n))
        rw [UInt32.ofNat_add]
        congr 1
        grind
    · right
      exact ⟨by omega, rfl⟩
  · right
    exact ⟨by omega, rfl⟩

theorem rocePutMr_mrRef {ctx ctx' : RoceCtx} {i : Nat} (h : rocePutMr ctx i = .ok ctx') (j : Nat) :
    GivenBack ([i].count j) (mrRef ctx j) (mrRef ctx' j) := by
  have hzero : ∀ o : Option UInt32, o.map (· - UInt32.ofNat 0) = o := by
    intro o
    cases o with
    | none => rfl
    | some r =>
      show some (r - 0) = some r
      rw [UInt32.sub_zero]
  cases hmr : roceGetMrNoref ctx i with
  | none =>
    unfold rocePutMr at h
    rw [hmr] at h
    obtain rfl := Except.ok.inj h
    left
    by_cases hij : i = j
    · subst hij
      unfold mrRef
      rw [hmr]
      rfl
    · rw [List.count_cons_of_ne hij, List.count_nil, hzero]
  | some mr =>
    obtain ⟨v, hv, -, hval⟩ := rocePutMr_mrs h hmr
    rw [mrRef_set hmr hv]
    by_cases hij : i = j
    · subst hij
      rw [if_pos rfl, List.count_singleton_self]
      rcases hval with rfl | hval
      · exact Or.inr ⟨by omega, rfl⟩
      · left
        rw [hval]
        unfold mrRef
        rw [hmr]
        rfl
    · rw [if_neg hij, List.count_cons_of_ne hij, List.count_nil]
      exact Or.inl (hzero _).symm

theorem rocePutMrs_mrRef {ctx ctx' : RoceCtx} {sges : List RoceSge} (h : rocePutMrs ctx sges = .ok ctx')
    (j : Nat) : GivenBack ((sgeMrs sges).count j) (mrRef ctx j) (mrRef ctx' j) := by
  induction sges generalizing ctx with
  | nil =>
    obtain rfl := Except.ok.inj h
    left
    cases mrRef ctx j with
    | none => rfl
    | some r =>
      show some r = some (r - 0)
      rw [UInt32.sub_zero]
  | cons sge sges ih =>
    rw [rocePutMrs] at h
    cases hput : rocePutMr ctx (roceKeyToIndex sge.lkey) with
    | error e =>
      rw [hput] at h
      cases h
    | ok ctx1 =>
      rw [hput] at h
      have hcount : (sgeMrs (sge :: sges)).count j =
          [roceKeyToIndex sge.lkey].count j + (sgeMrs sges).count j := by
        rw [← List.count_append]
        rfl
      rw [hcount]
      exact (rocePutMr_mrRef hput j).trans (ih h)

/-- The loop adds what it takes. -/
theorem getMrsLoop_mrRef (sges : List RoceSge) (ctx : RoceCtx) (taken : List RoceSge) (j : Nat) :
    ∃ new, (getMrsLoop ctx taken sges).2.1 = new ++ taken ∧ (sgeMrs new).count j ≤ (sgeMrs sges).count j ∧
      mrRef (getMrsLoop ctx taken sges).2.2 j =
        (mrRef ctx j).map (· + UInt32.ofNat ((sgeMrs new).count j)) := by
  have hzero : ∀ o : Option UInt32, o = o.map (· + UInt32.ofNat 0) := by
    intro o
    cases o with
    | none => rfl
    | some r =>
      show some r = some (r + 0)
      rw [UInt32.add_zero]
  induction sges generalizing ctx taken with
  | nil => exact ⟨[], rfl, Nat.le_refl _, hzero _⟩
  | cons sge sges ih =>
    rw [getMrsLoop]
    have hcons : ∀ l : List RoceSge, (sgeMrs (sge :: l)).count j =
        (sgeMrs l).count j + [roceKeyToIndex sge.lkey].count j := by
      intro l
      show (roceKeyToIndex sge.lkey :: sgeMrs l).count j = _
      rw [← List.singleton_append, List.count_append, Nat.add_comm]
    cases hget : roceGetMr ctx (roceKeyToIndex sge.lkey) with
    | none => exact ⟨[], rfl, Nat.zero_le _, hzero _⟩
    | some ctx1 =>
      obtain ⟨new, hnew, hle, href⟩ := ih ctx1 (sge :: taken)
      have happ : (sgeMrs (new ++ [sge])).count j =
          (sgeMrs new).count j + [roceKeyToIndex sge.lkey].count j := by
        unfold sgeMrs
        rw [List.map_append, List.count_append]
        rfl
      refine ⟨new ++ [sge], ?_, ?_, ?_⟩
      · show (getMrsLoop ctx1 (sge :: taken) sges).2.1 = _
        rw [hnew, List.append_assoc]
        rfl
      · rw [happ, hcons]
        omega
      · show mrRef (getMrsLoop ctx1 (sge :: taken) sges).2.2 j = _
        rw [href, happ]
        unfold roceGetMr at hget
        cases hmr : roceGetMrNoref ctx (roceKeyToIndex sge.lkey) with
        | none =>
          rw [hmr] at hget
          cases hget
        | some mr =>
          rw [hmr] at hget
          obtain rfl := Option.some.inj hget
          rw [mrRef_set hmr rfl]
          by_cases hij : roceKeyToIndex sge.lkey = j
          · subst hij
            rw [if_pos rfl, List.count_singleton_self]
            unfold mrRef
            rw [hmr]
            show some (mr.ref + 1 + _) = some (mr.ref + UInt32.ofNat (_ + 1))
            rw [UInt32.ofNat_add]
            congr 1
            grind
          · rw [if_neg hij, List.count_cons_of_ne hij]
            rfl

/-- What was taken is given back, unless the MR went with it. -/
theorem roceGetMrs_mrRef {ctx ctx' : RoceCtx} {sges : List RoceSge} {ret : Int}
    (h : roceGetMrs ctx sges = .ok (ret, ctx')) (hret : ret ≠ 0) (j : Nat) :
    mrRef ctx' j = mrRef ctx j ∨ j ∈ sgeMrs sges ∧ mrRef ctx' j = none := by
  unfold roceGetMrs at h
  obtain ⟨new, hnew, hle, href⟩ := getMrsLoop_mrRef sges ctx [] j
  cases hloop : getMrsLoop ctx [] sges with
  | mk all r =>
    obtain ⟨taken, ctx1⟩ := r
    rw [hloop] at h hnew href
    cases all with
    | true =>
      obtain ⟨h0, -⟩ := Prod.mk.inj (Except.ok.inj h)
      exact absurd h0.symm hret
    | false =>
      simp only [List.append_nil] at h hnew href
      subst hnew
      cases hput : rocePutMrs ctx1 taken with
      | error e =>
        rw [hput] at h
        cases h
      | ok ctx2 =>
        rw [hput] at h
        obtain ⟨-, rfl⟩ := Prod.mk.inj (Except.ok.inj h)
        rcases rocePutMrs_mrRef hput j with hback | ⟨hne, hnone⟩
        · left
          rw [hback, href]
          cases mrRef ctx j with
          | none => rfl
          | some r =>
            show some (r + _ - _) = some r
            rw [UInt32.add_sub_cancel]
        · right
          refine ⟨?_, hnone⟩
          apply List.count_pos_iff.mp
          omega

/-! ## What is left -/

/-- Every MR counts what it counted, and no other is there. -/
def MrRefsKept (ctx ctx' : RoceCtx) : Prop := ∀ i, mrRef ctx' i = mrRef ctx i

/-- No key of the SGEs names an MR. -/
def Unresolved (ctx : RoceCtx) (sges : List RoceSge) : Prop :=
  ∀ sge ∈ sges, roceGetMrNoref ctx (roceKeyToIndex sge.lkey) = none

theorem Unresolved.rocePutMrs {ctx : RoceCtx} {sges : List RoceSge} (h : Unresolved ctx sges) :
    rocePutMrs ctx sges = .ok ctx := by
  induction sges with
  | nil => rfl
  | cons sge sges ih =>
    obtain ⟨hsge, hsges⟩ := List.forall_mem_cons.mp h
    rw [Libroce.rocePutMrs]
    unfold rocePutMr
    rw [hsge]
    exact ih hsges

theorem Unresolved.roceGetMrs {ctx : RoceCtx} {sges : List RoceSge} (h : Unresolved ctx sges)
    (hne : sges ≠ []) : roceGetMrs ctx sges = .ok (eACCES, ctx) := by
  obtain ⟨sge, rest, rfl⟩ := List.exists_cons_of_ne_nil hne
  have hget : roceGetMr ctx (roceKeyToIndex sge.lkey) = none := by
    unfold roceGetMr
    rw [h sge List.mem_cons_self]
  unfold Libroce.roceGetMrs
  rw [getMrsLoop]
  rw [hget]
  rfl

/-- A reference given back for a key shows. -/
theorem unresolved_of_givenBack {ctx ctx' : RoceCtx} {sges : List RoceSge} (hlen : sges.length < 2 ^ 32)
    (hback : ∀ j ∈ sgeMrs sges, GivenBack ((sgeMrs sges).count j) (mrRef ctx j) (mrRef ctx' j))
    (hkept : MrRefsKept ctx ctx') : Unresolved ctx sges := by
  intro sge hsge
  have hmem : roceKeyToIndex sge.lkey ∈ sgeMrs sges := List.mem_map_of_mem hsge
  have hpos := List.count_pos_iff.mpr hmem
  have hle := List.count_le_length (l := sgeMrs sges) (a := roceKeyToIndex sge.lkey)
  have hlen' : (sgeMrs sges).length = sges.length := List.length_map _
  by_contra hsome
  obtain ⟨mr, hmr⟩ := Option.ne_none_iff_exists'.mp hsome
  have hold : mrRef ctx (roceKeyToIndex sge.lkey) = some mr.ref := by
    unfold mrRef
    rw [hmr]
    rfl
  rcases hback _ hmem with h | ⟨-, h⟩
  · rw [hkept, hold] at h
    have href : mr.ref = mr.ref - UInt32.ofNat ((sgeMrs sges).count (roceKeyToIndex sge.lkey)) :=
      Option.some.inj h
    have hzero : UInt32.ofNat ((sgeMrs sges).count (roceKeyToIndex sge.lkey)) = 0 := by grind
    have hnat := congrArg UInt32.toNat hzero
    rw [UInt32.toNat_ofNat_of_lt' (by show _ < 2 ^ 32; omega)] at hnat
    exact absurd hnat (by show _ ≠ 0; omega)
  · rw [hkept, hold] at h
    cases h

/-- **Freeing** a WR that was never posted changes no count exactly when none
of its keys names an MR. -/
theorem roceFreeRecvWr_refsKept {ctx : RoceCtx} {p : UInt64} {wr : RecvWr} (hlen : wr.sge.length < 2 ^ 32) :
    (∃ ctx', roceFreeRecvWr ctx p wr = .ok ctx' ∧ MrRefsKept ctx ctx') ↔ Unresolved ctx wr.sge := by
  unfold roceFreeRecvWr
  constructor
  · rintro ⟨ctx', h, hkept⟩
    cases hput : rocePutMrs ctx wr.sge with
    | error e =>
      rw [hput] at h
      cases h
    | ok ctx1 =>
      rw [hput] at h
      obtain rfl := Except.ok.inj h
      exact unresolved_of_givenBack hlen (fun j _ => rocePutMrs_mrRef hput j) hkept
  · intro hnone
    rw [hnone.rocePutMrs]
    exact ⟨_, rfl, fun _ => rfl⟩

/-- **A failed post** leaves queue and counts exactly when none of the keys names
an MR. -/
theorem rocePostRecv_refsKept {s : St} {p : UInt64} {wr : RecvWr} (hlen : wr.sge.length < 2 ^ 32)
    (hbad : ∃ sge ∈ wr.sge, roceGetMrNoref s.ctx (roceKeyToIndex sge.lkey) = none) :
    (∃ t, rocePostRecv s p wr = .ok (eACCES, t) ∧ t.qp.rq = s.qp.rq ∧ MrRefsKept s.ctx t.ctx) ↔
      Unresolved s.ctx wr.sge := by
  obtain ⟨sge, hsge, hnone⟩ := hbad
  constructor
  · rintro ⟨t, h, -, hkept⟩
    unfold rocePostRecv at h
    cases hget : roceGetMrs s.ctx wr.sge with
    | error e =>
      rw [hget] at h
      cases h
    | ok r =>
      obtain ⟨ret, ctx1⟩ := r
      simp only [hget] at h
      have hret : ret ≠ 0 := fun h0 => (roceGetMrs_eq_zero hget).mp h0 sge hsge hnone
      rw [if_pos hret] at h
      unfold roceFreeRecvWr at h
      cases hput : rocePutMrs ctx1 wr.sge with
      | error e =>
        rw [hput] at h
        cases h
      | ok ctx2 =>
        rw [hput] at h
        obtain ⟨-, rfl⟩ := Prod.mk.inj (Except.ok.inj h)
        refine unresolved_of_givenBack hlen (fun j hj => ?_) hkept
        have hback : GivenBack ((sgeMrs wr.sge).count j) (mrRef ctx1 j) (mrRef ctx2 j) :=
          rocePutMrs_mrRef hput j
        have hpos := List.count_pos_iff.mpr hj
        rcases roceGetMrs_mrRef hget hret j with hold | ⟨-, hgone⟩
        · rw [hold] at hback
          exact hback
        · right
          refine ⟨by omega, ?_⟩
          rw [hgone] at hback
          exact hback.elim id fun h => h.2
  · intro hun
    have hne : wr.sge ≠ [] := List.ne_nil_of_mem hsge
    unfold rocePostRecv roceFreeRecvWr
    rw [hun.roceGetMrs hne]
    simp only [hun.rocePutMrs]
    exact ⟨_, rfl, rfl, fun _ => rfl⟩

/-- **Receive WRs that are not posted.**  A failed `roce_post_recv` leaves the
receive queue and every count, and so does freeing a WR that was never posted,
exactly when no key of the WR names an MR. -/
theorem recvWr_refsKept (s : St) (p : UInt64) (wr : RecvWr) (hlen : wr.sge.length < 2 ^ 32) :
    ((∃ sge ∈ wr.sge, roceGetMrNoref s.ctx (roceKeyToIndex sge.lkey) = none) →
      ((∃ t, rocePostRecv s p wr = .ok (eACCES, t) ∧ t.qp.rq = s.qp.rq ∧ MrRefsKept s.ctx t.ctx) ↔
        Unresolved s.ctx wr.sge)) ∧
    ((∃ ctx', roceFreeRecvWr s.ctx p wr = .ok ctx' ∧ MrRefsKept s.ctx ctx') ↔
      Unresolved s.ctx wr.sge) :=
  ⟨rocePostRecv_refsKept hlen, roceFreeRecvWr_refsKept hlen⟩

/-- One page, and a receive WR of one SGE in it and one with a key of no MR. -/
def halfWr : RecvWr := .fresh 0 [⟨0x10000, 16, 0⟩, ⟨0, 16, 0x100⟩]

/-- The count of the page goes below 0, by the post and by the free. -/
theorem recvWr_refsKept_underflow :
    mrRef (withMr smallCtx smallMr) 0 = some 0 ∧
    (∃ t, rocePostRecv ⟨withMr smallCtx smallMr, smallQp⟩ 0x1000 halfWr = .ok (eACCES, t) ∧
      mrRef t.ctx 0 = some (2 ^ 32 - 1)) ∧
    ∃ ctx', roceFreeRecvWr (withMr smallCtx smallMr) 0x1000 halfWr = .ok ctx' ∧
      mrRef ctx' 0 = some (2 ^ 32 - 1) :=
  ⟨rfl, ⟨_, rfl, rfl⟩, _, rfl, rfl⟩

/-- Three keys: no MR at a free handle, none behind the table, and the first again. -/
def strayWr : RecvWr := .fresh 0 [⟨0, 16, 0x100⟩, ⟨0x10000, 8, 0x700⟩, ⟨64, 16, 0x100⟩]

theorem recvWr_refsKept_none :
    (∃ t, rocePostRecv ⟨withMr smallCtx smallMr, smallQp⟩ 0x1000 strayWr = .ok (eACCES, t) ∧
      t.qp.rq = smallQp.rq ∧ MrRefsKept (withMr smallCtx smallMr) t.ctx) ∧
    ∃ ctx', roceFreeRecvWr (withMr smallCtx smallMr) 0x1000 strayWr = .ok ctx' ∧
      MrRefsKept (withMr smallCtx smallMr) ctx' := by
  have hun : Unresolved (withMr smallCtx smallMr) strayWr.sge := by
    intro sge hsge
    rcases List.mem_cons.mp hsge with rfl | hsge
    · rfl
    · rcases List.mem_cons.mp hsge with rfl | hsge
      · rfl
      · obtain rfl := List.mem_singleton.mp hsge
        rfl
  have hboth := recvWr_refsKept ⟨withMr smallCtx smallMr, smallQp⟩ 0x1000 strayWr (by decide)
  exact ⟨(hboth.1 ⟨_, List.mem_cons_self .., rfl⟩).mpr hun, hboth.2.mpr hun⟩

end Libroce
