import Libroce.Lib.Scatter
import Libroce.MrSafety
import Libroce.ResponderStep
import Mathlib.Data.List.Nodup

/-!
# Where received bytes go

A mapping turns SGEs into iovecs, and the copy loop fills these one after the
other.  What this means byte by byte: the payload is stored to a list of host
addresses, those that the MRs give to the virtual addresses of the SGEs.

    RoceMr.host      the host address of a virtual address of an MR
    sgeHost          the host addresses of the bytes of an SGE
    cursorHost       those behind a cursor into a list of SGEs

Main statements:
* `Places.host` — the iovecs of a mapping are the addresses of its SGEs.
* `roceSgeAdvance_host` — an advance cuts the addresses behind the cursor.
-/

namespace Libroce

/-! ## Iovecs as addresses -/

/-- The host addresses of the bytes of iovecs, in order. -/
def iovAddrs (iovs : List Iovec) : List Nat := iovs.flatMap fun iov => List.range' iov.base iov.len

@[simp] theorem iovAddrs_nil : iovAddrs [] = [] := rfl

theorem iovAddrs_cons (iov : Iovec) (iovs : List Iovec) :
    iovAddrs (iov :: iovs) = List.range' iov.base iov.len ++ iovAddrs iovs := List.flatMap_cons

theorem iovAddrs_append (iovs jovs : List Iovec) :
    iovAddrs (iovs ++ jovs) = iovAddrs iovs ++ iovAddrs jovs := List.flatMap_append

/-- A `memcpy` stores byte after byte. -/
theorem writeMem_eq (mem : Nat → UInt8) (dst : Nat) {bytes : List UInt8} {n : Nat} (h : bytes.length ≤ n) :
    writeMem mem dst bytes = Scatter.store mem (List.range' dst n) bytes := by
  induction bytes generalizing mem dst n with
  | nil =>
    rw [Scatter.store_nil_right]
    funext a
    unfold writeMem
    split
    · rfl
    · rfl
  | cons b bytes ih =>
    obtain ⟨k, rfl⟩ : ∃ k, n = k + 1 := ⟨n - 1, by simp at h; omega⟩
    rw [List.range'_succ, Scatter.store_cons, ← ih _ _ (by simpa using h)]
    funext a
    unfold writeMem
    by_cases ha : a = dst
    · subst ha
      rw [if_pos (Nat.le_refl _), if_neg (by omega), Function.update_self, Nat.sub_self]
      rfl
    · rw [Function.update_of_ne ha]
      by_cases hle : dst ≤ a
      · obtain ⟨d, rfl⟩ : ∃ d, a = dst + 1 + d := ⟨a - (dst + 1), by omega⟩
        rw [if_pos hle, if_pos (by omega), Nat.add_sub_cancel_left,
          show dst + 1 + d - dst = d + 1 by omega]
        rfl
      · rw [if_neg hle, if_neg (by omega)]

/-- The copy loop stores to the addresses of its iovecs. -/
theorem placeMem_eq (mem : Nat → UInt8) (dsts : List Iovec) (bytes : List UInt8) :
    placeMem mem dsts bytes = Scatter.store mem (iovAddrs dsts) bytes := by
  induction dsts generalizing mem bytes with
  | nil => rfl
  | cons dst dsts ih =>
    have htake : writeMem mem dst.base (bytes.take dst.len) =
        Scatter.store mem (List.range' dst.base dst.len) bytes := by
      rw [writeMem_eq mem dst.base (List.length_take_le _ _)]
      by_cases hle : dst.len ≤ bytes.length
      · have hlen : (bytes.take dst.len).length = dst.len := by
          rw [List.length_take, Nat.min_eq_left hle]
        have hsplit := Scatter.store_append_vals mem (List.range' dst.base dst.len) (bytes.take dst.len)
          (bytes.drop dst.len)
        rw [hlen, List.take_append_drop, List.drop_of_length_le (by simp), Scatter.store_nil] at hsplit
        exact hsplit.symm
      · rw [List.take_of_length_le (by omega)]
    rw [placeMem, ih, htake, iovAddrs_cons, Scatter.store_append, List.length_range']

/-! ### Copies of iovecs -/

/-- A piece of the addresses: what the first iovec gives, then the others. -/
theorem iovAddrs_cut_cons (iov : Iovec) (rest : List Iovec) (off n : Nat) :
    ((iovAddrs (iov :: rest)).drop off).take n =
      List.range' (iov.base + off) (min (iov.len - off) n) ++
        ((iovAddrs rest).drop (off - iov.len)).take (n - (iov.len - off)) := by
  have htake : ∀ a len, (List.range' a len).take n = List.range' a (min len n) := by
    intro a len
    by_cases hle : len ≤ n
    · rw [List.take_range'_of_length_le hle, Nat.min_eq_left hle]
    · rw [List.take_range'_of_length_ge (by omega), Nat.min_eq_right (by omega)]
  rw [iovAddrs_cons, List.drop_append, List.take_append, List.drop_range', htake, List.length_range',
    List.length_range', Nat.mul_one]

theorem iovCopyRest_addrs {src ds : List Iovec} {bytes : Nat} (h : iovCopyRest src bytes = ds.map some) :
    iovAddrs ds = (iovAddrs src).take bytes := by
  induction src generalizing ds bytes with
  | nil =>
    cases ds with
    | nil => cases h
    | cons d ds => cases h
  | cons iov rest ih =>
    have hcut := iovAddrs_cut_cons iov rest 0 bytes
    rw [Nat.zero_sub, List.drop_zero, List.drop_zero, Nat.sub_zero, Nat.add_zero] at hcut
    rw [hcut]
    rw [iovCopyRest] at h
    cases ds with
    | nil =>
      split at h
      · cases h
      · cases h
    | cons d ds =>
      split at h
      · next hdone =>
        obtain ⟨hd, hds⟩ := List.cons.inj h
        obtain rfl := Option.some.inj hd
        obtain rfl := List.map_eq_nil_iff.mp hds.symm
        rw [iovAddrs_cons, show bytes - iov.len = 0 by omega, List.take_zero]
        rfl
      · next hmore =>
        obtain ⟨hd, hds⟩ := List.cons.inj h
        obtain rfl := Option.some.inj hd
        rw [iovAddrs_cons, ih hds, show bytes - min iov.len bytes = bytes - iov.len by omega]

theorem iovCopyFrom_addrs {src ds : List Iovec} {off bytes : Nat}
    (h : iovCopyFrom src off bytes = ds.map some) :
    iovAddrs ds = ((iovAddrs src).drop off).take bytes := by
  induction src generalizing off with
  | nil =>
    obtain rfl := List.map_eq_nil_iff.mp h.symm
    simp
  | cons iov rest ih =>
    rw [iovAddrs_cut_cons]
    rw [iovCopyFrom] at h
    split at h
    · next hin =>
      rw [show off - iov.len = 0 by omega, List.drop_zero]
      cases ds with
      | nil =>
        split at h
        · cases h
        · cases h
      | cons d ds =>
        split at h
        · next hdone =>
          obtain ⟨hd, hds⟩ := List.cons.inj h
          obtain rfl := Option.some.inj hd
          obtain rfl := List.map_eq_nil_iff.mp hds.symm
          rw [iovAddrs_cons, show bytes - (iov.len - off) = 0 by omega, List.take_zero]
          rfl
        · next hmore =>
          obtain ⟨hd, hds⟩ := List.cons.inj h
          obtain rfl := Option.some.inj hd
          rw [iovAddrs_cons, iovCopyRest_addrs hds,
            show bytes - min (iov.len - off) bytes = bytes - (iov.len - off) by omega]
    · next hout =>
      rw [ih h, show iov.len - off = 0 by omega, Nat.zero_min, Nat.sub_zero]
      rfl

/-- A copy of iovecs denotes a piece of their addresses. -/
theorem roceIovCopy_addrs {src ds : List Iovec} {off bytes : Nat}
    (h : roceIovCopy src off bytes = .ok (ds.map some)) :
    iovAddrs ds = ((iovAddrs src).drop off).take bytes := by
  unfold roceIovCopy at h
  split at h
  · cases h
  · split at h
    · next hzero =>
      obtain rfl := List.map_eq_nil_iff.mp (Except.ok.inj h).symm
      rw [hzero, List.take_zero]
      rfl
    · exact iovCopyFrom_addrs (Except.ok.inj h)

/-- A source that is long enough leaves no entry unwritten. -/
theorem iovCopyRest_some {src : List Iovec} {bytes : Nat} (hpos : 0 < bytes)
    (h : bytes ≤ (iovAddrs src).length) : ∃ ds : List Iovec, iovCopyRest src bytes = ds.map some := by
  induction src generalizing bytes with
  | nil =>
    rw [iovAddrs_nil, List.length_nil] at h
    omega
  | cons iov rest ih =>
    rw [iovAddrs_cons, List.length_append, List.length_range'] at h
    rw [iovCopyRest]
    by_cases hdone : bytes - min iov.len bytes = 0
    · rw [if_pos hdone]
      exact ⟨[_], rfl⟩
    · rw [if_neg hdone]
      have hleft : 0 < bytes - min iov.len bytes := by omega
      obtain ⟨ds, hds⟩ := ih hleft (by omega)
      exact ⟨_ :: ds, by rw [hds]; rfl⟩

theorem iovCopyFrom_some {src : List Iovec} {off bytes : Nat} (h : off + bytes ≤ (iovAddrs src).length) :
    ∃ ds : List Iovec, iovCopyFrom src off bytes = ds.map some := by
  induction src generalizing off with
  | nil => exact ⟨[], rfl⟩
  | cons iov rest ih =>
    rw [iovAddrs_cons, List.length_append, List.length_range'] at h
    rw [iovCopyFrom]
    by_cases hin : iov.len > off
    · rw [if_pos hin]
      by_cases hdone : bytes - min (iov.len - off) bytes = 0
      · rw [if_pos hdone]
        exact ⟨[_], rfl⟩
      · rw [if_neg hdone]
        have hleft : 0 < bytes - min (iov.len - off) bytes := by omega
        have hroom : bytes - min (iov.len - off) bytes ≤ (iovAddrs rest).length := by omega
        obtain ⟨ds, hds⟩ := iovCopyRest_some hleft hroom
        exact ⟨_ :: ds, by rw [hds]; rfl⟩
    · rw [if_neg hin]
      apply ih
      omega

/-! ## Memory regions of pages -/

/-- The host address of a virtual address: its page, and its place in the page. -/
def RoceMr.host (mr : RoceMr) (va : Nat) : Nat :=
  (mr.iovs.getD (va / mr.pageSize.toNat - mr.iova.toNat / mr.pageSize.toNat) ⟨0, 0⟩).base +
    va % mr.pageSize.toNat

/-- A MEM MR whose iovecs are pages that cover its range. -/
structure RoceMr.Paged (mr : RoceMr) : Prop where
  type : mr.type = .mem
  pages : ∀ iov ∈ mr.iovs, iov.len = mr.pageSize.toNat
  covers : mr.iova.toNat + mr.length.toNat ≤
    (mr.iova.toNat / mr.pageSize.toNat + mr.iovs.length) * mr.pageSize.toNat

instance (mr : RoceMr) : Decidable mr.Paged :=
  decidable_of_iff (mr.type = .mem ∧ (∀ iov ∈ mr.iovs, iov.len = mr.pageSize.toNat) ∧
      mr.iova.toNat + mr.length.toNat ≤
        (mr.iova.toNat / mr.pageSize.toNat + mr.iovs.length) * mr.pageSize.toNat)
    ⟨fun ⟨htype, hpages, hcovers⟩ => ⟨htype, hpages, hcovers⟩, fun h => ⟨h.type, h.pages, h.covers⟩⟩

/-- The addresses of pages. -/
theorem pages_addrs {iovs : List Iovec} {size : Nat} (h : ∀ iov ∈ iovs, iov.len = size) :
    (iovAddrs iovs).length = iovs.length * size ∧
      ∀ k, k < iovs.length * size →
        (iovAddrs iovs)[k]? = some ((iovs.getD (k / size) ⟨0, 0⟩).base + k % size) := by
  induction iovs with
  | nil =>
    refine ⟨by simp, fun k hk => ?_⟩
    rw [List.length_nil, Nat.zero_mul] at hk
    omega
  | cons iov rest ih =>
    obtain ⟨hlen, hget⟩ := ih fun i hi => h i (List.mem_cons_of_mem _ hi)
    have hsize : iov.len = size := h iov List.mem_cons_self
    rw [List.length_cons, Nat.succ_mul]
    constructor
    · rw [iovAddrs_cons, List.length_append, List.length_range', hlen, hsize, Nat.add_comm]
    · intro k hk
      rw [iovAddrs_cons, hsize]
      by_cases hfirst : k < size
      · rw [List.getElem?_append_left (by simpa using hfirst), Nat.div_eq_of_lt hfirst,
          Nat.mod_eq_of_lt hfirst, List.getElem?_range' hfirst, Nat.one_mul]
        rfl
      · have hpos : 0 < size := by
          rcases Nat.eq_zero_or_pos size with h0 | h0
          · subst h0
            rw [Nat.mul_zero] at hk
            omega
          · exact h0
        rw [List.getElem?_append_right (by simpa using Nat.le_of_not_lt hfirst), List.length_range',
          hget _ (by omega)]
        obtain ⟨d, rfl⟩ : ∃ d, k = d + size := ⟨k - size, by omega⟩
        rw [Nat.add_sub_cancel, Nat.add_div_right _ hpos, Nat.add_mod_right, List.getD_cons_succ]

/-- The host addresses of the bytes of an SGE. -/
def RoceMr.hosts (mr : RoceMr) (sge : RoceSge) : List Nat :=
  (List.range sge.length.toNat).map fun i => mr.host (sge.addr.toNat + i)

@[simp] theorem RoceMr.length_hosts (mr : RoceMr) (sge : RoceSge) :
    (mr.hosts sge).length = sge.length.toNat := by simp [RoceMr.hosts]

theorem RoceMr.getElem_hosts (mr : RoceMr) (sge : RoceSge) {i : Nat} (h : i < (mr.hosts sge).length) :
    (mr.hosts sge)[i] = mr.host (sge.addr.toNat + i) := by simp [RoceMr.hosts]

/-- The first page of an SGE, counted from the first page of its MR. -/
theorem mrIovCopy_offPages {mr : RoceMr} {sge : RoceSge} (hin : InRange sge mr)
    (hpos : 0 < sge.length.toNat) (hsize : 0 < mr.pageSize.toNat) :
    (sge.addr / mr.pageSize.toUInt64 - mr.iova / mr.pageSize.toUInt64).toUInt32.toNat =
      sge.addr.toNat / mr.pageSize.toNat - mr.iova.toNat / mr.pageSize.toNat := by
  obtain ⟨hlo, hhi⟩ := hin
  have hmlen := mr.length.toNat_lt
  have hle : mr.iova.toNat / mr.pageSize.toNat ≤ sge.addr.toNat / mr.pageSize.toNat :=
    Nat.div_le_div_right hlo
  have hfew : sge.addr.toNat / mr.pageSize.toNat ≤
      mr.iova.toNat / mr.pageSize.toNat + (sge.addr.toNat - mr.iova.toNat) := by
    rw [← Nat.add_mul_div_right _ _ hsize]
    apply Nat.div_le_div_right
    have hmul : sge.addr.toNat - mr.iova.toNat ≤ (sge.addr.toNat - mr.iova.toNat) * mr.pageSize.toNat :=
      Nat.le_mul_of_pos_right _ hsize
    omega
  have hsub : mr.iova / mr.pageSize.toUInt64 ≤ sge.addr / mr.pageSize.toUInt64 := by
    rw [UInt64.le_iff_toNat_le, UInt64.toNat_div, UInt64.toNat_div, UInt32.toNat_toUInt64]
    exact hle
  rw [UInt64.toNat_toUInt32, UInt64.toNat_sub_of_le _ _ hsub, UInt64.toNat_div, UInt64.toNat_div,
    UInt32.toNat_toUInt64, Nat.mod_eq_of_lt (by omega)]

/-- An SGE without bytes has no iovecs. -/
theorem mrIovCopy_zero {mr : RoceMr} {sge : RoceSge} {iovs : List (Option Iovec)}
    (hzero : sge.length.toNat = 0) (hc : mrIovCopy mr sge = .ok iovs) : iovs = [] := by
  unfold mrIovCopy at hc
  simp only at hc
  split at hc
  · split at hc
    · exact (Except.ok.inj hc).symm
    · cases hc
  · unfold roceIovCopy at hc
    rw [hzero, if_pos rfl] at hc
    split at hc
    · cases hc
    · exact (Except.ok.inj hc).symm

/-- The bytes from `addr` on, when the pages begin with number `first`. -/
theorem pages_piece {iovs : List Iovec} {size addr first len : Nat} (h : ∀ iov ∈ iovs, iov.len = size)
    (hsize : 0 < size) (hle : first ≤ addr / size) (hend : addr + len ≤ (first + iovs.length) * size) :
    ((iovAddrs (iovs.drop (addr / size - first))).drop (addr % size)).take len =
      (List.range len).map fun i =>
        (iovs.getD ((addr + i) / size - first) ⟨0, 0⟩).base + (addr + i) % size := by
  have hdiv := Nat.div_add_mod addr size
  generalize addr / size = q at *
  generalize addr % size = off at *
  obtain ⟨d, rfl⟩ := Nat.exists_eq_add_of_le hle
  rw [Nat.add_sub_cancel_left]
  obtain ⟨hlen, hget⟩ : (iovAddrs (iovs.drop d)).length = (iovs.drop d).length * size ∧ _ :=
    pages_addrs fun iov hiov => h iov (List.mem_of_mem_drop hiov)
  -- what is left of the pages holds the whole piece
  have hroom : off + len ≤ (iovs.drop d).length * size := by
    rw [List.length_drop, Nat.sub_mul]
    rw [Nat.mul_comm, Nat.add_mul] at hdiv
    rw [Nat.add_mul] at hend
    omega
  apply List.ext_getElem?
  intro i
  by_cases hi : i < len
  · rw [List.getElem?_take_of_lt hi, List.getElem?_drop, hget _ (by omega), List.getElem?_map,
      List.getElem?_range hi, Option.map_some]
    have hsplit : addr + i = off + i + size * (first + d) := by omega
    have hindex : (addr + i) / size - first = d + (off + i) / size := by
      rw [hsplit, Nat.add_mul_div_left _ _ hsize]
      generalize (off + i) / size = k
      omega
    rw [hindex, hsplit, Nat.add_mul_mod_self_left]
    rw [List.getD_eq_getElem?_getD, List.getD_eq_getElem?_getD, List.getElem?_drop]
  · rw [List.getElem?_take_eq_none (by omega), List.getElem?_eq_none (by simp; omega)]

/-- Pages of a size, when they cover a byte. -/
theorem RoceMr.Paged.size_pos {mr : RoceMr} (h : mr.Paged) {sge : RoceSge} (hin : InRange sge mr)
    (hpos : 0 < sge.length.toNat) : 0 < mr.pageSize.toNat := by
  have hrange := hin.2
  have hcov := h.covers
  rcases Nat.eq_zero_or_pos mr.pageSize.toNat with h0 | h0
  · rw [h0, Nat.mul_zero] at hcov
    omega
  · exact h0

/-- The bytes of an SGE are a piece of the pages. -/
theorem RoceMr.Paged.hosts_eq {mr : RoceMr} (h : mr.Paged) {sge : RoceSge} (hin : InRange sge mr)
    (hpos : 0 < sge.length.toNat) :
    mr.hosts sge = ((iovAddrs (mr.iovs.drop
      (sge.addr.toNat / mr.pageSize.toNat - mr.iova.toNat / mr.pageSize.toNat))).drop
      (sge.addr.toNat % mr.pageSize.toNat)).take sge.length.toNat := by
  have hrange := hin.2
  have hcov := h.covers
  have hle : mr.iova.toNat / mr.pageSize.toNat ≤ sge.addr.toNat / mr.pageSize.toNat :=
    Nat.div_le_div_right hin.1
  exact (pages_piece h.pages (h.size_pos hin hpos) hle (by omega)).symm

/-- Where the iovecs of a range are copied from. -/
theorem mrIovCopy_eq {mr : RoceMr} {sge : RoceSge} (hin : InRange sge mr) (hpos : 0 < sge.length.toNat)
    (hsize : 0 < mr.pageSize.toNat) :
    mrIovCopy mr sge =
      if sge.addr.toNat / mr.pageSize.toNat - mr.iova.toNat / mr.pageSize.toNat > mr.iovs.length then
        .error (.undefined .mrIovs)
      else roceIovCopy (mr.iovs.drop
        (sge.addr.toNat / mr.pageSize.toNat - mr.iova.toNat / mr.pageSize.toNat))
        (sge.addr.toNat % mr.pageSize.toNat) sge.length.toNat := by
  have hlt := mr.pageSize.toNat_lt
  have hbytes : (sge.addr % mr.pageSize.toUInt64).toUInt32.toNat = sge.addr.toNat % mr.pageSize.toNat := by
    have hmod := Nat.mod_lt sge.addr.toNat hsize
    rw [UInt64.toNat_toUInt32, UInt64.toNat_mod, UInt32.toNat_toUInt64, Nat.mod_eq_of_lt (by omega)]
  have hzero : sge.length ≠ 0 := by
    intro h0
    rw [h0] at hpos
    exact absurd hpos (by decide)
  unfold mrIovCopy
  simp only
  rw [mrIovCopy_offPages hin hpos hsize, hbytes, if_neg hzero]

/-- Where the iovecs of an SGE are copied from, unless it has no byte. -/
theorem RoceMr.Paged.mrIovCopy_cases {mr : RoceMr} (h : mr.Paged) {sge : RoceSge} (hin : InRange sge mr)
    {iovs : List (Option Iovec)} (hc : mrIovCopy mr sge = .ok iovs) :
    sge.length.toNat = 0 ∧ iovs = [] ∨ 0 < sge.length.toNat ∧
      roceIovCopy (mr.iovs.drop
        (sge.addr.toNat / mr.pageSize.toNat - mr.iova.toNat / mr.pageSize.toNat))
        (sge.addr.toNat % mr.pageSize.toNat) sge.length.toNat = .ok iovs := by
  by_cases hzero : sge.length.toNat = 0
  · exact Or.inl ⟨hzero, mrIovCopy_zero hzero hc⟩
  · have hpos : 0 < sge.length.toNat := by omega
    rw [mrIovCopy_eq hin hpos (h.size_pos hin hpos)] at hc
    split at hc
    · cases hc
    · exact Or.inr ⟨hpos, hc⟩

/-- The iovecs copied for an SGE are its addresses. -/
theorem RoceMr.Paged.mrIovCopy {mr : RoceMr} (h : mr.Paged) {sge : RoceSge} (hin : InRange sge mr)
    {ds : List Iovec} (hc : mrIovCopy mr sge = .ok (ds.map some)) : iovAddrs ds = mr.hosts sge := by
  rcases h.mrIovCopy_cases hin hc with ⟨hzero, hnil⟩ | ⟨hpos, hcopy⟩
  · obtain rfl := List.map_eq_nil_iff.mp hnil
    unfold RoceMr.hosts
    rw [hzero, List.range_zero, List.map_nil]
    rfl
  · rw [roceIovCopy_addrs hcopy, h.hosts_eq hin hpos]

/-- Pages that cover a range leave no iovec unwritten. -/
theorem RoceMr.Paged.mrIovCopy_some {mr : RoceMr} (h : mr.Paged) {sge : RoceSge} (hin : InRange sge mr)
    {iovs : List (Option Iovec)} (hc : Libroce.mrIovCopy mr sge = .ok iovs) :
    ∃ ds : List Iovec, iovs = ds.map some := by
  rcases h.mrIovCopy_cases hin hc with ⟨-, rfl⟩ | ⟨hpos, hcopy⟩
  · exact ⟨[], rfl⟩
  · unfold roceIovCopy at hcopy
    rw [if_neg (by omega : sge.length.toNat ≠ 0)] at hcopy
    split at hcopy
    · cases hcopy
    · obtain rfl := Except.ok.inj hcopy
      apply iovCopyFrom_some
      -- the piece is as long as the SGE, so the pages are long enough
      have hlen := congrArg List.length (h.hosts_eq hin hpos)
      rw [mr.length_hosts, List.length_take, List.length_drop] at hlen
      omega

/-- Iovecs that share no byte. -/
def Apart (iovs : List Iovec) : Prop :=
  iovs.Pairwise fun a b => a.base + a.len ≤ b.base ∨ b.base + b.len ≤ a.base

theorem Apart.nodup {iovs : List Iovec} (h : Apart iovs) : (iovAddrs iovs).Nodup := by
  unfold iovAddrs
  rw [List.nodup_flatMap]
  refine ⟨fun iov _ => List.nodup_range', ?_⟩
  apply List.Pairwise.imp ?_ h
  intro a b hab x hx hy
  have ha := List.mem_range'_1.mp hx
  have hb := List.mem_range'_1.mp hy
  omega

/-- No byte of an SGE is in two places of pages that are apart. -/
theorem RoceMr.Paged.hosts_nodup {mr : RoceMr} (h : mr.Paged) (hapart : Apart mr.iovs) {sge : RoceSge}
    (hin : InRange sge mr) : (mr.hosts sge).Nodup := by
  by_cases hzero : sge.length.toNat = 0
  · unfold RoceMr.hosts
    rw [hzero]
    exact List.nodup_nil
  · rw [h.hosts_eq hin (by omega)]
    have hdrop : Apart (mr.iovs.drop
        (sge.addr.toNat / mr.pageSize.toNat - mr.iova.toNat / mr.pageSize.toNat)) :=
      List.Pairwise.sublist (List.drop_sublist _ _) hapart
    exact hdrop.nodup.sublist ((List.take_sublist _ _).trans (List.drop_sublist _ _))

/-! ## Mapped SGEs -/

/-- The host addresses of the bytes of an SGE, through the MR of its key. -/
def sgeHost (ctx : RoceCtx) (sge : RoceSge) : List Nat :=
  (roceGetMrNoref ctx (roceKeyToIndex sge.lkey)).elim [] (·.hosts sge)

/-- The SGE lies in an MR of pages. -/
def InPages (ctx : RoceCtx) (sge : RoceSge) : Prop :=
  ∃ mr, roceGetMrNoref ctx (roceKeyToIndex sge.lkey) = some mr ∧ mr.Paged ∧ InRange sge mr

theorem InPages.length_sgeHost {ctx : RoceCtx} {sge : RoceSge} (h : InPages ctx sge) :
    (sgeHost ctx sge).length = sge.length.toNat := by
  obtain ⟨mr, hmr, -, -⟩ := h
  unfold sgeHost
  rw [hmr]
  exact mr.length_hosts sge

/-- The addresses depend on the MRs only. -/
theorem sgeHost_congr {ctx ctx' : RoceCtx} (h : ctx'.mrs = ctx.mrs) : sgeHost ctx' = sgeHost ctx := by
  funext sge
  unfold sgeHost roceGetMrNoref
  rw [h]

theorem InPages.congr {ctx ctx' : RoceCtx} (h : ctx'.mrs = ctx.mrs) {sge : RoceSge} (hin : InPages ctx sge) :
    InPages ctx' sge := by
  unfold InPages roceGetMrNoref
  rw [h]
  exact hin

theorem length_sgesHost {ctx : RoceCtx} {sges : List RoceSge} (h : ∀ sge ∈ sges, InPages ctx sge) :
    (sges.flatMap (sgeHost ctx)).length = sgeTotal sges := by
  induction sges with
  | nil => rfl
  | cons sge sges ih =>
    rw [List.flatMap_cons, List.length_append, (h sge List.mem_cons_self).length_sgeHost,
      ih fun s hs => h s (List.mem_cons_of_mem _ hs), sgeTotal_cons]

theorem mrMapLoop_host {ctx : RoceCtx} {qp : RoceQp} {isLocal : Bool} {access : UInt32}
    {sges : List RoceSge} {mrType : Option MrType} {dmamap : Bool} {r : MapRes} {ds : List Iovec}
    (h : mrMapLoop ctx qp isLocal access sges mrType dmamap = .ok r) (hr : r.refused = false)
    (hds : r.iovs = ds.map some) (hin : ∀ sge ∈ sges, InPages ctx sge) :
    iovAddrs ds = sges.flatMap (sgeHost ctx) := by
  induction sges generalizing mrType dmamap r ds with
  | nil =>
    obtain rfl := Except.ok.inj h
    obtain rfl := List.map_eq_nil_iff.mp hds.symm
    rfl
  | cons sge sges ih =>
    obtain ⟨type, iovs, r', hone, hloop, hr', rfl⟩ := mrMapLoop_cons_ok h hr
    obtain ⟨ds1, ds2, rfl, hds1, hds2⟩ := List.map_eq_append_iff.mp hds.symm
    obtain ⟨mr, hlive, hpaged, hrange⟩ := hin sge List.mem_cons_self
    obtain ⟨mr', hg, rfl, -, hcase⟩ := mrMapOne_ok hone
    obtain rfl := Option.some.inj (hlive.symm.trans hg.live)
    have hfirst : iovAddrs ds1 = sgeHost ctx sge := by
      unfold sgeHost
      rw [hlive]
      rcases hcase with ⟨hdma, -⟩ | ⟨-, -, hcopy⟩
      · rw [hpaged.type] at hdma
        cases hdma
      · exact hpaged.mrIovCopy hrange (by rw [hds1]; exact hcopy)
    have hrest := ih hloop hr' hds2.symm fun s hs => hin s (List.mem_cons_of_mem _ hs)
    rw [iovAddrs_append, hfirst, hrest, List.flatMap_cons]

/-- **A mapping denotes the bytes of its SGEs.** -/
theorem Places.host {ctx : RoceCtx} {qp : RoceQp} {sges : List RoceSge} {isLocal : Bool}
    {access : UInt32} {dsts : List Iovec} {dmamap : Bool}
    (h : Places ctx qp sges isLocal access dsts dmamap) (hin : ∀ sge ∈ sges, InPages ctx sge) :
    iovAddrs dsts = sges.flatMap (sgeHost ctx) := mrMapLoop_host h.map rfl rfl hin

/-! ### Pieces of SGEs -/

/-- `len` bytes of an SGE from `off` on. -/
def RoceSge.piece (sge : RoceSge) (off len : Nat) : RoceSge :=
  ⟨sge.addr + UInt64.ofNat off, UInt32.ofNat len, sge.lkey⟩

/-- A piece whose address did not wrap below its MR. -/
theorem RoceMr.hosts_piece {mr : RoceMr} {sge : RoceSge} {off len : Nat} (hin : InRange sge mr)
    (hle : off + len ≤ sge.length.toNat) (hlo : mr.iova ≤ (sge.piece off len).addr) :
    InRange (sge.piece off len) mr ∧ mr.hosts (sge.piece off len) = ((mr.hosts sge).drop off).take len := by
  obtain ⟨hge, hend⟩ := hin
  have hlen := sge.length.toNat_lt
  have hmlen := mr.length.toNat_lt
  have haddr := sge.addr.toNat_lt
  have hto : (sge.piece off len).addr.toNat = sge.addr.toNat + off := by
    have hlo' := UInt64.le_iff_toNat_le.mp hlo
    have hmod : (sge.piece off len).addr.toNat = (sge.addr.toNat + off) % 2 ^ 64 := by
      show (sge.addr + UInt64.ofNat off).toNat = _
      rw [UInt64.toNat_add, UInt64.toNat_ofNat', Nat.add_mod_mod]
    omega
  have hpiece : (sge.piece off len).length.toNat = len := by
    show (UInt32.ofNat len).toNat = len
    rw [UInt32.toNat_ofNat', Nat.mod_eq_of_lt (by omega)]
  refine ⟨⟨by omega, by omega⟩, ?_⟩
  unfold RoceMr.hosts
  rw [hto, hpiece]
  apply List.ext_getElem?
  intro i
  by_cases hi : i < len
  · rw [List.getElem?_take_of_lt hi, List.getElem?_drop, List.getElem?_map, List.getElem?_map,
      List.getElem?_range hi, List.getElem?_range (by omega)]
    show some (mr.host (sge.addr.toNat + off + i)) = some (mr.host (sge.addr.toNat + (off + i)))
    rw [Nat.add_assoc]
  · rw [List.getElem?_eq_none (by simp; omega), List.getElem?_take_eq_none (by omega)]

/-- The host addresses behind a cursor. -/
def cursorHost (ctx : RoceCtx) (sges : List RoceSge) (sgeIdx sgeOff : Nat) : List Nat :=
  ((sges.drop sgeIdx).flatMap (sgeHost ctx)).drop sgeOff

/-- Every entry of `dst` that is a piece of one of the SGEs has the addresses of
that piece. -/
def PiecesOf (ctx : RoceCtx) (sges dst : List RoceSge) : Prop :=
  ∀ sge ∈ sges, ∀ off len, off + len ≤ sge.length.toNat → sge.piece off len ∈ dst →
    sgeHost ctx (sge.piece off len) = ((sgeHost ctx sge).drop off).take len

/-- An advance cuts what any reading of the SGEs gives for the bytes behind the
cursor, when a piece of an SGE reads as that piece of it. -/
theorem sgeAdvanceLoop_cut {α : Type} {read : RoceSge → List α} {src sges dst : List RoceSge}
    {bytes idx off idx' off' : Nat} (hsrc : src.drop idx = sges)
    (hlen : ∀ sge ∈ sges, (read sge).length = sge.length.toNat)
    (hoff : ∀ sge rest, sges = sge :: rest → off ≤ sge.length.toNat)
    (hp : ∀ sge ∈ sges, ∀ o n, o + n ≤ sge.length.toNat → sge.piece o n ∈ dst →
      read (sge.piece o n) = ((read sge).drop o).take n)
    (h : sgeAdvanceLoop sges bytes idx off = some (dst, idx', off')) :
    dst.flatMap read = ((sges.flatMap read).drop off).take bytes ∧
      ((src.drop idx').flatMap read).drop off' = ((sges.flatMap read).drop off).drop bytes := by
  induction sges generalizing bytes idx off dst with
  | nil => cases h
  | cons sge rest ih =>
    have ho := hoff sge rest rfl
    have hsge := hlen sge List.mem_cons_self
    have hcut := hp sge List.mem_cons_self
    have hnext : src.drop (idx + 1) = rest := by
      rw [← List.drop_drop, hsrc, List.drop_one, List.tail_cons]
    have hleft : ((read sge).drop off).length = sge.length.toNat - off := by
      rw [List.length_drop, hsge]
    rw [List.flatMap_cons, List.drop_append_of_le_length (by omega)]
    rw [sgeAdvanceLoop] at h
    split at h
    · next hinside =>
      obtain ⟨rfl, hcursor⟩ := Prod.mk.inj (Option.some.inj h)
      obtain ⟨rfl, rfl⟩ := Prod.mk.inj hcursor
      have hpiece := hcut off bytes (by omega) List.mem_cons_self
      constructor
      · rw [List.take_append_of_le_length (by omega), List.flatMap_singleton]
        exact hpiece
      · rw [hsrc, List.flatMap_cons, List.drop_append_of_le_length (by omega),
          List.drop_append_of_le_length (by omega), List.drop_drop]
    · split at h
      · next hend =>
        obtain ⟨rfl, hcursor⟩ := Prod.mk.inj (Option.some.inj h)
        obtain ⟨rfl, rfl⟩ := Prod.mk.inj hcursor
        have hpiece := hcut off bytes (by omega) List.mem_cons_self
        constructor
        · rw [List.take_append_of_le_length (by omega), List.flatMap_singleton]
          exact hpiece
        · rw [hnext, List.drop_zero, List.drop_left' (by omega)]
      · next hmore =>
        split at h
        · cases h
        · next dst' cursor hrest =>
          obtain ⟨rfl, rfl⟩ := Prod.mk.inj (Option.some.inj h)
          have hpiece := hcut off (sge.length.toNat - off) (by omega) List.mem_cons_self
          rw [List.take_of_length_le (by omega)] at hpiece
          obtain ⟨hpicked, hcursor⟩ := ih hnext (fun s hs => hlen s (List.mem_cons_of_mem _ hs))
            (fun _ _ _ => Nat.zero_le _)
            (fun s hs o n hle hmem => hp s (List.mem_cons_of_mem _ hs) o n hle (List.mem_cons_of_mem _ hmem))
            hrest
          rw [List.drop_zero] at hpicked hcursor
          constructor
          · rw [List.take_append, List.take_of_length_le (by omega), hleft, List.flatMap_cons, hpicked]
            exact congrArg (· ++ _) hpiece
          · have hnone : ((read sge).drop off).drop bytes = [] := List.drop_of_length_le (by omega)
            rw [hcursor, List.drop_append, hnone, hleft, List.nil_append]

theorem roceSgeAdvance_cut {α : Type} {read : RoceSge → List α} {sges dst : List RoceSge}
    {bytes idx off idx' off' : Nat} (hlen : ∀ sge ∈ sges, (read sge).length = sge.length.toNat)
    (hp : ∀ sge ∈ sges, ∀ o n, o + n ≤ sge.length.toNat → sge.piece o n ∈ dst →
      read (sge.piece o n) = ((read sge).drop o).take n)
    (h : roceSgeAdvance sges bytes idx off = .ok (dst, idx', off')) :
    dst.flatMap read = (((sges.drop idx).flatMap read).drop off).take bytes ∧
      ((sges.drop idx').flatMap read).drop off' = (((sges.drop idx).flatMap read).drop off).drop bytes := by
  unfold roceSgeAdvance at h
  split at h
  · cases h
  · next sge rest hdrop =>
    split at h
    · next hoff =>
      split at h
      · next hzero =>
        obtain ⟨rfl, hcursor⟩ := Prod.mk.inj (Except.ok.inj h)
        obtain ⟨rfl, rfl⟩ := Prod.mk.inj hcursor
        rw [hzero]
        exact ⟨rfl, rfl⟩
      · split at h
        · cases h
        · next r hloop =>
          obtain rfl := Except.ok.inj h
          have hmem : ∀ s ∈ sge :: rest, s ∈ sges := by
            intro s hs
            rw [← hdrop] at hs
            exact List.mem_of_mem_drop hs
          rw [hdrop]
          exact sgeAdvanceLoop_cut hdrop (fun s hs => hlen s (hmem s hs)) (by rintro _ _ ⟨⟩; exact hoff)
            (fun s hs => hp s (hmem s hs)) hloop
    · cases h

/-- **An advance cuts the addresses behind the cursor.** -/
theorem roceSgeAdvance_host {ctx : RoceCtx} {sges dst : List RoceSge} {bytes idx off idx' off' : Nat}
    (hlen : ∀ sge ∈ sges, (sgeHost ctx sge).length = sge.length.toNat) (hp : PiecesOf ctx sges dst)
    (h : roceSgeAdvance sges bytes idx off = .ok (dst, idx', off')) :
    dst.flatMap (sgeHost ctx) = (cursorHost ctx sges idx off).take bytes ∧
      cursorHost ctx sges idx' off' = (cursorHost ctx sges idx off).drop bytes :=
  roceSgeAdvance_cut hlen hp h

/-- Every picked SGE is a piece of one it was picked from. -/
theorem sgeAdvanceLoop_pieces {sges dst : List RoceSge} {bytes idx off idx' off' : Nat}
    (hoff : ∀ sge rest, sges = sge :: rest → off ≤ sge.length.toNat)
    (h : sgeAdvanceLoop sges bytes idx off = some (dst, idx', off')) :
    ∀ d ∈ dst, ∃ sge ∈ sges, ∃ o n, o + n ≤ sge.length.toNat ∧ d = sge.piece o n := by
  induction sges generalizing bytes idx off dst with
  | nil => cases h
  | cons sge rest ih =>
    have ho := hoff sge rest rfl
    rw [sgeAdvanceLoop] at h
    split at h
    · next hinside =>
      obtain ⟨rfl, -⟩ := Prod.mk.inj (Option.some.inj h)
      intro d hd
      exact ⟨sge, List.mem_cons_self, off, bytes, by omega, List.mem_singleton.mp hd⟩
    · split at h
      · next hend =>
        obtain ⟨rfl, -⟩ := Prod.mk.inj (Option.some.inj h)
        intro d hd
        exact ⟨sge, List.mem_cons_self, off, bytes, by omega, List.mem_singleton.mp hd⟩
      · split at h
        · cases h
        · next dst' cursor hrest =>
          obtain ⟨rfl, rfl⟩ := Prod.mk.inj (Option.some.inj h)
          intro d hd
          rcases List.mem_cons.mp hd with rfl | hd
          · exact ⟨sge, List.mem_cons_self, off, _, Nat.le_of_eq (Nat.add_sub_cancel' ho), rfl⟩
          · obtain ⟨s, hs, o, n, hle, hpiece⟩ := ih (fun _ _ _ => Nat.zero_le _) hrest d hd
            exact ⟨s, List.mem_cons_of_mem _ hs, o, n, hle, hpiece⟩

theorem roceSgeAdvance_pieces {sges dst : List RoceSge} {bytes idx off idx' off' : Nat}
    (h : roceSgeAdvance sges bytes idx off = .ok (dst, idx', off')) :
    ∀ d ∈ dst, ∃ sge ∈ sges, ∃ o n, o + n ≤ sge.length.toNat ∧ d = sge.piece o n := by
  unfold roceSgeAdvance at h
  split at h
  · cases h
  · next sge rest hdrop =>
    split at h
    · next hoff =>
      split at h
      · obtain ⟨rfl, -⟩ := Prod.mk.inj (Except.ok.inj h)
        intro d hd
        cases hd
      · split at h
        · cases h
        · next r hloop =>
          obtain rfl := Except.ok.inj h
          intro d hd
          obtain ⟨s, hs, hpiece⟩ := sgeAdvanceLoop_pieces (by rintro _ _ ⟨⟩; exact hoff) hloop d hd
          rw [← hdrop] at hs
          exact ⟨s, List.mem_of_mem_drop hs, hpiece⟩
    · cases h

/-- A mapping was granted for a list of pieces: their addresses are pieces as well. -/
theorem Places.pieces {ctx : RoceCtx} {qp : RoceQp} {sges dst : List RoceSge} {isLocal : Bool}
    {access : UInt32} {dsts : List Iovec} {dmamap : Bool}
    (h : Places ctx qp dst isLocal access dsts dmamap) (hin : ∀ sge ∈ sges, InPages ctx sge)
    (hpieces : ∀ d ∈ dst, ∃ sge ∈ sges, ∃ o n, o + n ≤ sge.length.toNat ∧ d = sge.piece o n) :
    PiecesOf ctx sges dst ∧ iovAddrs dsts = dst.flatMap (sgeHost ctx) := by
  have hpiece : ∀ sge ∈ sges, ∀ o n, o + n ≤ sge.length.toNat → sge.piece o n ∈ dst →
      InPages ctx (sge.piece o n) ∧
        sgeHost ctx (sge.piece o n) = ((sgeHost ctx sge).drop o).take n := by
    intro sge hsge o n hle hmem
    obtain ⟨mr, hlive, hpaged, hrange⟩ := hin sge hsge
    obtain ⟨mr', hg, hchecked⟩ := mrMapLoop_mem h.map rfl _ hmem
    obtain rfl := Option.some.inj (hlive.symm.trans hg.live)
    have hlo := (hchecked (by rw [hpaged.type]; decide)).1
    obtain ⟨hrange', hhosts⟩ := RoceMr.hosts_piece hrange hle hlo
    refine ⟨⟨mr, hlive, hpaged, hrange'⟩, ?_⟩
    have hkey : (sge.piece o n).lkey = sge.lkey := rfl
    unfold sgeHost
    rw [hkey, hlive]
    exact hhosts
  refine ⟨fun sge hsge o n hle hmem => (hpiece sge hsge o n hle hmem).2, h.host fun d hd => ?_⟩
  obtain ⟨sge, hsge, o, n, hle, rfl⟩ := hpieces d hd
  exact (hpiece sge hsge o n hle hd).1

end Libroce
