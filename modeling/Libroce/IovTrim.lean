import Libroce.Responder
import Mathlib.Data.List.GetD

/-!
# Trimming iovecs

`roce_iov_advance` takes bytes off the front of a list of iovecs and
`roce_iov_reverse` off its end, in place.  Here are both loops with the addresses
of the entries, the count they keep and the buffer they fill.

    iovViews            the bytes of each entry
    iovString           all of them, one entry after the other
    iovAdvanceLoopTo_eq the loop does what `roceIovAdvance` does to the views
    iovReverseLoopTo_eq the same for `roceIovReverse`

Main statement: `roceIov_trims`.
-/

namespace Libroce

/-! ## The calls -/

/-- What a call leaves: the count it returns, the iovecs and the buffer. -/
structure IovCall where
  copied : UInt32
  iovs : List Iovec
  buf : Option (Nat → UInt8)

/-- An entry that the loop has passed, and what it does to the others. -/
def IovCall.behind (iov : Iovec) (r : IovCall) : IovCall := { r with iovs := iov :: r.iovs }

/-- `if (buf) memcpy(buf + off, ...)`.  The buffer is an object of its own, given
by its offsets. -/
def copyTo (buf : Option (Nat → UInt8)) (off : Nat) (bytes : List UInt8) : Option (Nat → UInt8) :=
  buf.map fun b => writeMem b off bytes

/-- The loop of `roce_iov_advance`. -/
def iovAdvanceLoopTo (mem : Nat → UInt8) (bytes : UInt32) :
    List Iovec → UInt32 → Option (Nat → UInt8) → IovCall
  | [], copied, buf => ⟨copied, [], buf⟩
  | iov :: rest, copied, buf =>
    if iov.len = 0 then (iovAdvanceLoopTo mem bytes rest copied buf).behind iov
    else
      let tocopy := bytes - copied
      if iov.len > tocopy.toNat then
        ⟨copied + tocopy, ⟨iov.base + tocopy.toNat, iov.len - tocopy.toNat⟩ :: rest,
          copyTo buf copied.toNat (iovBytes mem (some ⟨iov.base, tocopy.toNat⟩))⟩
      else if iov.len = tocopy.toNat then
        ⟨copied + tocopy, ⟨0, 0⟩ :: rest,
          copyTo buf copied.toNat (iovBytes mem (some ⟨iov.base, tocopy.toNat⟩))⟩
      else
        (iovAdvanceLoopTo mem bytes rest (copied + UInt32.ofNat iov.len)
          (copyTo buf copied.toNat (iovBytes mem (some iov)))).behind ⟨0, 0⟩

/-- `roce_iov_advance` with its buffer; `none` is a NULL one. -/
def roceIovAdvanceTo (mem : Nat → UInt8) (iovs : List Iovec) (bytes : UInt32)
    (buf : Option (Nat → UInt8)) : Except Fault IovCall :=
  if iovs = [] then .error (.abort .iovEmpty)
  else if bytes = 0 then .ok ⟨0, iovs, buf⟩
  else .ok (iovAdvanceLoopTo mem bytes iovs 0 buf)

/-- The loop of `roce_iov_reverse`, over the iovecs from the last to the first. -/
def iovReverseLoopTo (mem : Nat → UInt8) (bytes : UInt32) :
    List Iovec → UInt32 → Option (Nat → UInt8) → IovCall
  | [], copied, buf => ⟨copied, [], buf⟩
  | iov :: rest, copied, buf =>
    if iov.len = 0 then (iovReverseLoopTo mem bytes rest copied buf).behind iov
    else
      let tocopy := bytes - copied
      if iov.len > tocopy.toNat then
        ⟨copied + tocopy, ⟨iov.base, iov.len - tocopy.toNat⟩ :: rest,
          copyTo buf (bytes.toNat - copied.toNat - tocopy.toNat)
            (iovBytes mem (some ⟨iov.base + iov.len - tocopy.toNat, tocopy.toNat⟩))⟩
      else if iov.len = tocopy.toNat then
        ⟨copied + tocopy, ⟨0, 0⟩ :: rest,
          copyTo buf (bytes.toNat - copied.toNat - tocopy.toNat)
            (iovBytes mem (some ⟨iov.base + iov.len - tocopy.toNat, tocopy.toNat⟩))⟩
      else
        (iovReverseLoopTo mem bytes rest (copied + UInt32.ofNat iov.len)
          (copyTo buf (bytes.toNat - copied.toNat - iov.len) (iovBytes mem (some iov)))).behind ⟨0, 0⟩

/-- `roce_iov_reverse` with its buffer.  Its index is an `int32_t`: more entries
than that counts are no entries. -/
def roceIovReverseTo (mem : Nat → UInt8) (iovs : List Iovec) (bytes : UInt32)
    (buf : Option (Nat → UInt8)) : Except Fault IovCall :=
  if iovs = [] then .error (.abort .iovEmpty)
  else if (UInt32.ofNat iovs.length - 1).toInt32 < 0 then .ok ⟨0, iovs, buf⟩
  else
    .ok { iovReverseLoopTo mem bytes iovs.reverse 0 buf with
      iovs := (iovReverseLoopTo mem bytes iovs.reverse 0 buf).iovs.reverse }

/-! ## The bytes of the entries -/

/-- The bytes each entry denotes. -/
def iovViews (mem : Nat → UInt8) (iovs : List Iovec) : List (List UInt8) :=
  iovs.map fun iov => iovBytes mem (some iov)

/-- The byte string the list denotes. -/
def iovString (mem : Nat → UInt8) (iovs : List Iovec) : List UInt8 := (iovViews mem iovs).flatten

section bytes

variable {mem : Nat → UInt8}

@[simp] theorem length_iovBytes_some (iov : Iovec) : (iovBytes mem (some iov)).length = iov.len := by
  simp [iovBytes]

theorem iovBytes_eq_nil {iov : Iovec} : iovBytes mem (some iov) = [] ↔ iov.len = 0 := by
  rw [← List.length_eq_zero_iff, length_iovBytes_some]

theorem iovBytes_take {iov : Iovec} {n : Nat} (h : n ≤ iov.len) :
    (iovBytes mem (some iov)).take n = iovBytes mem (some ⟨iov.base, n⟩) := by
  unfold iovBytes
  rw [← List.map_take, List.take_range, Nat.min_eq_left h]

theorem iovBytes_drop (iov : Iovec) (n : Nat) :
    (iovBytes mem (some iov)).drop n = iovBytes mem (some ⟨iov.base + n, iov.len - n⟩) := by
  apply List.ext_getElem
  · simp
  · intro i hi hj
    simp [iovBytes, Nat.add_assoc]

@[simp] theorem iovViews_cons (iov : Iovec) (iovs : List Iovec) :
    iovViews mem (iov :: iovs) = iovBytes mem (some iov) :: iovViews mem iovs := rfl

@[simp] theorem iovViews_reverse (iovs : List Iovec) :
    iovViews mem iovs.reverse = (iovViews mem iovs).reverse := List.map_reverse

end bytes

/-! ## The buffer -/

theorem writeMem_get (mem : Nat → UInt8) (dst : Nat) (bytes : List UInt8) (a : Nat) :
    writeMem mem dst bytes a = if dst ≤ a then bytes.getD (a - dst) (mem a) else mem a := rfl

theorem writeMem_nil (mem : Nat → UInt8) (dst : Nat) : writeMem mem dst [] = mem := by
  funext a
  simp [writeMem_get]

/-- Two copies, the second one behind the first. -/
theorem writeMem_append (mem : Nat → UInt8) (dst : Nat) (xs ys : List UInt8) :
    writeMem (writeMem mem dst xs) (dst + xs.length) ys = writeMem mem dst (xs ++ ys) := by
  funext a
  rw [writeMem_get, writeMem_get, writeMem_get]
  by_cases hxs : dst + xs.length ≤ a
  · have hsub : a - dst - xs.length = a - (dst + xs.length) := by omega
    rw [if_pos hxs, if_pos (by omega), if_pos (by omega), List.getD_append_right _ _ _ _ (by omega), hsub,
      List.getD_eq_default xs _ (by omega)]
  · rw [if_neg hxs]
    by_cases hdst : dst ≤ a
    · rw [if_pos hdst, if_pos hdst, List.getD_append _ _ _ _ (by omega)]
    · rw [if_neg hdst, if_neg hdst]

/-- Two copies, the second one in front of the first. -/
theorem writeMem_prepend (mem : Nat → UInt8) (dst : Nat) (xs ys : List UInt8) :
    writeMem (writeMem mem (dst + xs.length) ys) dst xs = writeMem mem dst (xs ++ ys) := by
  rw [← writeMem_append]
  funext a
  rw [writeMem_get, writeMem_get, writeMem_get, writeMem_get]
  by_cases hxs : dst + xs.length ≤ a
  · rw [if_pos (by omega), if_pos hxs, if_pos hxs, if_pos (by omega), List.getD_eq_default xs _ (by omega),
      List.getD_eq_default xs _ (by omega)]
  · rw [if_neg hxs, if_neg hxs]

variable (buf : Option (Nat → UInt8)) (off : Nat)

@[simp] theorem copyTo_nil : copyTo buf off [] = buf := by
  cases buf with
  | none => rfl
  | some b => exact congrArg some (writeMem_nil b off)

theorem copyTo_append (xs ys : List UInt8) :
    copyTo (copyTo buf off xs) (off + xs.length) ys = copyTo buf off (xs ++ ys) := by
  cases buf with
  | none => rfl
  | some b => exact congrArg some (writeMem_append b off xs ys)

theorem copyTo_prepend (xs ys : List UInt8) :
    copyTo (copyTo buf (off + xs.length) ys) off xs = copyTo buf off (xs ++ ys) := by
  cases buf with
  | none => rfl
  | some b => exact congrArg some (writeMem_prepend b off xs ys)

/-! ## The loops on the views -/

/-- The call took `bytes` off the views, left `views` and put the bytes to `off`
of the buffer. -/
structure CopiesOut (mem : Nat → UInt8) (copied : UInt32) (buf : Option (Nat → UInt8)) (off : Nat)
    (bytes : List UInt8) (views : List (List UInt8)) (r : IovCall) : Prop where
  copied : r.copied.toNat = copied.toNat + bytes.length
  views : iovViews mem r.iovs = views
  buf : r.buf = copyTo buf off bytes

/-- What is left to copy. -/
theorem tocopy_toNat {bytes copied : UInt32} (h : copied.toNat ≤ bytes.toNat) :
    (bytes - copied).toNat = bytes.toNat - copied.toNat :=
  UInt32.toNat_sub_of_le _ _ (UInt32.le_iff_toNat_le.mpr h)

/-- The count does not wrap before the last byte is copied. -/
theorem copied_toNat {bytes copied : UInt32} {n : Nat} (h : copied.toNat + n ≤ bytes.toNat) :
    (copied + UInt32.ofNat n).toNat = copied.toNat + n := by
  have hlt := bytes.toNat_lt
  rw [UInt32.toNat_add, UInt32.toNat_ofNat', Nat.mod_eq_of_lt (show n < 2 ^ 32 by omega),
    Nat.mod_eq_of_lt (by omega)]

/-- The last entry brings it to the end. -/
theorem copied_all {bytes copied : UInt32} (h : copied.toNat ≤ bytes.toNat) :
    (copied + (bytes - copied)).toNat = copied.toNat + (bytes.toNat - copied.toNat) := by
  have hlt := bytes.toNat_lt
  rw [UInt32.toNat_add, tocopy_toNat h, Nat.mod_eq_of_lt (by omega)]

/-- **The loop of `roce_iov_advance`.** -/
theorem iovAdvanceLoopTo_eq (mem : Nat → UInt8) {bytes : UInt32} (iovs : List Iovec) {copied : UInt32}
    (hmore : copied.toNat < bytes.toNat) (buf : Option (Nat → UInt8)) :
    CopiesOut mem copied buf copied.toNat
      (roceIovAdvance (bytes.toNat - copied.toNat) (iovViews mem iovs)).1
      (roceIovAdvance (bytes.toNat - copied.toNat) (iovViews mem iovs)).2
      (iovAdvanceLoopTo mem bytes iovs copied buf) := by
  induction iovs generalizing copied buf with
  | nil => exact ⟨rfl, rfl, (copyTo_nil _ _).symm⟩
  | cons iov rest ih =>
    have htocopy := tocopy_toNat (Nat.le_of_lt hmore)
    rw [iovAdvanceLoopTo, iovViews_cons, roceIovAdvance, if_neg (by omega)]
    simp only [iovBytes_eq_nil, length_iovBytes_some, htocopy]
    by_cases hzero : iov.len = 0
    · obtain ⟨hcopied, hviews, hbuf⟩ := ih hmore buf
      rw [if_pos hzero, if_pos hzero]
      exact ⟨hcopied, congrArg (iovBytes mem (some iov) :: ·) hviews, hbuf⟩
    · rw [if_neg hzero, if_neg hzero]
      by_cases hlong : iov.len > bytes.toNat - copied.toNat
      · rw [if_pos hlong, if_pos hlong, iovBytes_take (Nat.le_of_lt hlong), iovBytes_drop]
        exact ⟨by rw [copied_all (Nat.le_of_lt hmore), length_iovBytes_some], rfl, rfl⟩
      · rw [if_neg hlong, if_neg hlong]
        by_cases heq : iov.len = bytes.toNat - copied.toNat
        · rw [if_pos heq, if_pos heq, ← heq]
          refine ⟨?_, rfl, rfl⟩
          rw [copied_all (Nat.le_of_lt hmore), length_iovBytes_some, heq]
        · rw [if_neg heq, if_neg heq]
          have hnext : (copied + UInt32.ofNat iov.len).toNat = copied.toNat + iov.len :=
            copied_toNat (show copied.toNat + iov.len ≤ bytes.toNat by omega)
          have hstep : (copied + UInt32.ofNat iov.len).toNat < bytes.toNat := by omega
          obtain ⟨hcopied, hviews, hbuf⟩ := ih hstep
            (copyTo buf copied.toNat (iovBytes mem (some iov)))
          rw [hnext, Nat.sub_add_eq] at hcopied hviews hbuf
          refine ⟨?_, congrArg ([] :: ·) hviews, ?_⟩
          · rw [List.length_append, length_iovBytes_some, ← Nat.add_assoc]
            exact hcopied
          · rw [← copyTo_append, length_iovBytes_some]
            exact hbuf

theorem iovReverseLoop_length (bytes : Nat) (iovs : List (List UInt8)) :
    (iovReverseLoop bytes iovs).1.length ≤ bytes := by
  rw [iovReverseLoop_fst, List.length_drop]
  omega

/-- **The loop of `roce_iov_reverse`.** -/
theorem iovReverseLoopTo_eq (mem : Nat → UInt8) {bytes : UInt32} (iovs : List Iovec) {copied : UInt32}
    (hmore : copied.toNat ≤ bytes.toNat) (buf : Option (Nat → UInt8)) :
    CopiesOut mem copied buf
      (bytes.toNat - copied.toNat -
        (iovReverseLoop (bytes.toNat - copied.toNat) (iovViews mem iovs)).1.length)
      (iovReverseLoop (bytes.toNat - copied.toNat) (iovViews mem iovs)).1
      (iovReverseLoop (bytes.toNat - copied.toNat) (iovViews mem iovs)).2
      (iovReverseLoopTo mem bytes iovs copied buf) := by
  induction iovs generalizing copied buf with
  | nil => exact ⟨rfl, rfl, (copyTo_nil _ _).symm⟩
  | cons iov rest ih =>
    have htocopy := tocopy_toNat hmore
    rw [iovReverseLoopTo, iovViews_cons, iovReverseLoop]
    simp only [iovBytes_eq_nil, length_iovBytes_some, htocopy]
    by_cases hzero : iov.len = 0
    · obtain ⟨hcopied, hviews, hbuf⟩ := ih hmore buf
      rw [if_pos hzero, if_pos hzero]
      exact ⟨hcopied, congrArg (iovBytes mem (some iov) :: ·) hviews, hbuf⟩
    · rw [if_neg hzero, if_neg hzero]
      by_cases hlong : iov.len > bytes.toNat - copied.toNat
      · have hbase : iov.base + iov.len - (bytes.toNat - copied.toNat) =
            iov.base + (iov.len - (bytes.toNat - copied.toNat)) := by omega
        have hlen : iov.len - (iov.len - (bytes.toNat - copied.toNat)) = bytes.toNat - copied.toNat := by
          omega
        rw [if_pos hlong, if_pos hlong, iovBytes_take (Nat.sub_le _ _), iovBytes_drop, hbase, hlen]
        refine ⟨?_, rfl, ?_⟩
        · rw [copied_all hmore, length_iovBytes_some]
        · rw [length_iovBytes_some]
      · rw [if_neg hlong, if_neg hlong]
        by_cases heq : iov.len = bytes.toNat - copied.toNat
        · rw [if_pos heq, if_pos heq, ← heq, Nat.add_sub_cancel]
          refine ⟨?_, rfl, ?_⟩
          · rw [copied_all hmore, length_iovBytes_some, heq]
          · rw [length_iovBytes_some]
        · rw [if_neg heq, if_neg heq]
          have hnext : (copied + UInt32.ofNat iov.len).toNat = copied.toNat + iov.len :=
            copied_toNat (show copied.toNat + iov.len ≤ bytes.toNat by omega)
          have hstep : (copied + UInt32.ofNat iov.len).toNat ≤ bytes.toNat := by omega
          obtain ⟨hcopied, hviews, hbuf⟩ := ih hstep
            (copyTo buf (bytes.toNat - copied.toNat - iov.len) (iovBytes mem (some iov)))
          rw [hnext, Nat.sub_add_eq] at hcopied hviews hbuf
          -- the bytes in front of this entry go in front of its bytes
          have hfit := iovReverseLoop_length (bytes.toNat - copied.toNat - iov.len) (iovViews mem rest)
          have hoff : bytes.toNat - copied.toNat - iov.len =
              bytes.toNat - copied.toNat -
                ((iovReverseLoop (bytes.toNat - copied.toNat - iov.len) (iovViews mem rest)).1.length +
                  iov.len) +
              (iovReverseLoop (bytes.toNat - copied.toNat - iov.len) (iovViews mem rest)).1.length := by
            omega
          refine ⟨?_, congrArg ([] :: ·) hviews, ?_⟩
          · rw [List.length_append, length_iovBytes_some, Nat.add_comm _ iov.len, ← Nat.add_assoc]
            exact hcopied
          · rw [List.length_append, length_iovBytes_some, ← copyTo_prepend, ← hoff]
            have hsub : bytes.toNat - copied.toNat - iov.len -
                (iovReverseLoop (bytes.toNat - copied.toNat - iov.len) (iovViews mem rest)).1.length =
                bytes.toNat - copied.toNat -
                  ((iovReverseLoop (bytes.toNat - copied.toNat - iov.len) (iovViews mem rest)).1.length +
                    iov.len) := by omega
            rw [← hsub]
            exact hbuf

/-! ## What the calls do -/

theorem roceIovAdvance_entries (bytes : Nat) (iovs : List (List UInt8)) :
    (roceIovAdvance bytes iovs).2.length = iovs.length := by
  induction iovs generalizing bytes with
  | nil => simp [roceIovAdvance]
  | cons iov rest ih =>
    rw [roceIovAdvance]
    split
    · rfl
    · split
      · simp [ih]
      · split
        · rfl
        · split
          · rfl
          · simp [ih]

theorem iovReverseLoop_entries (bytes : Nat) (iovs : List (List UInt8)) :
    (iovReverseLoop bytes iovs).2.length = iovs.length := by
  induction iovs generalizing bytes with
  | nil => simp [iovReverseLoop]
  | cons iov rest ih =>
    rw [iovReverseLoop]
    split
    · simp [ih]
    · split
      · rfl
      · split
        · rfl
        · simp [ih]

/-- The index of the last of so many entries is not negative. -/
theorem lastIndex_nonneg {n : Nat} (hpos : 0 < n) (hlt : n < 2 ^ 31) :
    ¬(UInt32.ofNat n - 1).toInt32 < 0 := by
  have hone : (1 : UInt32) ≤ UInt32.ofNat n := by
    rw [UInt32.le_iff_toNat_le, UInt32.toNat_ofNat', Nat.mod_eq_of_lt (by omega)]
    exact hpos
  have hlast : (UInt32.ofNat n - 1).toBitVec.toNat = n - 1 := by
    show (UInt32.ofNat n - 1).toNat = n - 1
    rw [UInt32.toNat_sub_of_le _ _ hone, UInt32.toNat_ofNat', Nat.mod_eq_of_lt (by omega)]
    rfl
  rw [Int32.lt_iff_toInt_lt]
  show ¬(UInt32.ofNat n - 1).toBitVec.toInt < 0
  rw [BitVec.toInt_eq_toNat_cond, hlast, if_pos (by omega)]
  omega

/-- `bytes` bytes, or all there are, go from the front of the list to the start of
the buffer. -/
structure TakesFront (mem : Nat → UInt8) (iovs : List Iovec) (bytes : UInt32) (buf : Option (Nat → UInt8))
    (r : IovCall) : Prop where
  copied : r.copied.toNat = min bytes.toNat (iovString mem iovs).length
  filled : r.buf = copyTo buf 0 ((iovString mem iovs).take bytes.toNat)
  left : iovString mem r.iovs = (iovString mem iovs).drop bytes.toNat
  entries : r.iovs.length = iovs.length

/-- `bytes` bytes, or all there are, go from the end of the list to the end of a
buffer of that size. -/
structure TakesBack (mem : Nat → UInt8) (iovs : List Iovec) (bytes : UInt32) (buf : Option (Nat → UInt8))
    (r : IovCall) : Prop where
  copied : r.copied.toNat = min bytes.toNat (iovString mem iovs).length
  filled : r.buf = copyTo buf (bytes.toNat - min bytes.toNat (iovString mem iovs).length)
    ((iovString mem iovs).drop ((iovString mem iovs).length - bytes.toNat))
  left : iovString mem r.iovs = (iovString mem iovs).take ((iovString mem iovs).length - bytes.toNat)
  entries : r.iovs.length = iovs.length

theorem CopiesOut.entries {mem : Nat → UInt8} {copied : UInt32} {buf : Option (Nat → UInt8)} {off : Nat}
    {bytes : List UInt8} {views : List (List UInt8)} {r : IovCall}
    (h : CopiesOut mem copied buf off bytes views r) :
    r.iovs.length = views.length := by
  rw [← h.views]
  exact (List.length_map _).symm

section calls

variable (mem : Nat → UInt8) {iovs : List Iovec}

/-- **`roce_iov_advance`.** -/
theorem roceIovAdvanceTo_front (hne : iovs ≠ []) (bytes : UInt32) (buf : Option (Nat → UInt8)) :
    ∃ r, roceIovAdvanceTo mem iovs bytes buf = .ok r ∧ TakesFront mem iovs bytes buf r := by
  unfold roceIovAdvanceTo
  rw [if_neg hne]
  by_cases hzero : bytes = 0
  · rw [if_pos hzero, hzero]
    exact ⟨_, rfl, (Nat.zero_min _).symm, (copyTo_nil _ _).symm, rfl, rfl⟩
  · have hpos : (0 : UInt32).toNat < bytes.toNat :=
      Nat.pos_of_ne_zero fun h => hzero (UInt32.toNat_inj.mp h)
    have htook := iovAdvanceLoopTo_eq mem iovs hpos buf
    have hentries := htook.entries
    obtain ⟨hcopied, hviews, hbuf⟩ := htook
    have hsub : bytes.toNat - (0 : UInt32).toNat = bytes.toNat := rfl
    rw [hsub] at hcopied hviews hbuf hentries
    rw [if_neg hzero]
    refine ⟨_, rfl, ?_, ?_, ?_, ?_⟩
    · rw [hcopied, roceIovAdvance_fst, List.length_take]
      exact Nat.zero_add _
    · rw [hbuf, roceIovAdvance_fst]
      rfl
    · unfold iovString
      rw [hviews, roceIovAdvance_snd]
    · rw [hentries, roceIovAdvance_entries]
      exact List.length_map _

/-- Six of twelve bytes in two entries. -/
example : (roceIovAdvanceTo mem [⟨0x1000, 4⟩, ⟨0x2000, 8⟩] 6 none).map (fun r => (r.copied, r.iovs)) =
    .ok (6, [⟨0, 0⟩, ⟨0x2002, 6⟩]) := rfl

/-- **`roce_iov_reverse`.** -/
theorem roceIovReverseTo_back (hne : iovs ≠ []) (hnum : iovs.length < 2 ^ 31) (bytes : UInt32)
    (buf : Option (Nat → UInt8)) :
    ∃ r, roceIovReverseTo mem iovs bytes buf = .ok r ∧ TakesBack mem iovs bytes buf r := by
  have hzero : (0 : UInt32).toNat ≤ bytes.toNat := Nat.zero_le _
  have htook := iovReverseLoopTo_eq mem iovs.reverse hzero buf
  have hentries := htook.entries
  obtain ⟨hcopied, hviews, hbuf⟩ := htook
  have hsub : bytes.toNat - (0 : UInt32).toNat = bytes.toNat := rfl
  have hlen : (iovString mem iovs).length - ((iovString mem iovs).length - bytes.toNat) =
      min bytes.toNat (iovString mem iovs).length := by omega
  have hfst : (iovReverseLoop bytes.toNat (iovViews mem iovs.reverse)).1 =
      (iovString mem iovs).drop ((iovString mem iovs).length - bytes.toNat) := by
    rw [iovReverseLoop_fst, iovViews_reverse, List.reverse_reverse]
    rfl
  have hsnd : (iovReverseLoop bytes.toNat (iovViews mem iovs.reverse)).2.reverse.flatten =
      (iovString mem iovs).take ((iovString mem iovs).length - bytes.toNat) := by
    rw [iovReverseLoop_snd, iovViews_reverse, List.reverse_reverse]
    rfl
  rw [hsub] at hcopied hviews hbuf hentries
  unfold roceIovReverseTo
  rw [if_neg hne, if_neg (lastIndex_nonneg (List.length_pos_iff.mpr hne) hnum)]
  refine ⟨_, rfl, ?_, ?_, ?_, ?_⟩
  · rw [hcopied, hfst, List.length_drop, hlen]
    exact Nat.zero_add _
  · rw [hbuf, hfst, List.length_drop, hlen]
  · unfold iovString
    rw [iovViews_reverse, hviews]
    exact hsnd
  · rw [List.length_reverse, hentries, iovReverseLoop_entries, iovViews_reverse, List.length_reverse]
    exact List.length_map _

end calls

/-- **Trimming.**  Both take what they say, and neither cares whether the other
was called first. -/
theorem roceIov_trims (mem : Nat → UInt8) (iovs : List Iovec) (hne : iovs ≠ [])
    (hnum : iovs.length < 2 ^ 31) :
    (∀ bytes buf, ∃ r, roceIovAdvanceTo mem iovs bytes buf = .ok r ∧ TakesFront mem iovs bytes buf r) ∧
      (∀ bytes buf, ∃ r, roceIovReverseTo mem iovs bytes buf = .ok r ∧ TakesBack mem iovs bytes buf r) ∧
      ∀ a b bufA bufB, a.toNat + b.toNat ≤ (iovString mem iovs).length →
        ∃ front frontBack back backFront,
          roceIovAdvanceTo mem iovs a bufA = .ok front ∧
            roceIovReverseTo mem front.iovs b bufB = .ok frontBack ∧
            roceIovReverseTo mem iovs b bufB = .ok back ∧
            roceIovAdvanceTo mem back.iovs a bufA = .ok backFront ∧
            iovString mem frontBack.iovs = iovString mem backFront.iovs ∧
            front.buf = backFront.buf ∧ frontBack.buf = back.buf := by
  refine ⟨roceIovAdvanceTo_front mem hne, roceIovReverseTo_back mem hne hnum, ?_⟩
  intro a b bufA bufB hfit
  obtain ⟨front, hfront, hF⟩ := roceIovAdvanceTo_front mem hne a bufA
  obtain ⟨back, hback, hB⟩ := roceIovReverseTo_back mem hne hnum b bufB
  have hneF : front.iovs ≠ [] := List.ne_nil_of_length_pos (hF.entries ▸ List.length_pos_iff.mpr hne)
  have hneB : back.iovs ≠ [] := List.ne_nil_of_length_pos (hB.entries ▸ List.length_pos_iff.mpr hne)
  obtain ⟨frontBack, hfrontBack, hFB⟩ :=
    roceIovReverseTo_back mem hneF (by rw [hF.entries]; exact hnum) b bufB
  obtain ⟨backFront, hbackFront, hBF⟩ := roceIovAdvanceTo_front mem hneB a bufA
  have hafter : (iovString mem front.iovs).length = (iovString mem iovs).length - a.toNat := by
    rw [hF.left, List.length_drop]
  have hbefore : (iovString mem back.iovs).length = (iovString mem iovs).length - b.toNat := by
    rw [hB.left, List.length_take]
    omega
  refine ⟨front, frontBack, back, backFront, hfront, hfrontBack, hback, hbackFront, ?_, ?_, ?_⟩
  · rw [hFB.left, hBF.left, hafter, hF.left, hB.left, List.drop_take]
    congr 1
    omega
  · rw [hF.filled, hBF.filled, hB.left, List.take_take, Nat.min_eq_left (by omega)]
  · have hdrop : a.toNat + ((iovString mem iovs).length - a.toNat - b.toNat) =
        (iovString mem iovs).length - b.toNat := by omega
    rw [hFB.filled, hB.filled, hafter, hF.left, List.drop_drop, hdrop, Nat.min_eq_left (by omega),
      Nat.min_eq_left (by omega)]

/-- Four bytes from the front of five in three entries, and one from the end. -/
theorem roceIov_trims_split :
    ∃ front frontBack back backFront,
      roceIovAdvanceTo UInt8.ofNat [⟨0x1000, 3⟩, ⟨0, 0⟩, ⟨0x2000, 2⟩] 4 (some 0) = .ok front ∧
        roceIovReverseTo UInt8.ofNat front.iovs 1 (some 0) = .ok frontBack ∧
        roceIovReverseTo UInt8.ofNat [⟨0x1000, 3⟩, ⟨0, 0⟩, ⟨0x2000, 2⟩] 1 (some 0) = .ok back ∧
        roceIovAdvanceTo UInt8.ofNat back.iovs 4 (some 0) = .ok backFront ∧
        iovString UInt8.ofNat frontBack.iovs = iovString UInt8.ofNat backFront.iovs ∧
        front.buf = backFront.buf ∧ frontBack.buf = back.buf :=
  (roceIov_trims UInt8.ofNat [⟨0x1000, 3⟩, ⟨0, 0⟩, ⟨0x2000, 2⟩] (by decide) (by decide)).2.2 4 1 (some 0)
    (some 0) (by decide)

end Libroce
