import Libroce.Types

/-!
# I/O vectors

`include/private/iov-helper.h`.  The iovecs of a packet are modelled by the
bytes they denote (`List (List UInt8)`, a spent entry is empty), those of a
memory region by address and length.

    (roceIovAdvance n iovs).1 = iovs.flatten.take n      the bytes copied out
    (roceIovAdvance n iovs).2.flatten = iovs.flatten.drop n
    roceIovReverse: the same from the end

The lists are never empty here; `roce_net_decap` checks that for the callers.
-/

namespace Libroce

/-! ## Packet iovecs -/

/-- `roce_iov_len`; the sum is a `uint32_t`. -/
def roceIovLen (iovs : List (List UInt8)) : UInt32 := UInt32.ofNat (iovs.map List.length).sum

/-- `roce_iov_advance`: the bytes copied to the buffer and the iovecs left. -/
def roceIovAdvance : Nat → List (List UInt8) → List UInt8 × List (List UInt8)
  | _, [] => ([], [])
  | bytes, iov :: rest =>
    if bytes = 0 then ([], iov :: rest)
    else if iov = [] then
      ((roceIovAdvance bytes rest).1, iov :: (roceIovAdvance bytes rest).2)
    else if iov.length > bytes then (iov.take bytes, iov.drop bytes :: rest)
    else if iov.length = bytes then (iov, [] :: rest)
    else
      (iov ++ (roceIovAdvance (bytes - iov.length) rest).1,
        [] :: (roceIovAdvance (bytes - iov.length) rest).2)

/-- The loop of `roce_iov_reverse`, over the iovecs from the last to the first. -/
def iovReverseLoop : Nat → List (List UInt8) → List UInt8 × List (List UInt8)
  | _, [] => ([], [])
  | bytes, iov :: rest =>
    if iov = [] then
      ((iovReverseLoop bytes rest).1, iov :: (iovReverseLoop bytes rest).2)
    else if iov.length > bytes then
      (iov.drop (iov.length - bytes), iov.take (iov.length - bytes) :: rest)
    else if iov.length = bytes then (iov, [] :: rest)
    else
      ((iovReverseLoop (bytes - iov.length) rest).1 ++ iov,
        [] :: (iovReverseLoop (bytes - iov.length) rest).2)

/-- `roce_iov_reverse`: the bytes copied to the end of the buffer and the
iovecs left. -/
def roceIovReverse (bytes : Nat) (iovs : List (List UInt8)) : List UInt8 × List (List UInt8) :=
  ((iovReverseLoop bytes iovs.reverse).1, (iovReverseLoop bytes iovs.reverse).2.reverse)

theorem roceIovLen_toNat (iovs : List (List UInt8)) :
    (roceIovLen iovs).toNat = iovs.flatten.length % 2 ^ 32 := by
  unfold roceIovLen
  rw [List.length_flatten, UInt32.toNat_ofNat']

theorem roceIovAdvance_fst (bytes : Nat) (iovs : List (List UInt8)) :
    (roceIovAdvance bytes iovs).1 = iovs.flatten.take bytes := by
  induction iovs generalizing bytes with
  | nil => simp [roceIovAdvance]
  | cons iov rest ih =>
    rw [roceIovAdvance, List.flatten_cons]
    split
    · next h => simp [h]
    · split
      · next h => simp [h, ih]
      · split
        · next h => rw [List.take_append_of_le_length (by omega)]
        · split
          · next h => rw [← h, List.take_left]
          · next h1 h2 =>
            rw [List.take_append, List.take_of_length_le (by omega), ih]

theorem roceIovAdvance_snd (bytes : Nat) (iovs : List (List UInt8)) :
    (roceIovAdvance bytes iovs).2.flatten = iovs.flatten.drop bytes := by
  induction iovs generalizing bytes with
  | nil => simp [roceIovAdvance]
  | cons iov rest ih =>
    rw [roceIovAdvance, List.flatten_cons]
    split
    · next h => simp [h]
    · split
      · next h => simp [h, ih]
      · split
        · next h => rw [List.drop_append_of_le_length (by omega), List.flatten_cons]
        · split
          · next h => rw [← h, List.drop_left, List.flatten_cons, List.nil_append]
          · next h1 h2 =>
            rw [List.drop_append, List.drop_of_length_le (show iov.length ≤ bytes by omega),
              List.flatten_cons, ih]

theorem iovReverseLoop_fst (bytes : Nat) (iovs : List (List UInt8)) :
    (iovReverseLoop bytes iovs).1 =
      iovs.reverse.flatten.drop (iovs.reverse.flatten.length - bytes) := by
  induction iovs generalizing bytes with
  | nil => simp [iovReverseLoop]
  | cons iov rest ih =>
    have hl : (iov :: rest).reverse.flatten = rest.reverse.flatten ++ iov := by simp
    rw [iovReverseLoop, hl, List.length_append]
    split
    · next h => simp [h, ih]
    · split
      · next h =>
        have hs : rest.reverse.flatten.length + iov.length - bytes =
            rest.reverse.flatten.length + (iov.length - bytes) := by omega
        rw [hs, List.drop_length_add_append]
      · split
        · next h => rw [← h, Nat.add_sub_cancel, List.drop_left]
        · next h1 h2 =>
          have hs : rest.reverse.flatten.length + iov.length - bytes =
              rest.reverse.flatten.length - (bytes - iov.length) := by omega
          rw [hs, List.drop_append_of_le_length (Nat.sub_le _ _), ih]

theorem iovReverseLoop_snd (bytes : Nat) (iovs : List (List UInt8)) :
    (iovReverseLoop bytes iovs).2.reverse.flatten =
      iovs.reverse.flatten.take (iovs.reverse.flatten.length - bytes) := by
  induction iovs generalizing bytes with
  | nil => simp [iovReverseLoop]
  | cons iov rest ih =>
    have hl : (iov :: rest).reverse.flatten = rest.reverse.flatten ++ iov := by simp
    rw [iovReverseLoop, hl, List.length_append]
    split
    · next h => simp [h, ih]
    · split
      · next h =>
        have hs : rest.reverse.flatten.length + iov.length - bytes =
            rest.reverse.flatten.length + (iov.length - bytes) := by omega
        rw [hs, List.take_length_add_append]
        simp
      · split
        · next h => rw [← h, Nat.add_sub_cancel, List.take_left]; simp
        · next h1 h2 =>
          rw [List.take_append_of_le_length (by omega)]
          have hs : rest.reverse.flatten.length + iov.length - bytes =
              rest.reverse.flatten.length - (bytes - iov.length) := by omega
          rw [hs, ← ih]
          simp

/-- The last `bytes` bytes come out. -/
theorem roceIovReverse_fst (bytes : Nat) (iovs : List (List UInt8)) :
    (roceIovReverse bytes iovs).1 = iovs.flatten.drop (iovs.flatten.length - bytes) := by
  have h := iovReverseLoop_fst bytes iovs.reverse
  rwa [List.reverse_reverse] at h

theorem roceIovReverse_snd (bytes : Nat) (iovs : List (List UInt8)) :
    (roceIovReverse bytes iovs).2.flatten = iovs.flatten.take (iovs.flatten.length - bytes) := by
  have h := iovReverseLoop_snd bytes iovs.reverse
  rwa [List.reverse_reverse] at h

/-! ## Iovecs of a memory region -/

/-- The copy loop of `roce_iov_copy` after its first entry.  When the source
ends first, the count that is returned includes an entry that was not written
(`none`). -/
def iovCopyRest : List Iovec → Nat → List (Option Iovec)
  | [], _ => [none]
  | iov :: rest, bytes =>
    if bytes - min iov.len bytes = 0 then [some ⟨iov.base, min iov.len bytes⟩]
    else some ⟨iov.base, min iov.len bytes⟩ :: iovCopyRest rest (bytes - min iov.len bytes)

/-- `roce_iov_copy` from its skip loop on. -/
def iovCopyFrom : List Iovec → Nat → Nat → List (Option Iovec)
  | [], _, _ => []
  | iov :: rest, offset, bytes =>
    if iov.len > offset then
      if bytes - min (iov.len - offset) bytes = 0 then
        [some ⟨iov.base + offset, min (iov.len - offset) bytes⟩]
      else
        some ⟨iov.base + offset, min (iov.len - offset) bytes⟩ ::
          iovCopyRest rest (bytes - min (iov.len - offset) bytes)
    else iovCopyFrom rest (offset - iov.len) bytes

/-- `roce_iov_copy`: the destination entries it counts, in order. -/
def roceIovCopy (src : List Iovec) (offset bytes : Nat) : Except Fault (List (Option Iovec)) :=
  if src = [] then .error (.abort .iovCopySrc)
  else if bytes = 0 then .ok []
  else .ok (iovCopyFrom src offset bytes)

/-- The bytes that iovecs denote; an entry that was never written is empty. -/
def iovTotal (iovs : List (Option Iovec)) : Nat := (iovs.map fun o => (o.elim 0 (·.len))).sum

@[simp] theorem iovTotal_cons (o : Option Iovec) (iovs : List (Option Iovec)) :
    iovTotal (o :: iovs) = o.elim 0 (·.len) + iovTotal iovs := rfl

@[simp] theorem iovTotal_append (is js : List (Option Iovec)) :
    iovTotal (is ++ js) = iovTotal is + iovTotal js := by simp [iovTotal]

/-- The bytes of iovecs. -/
def iovecsLen (iovs : List Iovec) : Nat := (iovs.map (·.len)).sum

theorem iovecsLen_cons (iov : Iovec) (iovs : List Iovec) :
    iovecsLen (iov :: iovs) = iov.len + iovecsLen iovs := rfl

theorem iovCopyRest_total (src : List Iovec) (bytes : Nat) :
    iovTotal (iovCopyRest src bytes) = min bytes (iovecsLen src) := by
  induction src generalizing bytes with
  | nil => exact (Nat.min_zero bytes).symm
  | cons iov rest ih =>
    rw [iovCopyRest, iovecsLen_cons]
    split
    · show min iov.len bytes + 0 = _
      omega
    · have hrec := ih (bytes - min iov.len bytes)
      show min iov.len bytes + iovTotal _ = _
      omega

/-- A copy denotes what was asked for, or all that is left. -/
theorem iovCopyFrom_total (src : List Iovec) (offset bytes : Nat) :
    iovTotal (iovCopyFrom src offset bytes) = min bytes (iovecsLen src - offset) := by
  induction src generalizing offset with
  | nil =>
    show 0 = min bytes (0 - offset)
    omega
  | cons iov rest ih =>
    rw [iovCopyFrom, iovecsLen_cons]
    split
    · split
      · show min (iov.len - offset) bytes + 0 = _
        omega
      · have hrec := iovCopyRest_total rest (bytes - min (iov.len - offset) bytes)
        show min (iov.len - offset) bytes + iovTotal _ = _
        omega
    · rw [ih]
      omega

theorem roceIovCopy_total {src : List Iovec} {offset bytes : Nat} {iovs : List (Option Iovec)}
    (h : roceIovCopy src offset bytes = .ok iovs) :
    iovTotal iovs = min bytes (iovecsLen src - offset) := by
  unfold roceIovCopy at h
  split at h
  · cases h
  · split at h
    · next hzero =>
      obtain rfl := Except.ok.inj h
      rw [hzero, Nat.zero_min]
      rfl
    · obtain rfl := Except.ok.inj h
      exact iovCopyFrom_total src offset bytes

end Libroce
