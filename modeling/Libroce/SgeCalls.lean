import Libroce.Placement

/-!
# Successive advances

A list of SGEs is used up by one `roce_sge_advance` after the other.  Here is the
function with the value it returns and the integers of the code, and what a
sequence of calls cuts off.

    sgeRanges            the virtual bytes of SGEs, each with its key
    roceSgeAdvanceTo_eq  a call that has enough bytes returns what it wrote
    Cuts                 chunk after chunk, from a count of bytes on

Main statement: `roceSgeCalls_cut`.
-/

namespace Libroce

/-! ## The calls -/

/-- What a call leaves: the value it returns, the entries of `dst_sges` that it
wrote, and the cursor. -/
structure SgeCall where
  ret : Nat
  dst : List RoceSge
  sgeIdx : Nat
  off : UInt32
  deriving DecidableEq

/-- An entry that is written before the others. -/
def SgeCall.behind (sge : RoceSge) (call : SgeCall) : SgeCall := { call with dst := sge :: call.dst }

/-- The loop of `roce_sge_advance`, over the entries from the cursor on. -/
def sgeAdvanceLoopTo : List RoceSge → UInt32 → Nat → UInt32 → Nat → SgeCall
  | [], _, sgeIdx, off, dstSgeIdx => ⟨dstSgeIdx + 1, [], sgeIdx, off⟩
  | sge :: rest, bytes, sgeIdx, off, dstSgeIdx =>
    let remained := sge.length - off
    if remained > bytes then
      ⟨dstSgeIdx + 1, [⟨sge.addr + off.toUInt64, bytes, sge.lkey⟩], sgeIdx, off + bytes⟩
    else if remained = bytes then
      ⟨dstSgeIdx + 1, [⟨sge.addr + off.toUInt64, remained, sge.lkey⟩], sgeIdx + 1, 0⟩
    else
      (sgeAdvanceLoopTo rest (bytes - remained) (sgeIdx + 1) 0 (dstSgeIdx + 1)).behind
        ⟨sge.addr + off.toUInt64, remained, sge.lkey⟩

/-- `roce_sge_advance` with the value it returns. -/
def roceSgeAdvanceTo (sges : List RoceSge) (bytes : UInt32) (sgeIdx : Nat) (off : UInt32) :
    Except Fault SgeCall :=
  match sges.drop sgeIdx with
  | [] => .error (.abort .sgeAdvanceIdx)
  | sge :: rest =>
    if off ≤ sge.length then
      if bytes = 0 then .ok ⟨0, [], sgeIdx, off⟩
      else .ok (sgeAdvanceLoopTo (sge :: rest) bytes sgeIdx off 0)
    else .error (.abort .sgeAdvanceOff)

/-- Calls for chunks of the given sizes, one after the other. -/
def roceSgeCalls (sges : List RoceSge) : List UInt32 → Nat → UInt32 → Except Fault (List SgeCall)
  | [], _, _ => .ok []
  | bytes :: chunks, sgeIdx, off =>
    match roceSgeAdvanceTo sges bytes sgeIdx off with
    | .error e => .error e
    | .ok call =>
      match roceSgeCalls sges chunks call.sgeIdx call.off with
      | .error e => .error e
      | .ok calls => .ok (call :: calls)

/-! ## One call -/

/-- The loop writes what `sgeAdvanceLoop` picks, and counts it. -/
theorem sgeAdvanceLoopTo_eq {sges dst : List RoceSge} {bytes off : UInt32} {sgeIdx idx' off' : Nat}
    (dstSgeIdx : Nat) (hoff : ∀ sge rest, sges = sge :: rest → off.toNat ≤ sge.length.toNat)
    (h : sgeAdvanceLoop sges bytes.toNat sgeIdx off.toNat = some (dst, idx', off')) :
    sgeAdvanceLoopTo sges bytes sgeIdx off dstSgeIdx =
      ⟨dstSgeIdx + dst.length, dst, idx', UInt32.ofNat off'⟩ := by
  induction sges generalizing bytes off sgeIdx dst dstSgeIdx with
  | nil => cases h
  | cons sge rest ih =>
    have hle := hoff sge rest rfl
    have hremained : (sge.length - off).toNat = sge.length.toNat - off.toNat :=
      UInt32.toNat_sub_of_le _ _ (UInt32.le_iff_toNat_le.mpr hle)
    have haddr : UInt64.ofNat off.toNat = off.toUInt64 := by
      apply UInt64.toNat_inj.mp
      have hlt := off.toNat_lt
      rw [UInt64.toNat_ofNat', UInt32.toNat_toUInt64, Nat.mod_eq_of_lt (by omega)]
    rw [sgeAdvanceLoop, haddr] at h
    rw [sgeAdvanceLoopTo]
    simp only [gt_iff_lt, UInt32.lt_iff_toNat_lt, ← UInt32.toNat_inj, hremained]
    by_cases hmore : sge.length.toNat - off.toNat > bytes.toNat
    · rw [if_pos hmore] at h
      obtain ⟨rfl, hcursor⟩ := Prod.mk.inj (Option.some.inj h)
      obtain ⟨rfl, rfl⟩ := Prod.mk.inj hcursor
      rw [if_pos hmore, UInt32.ofNat_toNat, UInt32.ofNat_add, UInt32.ofNat_toNat, UInt32.ofNat_toNat]
      rfl
    · rw [if_neg hmore] at h
      rw [if_neg hmore]
      by_cases hall : sge.length.toNat - off.toNat = bytes.toNat
      · have hbytes : sge.length - off = bytes := UInt32.toNat_inj.mp (hremained.trans hall)
        rw [if_pos hall] at h
        obtain ⟨rfl, hcursor⟩ := Prod.mk.inj (Option.some.inj h)
        obtain ⟨rfl, rfl⟩ := Prod.mk.inj hcursor
        rw [if_pos hall, hbytes, UInt32.ofNat_toNat]
        rfl
      · have hrest : (bytes - (sge.length - off)).toNat = bytes.toNat - (sge.length.toNat - off.toNat) := by
          rw [UInt32.toNat_sub_of_le _ _ (UInt32.le_iff_toNat_le.mpr (by omega)), hremained]
        rw [if_neg hall] at h
        rw [if_neg hall]
        split at h
        · cases h
        · next dst' cursor hloop =>
          obtain ⟨rfl, rfl⟩ := Prod.mk.inj (Option.some.inj h)
          rw [← hrest] at hloop
          rw [ih (dstSgeIdx + 1) (fun _ _ _ => Nat.zero_le _) hloop, ← hremained, UInt32.ofNat_toNat,
            List.length_cons, Nat.add_comm dst'.length 1, ← Nat.add_assoc]
          rfl

theorem roceSgeAdvanceTo_eq {sges dst : List RoceSge} {bytes off : UInt32} {sgeIdx idx' off' : Nat}
    (h : roceSgeAdvance sges bytes.toNat sgeIdx off.toNat = .ok (dst, idx', off')) :
    roceSgeAdvanceTo sges bytes sgeIdx off = .ok ⟨dst.length, dst, idx', UInt32.ofNat off'⟩ := by
  unfold roceSgeAdvance at h
  unfold roceSgeAdvanceTo
  cases hdrop : sges.drop sgeIdx with
  | nil =>
    rw [hdrop] at h
    cases h
  | cons sge rest =>
    rw [hdrop] at h
    simp only [UInt32.le_iff_toNat_le, ← UInt32.toNat_inj, UInt32.toNat_zero] at h ⊢
    by_cases hoff : off.toNat ≤ sge.length.toNat
    · rw [if_pos hoff] at h ⊢
      by_cases hzero : bytes.toNat = 0
      · rw [if_pos hzero] at h ⊢
        obtain ⟨rfl, hcursor⟩ := Prod.mk.inj (Except.ok.inj h)
        obtain ⟨rfl, rfl⟩ := Prod.mk.inj hcursor
        rw [UInt32.ofNat_toNat]
        rfl
      · rw [if_neg hzero] at h ⊢
        cases hloop : sgeAdvanceLoop (sge :: rest) bytes.toNat sgeIdx off.toNat with
        | none =>
          rw [hloop] at h
          cases h
        | some r =>
          rw [hloop] at h
          obtain rfl := Except.ok.inj h
          rw [sgeAdvanceLoopTo_eq 0 (by rintro _ _ ⟨⟩; exact hoff) hloop, Nat.zero_add]
    · rw [if_neg hoff] at h
      cases h

/-- Every entry is picked from another SGE. -/
theorem sgeAdvanceLoop_entries {sges dst : List RoceSge} {bytes sgeIdx off idx' off' : Nat}
    (h : sgeAdvanceLoop sges bytes sgeIdx off = some (dst, idx', off')) : dst.length ≤ sges.length := by
  induction sges generalizing bytes sgeIdx off dst with
  | nil => cases h
  | cons sge rest ih =>
    rw [sgeAdvanceLoop] at h
    rw [List.length_cons]
    split at h
    · obtain ⟨rfl, -⟩ := Prod.mk.inj (Option.some.inj h)
      exact Nat.le_add_left _ _
    · split at h
      · obtain ⟨rfl, -⟩ := Prod.mk.inj (Option.some.inj h)
        exact Nat.le_add_left _ _
      · split at h
        · cases h
        · next dst' cursor hloop =>
          obtain ⟨rfl, rfl⟩ := Prod.mk.inj (Option.some.inj h)
          exact Nat.succ_le_succ (ih hloop)

theorem roceSgeAdvance_entries {sges dst : List RoceSge} {bytes sgeIdx off idx' off' : Nat}
    (h : roceSgeAdvance sges bytes sgeIdx off = .ok (dst, idx', off')) : dst.length ≤ sges.length := by
  unfold roceSgeAdvance at h
  split at h
  · cases h
  · next sge rest hdrop =>
    split at h
    · split at h
      · obtain ⟨rfl, -⟩ := Prod.mk.inj (Except.ok.inj h)
        exact Nat.zero_le _
      · split at h
        · cases h
        · next r hloop =>
          obtain rfl := Except.ok.inj h
          have hentries := sgeAdvanceLoop_entries hloop
          have hlen := congrArg List.length hdrop
          rw [List.length_drop] at hlen
          omega
    · cases h

/-! ## The bytes of SGEs -/

/-- The virtual addresses of an SGE, each with the key. -/
def sgeRange (sge : RoceSge) : List (UInt32 × UInt64) :=
  (List.range sge.length.toNat).map fun i => (sge.lkey, sge.addr + UInt64.ofNat i)

def sgeRanges (sges : List RoceSge) : List (UInt32 × UInt64) := sges.flatMap sgeRange

@[simp] theorem length_sgeRange (sge : RoceSge) : (sgeRange sge).length = sge.length.toNat := by
  simp [sgeRange]

theorem getElem_sgeRange (sge : RoceSge) {i : Nat} (h : i < (sgeRange sge).length) :
    (sgeRange sge)[i] = (sge.lkey, sge.addr + UInt64.ofNat i) := by simp [sgeRange]

/-- A piece of an SGE has a piece of its bytes, also where addresses wrap. -/
theorem sgeRange_piece (sge : RoceSge) {o n : Nat} (h : o + n ≤ sge.length.toNat) :
    sgeRange (sge.piece o n) = ((sgeRange sge).drop o).take n := by
  have hlt := sge.length.toNat_lt
  have hlen : (sge.piece o n).length.toNat = n := by
    show (UInt32.ofNat n).toNat = n
    rw [UInt32.toNat_ofNat', Nat.mod_eq_of_lt (by omega)]
  apply List.ext_getElem
  · rw [length_sgeRange, hlen, List.length_take, List.length_drop, length_sgeRange]
    omega
  · intro i hi hj
    rw [List.getElem_take, List.getElem_drop, getElem_sgeRange, getElem_sgeRange, UInt64.ofNat_add,
      ← UInt64.add_assoc]
    rfl

/-! ## Sequences of calls -/

/-- The call cuts `n` bytes off, the first `taken` being gone. -/
structure CutsOff (sges : List RoceSge) (taken n : Nat) (call : SgeCall) : Prop where
  count : call.dst.length = call.ret
  few : call.ret ≤ sges.length
  chunk : sgeRanges call.dst = ((sgeRanges sges).drop taken).take n
  left : taken + n < sgeTotal sges →
    roceSgeLen sges call.sgeIdx call.off.toNat = .ok (UInt32.ofNat (sgeTotal sges - (taken + n)))

/-- Each call cuts off the next chunk. -/
inductive Cuts (sges : List RoceSge) : Nat → List UInt32 → List SgeCall → Prop where
  | nil (taken : Nat) : Cuts sges taken [] []
  | cons {taken : Nat} {n : UInt32} {chunks : List UInt32} {call : SgeCall} {calls : List SgeCall}
      (hcall : CutsOff sges taken n.toNat call) (hrest : Cuts sges (taken + n.toNat) chunks calls) :
      Cuts sges taken (n :: chunks) (call :: calls)

/-- Together they cut off as many bytes as the chunks have. -/
theorem Cuts.ranges {sges : List RoceSge} {taken : Nat} {chunks : List UInt32} {calls : List SgeCall}
    (h : Cuts sges taken chunks calls) :
    sgeRanges (calls.flatMap (·.dst)) = ((sgeRanges sges).drop taken).take (chunks.map (·.toNat)).sum := by
  induction h with
  | nil taken => exact (List.take_zero).symm
  | @cons taken n chunks call calls hcall hrest ih =>
    have hsplit : sgeRanges ((call :: calls).flatMap (·.dst)) =
        sgeRanges call.dst ++ sgeRanges (calls.flatMap (·.dst)) := by
      unfold sgeRanges
      rw [List.flatMap_cons, List.flatMap_append]
    rw [hsplit, hcall.chunk, ih, List.map_cons, List.sum_cons, List.take_add, List.drop_drop]

/-- The cursor has `taken` bytes behind it, and stands at an entry while any are left. -/
structure CursorAt (sges : List RoceSge) (taken sgeIdx : Nat) (off : UInt32) : Prop where
  inside : taken < sgeTotal sges → CursorIn sges sgeIdx off.toNat
  rest : taken < sgeTotal sges → sgeRest sges sgeIdx off.toNat = sgeTotal sges - taken
  bytes : taken < sgeTotal sges →
    (sgeRanges (sges.drop sgeIdx)).drop off.toNat = (sgeRanges sges).drop taken

theorem cursorAt_zero (sges : List RoceSge) : CursorAt sges 0 0 0 := by
  refine ⟨?_, fun _ => sgeRest_zero sges, fun _ => rfl⟩
  intro hpos
  cases sges with
  | nil => exact absurd hpos (Nat.lt_irrefl 0)
  | cons sge rest => exact ⟨sge, rest, rfl, Nat.zero_le _⟩

theorem CursorAt.len {sges : List RoceSge} {taken sgeIdx : Nat} {off : UInt32}
    (h : CursorAt sges taken sgeIdx off) (hlen : sgeTotal sges < 2 ^ 32) (hmore : taken < sgeTotal sges) :
    roceSgeLen sges sgeIdx off.toNat = .ok (UInt32.ofNat (sgeTotal sges - taken)) := by
  have hrest := h.rest hmore
  rw [roceSgeLen_eq_ok (h.inside hmore) (by omega), hrest]

/-- **One call.**  It cuts the next bytes off and moves the cursor behind them. -/
theorem CursorAt.step {sges : List RoceSge} {taken sgeIdx : Nat} {off n : UInt32}
    (h : CursorAt sges taken sgeIdx off) (hlen : sgeTotal sges < 2 ^ 32) (hpos : 0 < n.toNat)
    (hfit : taken + n.toNat ≤ sgeTotal sges) :
    ∃ call, roceSgeAdvanceTo sges n sgeIdx off = .ok call ∧ CutsOff sges taken n.toNat call ∧
      CursorAt sges (taken + n.toNat) call.sgeIdx call.off := by
  have hmore : taken < sgeTotal sges := by omega
  have hrest := h.rest hmore
  have hle : n.toNat ≤ sgeRest sges sgeIdx off.toNat := by omega
  obtain ⟨dst, idx', off', hcut, -, hrest', hinside⟩ := roceSgeAdvance_spec (h.inside hmore) hle
  obtain ⟨hchunk, hnext⟩ := roceSgeAdvance_cut (fun sge _ => length_sgeRange sge)
    (fun sge _ o m hpiece _ => sgeRange_piece sge hpiece) hcut
  rw [hrest] at hrest' hinside
  have hbytes : ((sges.drop sgeIdx).flatMap sgeRange).drop off.toNat = (sgeRanges sges).drop taken :=
    h.bytes hmore
  rw [hbytes] at hchunk hnext
  rw [List.drop_drop] at hnext
  -- inside an entry the cursor fits into 32 bits
  have hoff : taken + n.toNat < sgeTotal sges → (UInt32.ofNat off').toNat = off' := by
    intro hleft
    obtain ⟨sge, rest, -, hle⟩ := hinside (by omega)
    have hlt := sge.length.toNat_lt
    rw [UInt32.toNat_ofNat', Nat.mod_eq_of_lt (by omega)]
  have hat : CursorAt sges (taken + n.toNat) idx' (UInt32.ofNat off') := by
    refine ⟨fun hleft => ?_, fun hleft => ?_, fun hleft => ?_⟩
    · rw [hoff hleft]
      exact hinside (by omega)
    · rw [hoff hleft, hrest']
      omega
    · rw [hoff hleft]
      exact hnext
  exact ⟨_, roceSgeAdvanceTo_eq hcut, ⟨rfl, roceSgeAdvance_entries hcut, hchunk, hat.len hlen⟩, hat⟩

theorem CursorAt.run {sges : List RoceSge} {taken sgeIdx : Nat} {off : UInt32} {chunks : List UInt32}
    (h : CursorAt sges taken sgeIdx off) (hlen : sgeTotal sges < 2 ^ 32) (hpos : ∀ n ∈ chunks, 0 < n)
    (hfit : taken + (chunks.map (·.toNat)).sum ≤ sgeTotal sges) :
    ∃ calls, roceSgeCalls sges chunks sgeIdx off = .ok calls ∧ Cuts sges taken chunks calls := by
  induction chunks generalizing taken sgeIdx off with
  | nil => exact ⟨[], rfl, .nil taken⟩
  | cons n chunks ih =>
    rw [List.map_cons, List.sum_cons] at hfit
    have hn : 0 < n.toNat := UInt32.lt_iff_toNat_lt.mp (hpos n List.mem_cons_self)
    obtain ⟨call, hcall, hcuts, hnext⟩ := h.step hlen hn (by omega)
    obtain ⟨calls, hcalls, hrest⟩ := ih hnext (fun m hm => hpos m (List.mem_cons_of_mem _ hm)) (by omega)
    refine ⟨call :: calls, ?_, .cons hcuts hrest⟩
    unfold roceSgeCalls
    simp only [hcall, hcalls]

/-- **Successive advances.**  They cut chunk after chunk off the SGEs, from the
first byte on, and `roce_sge_len` counts what is left. -/
theorem roceSgeCalls_cut (sges : List RoceSge) (hlen : sgeTotal sges < 2 ^ 32) (chunks : List UInt32)
    (hpos : ∀ n ∈ chunks, 0 < n) (hsum : (chunks.map (·.toNat)).sum ≤ sgeTotal sges) :
    (0 < sgeTotal sges → roceSgeLen sges 0 0 = .ok (UInt32.ofNat (sgeTotal sges))) ∧
      ∃ calls, roceSgeCalls sges chunks 0 0 = .ok calls ∧ Cuts sges 0 chunks calls ∧
        sgeRanges (calls.flatMap (·.dst)) <+: sgeRanges sges := by
  obtain ⟨calls, hcalls, hcuts⟩ := (cursorAt_zero sges).run hlen hpos (by omega)
  refine ⟨(cursorAt_zero sges).len hlen, calls, hcalls, hcuts, ?_⟩
  rw [hcuts.ranges, List.drop_zero]
  exact List.take_prefix _ _

/-- An empty SGE between two others, cut inside an entry and at the end of one. -/
theorem roceSgeCalls_cut_empty :
    (0 < sgeTotal [⟨0x1000, 4, 1⟩, ⟨0x2000, 0, 2⟩, ⟨0x3000, 4, 3⟩] →
        roceSgeLen [⟨0x1000, 4, 1⟩, ⟨0x2000, 0, 2⟩, ⟨0x3000, 4, 3⟩] 0 0 = .ok 8) ∧
      ∃ calls, roceSgeCalls [⟨0x1000, 4, 1⟩, ⟨0x2000, 0, 2⟩, ⟨0x3000, 4, 3⟩] [3, 3, 2] 0 0 = .ok calls ∧
        Cuts [⟨0x1000, 4, 1⟩, ⟨0x2000, 0, 2⟩, ⟨0x3000, 4, 3⟩] 0 [3, 3, 2] calls ∧
        sgeRanges (calls.flatMap (·.dst)) <+:
          sgeRanges [⟨0x1000, 4, 1⟩, ⟨0x2000, 0, 2⟩, ⟨0x3000, 4, 3⟩] :=
  roceSgeCalls_cut [⟨0x1000, 4, 1⟩, ⟨0x2000, 0, 2⟩, ⟨0x3000, 4, 3⟩] (by decide) [3, 3, 2]
    (by simp) (by decide)

end Libroce
