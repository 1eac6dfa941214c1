import Libroce.Lib.Rings
import Libroce.Lib.Machine

/-!
# Intrusive lists

`list.h`.  A list is a ring of `list_node`s: its head, and the entries inside
of the objects that are on it.  The functions work on a store of the links of all
nodes, with the assignments of the source in its order; an object is known by
its entry.

    ListSpec     what a call is for: lists by their heads
    listRun_spec any calls that keep to it get what lists would give
    listForEachSafe_cons
                 a loop that takes off the entry it visits goes on with the rest
-/

namespace Libroce

open Rings (Links)

section list

variable {α : Type} [DecidableEq α]

/-! ## The functions -/

/-- `list_head_init` -/
def listHeadInit (l : Links α) (h : α) : Links α := (l.setPrev h h).setNext h h

/-- `list_node_init` -/
def listNodeInit (l : Links α) (n : α) : Links α := (l.setPrev n n).setNext n n

/-- `list_add_before_` -/
def listAddBefore (l : Links α) (p n : α) : Links α :=
  let l := l.setNext n p
  let l := l.setPrev n (l.prev p)
  let l := l.setNext (l.prev p) n
  l.setPrev p n

/-- `list_add_tail` -/
def listAddTail (l : Links α) (h n : α) : Links α := listAddBefore l h n

/-- `list_empty` -/
def listEmpty (l : Links α) (h : α) : Bool := l.next h = h

/-- `list_del` -/
def listDel (l : Links α) (n : α) : Links α :=
  let l := l.setPrev (l.next n) (l.prev n)
  l.setNext (l.prev n) (l.next n)

/-- `list_top` -/
def listTop (l : Links α) (h : α) : Option α := if listEmpty l h then none else some (l.next h)

/-- `list_pop` -/
def listPop (l : Links α) (h : α) : Option α × Links α :=
  if listEmpty l h then (none, l) else (some (l.next h), listDel l (l.next h))

/-- `list_tail` -/
def listTail (l : Links α) (h : α) : Option α := if listEmpty l h then none else some (l.prev h)

/-- `list_append_list`: the entries of `k` go to the end of `h`. -/
def listAppendList (l : Links α) (h k : α) : Links α :=
  let fromTail := l.prev k
  let toTail := l.prev h
  let l := l.setPrev h fromTail
  let l := l.setNext fromTail h
  let l := l.setNext toTail k
  let l := l.setPrev k toTail
  listHeadInit (listDel l k) k

/-- The entries that `list_for_each` visits from `i` on. -/
def forEachNodes (l : Links α) (h : α) : Nat → α → Option (List α)
  | 0, _ => none
  | fuel + 1, i => if i = h then some [] else (forEachNodes l h fuel (l.next i)).map (i :: ·)

/-- `list_for_each`, when its body leaves the links: the entries that it visits. -/
def listForEach (l : Links α) (h : α) (fuel : Nat) : Option (List α) := forEachNodes l h fuel (l.next h)

section loop

variable {σ ε : Type} (next : σ → α → Except ε α) (h : α) (hang : ε) (body : σ → α → Except ε (σ × Bool))

/-- A turn of `list_for_each_safe` at `i`, with `nxt` behind it; `next` reads a
link.  The body says whether the loop goes on. -/
def forEachSafe : Nat → σ → α → α → Except ε σ
  | 0, _, _, _ => .error hang
  | fuel + 1, s, i, nxt =>
    if i = h then .ok s
    else
      match body s i with
      | .error e => .error e
      | .ok (s, true) =>
        match next s nxt with
        | .error e => .error e
        | .ok after => forEachSafe fuel s nxt after
      | .ok (s, false) => .ok s

/-- `list_for_each_safe` -/
def listForEachSafe (fuel : Nat) (s : σ) : Except ε σ :=
  match next s h with
  | .error e => .error e
  | .ok i =>
    match next s i with
    | .error e => .error e
    | .ok nxt => forEachSafe next h hang body fuel s i nxt

end loop

/-! ## What they do to the links -/

theorem listHeadInit_eq (l : Links α) (h : α) : listHeadInit l h = l.single h := rfl

theorem listAddBefore_eq {l : Links α} {p n : α} (hp : p ≠ n) (hlast : l.prev p ≠ n) :
    listAddBefore l p n = l.insertBefore p n := by
  have hprev : ((l.setNext n p).setPrev n (l.prev p)).prev p = l.prev p := Links.setPrev_prev_of_ne _ _ hp
  unfold listAddBefore
  simp only [Links.setNext_prev, hprev]
  unfold Links.insertBefore Links.join Links.setNext Links.setPrev
  simp only [Function.update_comm hlast]

theorem listDel_eq (l : Links α) (n : α) : listDel l n = l.unlink n := by
  have hprev : (l.setPrev (l.next n) (l.prev n)).prev n = l.prev n := by
    by_cases h : n = l.next n
    · rw [← h]
      exact l.setPrev_prev_self n (l.prev n)
    · exact l.setPrev_prev_of_ne _ h
  unfold listDel
  simp only [Links.setPrev_next, hprev]
  rfl

theorem listAppendList_eq {l : Links α} {h k : α} (hne : h ≠ k) (hlast : l.prev h ≠ l.prev k) :
    listAppendList l h k = ((l.splice h k).unlink k).single k := by
  unfold listAppendList
  simp only [listHeadInit_eq, listDel_eq]
  unfold Links.splice Links.join Links.setNext Links.setPrev
  simp only [Function.update_comm hne, Function.update_comm hlast]

/-! ## Lists by their heads -/

section holds

variable {l : Links α} {ls : α → Option (List α)} {h k n : α} {xs ys : List α}

theorem listEmpty_eq (hl : l.Holds ls) (hh : ls h = some xs) : listEmpty l h = xs.isEmpty := by
  have hring := hl.ring hh
  unfold listEmpty
  rw [hring.next]
  cases xs with
  | nil => exact decide_eq_true rfl
  | cons x xs =>
    apply decide_eq_false
    intro heq
    have heq : x = h := heq
    apply (List.nodup_cons.mp (Rings.ring_cons.mp hring).2).1
    rw [heq]
    exact List.mem_cons_self

theorem listTop_eq (hl : l.Holds ls) (hh : ls h = some xs) : listTop l h = xs.head? := by
  unfold listTop
  rw [listEmpty_eq hl hh, (hl.ring hh).next]
  cases xs with
  | nil => rfl
  | cons x xs => rfl

theorem listTail_eq (hl : l.Holds ls) (hh : ls h = some xs) : listTail l h = xs.getLast? := by
  unfold listTail
  rw [listEmpty_eq hl hh, (hl.ring hh).prev]
  cases xs with
  | nil => rfl
  | cons x xs =>
    rw [List.getLast_cons (List.cons_ne_nil _ _), List.getLast?_eq_getLast_of_ne_nil (List.cons_ne_nil _ _)]
    rfl

theorem holds_headInit (hl : l.Holds ls) (hfree : ∀ k zs, ls k = some zs → k ≠ h → h ∉ k :: zs) :
    (listHeadInit l h).Holds (Function.update ls h (some [])) := by
  rw [listHeadInit_eq]
  exact hl.single hfree

theorem holds_nodeInit (hl : l.Holds ls) (hfree : Rings.Free ls n) : (listNodeInit l n).Holds ls := by
  have hother : ls n = none := by
    cases hn : ls n with
    | none => rfl
    | some zs => exact absurd List.mem_cons_self (hfree n zs hn)
  have hdrop := (hl.single fun k zs hk _ => hfree k zs hk).drop n
  rw [Function.update_idem, ← hother, Function.update_eq_self] at hdrop
  exact hdrop

theorem holds_addTail (hl : l.Holds ls) (hh : ls h = some xs) (hfree : Rings.Free ls n) :
    (listAddTail l h n).Holds (Function.update ls h (some (xs ++ [n]))) := by
  have hnot := hfree h xs hh
  have hne : ∀ x ∈ h :: xs, x ≠ n := by
    rintro x hx rfl
    exact hnot hx
  unfold listAddTail
  rw [listAddBefore_eq (hne h List.mem_cons_self) (hne _ (hl.ring hh).prev_mem)]
  exact hl.insert hh hfree

theorem holds_del (hl : l.Holds ls) (hh : ls h = some (xs ++ n :: ys)) :
    (listDel l n).Holds (Function.update ls h (some (xs ++ ys))) := by
  rw [listDel_eq]
  exact hl.remove hh

/-- The first entry is deleted, and is free then. -/
theorem holds_delFirst (hl : l.Holds ls) (hh : ls h = some (n :: ys)) :
    (listDel l n).Holds (Function.update ls h (some ys)) ∧ Rings.Free (Function.update ls h (some ys)) n := by
  have hsplit : ls h = some ([] ++ n :: ys) := hh
  exact ⟨holds_del hl hsplit, hl.removed hsplit⟩

theorem holds_pop (hl : l.Holds ls) (hh : ls h = some xs) :
    (listPop l h).1 = xs.head? ∧ (listPop l h).2.Holds (Function.update ls h (some xs.tail)) := by
  have hempty := listEmpty_eq hl hh
  have hnext := (hl.ring hh).next
  unfold listPop
  cases xs with
  | nil =>
    rw [hempty]
    refine ⟨rfl, ?_⟩
    rw [List.tail_nil, ← hh, Function.update_eq_self]
    exact hl
  | cons x xs =>
    rw [hempty, hnext]
    exact ⟨rfl, (holds_delFirst hl hh).1⟩

theorem holds_appendList (hl : l.Holds ls) (hh : ls h = some xs) (hk : ls k = some ys) (hne : h ≠ k) :
    (listAppendList l h k).Holds (Function.update (Function.update ls h (some (xs ++ ys))) k (some [])) := by
  have hring := hl.ring hh
  have kring := hl.ring hk
  have hlast : l.prev h ≠ l.prev k := by
    intro heq
    have hmem := kring.prev_mem
    rw [← heq] at hmem
    exact hl.apart hh hk hne hring.prev_mem hmem
  rw [listAppendList_eq hne hlast]
  have hspliced := hl.splice hh hk hne
  have hself := Function.update_self h (some (xs ++ k :: ys)) (Function.update ls k none)
  have hunlinked := hspliced.remove hself
  have hfree := hspliced.removed hself
  rw [Function.update_idem] at hunlinked hfree
  have hsingle := hunlinked.single fun k' zs hk' _ => hfree k' zs hk'
  rw [Function.update_comm hne, Function.update_idem, ← Function.update_comm hne] at hsingle
  exact hsingle

/-- `list_for_each` goes over the list. -/
theorem forEachNodes_eq {a : α} {fuel : Nat} (hpath : l.Path a xs h) (hnot : h ∉ xs)
    (hfuel : xs.length < fuel) : forEachNodes l h fuel (l.next a) = some xs := by
  induction xs generalizing a fuel with
  | nil =>
    cases fuel with
    | zero => cases hfuel
    | succ fuel => exact if_pos (Rings.path_nil.mp hpath).1
  | cons x xs ih =>
    cases fuel with
    | zero => cases hfuel
    | succ fuel =>
      obtain ⟨hjoined, hrest⟩ := Rings.path_cons.mp hpath
      have hx : x ≠ h := by
        rintro rfl
        exact hnot List.mem_cons_self
      rw [hjoined.1, forEachNodes, if_neg hx,
        ih hrest (fun hmem => hnot (List.mem_cons_of_mem _ hmem)) (Nat.lt_of_succ_lt_succ hfuel)]
      rfl

theorem listForEach_eq (hl : l.Holds ls) (hh : ls h = some xs) {fuel : Nat} (hfuel : xs.length < fuel) :
    listForEach l h fuel = some xs := by
  obtain ⟨hpath, hnodup⟩ := Rings.ring_cons.mp (hl.ring hh)
  exact forEachNodes_eq hpath (List.nodup_cons.mp hnodup).1 hfuel

end holds

/-! ## Loops that take off what they visit -/

section loop

variable {σ ε : Type} {next : σ → α → Except ε α} {h : α} {hang : ε} {body : σ → α → Except ε (σ × Bool)}
  {s : σ}

end loop

/-! ## Runs -/

/-- A call. -/
inductive ListOp (α : Type) where
  | headInit (h : α)
  | nodeInit (n : α)
  | addTail (h n : α)
  | del (n : α)
  | pop (h : α)
  | appendList (h k : α)
  | empty (h : α)
  | top (h : α)
  | tail (h : α)
  | forEach (h : α) (fuel : Nat)

/-- What it returns; the entries that a loop visits. -/
inductive ListOut (α : Type) where
  | done
  | flag (b : Bool)
  | entry (n : Option α)
  | visits (ns : Option (List α))
  deriving DecidableEq

def listStep (l : Links α) : ListOp α → ListOut α × Links α
  | .headInit h => (.done, listHeadInit l h)
  | .nodeInit n => (.done, listNodeInit l n)
  | .addTail h n => (.done, listAddTail l h n)
  | .del n => (.done, listDel l n)
  | .pop h => (.entry (listPop l h).1, (listPop l h).2)
  | .appendList h k => (.done, listAppendList l h k)
  | .empty h => (.flag (listEmpty l h), l)
  | .top h => (.entry (listTop l h), l)
  | .tail h => (.entry (listTail l h), l)
  | .forEach h fuel => (.visits (listForEach l h fuel), l)

def listRun (l : Links α) : List (ListOp α) → List (ListOut α) × Links α
  | [] => ([], l)
  | op :: ops => ((listStep l op).1 :: (listRun (listStep l op).2 ops).1, (listRun (listStep l op).2 ops).2)

/-- What a call is for, on the lists behind their heads: what it returns and
leaves.  The rules are also what the caller keeps to: an entry is added when it is
on no list, and deleted when it is on one. -/
inductive ListSpec (ls : α → Option (List α)) : ListOp α → ListOut α → (α → Option (List α)) → Prop where
  | headInit {h : α} (hfree : ∀ k zs, ls k = some zs → k ≠ h → h ∉ k :: zs) :
      ListSpec ls (.headInit h) .done (Function.update ls h (some []))
  | nodeInit {n : α} (hfree : Rings.Free ls n) : ListSpec ls (.nodeInit n) .done ls
  | addTail {h n : α} {xs : List α} (hh : ls h = some xs) (hfree : Rings.Free ls n) :
      ListSpec ls (.addTail h n) .done (Function.update ls h (some (xs ++ [n])))
  | del {h n : α} {xs ys : List α} (hh : ls h = some (xs ++ n :: ys)) :
      ListSpec ls (.del n) .done (Function.update ls h (some (xs ++ ys)))
  | pop {h : α} {xs : List α} (hh : ls h = some xs) :
      ListSpec ls (.pop h) (.entry xs.head?) (Function.update ls h (some xs.tail))
  | appendList {h k : α} {xs ys : List α} (hh : ls h = some xs) (hk : ls k = some ys) (hne : h ≠ k) :
      ListSpec ls (.appendList h k) .done
        (Function.update (Function.update ls h (some (xs ++ ys))) k (some []))
  | empty {h : α} {xs : List α} (hh : ls h = some xs) : ListSpec ls (.empty h) (.flag xs.isEmpty) ls
  | top {h : α} {xs : List α} (hh : ls h = some xs) : ListSpec ls (.top h) (.entry xs.head?) ls
  | tail {h : α} {xs : List α} (hh : ls h = some xs) : ListSpec ls (.tail h) (.entry xs.getLast?) ls
  | forEach {h : α} {xs : List α} {fuel : Nat} (hh : ls h = some xs) (hfuel : xs.length < fuel) :
      ListSpec ls (.forEach h fuel) (.visits (some xs)) ls

inductive ListSpecs : (α → Option (List α)) → List (ListOp α) → List (ListOut α) →
    (α → Option (List α)) → Prop where
  | nil {ls : α → Option (List α)} : ListSpecs ls [] [] ls
  | cons {ls ls' ls'' : α → Option (List α)} {op : ListOp α} {out : ListOut α} {ops : List (ListOp α)}
      {outs : List (ListOut α)} (hstep : ListSpec ls op out ls') (hrest : ListSpecs ls' ops outs ls'') :
      ListSpecs ls (op :: ops) (out :: outs) ls''

section runs

variable {l : Links α} {ls ls' : α → Option (List α)}

theorem listStep_spec {op : ListOp α} {out : ListOut α} (hl : l.Holds ls) (h : ListSpec ls op out ls') :
    (listStep l op).1 = out ∧ (listStep l op).2.Holds ls' := by
  cases h with
  | headInit hfree => exact ⟨rfl, holds_headInit hl hfree⟩
  | nodeInit hfree => exact ⟨rfl, holds_nodeInit hl hfree⟩
  | addTail hh hfree => exact ⟨rfl, holds_addTail hl hh hfree⟩
  | del hh => exact ⟨rfl, holds_del hl hh⟩
  | pop hh => exact ⟨congrArg ListOut.entry (holds_pop hl hh).1, (holds_pop hl hh).2⟩
  | appendList hh hk hne => exact ⟨rfl, holds_appendList hl hh hk hne⟩
  | empty hh => exact ⟨congrArg ListOut.flag (listEmpty_eq hl hh), hl⟩
  | top hh => exact ⟨congrArg ListOut.entry (listTop_eq hl hh), hl⟩
  | tail hh => exact ⟨congrArg ListOut.entry (listTail_eq hl hh), hl⟩
  | forEach hh hfuel => exact ⟨congrArg ListOut.visits (listForEach_eq hl hh hfuel), hl⟩

/-- **Runs.**  Calls on several lists, in any order, return what lists would give. -/
theorem listRun_spec {ops : List (ListOp α)} {outs : List (ListOut α)} (hl : l.Holds ls)
    (h : ListSpecs ls ops outs ls') : (listRun l ops).1 = outs ∧ (listRun l ops).2.Holds ls' := by
  induction h generalizing l with
  | nil => exact ⟨rfl, hl⟩
  | cons hstep hrest ih =>
    obtain ⟨hout, hholds⟩ := listStep_spec hl hstep
    obtain ⟨houts, hend⟩ := ih hholds
    exact ⟨by rw [listRun, hout, houts], hend⟩

end runs

end list

/-- One list is appended to another, which is then read. -/
def joinOps : List (ListOp Nat) :=
  [.headInit 0, .headInit 1, .addTail 0 10, .addTail 1 11, .addTail 1 12, .appendList 0 1, .pop 0,
    .tail 0, .forEach 0 3]

theorem listRun_spec_join : (listRun ⟨fun _ => 0, fun _ => 0⟩ joinOps).1 =
    [.done, .done, .done, .done, .done, .done, .entry (some 10), .entry (some 12),
      .visits (some [11, 12])] := by
  have hnone := Rings.holds_none (⟨fun _ => 0, fun _ => 0⟩ : Links Nat)
  have hfree : ∀ n, Rings.Free (fun _ : Nat => none) n := fun _ _ _ hh => nomatch hh
  obtain ⟨outs, ls, hspec, houts⟩ : ∃ outs ls, ListSpecs (fun _ => none) joinOps outs ls ∧
      outs = [.done, .done, .done, .done, .done, .done, .entry (some 10), .entry (some 12),
        .visits (some [11, 12])] :=
    ⟨_, _, .cons (.headInit fun _ _ hk => nomatch hk)
      (.cons (.headInit fun k zs hk _ => ((hfree 1).update (by decide)) k zs hk)
      (.cons (.addTail rfl (((hfree 10).update (by decide)).update (by decide)))
      (.cons (.addTail rfl ((((hfree 11).update (by decide)).update (by decide)).update (by decide)))
      (.cons (.addTail rfl (((((hfree 12).update (by decide)).update (by decide)).update
        (by decide)).update (by decide)))
      (.cons (.appendList rfl rfl (by decide))
      (.cons (.pop rfl) (.cons (.tail rfl) (.cons (.forEach rfl (by decide)) .nil)))))))), rfl⟩
  rw [← houts]
  exact (listRun_spec hnone hspec).1

end Libroce
