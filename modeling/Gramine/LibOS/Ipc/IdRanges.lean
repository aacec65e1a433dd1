import Gramine.Common.Errno
import Gramine.Library.IntervalList
import Gramine.Library.SearchTree

/-!
# The IPC leader's ID ranges

The IPC leader hands out process IDs in ranges (`libos/src/ipc/libos_ipc_pid.c`).
`g_id_owners_tree` is an AVL tree of `struct id_range`s, each the IDs
`[start, end]` (`end` included) and the process that owns them, and
`g_last_id` is the last ID handed out. The tree is ordered by `id_range_cmp`,
`a->start <= b->end`, which is `a <= b` for disjoint ranges and, with a range
`[id, id]` as the argument, also the test "the range ends at or after `id`".

* `alloc_id_range` searches from `g_last_id + 1` for free IDs
  (`_find_free_id_range`), inserts a range of at most `MAX_RANGE_SIZE` of them
  and moves `g_last_id` to its end;
* `change_id_owner` finds the range of an ID (a lower bound) and cuts it: the
  ID becomes a range of its own, and what is left of the range is edited in
  place (`start++`, `end--`, `end = id - 1`) or split off;
* `release_id_range` finds the range (an equal-node lookup, an overlap test
  for this comparison) and deletes it;
* `find_id_owner` returns the owner of the range found by the lower bound,
  `0` when the ID lies in no range.

The tree is a `BinaryTree` and its walks are those of `SearchTree`; the
rebalancing rotations keep the sequence of nodes, which is all the walks'
results depend on here, and are left out. A node is a value: the ranges in
the tree are disjoint and non-empty, so no two are equal. `BUG()` ends the
process, and is `none`; a failed `malloc` is an argument. IDs are natural
numbers: `PID_MAX + MAX_RANGE_SIZE` fits in `IDTYPE`, and no ID below `1` is
decremented, so no sum or difference wraps. The lock is held across each call.
-/

namespace Gramine.LibOS.Ipc

open SearchTree

/-- `PID_MAX_LIMIT`: one above the largest PID. -/
def PID_MAX_LIMIT : Nat := 4194304

/-- `PID_MAX`. -/
def PID_MAX : Nat := PID_MAX_LIMIT - 1

/-- `MAX_RANGE_SIZE`. -/
def MAX_RANGE_SIZE : Nat := 0x20

/-- `struct id_range`: the IDs `[start, end]` and their owner. -/
structure IdRange where
  (start end' : Nat)
  owner : Nat
  deriving DecidableEq, Repr

/-- `id_range_cmp`. -/
def idRangeCmp (a b : IdRange) : Bool :=
  decide (a.start ≤ b.end')

/-- The `dummy` range on the stack that a lookup compares nodes with. -/
def dummy (start end' : Nat) : IdRange :=
  ⟨start, end', 0⟩

/-- `g_id_owners_tree` and `g_last_id`. -/
structure IdState where
  idOwnersTree : BinaryTree IdRange
  lastId : Nat

/-- The state before the first call. -/
def IdState.init : IdState :=
  ⟨.nil, 0⟩

/-! ## The calls -/

/-- The loop of `_find_free_id_range` over the ranges from the lower bound of
`next_id` on: the free range it finds, `none` when the IDs up to `PID_MAX`
are taken. -/
def findFreeLoop (nextId : Nat) : List IdRange → Option (Nat × Nat)
  | [] => some (nextId, min (nextId + MAX_RANGE_SIZE - 1) PID_MAX)
  | range :: rest =>
    if nextId < range.start then
      some (nextId, min (min (nextId + MAX_RANGE_SIZE - 1) PID_MAX) (range.start - 1))
    else if range.end' = PID_MAX then none
    else findFreeLoop (range.end' + 1) rest

/-- `_find_free_id_range`; the outer `none` is its `BUG()` at the PID limit. -/
def findFreeIdRange (st : IdState) : Option (Option (Nat × Nat)) :=
  if st.lastId + 1 > PID_MAX then none
  else
    let nextId := st.lastId + 1
    some (findFreeLoop nextId
      (suffixFrom st.idOwnersTree (lowerBound (idRangeCmp (dummy nextId nextId)) st.idOwnersTree)))

/-- `alloc_id_range(owner, &start, &end)`: the state and the range, or the
error of a failed `malloc`, which changes nothing. -/
def allocIdRange (owner : Nat) (allocated : Bool) (st : IdState) :
    Option (Except Int (IdState × Nat × Nat)) :=
  if !allocated then some (.error (-ENOMEM))
  else
    match findFreeIdRange st with
    | some (some (start, end')) =>
      some (.ok (⟨insert idRangeCmp ⟨start, end', owner⟩ st.idOwnersTree, end'⟩, start, end'))
    | _ => none

/-- An assignment to fields of the node `range` where it stands. -/
def updateRange (range range' : IdRange) (tree : BinaryTree IdRange) : BinaryTree IdRange :=
  tree.map fun a => if a = range then range' else a

/-- The edits `change_id_owner` makes to the tree once it has found the range
`range` of `id`. -/
def reassign (id newOwner : Nat) (range : IdRange) (tree : BinaryTree IdRange) : BinaryTree IdRange :=
  if range.start = range.end' then updateRange range { range with owner := newOwner } tree
  else if range.start = id then
    insert idRangeCmp ⟨id, id, newOwner⟩ (updateRange range { range with start := range.start + 1 } tree)
  else if range.end' = id then
    insert idRangeCmp ⟨id, id, newOwner⟩ (updateRange range { range with end' := range.end' - 1 } tree)
  else
    insert idRangeCmp ⟨id + 1, range.end', range.owner⟩
      (insert idRangeCmp ⟨id, id, newOwner⟩ (updateRange range { range with end' := id - 1 } tree))

/-- `change_id_owner(id, new_owner)`; `allocated1` and `allocated2` are the
outcomes of its two `malloc`s. -/
def changeIdOwner (id newOwner : Nat) (allocated1 allocated2 : Bool) (st : IdState) :
    Option (Except Int IdState) :=
  if !allocated1 || !allocated2 then some (.error (-ENOMEM))
  else
    match lowerBound (idRangeCmp (dummy id id)) st.idOwnersTree with
    | none => none
    | some range =>
      if id < range.start ∨ range.end' < id then none
      else some (.ok { st with idOwnersTree := reassign id newOwner range st.idOwnersTree })

/-- `release_id_range(start, end)`. -/
def releaseIdRange (start end' : Nat) (st : IdState) : Option IdState :=
  match find (idRangeCmp (dummy start end')) (fun node => idRangeCmp node (dummy start end'))
      st.idOwnersTree with
  | none => none
  | some range =>
    if range.start ≠ start ∨ range.end' ≠ end' then none
    else some { st with idOwnersTree := eraseNode range st.idOwnersTree }

/-- `find_id_owner(id)`. -/
def findIdOwner (id : Nat) (st : IdState) : Nat :=
  match lowerBound (idRangeCmp (dummy id id)) st.idOwnersTree with
  | none => 0
  | some range => if id < range.start ∨ range.end' < id then 0 else range.owner

/-! ## What the tree stands for -/

/-- The ranges of the tree, in order. -/
def IdState.ranges (st : IdState) : List IdRange :=
  inorder st.idOwnersTree

/-- One above the last ID of a range: the ranges as half-open intervals. -/
def rangeHi (r : IdRange) : Nat :=
  r.end' + 1

/-- The owner of each ID: the partial map the tree stands for. -/
def ownerOf (st : IdState) (id : Nat) : Option Nat :=
  IntervalList.lookup IdRange.start rangeHi (fun r _ => r.owner) st.ranges id

/-- A range as `alloc_id_range` and `change_id_owner` leave it: not empty,
of positive IDs, at most `MAX_RANGE_SIZE` long and at or below `g_last_id`. -/
structure RangeOk (lastId : Nat) (r : IdRange) : Prop where
  nonempty : r.start ≤ r.end'
  positive : 1 ≤ r.start
  small : r.end' + 1 - r.start ≤ MAX_RANGE_SIZE
  belowLast : r.end' ≤ lastId

/-- The invariant of the tree: its ranges, in order, are disjoint and
ascending, and each is as `RangeOk` says; `g_last_id` is at most `PID_MAX`. -/
structure IdInv (st : IdState) : Prop where
  ascending : IntervalList.Ascending IdRange.start rangeHi st.ranges
  ranges : ∀ r ∈ st.ranges, RangeOk st.lastId r
  lastFits : st.lastId ≤ PID_MAX

/-! ## The invariant and the lookups -/

@[simp] theorem ranges_mk (tree : BinaryTree IdRange) (lastId : Nat) :
    (IdState.mk tree lastId).ranges = inorder tree := rfl

@[simp] theorem idRangeCmp_dummy (start end' : Nat) (r : IdRange) :
    idRangeCmp (dummy start end') r = decide (start ≤ r.end') := rfl

@[simp] theorem idRangeCmp_dummy_right (start end' : Nat) (r : IdRange) :
    idRangeCmp r (dummy start end') = decide (r.start ≤ end') := rfl

theorem idRangeCmp_of_le {a b : IdRange} (le : a.start ≤ b.end') : idRangeCmp a b = true :=
  decide_eq_true le

theorem idRangeCmp_of_lt {a b : IdRange} (lt : b.end' < a.start) : idRangeCmp a b = false :=
  decide_eq_false (Nat.not_le.mpr lt)

theorem contains_iff {r : IdRange} {id : Nat} :
    IntervalList.Contains IdRange.start rangeHi r id ↔ r.start ≤ id ∧ id ≤ r.end' := by
  simp only [IntervalList.Contains, rangeHi]
  omega

theorem RangeOk.mono {lastId lastId' : Nat} {r : IdRange} (ok : RangeOk lastId r) (le : lastId ≤ lastId') :
    RangeOk lastId' r :=
  ⟨ok.nonempty, ok.positive, ok.small, ok.belowLast.trans le⟩

theorem IdInv.init : IdInv IdState.init :=
  ⟨List.Pairwise.nil, fun _ member => absurd member List.not_mem_nil, Nat.zero_le _⟩

section Inv

variable {st : IdState} (inv : IdInv st)
include inv

/-- Every ID of the tree lies in `[1, PID_MAX]`. -/
theorem IdInv.bounds {r : IdRange} (member : r ∈ st.ranges) : 1 ≤ r.start ∧ r.end' ≤ PID_MAX :=
  ⟨(inv.ranges r member).positive, (inv.ranges r member).belowLast.trans inv.lastFits⟩

/-- Around a range of the tree, the ranges before it end below its start and
those after it start above its end. -/
theorem IdInv.around {l₁ l₂ : List IdRange} {r : IdRange} (split : st.ranges = l₁ ++ r :: l₂) :
    (∀ a ∈ l₁, a.end' < r.start) ∧ ∀ b ∈ l₂, r.end' < b.start := by
  have ascending := inv.ascending
  rw [split] at ascending
  obtain ⟨-, right, across⟩ := IntervalList.ascending_append.mp ascending
  obtain ⟨after, -⟩ := IntervalList.ascending_cons.mp right
  refine ⟨fun a member => ?_, fun b member => ?_⟩
  · have := across a member r List.mem_cons_self
    simp only [rangeHi] at this
    omega
  · have := after b member
    simp only [rangeHi] at this
    omega

theorem IdInv.split {r : IdRange} (member : r ∈ st.ranges) :
    ∃ l₁ l₂, st.ranges = l₁ ++ r :: l₂ ∧ (∀ a ∈ l₁, a.end' < r.start) ∧ ∀ b ∈ l₂, r.end' < b.start := by
  obtain ⟨l₁, l₂, split⟩ := List.append_of_mem member
  exact ⟨l₁, l₂, split, inv.around split⟩

/-- The ranges are in the order of `id_range_cmp`, each `<=` every later one
and none of them `<=` an earlier one. -/
theorem IdInv.sorted : st.ranges.Pairwise fun a b => idRangeCmp a b = true ∧ idRangeCmp b a = false :=
  List.Pairwise.imp_of_mem (fun {a b} aMember bMember before => by
    have := (inv.ranges a aMember).nonempty
    have := (inv.ranges b bMember).nonempty
    simp only [idRangeCmp, rangeHi, decide_eq_true_eq, decide_eq_false_iff_not] at before ⊢
    omega) inv.ascending

/-- The comparison of a fixed range with the nodes rises along the ranges. -/
theorem IdInv.rising (x : IdRange) : Rising (idRangeCmp x) st.ranges :=
  List.Pairwise.imp_of_mem (fun {_ b} _ bMember before holds => by
    have := (inv.ranges b bMember).nonempty
    simp only [idRangeCmp, rangeHi, decide_eq_true_eq] at before holds ⊢
    omega) inv.ascending

/-- The comparison of the nodes with a fixed range falls along the ranges. -/
theorem IdInv.falling (x : IdRange) : Falling (fun node => idRangeCmp node x) st.ranges :=
  List.Pairwise.imp_of_mem (fun {a _} aMember _ before holds => by
    have := (inv.ranges a aMember).nonempty
    simp only [idRangeCmp, rangeHi, decide_eq_true_eq] at before holds ⊢
    omega) inv.ascending

theorem IdInv.ownerOf_eq_some {id o : Nat} :
    ownerOf st id = some o ↔ ∃ r ∈ st.ranges, (r.start ≤ id ∧ id ≤ r.end') ∧ r.owner = o := by
  simp only [ownerOf, inv.ascending.lookup_eq_some_iff, contains_iff]

theorem IdInv.ownerOf_of_mem {r : IdRange} (member : r ∈ st.ranges) {id : Nat}
    (inside : r.start ≤ id ∧ id ≤ r.end') : ownerOf st id = some r.owner :=
  inv.ownerOf_eq_some.mpr ⟨r, member, inside, rfl⟩

end Inv

theorem ownerOf_eq_none {st : IdState} {id : Nat} :
    ownerOf st id = none ↔ ∀ r ∈ st.ranges, ¬ (r.start ≤ id ∧ id ≤ r.end') := by
  simp only [ownerOf, IntervalList.lookup_eq_none_iff, contains_iff]

/-- `find_id_owner` reads the map: the owner of the ID, `0` when it has none. -/
theorem findIdOwner_eq {st : IdState} (inv : IdInv st) (id : Nat) : findIdOwner id st = (ownerOf st id).getD 0 := by
  have lower : lowerBound (idRangeCmp (dummy id id)) st.idOwnersTree = st.ranges.find? (idRangeCmp (dummy id id)) :=
    lowerBound_eq_find? (inv.rising (dummy id id))
  unfold findIdOwner
  rw [lower]
  cases found : st.ranges.find? (idRangeCmp (dummy id id)) with
  | none =>
    -- every range ends before `id`
    have unmapped : ownerOf st id = none := ownerOf_eq_none.mpr fun r member inside => by
      have := List.find?_eq_none.mp found r member
      simp only [idRangeCmp_dummy, decide_eq_true_eq] at this
      omega
    rw [unmapped]
    rfl
  | some r =>
    obtain ⟨passes, l₁, l₂, split, before⟩ := List.find?_eq_some_iff_append.mp found
    have member : r ∈ st.ranges := by simp [split]
    simp only [idRangeCmp_dummy, decide_eq_true_eq] at passes
    dsimp only
    split_ifs with outside
    · -- `id` lies between the ranges before `r` and `r` itself
      have below : id < r.start := by omega
      have unmapped : ownerOf st id = none := ownerOf_eq_none.mpr fun a aMember inside => by
        rw [split] at aMember
        rcases List.mem_append.mp aMember with early | late
        · have := before a early
          simp only [idRangeCmp_dummy, Bool.not_eq_true', decide_eq_false_iff_not] at this
          omega
        · rcases List.mem_cons.mp late with rfl | later
          · omega
          · have := (inv.around split).2 a later
            omega
      rw [unmapped]
      rfl
    · rw [inv.ownerOf_of_mem member (by omega)]
      rfl

/-! ## `alloc_id_range` -/

/-- The end of the range `alloc_id_range` hands out after `g_last_id`. -/
def allocEnd (lastId : Nat) : Nat :=
  min (lastId + MAX_RANGE_SIZE) PID_MAX

section Alloc

variable {st : IdState} (inv : IdInv st)
include inv

/-- Every range ends at or below `g_last_id`: the search from `g_last_id + 1`
finds no range and hands out the IDs that follow. -/
theorem allocIdRange_eq (room : st.lastId < PID_MAX) (owner : Nat) :
    allocIdRange owner true st =
      some (.ok (⟨insert idRangeCmp ⟨st.lastId + 1, allocEnd st.lastId, owner⟩ st.idOwnersTree,
        allocEnd st.lastId⟩, st.lastId + 1, allocEnd st.lastId)) := by
  have none : lowerBound (idRangeCmp (dummy (st.lastId + 1) (st.lastId + 1))) st.idOwnersTree = none := by
    have below : ∀ a ∈ st.ranges, idRangeCmp (dummy (st.lastId + 1) (st.lastId + 1)) a = false := by
      intro a member
      have := (inv.ranges a member).belowLast
      simp only [idRangeCmp_dummy, decide_eq_false_iff_not]
      omega
    exact lowerBound_between (List.append_nil _).symm below (fun _ member => absurd member List.not_mem_nil)
  have loop : min (st.lastId + 1 + MAX_RANGE_SIZE - 1) PID_MAX = allocEnd st.lastId := by
    simp only [allocEnd, MAX_RANGE_SIZE]
    omega
  simp only [allocIdRange, findFreeIdRange, Bool.not_true, Bool.false_eq_true, if_false,
    if_neg (show ¬ st.lastId + 1 > PID_MAX by omega), none, suffixFrom, findFreeLoop, loop]

/-- The new range goes after every range of the tree. -/
theorem allocIdRange_ranges (owner : Nat) :
    inorder (insert idRangeCmp ⟨st.lastId + 1, allocEnd st.lastId, owner⟩ st.idOwnersTree) =
      st.ranges ++ [⟨st.lastId + 1, allocEnd st.lastId, owner⟩] :=
  inorder_insert_between idRangeCmp (List.append_nil _).symm
    (fun a member => by
      have := (inv.ranges a member).belowLast
      simp only [idRangeCmp, decide_eq_false_iff_not]
      omega)
    (fun _ member => absurd member List.not_mem_nil)

/-- No ID after `g_last_id` has an owner. -/
theorem IdInv.fresh {id : Nat} (after : st.lastId + 1 ≤ id) : ownerOf st id = none :=
  ownerOf_eq_none.mpr fun r member inside => by
    have := (inv.ranges r member).belowLast
    omega

variable (owner : Nat)

/-- `alloc_id_range(owner)` gives `owner` the range from `g_last_id + 1` and
leaves every other ID as it was. -/
theorem ownerOf_allocIdRange (id : Nat) :
    ownerOf ⟨insert idRangeCmp ⟨st.lastId + 1, allocEnd st.lastId, owner⟩ st.idOwnersTree, allocEnd st.lastId⟩ id =
      if st.lastId + 1 ≤ id ∧ id ≤ allocEnd st.lastId then some owner else ownerOf st id := by
  simp only [ownerOf, ranges_mk, allocIdRange_ranges inv, IntervalList.lookup_append, IntervalList.lookup_cons,
    IntervalList.lookup_nil, contains_iff]
  split_ifs with inside
  · rw [show IntervalList.lookup IdRange.start rangeHi (fun r _ => r.owner) st.ranges id = none from
      inv.fresh inside.1, Option.none_or]
  · exact Option.or_none

variable (room : st.lastId < PID_MAX)
include room

theorem allocIdRange_inv :
    IdInv ⟨insert idRangeCmp ⟨st.lastId + 1, allocEnd st.lastId, owner⟩ st.idOwnersTree, allocEnd st.lastId⟩ := by
  have grown : st.lastId ≤ allocEnd st.lastId := by
    simp only [allocEnd]
    omega
  refine ⟨?_, ?_, by simp [allocEnd]⟩
  · rw [ranges_mk, allocIdRange_ranges inv]
    refine IntervalList.ascending_append.mpr ⟨inv.ascending, List.pairwise_singleton _ _, ?_⟩
    intro a member b new
    rw [List.mem_singleton.mp new]
    have := (inv.ranges a member).belowLast
    simp only [rangeHi]
    omega
  · rw [ranges_mk, allocIdRange_ranges inv]
    intro r member
    rcases List.mem_append.mp member with old | new
    · exact (inv.ranges r old).mono grown
    · rw [List.mem_singleton.mp new]
      refine ⟨?_, by simp, ?_, le_rfl⟩ <;> simp only [allocEnd, MAX_RANGE_SIZE] <;> omega

end Alloc

/-! ## `change_id_owner` -/

/-- The ranges that stand where `range` stood once `change_id_owner` has cut
`id` out of it, in order. -/
def pieces (id newOwner : Nat) (range : IdRange) : List IdRange :=
  if range.start = range.end' then [{ range with owner := newOwner }]
  else if range.start = id then [⟨id, id, newOwner⟩, { range with start := range.start + 1 }]
  else if range.end' = id then [{ range with end' := range.end' - 1 }, ⟨id, id, newOwner⟩]
  else [{ range with end' := id - 1 }, ⟨id, id, newOwner⟩, ⟨id + 1, range.end', range.owner⟩]

/-- A non-empty range within a range of the tree is as `RangeOk` says. -/
theorem RangeOk.of_within {lastId : Nat} {range a : IdRange} (ok : RangeOk lastId range)
    (within : range.start ≤ a.start ∧ a.end' ≤ range.end' ∧ a.start ≤ a.end') : RangeOk lastId a where
  nonempty := within.2.2
  positive := ok.positive.trans within.1
  small := by have := ok.small; omega
  belowLast := within.2.1.trans ok.belowLast

section Pieces

variable {id newOwner : Nat} {range : IdRange} (inside : range.start ≤ id ∧ id ≤ range.end')
include inside

theorem pieces_within : ∀ a ∈ pieces id newOwner range,
    range.start ≤ a.start ∧ a.end' ≤ range.end' ∧ a.start ≤ a.end' := by
  unfold pieces
  split_ifs <;> simp <;> omega

theorem pieces_inside : ∀ a ∈ pieces id newOwner range, ∃ b ∈ [range], b.start ≤ a.start ∧ rangeHi a ≤ rangeHi b := by
  intro a piece
  have := pieces_within inside a piece
  exact ⟨range, List.mem_singleton_self _, this.1, by simp only [rangeHi]; omega⟩

theorem pieces_ascending : IntervalList.Ascending IdRange.start rangeHi (pieces id newOwner range) := by
  unfold pieces
  split_ifs <;> simp [IntervalList.Ascending, rangeHi] <;> omega

/-- Over the IDs of `range`, the pieces give `id` to the new owner and every
other ID to the old one. -/
theorem lookup_pieces {x : Nat} (inX : range.start ≤ x ∧ x ≤ range.end') :
    IntervalList.lookup IdRange.start rangeHi (fun r _ => r.owner) (pieces id newOwner range) x =
      if x = id then some newOwner else some range.owner := by
  unfold pieces
  split_ifs <;>
    simp only [IntervalList.lookup_cons, IntervalList.lookup_nil, contains_iff] <;>
    split_ifs <;> first | rfl | (exfalso; omega)

end Pieces

section Change

variable {st : IdState} (inv : IdInv st) {l₁ l₂ : List IdRange} {range : IdRange}
  (split : st.ranges = l₁ ++ range :: l₂)
include inv split

theorem IdInv.not_mem_around : range ∉ l₁ ∧ range ∉ l₂ := by
  have nonempty := (inv.ranges range (by simp [split])).nonempty
  refine ⟨fun member => ?_, fun member => ?_⟩
  · have := (inv.around split).1 range member
    omega
  · have := (inv.around split).2 range member
    omega

/-- An assignment to the fields of `range` changes it where it stands. -/
theorem updateRange_ranges (range' : IdRange) :
    inorder (updateRange range range' st.idOwnersTree) = l₁ ++ range' :: l₂ := by
  have keep : ∀ l : List IdRange, range ∉ l → (l.map fun a => if a = range then range' else a) = l := by
    intro l notIn
    calc (l.map fun a => if a = range then range' else a) = l.map id :=
          List.map_congr_left fun a member => if_neg fun (same : a = range) => notIn (same ▸ member)
      _ = l := List.map_id l
  have ranges : inorder st.idOwnersTree = l₁ ++ range :: l₂ := split
  unfold updateRange
  rw [inorder_map, ranges, List.map_append, List.map_cons, if_pos rfl,
    keep l₁ (inv.not_mem_around split).1, keep l₂ (inv.not_mem_around split).2]

theorem eraseNode_ranges : inorder (eraseNode range st.idOwnersTree) = l₁ ++ l₂ := by
  have ranges : inorder st.idOwnersTree = l₁ ++ range :: l₂ := split
  rw [inorder_eraseNode, ranges, List.erase_append_right _ (inv.not_mem_around split).1, List.erase_cons_head]

/-- What `change_id_owner` leaves in the tree: the pieces of `range` where it
stood. -/
theorem reassign_ranges {id newOwner : Nat} (inside : range.start ≤ id ∧ id ≤ range.end') :
    inorder (reassign id newOwner range st.idOwnersTree) = l₁ ++ pieces id newOwner range ++ l₂ := by
  have before := (inv.around split).1
  have after : ∀ b ∈ l₂, range.end' < b.start ∧ b.start ≤ b.end' := fun b member =>
    ⟨(inv.around split).2 b member, (inv.ranges b (by simp [split, member])).nonempty⟩
  unfold reassign pieces
  split_ifs with single first last
  · rw [updateRange_ranges inv split]
    simp
  · -- `start++`, then `[id, id]` in front of what is left
    rw [inorder_insert_between idRangeCmp (updateRange_ranges inv split _)
      (fun a member => idRangeCmp_of_lt (show a.end' < id by have := before a member; omega))
      (fun b member => by
        rcases List.mem_cons.mp member with rfl | later
        · exact idRangeCmp_of_le (show id ≤ range.end' by omega)
        · exact idRangeCmp_of_le (show id ≤ b.end' by have := after b later; omega))]
    simp
  · -- `end--`, then `[id, id]` after what is left
    have ranges := updateRange_ranges inv split { range with end' := range.end' - 1 }
    rw [show l₁ ++ { range with end' := range.end' - 1 } :: l₂ =
      (l₁ ++ [{ range with end' := range.end' - 1 }]) ++ l₂ by simp] at ranges
    rw [inorder_insert_between idRangeCmp ranges
      (fun a member => by
        rcases List.mem_append.mp member with early | here
        · exact idRangeCmp_of_lt (show a.end' < id by have := before a early; omega)
        · rw [List.mem_singleton.mp here]
          exact idRangeCmp_of_lt (show range.end' - 1 < id by omega))
      (fun b member => idRangeCmp_of_le (show id ≤ b.end' by have := after b member; omega))]
    simp
  · -- `end = id - 1`, then `[id, id]` and `[id + 1, end]` after it
    have ranges := updateRange_ranges inv split { range with end' := id - 1 }
    rw [show l₁ ++ { range with end' := id - 1 } :: l₂ = (l₁ ++ [{ range with end' := id - 1 }]) ++ l₂ by simp]
      at ranges
    have first := inorder_insert_between idRangeCmp ranges (x := ⟨id, id, newOwner⟩)
      (fun a member => by
        rcases List.mem_append.mp member with early | here
        · exact idRangeCmp_of_lt (show a.end' < id by have := before a early; omega)
        · rw [List.mem_singleton.mp here]
          exact idRangeCmp_of_lt (show id - 1 < id by omega))
      (fun b member => idRangeCmp_of_le (show id ≤ b.end' by have := after b member; omega))
    rw [show (l₁ ++ [{ range with end' := id - 1 }]) ++ ⟨id, id, newOwner⟩ :: l₂ =
      (l₁ ++ [{ range with end' := id - 1 }, ⟨id, id, newOwner⟩]) ++ l₂ by simp] at first
    rw [inorder_insert_between idRangeCmp first
      (fun a member => by
        rcases List.mem_append.mp member with early | here
        · exact idRangeCmp_of_lt (show a.end' < id + 1 by have := before a early; omega)
        · rcases List.mem_cons.mp here with rfl | last
          · exact idRangeCmp_of_lt (show id - 1 < id + 1 by omega)
          · rw [List.mem_singleton.mp last]
            exact idRangeCmp_of_lt (show id < id + 1 by omega))
      (fun b member => idRangeCmp_of_le (show id + 1 ≤ b.end' by have := after b member; omega))]
    simp

end Change

section ChangeSpec

variable {st : IdState} (inv : IdInv st) {range : IdRange} (member : range ∈ st.ranges) {id : Nat}
  (inside : range.start ≤ id ∧ id ≤ range.end')
include inv member inside

/-- The lower bound of `[id, id]` is the range of `id`. -/
theorem lowerBound_of_mem : lowerBound (idRangeCmp (dummy id id)) st.idOwnersTree = some range := by
  obtain ⟨l₁, l₂, split, before, after⟩ := inv.split member
  have ranges : inorder st.idOwnersTree = l₁ ++ range :: l₂ := split
  rw [lowerBound_between ranges
    (fun a early => by have := before a early; simp only [idRangeCmp_dummy, decide_eq_false_iff_not]; omega)
    (fun b late => by
      rcases List.mem_cons.mp late with rfl | later
      · simp only [idRangeCmp_dummy, decide_eq_true_eq]
        omega
      · have := after b later
        have := (inv.ranges b (by simp [split, later])).nonempty
        simp only [idRangeCmp_dummy, decide_eq_true_eq]
        omega)]
  rfl

theorem changeIdOwner_eq (newOwner : Nat) :
    changeIdOwner id newOwner true true st = some (.ok ⟨reassign id newOwner range st.idOwnersTree, st.lastId⟩) := by
  simp only [changeIdOwner, Bool.not_true, Bool.or_self, Bool.false_eq_true, if_false, lowerBound_of_mem inv member inside]
  rw [if_neg (by omega)]

/-- `change_id_owner(id, owner)` gives `id` to `owner` and no other ID to
anyone else. -/
theorem ownerOf_changeIdOwner (newOwner x : Nat) :
    ownerOf ⟨reassign id newOwner range st.idOwnersTree, st.lastId⟩ x = if x = id then some newOwner else ownerOf st x := by
  obtain ⟨l₁, l₂, split, -, -⟩ := inv.split member
  have ascending : IntervalList.Ascending IdRange.start rangeHi (l₁ ++ [range] ++ l₂) := by
    have := inv.ascending
    rwa [split, ← List.singleton_append, ← List.append_assoc] at this
  have now : ownerOf ⟨reassign id newOwner range st.idOwnersTree, st.lastId⟩ x =
      IntervalList.lookup IdRange.start rangeHi (fun r _ => r.owner) (l₁ ++ pieces id newOwner range ++ l₂) x := by
    rw [ownerOf, ranges_mk, reassign_ranges inv split inside]
  have before : ownerOf st x = IntervalList.lookup IdRange.start rangeHi (fun r _ => r.owner) (l₁ ++ [range] ++ l₂) x := by
    rw [ownerOf, split, ← List.singleton_append, ← List.append_assoc]
  rw [now, ascending.lookup_replace (pieces_inside inside), ← before]
  by_cases inX : range.start ≤ x ∧ x ≤ range.end'
  · -- inside `range` the pieces decide, and outside `id` they keep the old owner
    rw [if_pos ⟨range, List.mem_singleton_self _, contains_iff.mpr inX⟩, lookup_pieces inside inX,
      inv.ownerOf_of_mem member inX]
  · have notId : x ≠ id := fun same => inX (same ▸ inside)
    rw [if_neg fun ⟨b, here, contains⟩ => inX (List.mem_singleton.mp here ▸ contains_iff.mp contains), if_neg notId]

theorem changeIdOwner_inv (newOwner : Nat) : IdInv ⟨reassign id newOwner range st.idOwnersTree, st.lastId⟩ := by
  obtain ⟨l₁, l₂, split, -, -⟩ := inv.split member
  have old : ∀ r ∈ l₁ ++ l₂, r ∈ st.ranges := fun r kept => by
    rw [split]
    rcases List.mem_append.mp kept with early | late
    · exact List.mem_append_left _ early
    · exact List.mem_append_right _ (List.mem_cons_of_mem _ late)
  refine ⟨?_, fun r kept => ?_, inv.lastFits⟩
  · have ascending := inv.ascending
    rw [split, ← List.singleton_append, ← List.append_assoc] at ascending
    rw [ranges_mk, reassign_ranges inv split inside]
    exact ascending.replace (pieces_ascending inside) (pieces_inside inside)
  · rw [ranges_mk, reassign_ranges inv split inside] at kept
    rcases List.mem_append.mp kept with front | late
    · rcases List.mem_append.mp front with early | piece
      · exact inv.ranges r (old r (List.mem_append_left _ early))
      · exact (inv.ranges range member).of_within (pieces_within inside r piece)
    · exact inv.ranges r (old r (List.mem_append_right _ late))

end ChangeSpec

/-! ## `release_id_range` -/

section Release

variable {st : IdState} (inv : IdInv st) {range : IdRange} (member : range ∈ st.ranges)
include inv member

/-- The equal-node lookup of `[start, end]` finds the range itself: it is the
only range of the tree that overlaps it. -/
theorem find_of_mem :
    find (idRangeCmp (dummy range.start range.end')) (fun node => idRangeCmp node (dummy range.start range.end'))
      st.idOwnersTree = some range := by
  have nonempty := (inv.ranges range member).nonempty
  obtain ⟨z, found⟩ := Option.isSome_iff_exists.mp (find_isSome (inv.rising (dummy range.start range.end'))
    (inv.falling (dummy range.start range.end')) ⟨range, member, by simp [nonempty], by simp [nonempty]⟩)
  obtain ⟨zMember, passes, equal⟩ := find_spec found
  obtain ⟨l₁, l₂, split, before, after⟩ := inv.split member
  simp only [idRangeCmp_dummy, idRangeCmp_dummy_right, decide_eq_true_eq] at passes equal
  have same : z = range := by
    have : z ∈ l₁ ++ range :: l₂ := split ▸ zMember
    rcases List.mem_append.mp this with early | late
    · have := before z early
      omega
    · rcases List.mem_cons.mp late with same | later
      · exact same
      · have := after z later
        omega
  rw [found, same]

theorem releaseIdRange_eq :
    releaseIdRange range.start range.end' st = some ⟨eraseNode range st.idOwnersTree, st.lastId⟩ := by
  simp only [releaseIdRange, find_of_mem inv member, ne_eq, not_true_eq_false, or_self, if_false]

/-- `release_id_range(start, end)` takes exactly the IDs of the range away. -/
theorem ownerOf_releaseIdRange (x : Nat) :
    ownerOf ⟨eraseNode range st.idOwnersTree, st.lastId⟩ x =
      if range.start ≤ x ∧ x ≤ range.end' then none else ownerOf st x := by
  obtain ⟨l₁, l₂, split, -, -⟩ := inv.split member
  have ascending : IntervalList.Ascending IdRange.start rangeHi (l₁ ++ [range] ++ l₂) := by
    have := inv.ascending
    rwa [split, ← List.singleton_append, ← List.append_assoc] at this
  have now : ownerOf ⟨eraseNode range st.idOwnersTree, st.lastId⟩ x =
      IntervalList.lookup IdRange.start rangeHi (fun r _ => r.owner) (l₁ ++ [] ++ l₂) x := by
    rw [ownerOf, ranges_mk, eraseNode_ranges inv split, List.append_nil]
  have before : ownerOf st x = IntervalList.lookup IdRange.start rangeHi (fun r _ => r.owner) (l₁ ++ [range] ++ l₂) x := by
    rw [ownerOf, split, ← List.singleton_append, ← List.append_assoc]
  rw [now, ascending.lookup_replace (fun _ gone => absurd gone List.not_mem_nil), ← before]
  by_cases inX : range.start ≤ x ∧ x ≤ range.end'
  · rw [if_pos ⟨range, List.mem_singleton_self _, contains_iff.mpr inX⟩, if_pos inX]
    rfl
  · rw [if_neg fun ⟨b, here, contains⟩ => inX (List.mem_singleton.mp here ▸ contains_iff.mp contains), if_neg inX]

theorem releaseIdRange_inv : IdInv ⟨eraseNode range st.idOwnersTree, st.lastId⟩ := by
  obtain ⟨l₁, l₂, split, -, -⟩ := inv.split member
  have sublist : (l₁ ++ l₂).Sublist st.ranges := by
    rw [split]
    exact List.Sublist.append_left (List.sublist_cons_self _ _) _
  refine ⟨?_, fun r kept => ?_, inv.lastFits⟩
  · rw [ranges_mk, eraseNode_ranges inv split]
    exact inv.ascending.sublist sublist
  · rw [ranges_mk, eraseNode_ranges inv split] at kept
    exact inv.ranges r (sublist.subset kept)

end Release

/-! ## Runs of the leader -/

/-- The calls on the ID tree, with the outcomes of their allocations. -/
inductive IdOp where
  | allocIdRange (owner : Nat) (allocated : Bool)
  | changeIdOwner (id newOwner : Nat) (allocated1 allocated2 : Bool)
  | releaseIdRange (start end' : Nat)

/-- The state after a call: a call that returns an error changes nothing, and
`none` is a `BUG()`. -/
def idStep (st : IdState) : IdOp → Option IdState
  | .allocIdRange owner allocated =>
    (allocIdRange owner allocated st).map fun
      | .ok (st', _) => st'
      | .error _ => st
  | .changeIdOwner id newOwner allocated1 allocated2 =>
    (changeIdOwner id newOwner allocated1 allocated2 st).map fun
      | .ok st' => st'
      | .error _ => st
  | .releaseIdRange start end' => releaseIdRange start end' st

/-- The calls the leader makes: `change_id_owner` of an ID that has an owner,
and `release_id_range` of a range of the tree. -/
def IdOp.Allowed (st : IdState) : IdOp → Prop
  | .allocIdRange _ _ => True
  | .changeIdOwner id _ _ _ => (ownerOf st id).isSome
  | .releaseIdRange start end' => ∃ r ∈ st.ranges, r.start = start ∧ r.end' = end'

/-- The states reached from the empty tree by such calls. -/
inductive IdReachable : IdState → Prop where
  | init : IdReachable IdState.init
  | step {st st' : IdState} (op : IdOp) : IdReachable st → op.Allowed st → idStep st op = some st' →
      IdReachable st'

/-- `alloc_id_range` stops the leader once `g_last_id` is `PID_MAX`. -/
theorem allocIdRange_bug {st : IdState} (full : PID_MAX ≤ st.lastId) (owner : Nat) :
    allocIdRange owner true st = none := by
  simp [allocIdRange, findFreeIdRange, show st.lastId + 1 > PID_MAX by omega]

theorem changeIdOwner_nomem {st : IdState} {id newOwner : Nat} {allocated1 allocated2 : Bool}
    (failed : ¬ (allocated1 = true ∧ allocated2 = true)) :
    changeIdOwner id newOwner allocated1 allocated2 st = some (.error (-ENOMEM)) := by
  cases allocated1 <;> cases allocated2 <;> simp_all [changeIdOwner]

/-- Each call the leader makes keeps the invariant. -/
theorem idStep_inv {st st' : IdState} (inv : IdInv st) {op : IdOp} (allowed : op.Allowed st)
    (h : idStep st op = some st') : IdInv st' := by
  cases op with
  | allocIdRange owner allocated =>
    cases allocated
    · simp only [idStep, allocIdRange, Bool.not_false, if_true, Option.map_some, Option.some.injEq] at h
      exact h ▸ inv
    · by_cases room : st.lastId < PID_MAX
      · rw [idStep, allocIdRange_eq inv room, Option.map_some, Option.some.injEq] at h
        exact h ▸ allocIdRange_inv inv owner room
      · rw [idStep, allocIdRange_bug (by omega), Option.map_none] at h
        cases h
  | changeIdOwner id newOwner allocated1 allocated2 =>
    by_cases both : allocated1 = true ∧ allocated2 = true
    · obtain ⟨rfl, rfl⟩ := both
      obtain ⟨_, found⟩ := Option.isSome_iff_exists.mp allowed
      obtain ⟨range, member, inside, -⟩ := inv.ownerOf_eq_some.mp found
      rw [idStep, changeIdOwner_eq inv member inside, Option.map_some, Option.some.injEq] at h
      exact h ▸ changeIdOwner_inv inv member inside newOwner
    · rw [idStep, changeIdOwner_nomem both, Option.map_some, Option.some.injEq] at h
      exact h ▸ inv
  | releaseIdRange start end' =>
    obtain ⟨range, member, rfl, rfl⟩ := allowed
    rw [idStep, releaseIdRange_eq inv member, Option.some.injEq] at h
    exact h ▸ releaseIdRange_inv inv member

/-- Every state the leader reaches keeps the invariant. -/
theorem IdReachable.inv {st : IdState} (reached : IdReachable st) : IdInv st := by
  induction reached with
  | init => exact IdInv.init
  | step op _ allowed h ih => exact idStep_inv ih allowed h

/-- The ID tree of every state the leader reaches refines a partial map from
IDs to owners. Its ranges are disjoint, non-empty, within `[1, PID_MAX]`, at
most `MAX_RANGE_SIZE` long and at or below `g_last_id`, in the order of
`id_range_cmp`. `alloc_id_range` gives the range from `g_last_id + 1`, free
until then, to its owner; `change_id_owner` changes the owner of exactly its
ID; `release_id_range` takes exactly its range away; `find_id_owner` reads
the map, with `0` for an ID without owner. -/
theorem idTree_refines_owner_map {st : IdState} (reached : IdReachable st) :
    IdInv st ∧ st.ranges.Pairwise (fun a b => idRangeCmp a b = true ∧ idRangeCmp b a = false) ∧
      (∀ owner, st.lastId < PID_MAX → ∃ st', allocIdRange owner true st =
          some (.ok (st', st.lastId + 1, allocEnd st.lastId)) ∧ st'.lastId = allocEnd st.lastId ∧
        (∀ x, st.lastId + 1 ≤ x → ownerOf st x = none) ∧
        ∀ x, ownerOf st' x = if st.lastId + 1 ≤ x ∧ x ≤ allocEnd st.lastId then some owner else ownerOf st x) ∧
      (∀ id newOwner, (ownerOf st id).isSome → ∃ st', changeIdOwner id newOwner true true st = some (.ok st') ∧
        st'.lastId = st.lastId ∧ ∀ x, ownerOf st' x = if x = id then some newOwner else ownerOf st x) ∧
      (∀ r ∈ st.ranges, ∃ st', releaseIdRange r.start r.end' st = some st' ∧ st'.lastId = st.lastId ∧
        ∀ x, ownerOf st' x = if r.start ≤ x ∧ x ≤ r.end' then none else ownerOf st x) ∧
      ∀ id, findIdOwner id st = (ownerOf st id).getD 0 := by
  have inv := reached.inv
  refine ⟨inv, inv.sorted, ?_, ?_, ?_, findIdOwner_eq inv⟩
  · intro owner room
    exact ⟨_, allocIdRange_eq inv room owner, rfl, fun x after => inv.fresh after,
      ownerOf_allocIdRange inv owner⟩
  · intro id newOwner owned
    obtain ⟨_, found⟩ := Option.isSome_iff_exists.mp owned
    obtain ⟨range, member, inside, -⟩ := inv.ownerOf_eq_some.mp found
    exact ⟨_, changeIdOwner_eq inv member inside newOwner, rfl, ownerOf_changeIdOwner inv member inside newOwner⟩
  · intro r member
    exact ⟨_, releaseIdRange_eq inv member, rfl, ownerOf_releaseIdRange inv member⟩

/-- The leader hands out `[1, 32]` to process 7 and gives ID 5 to process 4. -/
theorem idTree_refines_owner_map_after_change :
    IdReachable ⟨.node ⟨1, 4, 7⟩ .nil (.node ⟨5, 5, 4⟩ .nil (.node ⟨6, 32, 7⟩ .nil .nil)), 32⟩ ∧
      findIdOwner 5 ⟨.node ⟨1, 4, 7⟩ .nil (.node ⟨5, 5, 4⟩ .nil (.node ⟨6, 32, 7⟩ .nil .nil)), 32⟩ = 4 ∧
      findIdOwner 33 ⟨.node ⟨1, 4, 7⟩ .nil (.node ⟨5, 5, 4⟩ .nil (.node ⟨6, 32, 7⟩ .nil .nil)), 32⟩ = 0 := by
  have allocated : IdReachable ⟨.node ⟨1, 32, 7⟩ .nil .nil, 32⟩ :=
    .step (.allocIdRange 7 true) .init trivial rfl
  have reached : IdReachable ⟨.node ⟨1, 4, 7⟩ .nil (.node ⟨5, 5, 4⟩ .nil (.node ⟨6, 32, 7⟩ .nil .nil)), 32⟩ :=
    .step (.changeIdOwner 5 4 true true) allocated rfl rfl
  have reads := (idTree_refines_owner_map reached).2.2.2.2.2
  exact ⟨reached, by rw [reads 5]; rfl, by rw [reads 33]; rfl⟩

end Gramine.LibOS.Ipc
