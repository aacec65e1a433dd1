import Mathlib
import Gramine.Pal.Error

/-!
# Early memory of the PAL

Before the LibOS takes over the bookkeeping, the PAL hands out its own memory
from `g_initial_mem_ranges` (`pal/src/pal_memory.c`): an array of ranges sorted
by descending address, some of them marked free. `initial_mem_bkeep` carves a
request off the top of the smallest free range that holds it, or else scans
down from the last address it gave for a range that is neither in the array
nor reserved by the untrusted runtime, and records the range in the array.
`initial_mem_free` marks a range of the array free and merges it with free
neighbours it touches.

The runtime's reserved ranges are read once, in descending order, through
`pal_read_next_reserved_range` (`pal/src/host/linux-sgx/pal_memory.c`); the
range read last is kept in two static variables of
`find_non_reserved_range_below`, which every scan shares.

Addresses are `uintptr_t`: every address here is below `2 ^ 64`, and the one
sum that could wrap, `addr + size` of a new entry, stays below the end of
the memory or of a free range. The protection and comment of an entry are
left out: no modelled function reads them.
-/

namespace Gramine.Pal

/-- `UINTPTR_MAX`, also `SIZE_MAX`. -/
def UINTPTR_MAX : Nat := 2 ^ 64 - 1

/-- `ARRAY_SIZE(g_initial_mem_ranges)`. -/
def INITIAL_MEM_RANGES_MAX : Nat := 0x100

/-- `struct pal_initial_mem_range`: the range `[start, end)` and whether it was
used and is now free. -/
structure PalInitialMemRange where
  start : Nat
  rangeEnd : Nat
  isFree : Bool
  deriving DecidableEq, Repr

/-- The early bookkeeping state: the array `g_initial_mem_ranges[0 .. len)`,
`g_initial_mem_disabled`, `g_last_alloc_addr`, the reserved range read last
(`g_last_reserved_range_start` and `_end`), the reserved ranges the runtime
has not handed over yet, and the range `pal_disable_early_memory_bookkeeping`
picks for the LibOS. -/
structure EarlyMem where
  ranges : List PalInitialMemRange
  disabled : Bool
  lastAllocAddr : Nat
  lastReservedRangeStart : Nat
  lastReservedRangeEnd : Nat
  reserved : List (Nat × Nat)
  earlyLibosMemRange : Nat × Nat
  deriving DecidableEq, Repr

/-! ## The array -/

/-- The search of `pal_add_initial_range` and `insert_range_at`: the new entry
goes before the first entry that ends at or below its start. -/
def insertRange (range : PalInitialMemRange) : List PalInitialMemRange → List PalInitialMemRange
  | [] => [range]
  | r :: rest => if r.rangeEnd ≤ range.start then range :: r :: rest else r :: insertRange range rest

/-- `pal_add_initial_range(addr, size, ...)` for a range in use. -/
def palAddInitialRange (addr size : Nat) (ranges : List PalInitialMemRange) :
    Except PalError (List PalInitialMemRange) :=
  if INITIAL_MEM_RANGES_MAX ≤ ranges.length then .error .noMem
  else .ok (insertRange ⟨addr, addr + size, false⟩ ranges)

/-- The first half of `mark_range_free`: the entry is marked free and takes in
the next one when that is free and touches it. -/
def mergeNext (cur : PalInitialMemRange) :
    List PalInitialMemRange → PalInitialMemRange × List PalInitialMemRange
  | next :: rest =>
    if next.isFree ∧ cur.start = next.rangeEnd then
      ({ cur with start := next.start, isFree := true }, rest)
    else ({ cur with isFree := true }, next :: rest)
  | [] => ({ cur with isFree := true }, [])

/-- The second half of `mark_range_free`, with the entries before `cur` nearest
first: the previous entry takes `cur` in when that is free and touches it. -/
def mergePrev (cur : PalInitialMemRange) (after : List PalInitialMemRange) :
    List PalInitialMemRange → List PalInitialMemRange
  | prev :: earlier =>
    if prev.isFree ∧ prev.start = cur.rangeEnd then
      earlier.reverse ++ { prev with start := cur.start } :: after
    else earlier.reverse ++ prev :: cur :: after
  | [] => cur :: after

/-- `mark_range_free` on the entry `cur`, with the entries before it nearest
first and those after it. -/
def markRangeFree (before : List PalInitialMemRange) (cur : PalInitialMemRange)
    (after : List PalInitialMemRange) : List PalInitialMemRange :=
  mergePrev (mergeNext cur after).1 (mergeNext cur after).2 before

/-- `remove_initial_range(addr, size)`: the loop over the array, with the
entries passed so far nearest first. -/
def removeInitialRange (addr size : Nat) (before : List PalInitialMemRange) :
    List PalInitialMemRange → Except PalError (List PalInitialMemRange)
  | [] => .error .inval
  | r :: rest =>
    if r.start = addr ∧ r.rangeEnd = addr + size then .ok (markRangeFree before r rest)
    else if r.rangeEnd ≤ addr then .error .inval
    else removeInitialRange addr size (r :: before) rest

/-- The loop of `find_free_range` from the entry `i` on: the index of the
smallest free entry that holds `size`, the first of equals, stopping at one
of exactly `size`; `bestIdx` and `bestSize` are the best so far. -/
def findBestFit (size : Nat) : List PalInitialMemRange → Nat → Nat → Nat → Nat
  | [], _, bestIdx, _ => bestIdx
  | r :: rest, i, bestIdx, bestSize =>
    if r.isFree ∧ size ≤ r.rangeEnd - r.start ∧ r.rangeEnd - r.start < bestSize then
      if r.rangeEnd - r.start = size then i
      else findBestFit size rest (i + 1) i (r.rangeEnd - r.start)
    else findBestFit size rest (i + 1) bestIdx bestSize

/-- `find_free_range(size)`: the address carved off the top of the best free
entry and the new array, which drops the entry once it is empty; `none` when
no free entry holds `size`. -/
def findFreeRange (size : Nat) (ranges : List PalInitialMemRange) :
    Option (Nat × List PalInitialMemRange) :=
  let bestIdx := findBestFit size ranges 0 ranges.length UINTPTR_MAX
  if h : bestIdx < ranges.length then
    let carved : PalInitialMemRange :=
      { ranges[bestIdx] with rangeEnd := ranges[bestIdx].rangeEnd - size }
    some (carved.rangeEnd,
      if carved.start = carved.rangeEnd then ranges.eraseIdx bestIdx else ranges.set bestIdx carved)
  else none

/-- `overlaps_existing_range(addr, size)`: the start of the first entry that
overlaps `[addr, addr + size)`, walking down until the entries lie below it. -/
def overlapsExistingRange (addr size : Nat) : List PalInitialMemRange → Option Nat
  | [] => none
  | r :: rest =>
    if ¬ (r.rangeEnd ≤ addr ∨ addr + size ≤ r.start) then some r.start
    else if r.rangeEnd ≤ addr then none
    else overlapsExistingRange addr size rest

/-! ## The shape of the array -/

/-- `next` follows `cur` in the array: it lies below `cur`, and the two are
not free ranges that touch. -/
def Follows (cur next : PalInitialMemRange) : Prop :=
  next.rangeEnd ≤ cur.start ∧ ¬ (cur.isFree = true ∧ next.isFree = true ∧ next.rangeEnd = cur.start)

/-- The array is sorted by descending address, no range in it is empty, and no
two free neighbours touch. -/
structure RangesOk (ranges : List PalInitialMemRange) : Prop where
  nonempty : ∀ r ∈ ranges, r.start < r.rangeEnd
  chain : ranges.IsChain Follows

attribute [grind] insertRange mergePrev markRangeFree removeInitialRange findBestFit findFreeRange
  overlapsExistingRange

section Shape

variable {ranges ranges' pre post : List PalInitialMemRange} {r x y : PalInitialMemRange}

theorem RangesOk.nil : RangesOk [] := ⟨by simp, .nil⟩

theorem rangesOk_cons :
    RangesOk (r :: post) ↔ r.start < r.rangeEnd ∧ (∀ n ∈ post.head?, Follows r n) ∧ RangesOk post := by
  constructor
  · rintro ⟨nonempty, chain⟩
    rw [List.isChain_cons] at chain
    exact ⟨nonempty r List.mem_cons_self, chain.1,
      fun x mem => nonempty x (List.mem_cons_of_mem r mem), chain.2⟩
  · rintro ⟨first, follows, nonempty, chain⟩
    refine ⟨fun x mem => ?_, List.isChain_cons.mpr ⟨follows, chain⟩⟩
    rcases List.mem_cons.mp mem with rfl | mem
    · exact first
    · exact nonempty x mem

theorem rangesOk_append_cons :
    RangesOk (pre ++ x :: post) ↔
      RangesOk pre ∧ RangesOk (x :: post) ∧ ∀ a ∈ pre.getLast?, Follows a x := by
  constructor
  · rintro ⟨nonempty, chain⟩
    obtain ⟨chainPre, chainPost, boundary⟩ := List.isChain_append.mp chain
    exact ⟨⟨fun r mem => nonempty r (List.mem_append_left _ mem), chainPre⟩,
      ⟨fun r mem => nonempty r (List.mem_append_right _ mem), chainPost⟩,
      fun a mem => boundary a mem x rfl⟩
  · rintro ⟨⟨nonemptyPre, chainPre⟩, ⟨nonemptyPost, chainPost⟩, boundary⟩
    refine ⟨fun r mem => ?_, List.isChain_append.mpr ⟨chainPre, chainPost, fun a mem b head => ?_⟩⟩
    · rcases List.mem_append.mp mem with mem | mem
      · exact nonemptyPre r mem
      · exact nonemptyPost r mem
    · cases head
      exact boundary a mem

/-- Every entry lies below every earlier one. -/
theorem RangesOk.sorted (ok : RangesOk ranges) :
    ranges.Pairwise fun a b => b.rangeEnd ≤ a.start := by
  induction ranges with
  | nil => exact .nil
  | cons r rest ih =>
    obtain ⟨-, follows, okRest⟩ := rangesOk_cons.mp ok
    have sortedRest := ih okRest
    refine List.Pairwise.cons (fun b mem => ?_) sortedRest
    -- `b` lies below the entry right after `r`, which lies below `r`
    cases rest with
    | nil => cases mem
    | cons n rest =>
      have below := (follows n rfl).1
      rcases List.mem_cons.mp mem with rfl | mem
      · exact below
      · have := List.rel_of_pairwise_cons sortedRest mem
        have := okRest.nonempty n List.mem_cons_self
        omega

/-- The entries before `x` lie above it, those after it below. -/
theorem RangesOk.around (ok : RangesOk (pre ++ x :: post)) :
    (∀ a ∈ pre, x.rangeEnd ≤ a.start) ∧ ∀ b ∈ post, b.rangeEnd ≤ x.start := by
  have sorted := ok.sorted
  rw [List.pairwise_append] at sorted
  obtain ⟨-, sortedPost, across⟩ := sorted
  exact ⟨fun a mem => across a mem x List.mem_cons_self,
    fun b mem => List.rel_of_pairwise_cons sortedPost mem⟩

theorem head?_insertRange (range : PalInitialMemRange) (ranges : List PalInitialMemRange) :
    (insertRange range ranges).head? = some range ∨
      (insertRange range ranges).head? = ranges.head? := by
  cases ranges with
  | nil => exact .inl rfl
  | cons r rest =>
    unfold insertRange
    split_ifs
    · exact .inl rfl
    · exact .inr rfl

/-- A range in use that meets no entry goes in at its place. -/
theorem RangesOk.insert {range : PalInitialMemRange} (nonempty : range.start < range.rangeEnd)
    (inUse : range.isFree = false) :
    ∀ {ranges : List PalInitialMemRange}, RangesOk ranges →
      (∀ r ∈ ranges, r.rangeEnd ≤ range.start ∨ range.rangeEnd ≤ r.start) →
      RangesOk (insertRange range ranges)
  | [], _, _ => rangesOk_cons.mpr ⟨nonempty, by simp, .nil⟩
  | r :: rest, ok, apart => by
    obtain ⟨first, follows, okRest⟩ := rangesOk_cons.mp ok
    unfold insertRange
    split_ifs with above
    · -- the new entry goes first
      refine rangesOk_cons.mpr ⟨nonempty, fun n head => ?_, ok⟩
      cases head
      exact ⟨above, by simp [inUse]⟩
    · have below : range.rangeEnd ≤ r.start := (apart r List.mem_cons_self).resolve_left above
      have okInserted := RangesOk.insert nonempty inUse okRest
        (fun x mem => apart x (List.mem_cons_of_mem r mem))
      refine rangesOk_cons.mpr ⟨first, fun n head => ?_, okInserted⟩
      rcases head?_insertRange range rest with isRange | same
      · rw [isRange] at head
        cases head
        exact ⟨below, by simp [inUse]⟩
      · rw [same] at head
        exact follows n head

/-- An entry may lose the top of its range. -/
theorem RangesOk.shrink (ok : RangesOk (pre ++ x :: post)) (sameStart : y.start = x.start)
    (nonempty : y.start < y.rangeEnd) (shrinks : y.rangeEnd < x.rangeEnd)
    (sameFree : y.isFree = x.isFree) : RangesOk (pre ++ y :: post) := by
  obtain ⟨okPre, okX, boundary⟩ := rangesOk_append_cons.mp ok
  obtain ⟨-, follows, okPost⟩ := rangesOk_cons.mp okX
  refine rangesOk_append_cons.mpr ⟨okPre, rangesOk_cons.mpr ⟨nonempty, fun n head => ?_, okPost⟩,
    fun a last => ?_⟩
  · rw [Follows, sameStart, sameFree]
    exact follows n head
  · have := (boundary a last).1
    exact ⟨by omega, fun ⟨_, _, touch⟩ => by omega⟩

/-- An entry may go. -/
theorem RangesOk.erase (ok : RangesOk (pre ++ x :: post)) : RangesOk (pre ++ post) := by
  obtain ⟨okPre, okX, boundary⟩ := rangesOk_append_cons.mp ok
  obtain ⟨nonempty, follows, okPost⟩ := rangesOk_cons.mp okX
  cases post with
  | nil => simpa using okPre
  | cons n rest =>
    refine rangesOk_append_cons.mpr ⟨okPre, okPost, fun a last => ?_⟩
    -- the neighbours were apart by all of `x`
    have := (boundary a last).1
    have := (follows n rfl).1
    exact ⟨by omega, fun ⟨_, _, touch⟩ => by omega⟩

end Shape

/-! ## Taking and freeing ranges -/

section Calls

variable {ranges ranges' : List PalInitialMemRange}

/-- The loop of `find_free_range` returns the best index it started with, or
the index of a free entry that holds `size`. -/
theorem findBestFit_spec (size : Nat) : ∀ (l : List PalInitialMemRange) (i bestIdx bestSize : Nat),
    findBestFit size l i bestIdx bestSize = bestIdx ∨
      ∃ j, ∃ inside : j < l.length, findBestFit size l i bestIdx bestSize = i + j ∧
        l[j].isFree = true ∧ size ≤ l[j].rangeEnd - l[j].start
  | [], _, _, _ => .inl rfl
  | r :: rest, i, bestIdx, bestSize => by
    unfold findBestFit
    split_ifs with fits exact
    · exact .inr ⟨0, by simp, by simp, fits.1, fits.2.1⟩
    · -- the search goes on with `r` as the best so far
      rcases findBestFit_spec size rest (i + 1) i (r.rangeEnd - r.start) with same | ⟨j, inside, eq, free, holds⟩
      · exact .inr ⟨0, by simp, by simpa using same, fits.1, fits.2.1⟩
      · exact .inr ⟨j + 1, by simpa using inside, by rw [eq]; omega, free, holds⟩
    · rcases findBestFit_spec size rest (i + 1) bestIdx bestSize with same | ⟨j, inside, eq, free, holds⟩
      · exact .inl same
      · exact .inr ⟨j + 1, by simpa using inside, by rw [eq]; omega, free, holds⟩

/-- `find_free_range` carves `[addr, addr + size)` off the top of a free entry:
the array keeps its shape, and no entry left in it meets the carved range. -/
theorem findFreeRange_ok {size addr : Nat} (ok : RangesOk ranges) (positive : 0 < size)
    (h : findFreeRange size ranges = some (addr, ranges')) :
    RangesOk ranges' ∧ (∀ r ∈ ranges', r.rangeEnd ≤ addr ∨ addr + size ≤ r.start) ∧
      (∀ r ∈ ranges, r.isFree = false → r ∈ ranges') ∧
      ∃ x ∈ ranges, x.isFree = true ∧ x.start ≤ addr ∧ addr + size = x.rangeEnd := by
  unfold findFreeRange at h
  have spec := findBestFit_spec size ranges 0 ranges.length UINTPTR_MAX
  generalize findBestFit size ranges 0 ranges.length UINTPTR_MAX = bestIdx at h spec
  dsimp only at h
  split at h
  · rename_i inside
    rcases spec with none | ⟨j, jInside, rfl, free, holds⟩
    · omega
    · simp only [Nat.zero_add, Option.some.injEq, Prod.mk.injEq] at h
      obtain ⟨rfl, rfl⟩ := h
      set x := ranges[j] with isX
      have split : ranges = ranges.take j ++ x :: ranges.drop (j + 1) := by
        rw [← List.drop_eq_getElem_cons, List.take_append_drop]
      have okSplit : RangesOk (ranges.take j ++ x :: ranges.drop (j + 1)) := split ▸ ok
      obtain ⟨above, below⟩ := okSplit.around
      have nonempty := ok.nonempty x (List.getElem_mem _)
      refine ⟨?_, ?_, ?_, x, List.getElem_mem _, free, by omega, by omega⟩
      · split_ifs with emptied
        · rw [List.eraseIdx_eq_take_drop_succ]
          exact okSplit.erase
        · rw [List.set_eq_take_append_cons_drop, if_pos (by omega)]
          exact okSplit.shrink rfl (by simp; omega) (by simp; omega) rfl
      · -- the entries above `x` start at or above its end, those below end at or below its start
        have apart : ∀ r ∈ ranges.take j ++ ranges.drop (j + 1),
            r.rangeEnd ≤ x.rangeEnd - size ∨ x.rangeEnd - size + size ≤ r.start := by
          intro r mem
          rcases List.mem_append.mp mem with mem | mem
          · exact .inr (by have := above r mem; omega)
          · exact .inl (by have := below r mem; omega)
        split_ifs with emptied
        · rw [List.eraseIdx_eq_take_drop_succ]
          exact apart
        · rw [List.set_eq_take_append_cons_drop, if_pos (by omega)]
          intro r mem
          rcases List.mem_append.mp mem with mem | mem
          · exact apart r (List.mem_append_left _ mem)
          · rcases List.mem_cons.mp mem with rfl | mem
            · exact .inl (Nat.le_refl _)
            · exact apart r (List.mem_append_right _ mem)
      · -- only the free entry `x` changed
        intro r mem inUse
        rw [split] at mem
        have other : ∀ r ∈ ranges.take j ++ x :: ranges.drop (j + 1), r.isFree = false →
            r ∈ ranges.take j ++ ranges.drop (j + 1) := by
          intro r mem inUse
          rcases List.mem_append.mp mem with mem | mem
          · exact List.mem_append_left _ mem
          · rcases List.mem_cons.mp mem with rfl | mem
            · rw [free] at inUse
              cases inUse
            · exact List.mem_append_right _ mem
        have kept := other r mem inUse
        split_ifs with emptied
        · rw [List.eraseIdx_eq_take_drop_succ]
          exact kept
        · rw [List.set_eq_take_append_cons_drop, if_pos (by omega)]
          rcases List.mem_append.mp kept with kept | kept
          · exact List.mem_append_left _ kept
          · exact List.mem_append_right _ (List.mem_cons_of_mem _ kept)
  · cases h

/-- When `overlaps_existing_range` finds nothing, no entry meets the range. -/
theorem RangesOk.overlapsExistingRange_none {addr size : Nat} :
    ∀ {ranges : List PalInitialMemRange}, RangesOk ranges →
      overlapsExistingRange addr size ranges = none →
      ∀ r ∈ ranges, r.rangeEnd ≤ addr ∨ addr + size ≤ r.start
  | [], _, _ => by simp
  | r :: rest, ok, h => by
    obtain ⟨nonempty, -, okRest⟩ := rangesOk_cons.mp ok
    rw [overlapsExistingRange] at h
    by_cases overlaps : ¬ (r.rangeEnd ≤ addr ∨ addr + size ≤ r.start)
    · rw [if_pos overlaps] at h
      cases h
    · rw [if_neg overlaps] at h
      intro x mem
      rcases List.mem_cons.mp mem with rfl | mem
      · exact not_not.mp overlaps
      · split_ifs at h with below
        · -- the walk stops: everything after `r` lies below it
          have := (List.rel_of_pairwise_cons ok.sorted mem)
          exact .inl (by omega)
        · exact RangesOk.overlapsExistingRange_none okRest h x mem

/-- The first half of `mark_range_free` leaves a free entry that ends where
`cur` did and starts no higher, followed by a well-shaped rest. -/
theorem mergeNext_ok {cur : PalInitialMemRange} {after : List PalInitialMemRange}
    (ok : RangesOk (cur :: after)) :
    RangesOk ((mergeNext cur after).1 :: (mergeNext cur after).2) ∧
      (mergeNext cur after).1.rangeEnd = cur.rangeEnd ∧ (mergeNext cur after).1.isFree = true ∧
      (mergeNext cur after).1.start ≤ cur.start := by
  obtain ⟨nonempty, follows, okAfter⟩ := rangesOk_cons.mp ok
  cases after with
  | nil => exact ⟨rangesOk_cons.mpr ⟨nonempty, by simp [mergeNext], .nil⟩, rfl, rfl, Nat.le_refl _⟩
  | cons next rest =>
    obtain ⟨nextNonempty, nextFollows, okRest⟩ := rangesOk_cons.mp okAfter
    have below := (follows next rfl).1
    rw [mergeNext]
    split_ifs with merges
    · -- the entry takes in `next`, which was free
      refine ⟨rangesOk_cons.mpr ⟨by simp; omega, fun n head => ?_, okRest⟩, rfl, rfl,
        by simp; omega⟩
      obtain ⟨nBelow, nApart⟩ := nextFollows n head
      exact ⟨nBelow, fun ⟨_, nFree, touch⟩ => nApart ⟨merges.1, nFree, touch⟩⟩
    · refine ⟨rangesOk_cons.mpr ⟨nonempty, fun n head => ?_, okAfter⟩, rfl, rfl, Nat.le_refl _⟩
      cases head
      exact ⟨below, fun ⟨_, nextFree, touch⟩ => merges ⟨nextFree, touch.symm⟩⟩

/-- `mark_range_free` keeps the shape of the array. -/
theorem markRangeFree_ok {before after : List PalInitialMemRange} {cur : PalInitialMemRange}
    (ok : RangesOk (before.reverse ++ cur :: after)) : RangesOk (markRangeFree before cur after) := by
  obtain ⟨okBefore, okCur, boundary⟩ := rangesOk_append_cons.mp ok
  obtain ⟨okMerged, sameEnd, free, -⟩ := mergeNext_ok okCur
  unfold markRangeFree
  generalize mergeNext cur after = merged at okMerged sameEnd free
  obtain ⟨cur', after'⟩ := merged
  dsimp only at okMerged sameEnd free ⊢
  cases before with
  | nil => exact okMerged
  | cons prev earlier =>
    have prevFollows : Follows prev cur := boundary prev (by simp)
    rw [List.reverse_cons] at okBefore
    obtain ⟨okEarlier, okPrev, earlierBoundary⟩ := rangesOk_append_cons.mp okBefore
    have prevNonempty := okPrev.nonempty prev List.mem_cons_self
    obtain ⟨curNonempty, curFollows, okAfter'⟩ := rangesOk_cons.mp okMerged
    rw [mergePrev]
    split_ifs with merges
    · -- `prev` takes in the entry
      refine rangesOk_append_cons.mpr ⟨okEarlier, rangesOk_cons.mpr ⟨?_, fun n head => ?_, okAfter'⟩,
        fun a last => ?_⟩
      · have := prevFollows.1
        show cur'.start < prev.rangeEnd
        omega
      · obtain ⟨nBelow, nApart⟩ := curFollows n head
        exact ⟨nBelow, fun ⟨_, nFree, touch⟩ => nApart ⟨free, nFree, touch⟩⟩
      · exact earlierBoundary a last
    · refine rangesOk_append_cons.mpr ⟨okEarlier, rangesOk_cons.mpr ⟨prevNonempty,
        fun n head => ?_, okMerged⟩, earlierBoundary⟩
      cases head
      exact ⟨sameEnd ▸ prevFollows.1, fun ⟨prevFree, _, touch⟩ => merges ⟨prevFree, touch.symm⟩⟩

/-- After `mark_range_free` a free entry covers the range of `cur`. -/
theorem markRangeFree_covers {before after : List PalInitialMemRange} {cur : PalInitialMemRange}
    (ok : RangesOk (before.reverse ++ cur :: after)) :
    ∃ f ∈ markRangeFree before cur after, f.isFree = true ∧ f.start ≤ cur.start ∧
      cur.rangeEnd ≤ f.rangeEnd := by
  obtain ⟨okBefore, okCur, boundary⟩ := rangesOk_append_cons.mp ok
  obtain ⟨-, sameEnd, free, lower⟩ := mergeNext_ok okCur
  unfold markRangeFree
  generalize mergeNext cur after = merged at sameEnd free lower
  obtain ⟨cur', after'⟩ := merged
  dsimp only at sameEnd free lower ⊢
  cases before with
  | nil => exact ⟨cur', List.mem_cons_self, free, lower, Nat.le_of_eq sameEnd.symm⟩
  | cons prev earlier =>
    have prevBelow := (boundary prev (by simp)).1
    rw [List.reverse_cons] at okBefore
    have prevNonempty := okBefore.nonempty prev (by simp)
    rw [mergePrev]
    split_ifs with merges
    · refine ⟨{ prev with start := cur'.start }, by simp, merges.1, lower, ?_⟩
      show cur.rangeEnd ≤ prev.rangeEnd
      omega
    · exact ⟨cur', by simp, free, lower, Nat.le_of_eq sameEnd.symm⟩

/-- `remove_initial_range` keeps the shape of the array. -/
theorem removeInitialRange_ok {addr size : Nat} :
    ∀ {before rest ranges' : List PalInitialMemRange}, RangesOk (before.reverse ++ rest) →
      removeInitialRange addr size before rest = .ok ranges' → RangesOk ranges'
  | _, [], _, _, h => by simp [removeInitialRange] at h
  | before, r :: rest, _, ok, h => by
    unfold removeInitialRange at h
    split_ifs at h with found past
    · cases h
      exact markRangeFree_ok ok
    · exact removeInitialRange_ok (by simpa using ok) h

/-- `remove_initial_range` succeeds only on an entry that is exactly the range,
which a free entry covers afterwards. -/
theorem removeInitialRange_found {addr size : Nat} :
    ∀ {before rest ranges' : List PalInitialMemRange}, RangesOk (before.reverse ++ rest) →
      removeInitialRange addr size before rest = .ok ranges' →
      (∃ r ∈ rest, r.start = addr ∧ r.rangeEnd = addr + size) ∧
        ∃ f ∈ ranges', f.isFree = true ∧ f.start ≤ addr ∧ addr + size ≤ f.rangeEnd
  | _, [], _, _, h => by simp [removeInitialRange] at h
  | before, r :: rest, _, ok, h => by
    unfold removeInitialRange at h
    split_ifs at h with found past
    · cases h
      obtain ⟨f, mem, free, low, high⟩ := markRangeFree_covers ok
      exact ⟨⟨r, List.mem_cons_self, found⟩, f, mem, free, found.1 ▸ low, found.2 ▸ high⟩
    · obtain ⟨⟨x, mem, same⟩, covered⟩ := removeInitialRange_found (by simpa using ok) h
      exact ⟨⟨x, List.mem_cons_of_mem r mem, same⟩, covered⟩

end Calls

/-! ## Reserved ranges -/

section Scan

variable (allocAlign : Nat)

/-- The check `pal_read_next_reserved_range` makes of a range the runtime
passes: a range that fails it ends the process. -/
def reservedRangeOk (lastRangeStart : Nat) (range : Nat × Nat) : Prop :=
  range.1 ≤ range.2 ∧ range.2 ≤ lastRangeStart ∧ allocAlign ∣ range.1 ∧ allocAlign ∣ range.2

instance (lastRangeStart : Nat) (range : Nat × Nat) :
    Decidable (reservedRangeOk allocAlign lastRangeStart range) :=
  inferInstanceAs (Decidable (_ ∧ _))

/-- The loop of `find_non_reserved_range_below` from `candidate`, with the
reserved range read last and those not read yet: while the candidate starts
below the end of that range it moves below its start, and the next range is
read, `(0, 0)` once there is none. The result, the range read last and those
left; `none` when the process ends on a range it refuses. -/
def skipReserved (size : Nat) :
    Nat → Nat → Nat → List (Nat × Nat) → Option (Except PalError Nat × Nat × Nat × List (Nat × Nat))
  | candidate, rangeStart, rangeEnd, stream =>
    if candidate < rangeEnd then
      if rangeStart < size then some (.error .noMem, rangeStart, rangeEnd, stream)
      else
        match stream with
        -- the next range is `(0, 0)`, and no candidate lies below its end
        | [] => some (.ok (min candidate (rangeStart - size)), 0, 0, [])
        | next :: rest =>
          if reservedRangeOk allocAlign rangeStart next then
            skipReserved size (min candidate (rangeStart - size)) next.1 next.2 rest
          else none
    else some (.ok candidate, rangeStart, rangeEnd, stream)

/-- `find_non_reserved_range_below(addr, size)`. -/
def findNonReservedRangeBelow (addr size : Nat) (s : EarlyMem) :
    Option (Except PalError Nat × EarlyMem) :=
  if addr < size then some (.error .noMem, s)
  else
    (skipReserved allocAlign size (addr - size) s.lastReservedRangeStart s.lastReservedRangeEnd
      s.reserved).map fun (result, rangeStart, rangeEnd, stream) =>
        (result, { s with
          lastReservedRangeStart := rangeStart
          lastReservedRangeEnd := rangeEnd
          reserved := stream })

attribute [grind] skipReserved findNonReservedRangeBelow

theorem skipReserved_le {size : Nat} : ∀ {candidate rangeStart rangeEnd : Nat}
    {stream : List (Nat × Nat)} {candidate' rangeStart' rangeEnd' : Nat}
    {stream' : List (Nat × Nat)},
    skipReserved allocAlign size candidate rangeStart rangeEnd stream =
      some (.ok candidate', rangeStart', rangeEnd', stream') → candidate' ≤ candidate := by
  intro candidate rangeStart rangeEnd stream
  induction stream generalizing candidate rangeStart rangeEnd with
  | nil =>
    intro candidate' rangeStart' rangeEnd' stream' h
    rw [skipReserved] at h
    split_ifs at h <;> simp only [Option.some.injEq, Prod.mk.injEq, Except.ok.injEq,
      reduceCtorEq, false_and] at h
    · omega
    · omega
  | cons next rest ih =>
    intro candidate' rangeStart' rangeEnd' stream' h
    rw [skipReserved] at h
    split_ifs at h with below fits accepted
    · cases h
    · exact Nat.le_trans (ih h) (Nat.min_le_left _ _)
    · simp only [Option.some.injEq, Prod.mk.injEq, Except.ok.injEq] at h
      omega

theorem findNonReservedRangeBelow_le {addr size candidate : Nat} {s s' : EarlyMem}
    (h : findNonReservedRangeBelow allocAlign addr size s = some (.ok candidate, s')) :
    size ≤ addr ∧ candidate + size ≤ addr := by
  unfold findNonReservedRangeBelow at h
  split_ifs at h with below
  · cases h
  · cases skipping : skipReserved allocAlign size (addr - size) s.lastReservedRangeStart
        s.lastReservedRangeEnd s.reserved with
    | none => simp [skipping] at h
    | some result =>
      obtain ⟨outcome, rangeStart, rangeEnd, stream⟩ := result
      simp only [skipping, Option.map_some, Option.some.injEq, Prod.mk.injEq] at h
      obtain ⟨rfl, -⟩ := h
      have := skipReserved_le allocAlign skipping
      omega

end Scan

theorem overlapsExistingRange_lt {addr size start : Nat} :
    ∀ {ranges : List PalInitialMemRange}, overlapsExistingRange addr size ranges = some start →
      start < addr + size
  | [], h => by simp [overlapsExistingRange] at h
  | r :: rest, h => by
    rw [overlapsExistingRange] at h
    by_cases overlaps : ¬ (r.rangeEnd ≤ addr ∨ addr + size ≤ r.start)
    · rw [if_pos overlaps, Option.some.injEq] at h
      omega
    · rw [if_neg overlaps] at h
      split_ifs at h
      exact overlapsExistingRange_lt h

section Scan

variable (allocAlign memoryAddressStart : Nat)

/-- The loop of `initial_mem_bkeep` and of
`pal_disable_early_memory_bookkeeping` below `addr`: a candidate clear of the
reserved ranges, not below the start of memory, moved below the first entry of
the array it overlaps until it overlaps none. -/
def scanBelow (size addr : Nat) (s : EarlyMem) : Option (Except PalError Nat × EarlyMem) :=
  match found : findNonReservedRangeBelow allocAlign addr size s with
  | none => none
  | some (.error err, s') => some (.error err, s')
  | some (.ok candidate, s') =>
    if candidate < memoryAddressStart then some (.error .noMem, s')
    else
      match overlapping : overlapsExistingRange candidate size s'.ranges with
      | some start => scanBelow size start s'
      | none => some (.ok candidate, s')
termination_by addr
decreasing_by
  have := findNonReservedRangeBelow_le allocAlign found
  have := overlapsExistingRange_lt overlapping
  omega

/-- The search of `initial_mem_bkeep`: the top of a free entry, or else the
scan below `g_last_alloc_addr`, which then moves down to what it found. -/
def findInitialRange (size : Nat) (s : EarlyMem) : Option (Except PalError Nat × EarlyMem) :=
  match findFreeRange size s.ranges with
  | some (addr, ranges) => some (.ok addr, { s with ranges })
  | none =>
    (scanBelow allocAlign memoryAddressStart size s.lastAllocAddr s).map fun
      | (.ok addr, s) => (.ok addr, { s with lastAllocAddr := addr })
      | (.error err, s) => (.error err, s)

attribute [grind] scanBelow findInitialRange

variable (memoryAddressEnd : Nat)

/-- `initial_mem_bkeep(size)`: the address of the new range; `none` when the
process ends. -/
def initialMemBkeep (size : Nat) (s : EarlyMem) : Option (Except PalError Nat × EarlyMem) :=
  if s.disabled then some (.error .inval, s)
  else
    let s := if s.lastAllocAddr = UINTPTR_MAX then { s with lastAllocAddr := memoryAddressEnd } else s
    match findInitialRange allocAlign memoryAddressStart size s with
    | none => none
    | some (.error err, s) => some (.error err, s)
    | some (.ok addr, s) =>
      match palAddInitialRange addr size s.ranges with
      | .error err => some (.error err, s)
      | .ok ranges => some (.ok addr, { s with ranges })

/-- `pal_disable_early_memory_bookkeeping()`: the range it finds for the LibOS,
of `MIN(mem_total / 20, 1MB)` bytes below `g_last_alloc_addr`; nothing when the
scan fails. -/
def palDisableEarlyMemoryBookkeeping (memTotal : Nat) (s : EarlyMem) : Option EarlyMem :=
  let s := { s with disabled := true }
  let size := min (memTotal / 20) (1024 * 1024)
  match scanBelow allocAlign memoryAddressStart size s.lastAllocAddr s with
  | none => none
  | some (.error _, s) => some s
  | some (.ok addr, s) => some { s with earlyLibosMemRange := (addr, addr + size) }

attribute [grind] initialMemBkeep

end Scan

/-- `initial_mem_free(addr, size)`; `freed` is the outcome of
`_PalVirtualMemoryFree`, whose failure ends the process. -/
def initialMemFree (addr size : Nat) (freed : Bool) (s : EarlyMem) :
    Option (Except PalError Unit × EarlyMem) :=
  if s.disabled then some (.error .inval, s)
  else
    match removeInitialRange addr size [] s.ranges with
    | .error err => some (.error err, s)
    | .ok ranges => if freed then some (.ok (), { s with ranges }) else none

/-! ## The calls on the state -/

/-- `s'` differs from `s` at most in the reserved ranges read. -/
def EarlyMem.MovesCursor (s s' : EarlyMem) : Prop :=
  s' = { s with
    lastReservedRangeStart := s'.lastReservedRangeStart
    lastReservedRangeEnd := s'.lastReservedRangeEnd
    reserved := s'.reserved }

theorem EarlyMem.MovesCursor.trans {s₁ s₂ s₃ : EarlyMem} (first : s₁.MovesCursor s₂)
    (second : s₂.MovesCursor s₃) : s₁.MovesCursor s₃ := by
  unfold EarlyMem.MovesCursor at *
  rw [second, first]

section Spec

variable {allocAlign memoryAddressStart memoryAddressEnd size : Nat} {s s' : EarlyMem}

theorem findNonReservedRangeBelow_moves {addr : Nat} {result : Except PalError Nat}
    (h : findNonReservedRangeBelow allocAlign addr size s = some (result, s')) : s.MovesCursor s' := by
  unfold findNonReservedRangeBelow at h
  split_ifs at h
  · cases h
    rfl
  · cases skipping : skipReserved allocAlign size (addr - size) s.lastReservedRangeStart
        s.lastReservedRangeEnd s.reserved with
    | none => simp [skipping] at h
    | some found =>
      obtain ⟨outcome, rangeStart, rangeEnd, stream⟩ := found
      simp only [skipping, Option.map_some, Option.some.injEq, Prod.mk.injEq] at h
      obtain ⟨-, rfl⟩ := h
      rfl

/-- The scan moves only the cursor, and a range it finds lies between the
start of memory and `addr`, clear of every entry. -/
theorem scanBelow_spec {result : Except PalError Nat} :
    ∀ {addr : Nat} {s s' : EarlyMem},
      scanBelow allocAlign memoryAddressStart size addr s = some (result, s') →
      s.MovesCursor s' ∧ ∀ a, result = .ok a →
        memoryAddressStart ≤ a ∧ a + size ≤ addr ∧ overlapsExistingRange a size s.ranges = none := by
  intro addr
  induction addr using Nat.strong_induction_on with
  | _ addr ih =>
    intro s s' h
    rw [scanBelow] at h
    split at h
    · cases h
    · rename_i err s₁ found
      cases h
      exact ⟨findNonReservedRangeBelow_moves found, fun a eq => by cases eq⟩
    · rename_i candidate s₁ found
      have moves := findNonReservedRangeBelow_moves found
      have bound := findNonReservedRangeBelow_le allocAlign found
      have sameRanges : s₁.ranges = s.ranges := by rw [moves]
      split_ifs at h with low
      · cases h
        exact ⟨moves, fun a eq => by cases eq⟩
      · split at h
        · -- the candidate meets an entry: the scan goes on below that entry's start
          rename_i start overlapping
          have := overlapsExistingRange_lt overlapping
          obtain ⟨moves', spec⟩ := ih start (by omega) h
          refine ⟨moves.trans moves', fun a eq => ?_⟩
          obtain ⟨low', high', clear⟩ := spec a eq
          exact ⟨low', by omega, sameRanges ▸ clear⟩
        · rename_i overlapping
          cases h
          exact ⟨moves, fun a eq => by
            cases eq
            exact ⟨by omega, bound.2, sameRanges ▸ overlapping⟩⟩

/-- A range the search finds meets no entry; it was carved off the top of a
free entry, or found by the scan between the start of memory and
`g_last_alloc_addr`, which moves below it. -/
theorem findInitialRange_ok (ok : RangesOk s.ranges) (positive : 0 < size) {addr : Nat}
    (h : findInitialRange allocAlign memoryAddressStart size s = some (.ok addr, s')) :
    RangesOk s'.ranges ∧ (s'.lastAllocAddr = s.lastAllocAddr ∨ s'.lastAllocAddr + size ≤ s.lastAllocAddr) ∧
      (∀ r ∈ s'.ranges, r.rangeEnd ≤ addr ∨ addr + size ≤ r.start) ∧
      (∀ r ∈ s.ranges, r.isFree = false → r.rangeEnd ≤ addr ∨ addr + size ≤ r.start) ∧
      ((∃ x ∈ s.ranges, x.isFree = true ∧ x.start ≤ addr ∧ addr + size = x.rangeEnd) ∨
        (memoryAddressStart ≤ addr ∧ addr + size ≤ s.lastAllocAddr ∧
          ∀ r ∈ s.ranges, r.rangeEnd ≤ addr ∨ addr + size ≤ r.start)) := by
  unfold findInitialRange at h
  split at h
  · rename_i addr' ranges' carving
    cases h
    obtain ⟨okCarved, clear, kept, reused⟩ := findFreeRange_ok ok positive carving
    exact ⟨okCarved, .inl rfl, clear, fun r mem inUse => clear r (kept r mem inUse), .inl reused⟩
  · cases scanned : scanBelow allocAlign memoryAddressStart size s.lastAllocAddr s with
    | none => simp [scanned] at h
    | some outcome =>
      obtain ⟨outcome, s₁⟩ := outcome
      obtain ⟨moves, spec⟩ := scanBelow_spec scanned
      cases outcome with
      | error err => simp [scanned] at h
      | ok a =>
        simp only [scanned, Option.map_some, Option.some.injEq, Prod.mk.injEq,
          Except.ok.injEq] at h
        obtain ⟨rfl, rfl⟩ := h
        obtain ⟨low, high, clear⟩ := spec a rfl
        have sameRanges : s₁.ranges = s.ranges := by rw [moves]
        have apart := RangesOk.overlapsExistingRange_none ok clear
        refine ⟨sameRanges ▸ ok, .inr high, sameRanges ▸ apart, fun r mem _ => apart r mem,
          .inr ⟨low, high, apart⟩⟩

/-- A failed search moves only the reserved ranges' cursor. -/
theorem findInitialRange_error {err : PalError}
    (h : findInitialRange allocAlign memoryAddressStart size s = some (.error err, s')) :
    s.MovesCursor s' := by
  unfold findInitialRange at h
  split at h
  · cases h
  · cases scanned : scanBelow allocAlign memoryAddressStart size s.lastAllocAddr s with
    | none => simp [scanned] at h
    | some outcome =>
      obtain ⟨outcome, s₁⟩ := outcome
      obtain ⟨moves, -⟩ := scanBelow_spec scanned
      cases outcome with
      | ok a => simp [scanned] at h
      | error err' =>
        simp only [scanned, Option.map_some, Option.some.injEq, Prod.mk.injEq] at h
        obtain ⟨-, rfl⟩ := h
        exact moves

/-- Where `initial_mem_bkeep` starts its scan. -/
def scanStart (memoryAddressEnd lastAllocAddr : Nat) : Nat :=
  if lastAllocAddr = UINTPTR_MAX then memoryAddressEnd else lastAllocAddr

attribute [grind] scanStart

/-- `initial_mem_bkeep` keeps the shape of the array. A range it gives meets
no entry in use; it was carved off the top of a free entry, or found by the
scan between the start of memory and where the scan started, clear of every
entry. -/
theorem initialMemBkeep_spec (ok : RangesOk s.ranges) (positive : 0 < size)
    {result : Except PalError Nat}
    (h : initialMemBkeep allocAlign memoryAddressStart memoryAddressEnd size s = some (result, s')) :
    RangesOk s'.ranges ∧ (s'.lastAllocAddr = s.lastAllocAddr ∨
      s'.lastAllocAddr = scanStart memoryAddressEnd s.lastAllocAddr ∨
        s'.lastAllocAddr + size ≤ scanStart memoryAddressEnd s.lastAllocAddr) ∧
      ∀ addr, result = .ok addr →
        (∀ r ∈ s.ranges, r.isFree = false → r.rangeEnd ≤ addr ∨ addr + size ≤ r.start) ∧
        ((∃ x ∈ s.ranges, x.isFree = true ∧ x.start ≤ addr ∧ addr + size = x.rangeEnd) ∨
          (memoryAddressStart ≤ addr ∧ addr + size ≤ scanStart memoryAddressEnd s.lastAllocAddr ∧
            ∀ r ∈ s.ranges, r.rangeEnd ≤ addr ∨ addr + size ≤ r.start)) := by
  rw [initialMemBkeep] at h
  by_cases disabled : s.disabled
  · rw [if_pos disabled] at h
    cases h
    exact ⟨ok, .inl rfl, fun addr eq => by cases eq⟩
  rw [if_neg disabled] at h
  dsimp only at h
  -- the state the search works on, with the scan's start set
  generalize started : (if s.lastAllocAddr = UINTPTR_MAX then
    { s with lastAllocAddr := memoryAddressEnd } else s) = s₀ at h
  have ranges₀ : s₀.ranges = s.ranges := by
    rw [← started]
    split_ifs <;> rfl
  have last₀ : s₀.lastAllocAddr = scanStart memoryAddressEnd s.lastAllocAddr := by
    rw [← started, scanStart]
    split_ifs <;> rfl
  split at h
  · cases h
  · rename_i err s₁ search
    cases h
    have moves := findInitialRange_error search
    have sameRanges : s'.ranges = s₀.ranges := by rw [moves]
    have sameLast : s'.lastAllocAddr = s₀.lastAllocAddr := by rw [moves]
    exact ⟨sameRanges ▸ ranges₀ ▸ ok, .inr (.inl (sameLast.trans last₀)), fun addr eq => by cases eq⟩
  · rename_i addr s₁ search
    obtain ⟨ok₁, last₁, clear, inUse, origin⟩ := findInitialRange_ok (ranges₀ ▸ ok) positive search
    have lastBound : s₁.lastAllocAddr = s.lastAllocAddr ∨
        s₁.lastAllocAddr = scanStart memoryAddressEnd s.lastAllocAddr ∨
        s₁.lastAllocAddr + size ≤ scanStart memoryAddressEnd s.lastAllocAddr := by
      rcases last₁ with same | below
      · exact .inr (.inl (same.trans last₀))
      · exact .inr (.inr (last₀ ▸ below))
    rw [ranges₀, last₀] at origin
    rw [ranges₀] at inUse
    unfold palAddInitialRange at h
    split_ifs at h with full
    · cases h
      exact ⟨ok₁, lastBound, fun a eq => by cases eq⟩
    · cases h
      refine ⟨ok₁.insert (show addr < addr + size by omega) rfl clear, lastBound, fun a eq => ?_⟩
      cases eq
      exact ⟨inUse, origin⟩

/-- `initial_mem_free` keeps the shape of the array, and succeeds only on a
range that is exactly an entry; a free entry covers it afterwards. -/
theorem initialMemFree_spec {addr freedSize : Nat} {freed : Bool} {result : Except PalError Unit}
    (ok : RangesOk s.ranges) (h : initialMemFree addr freedSize freed s = some (result, s')) :
    RangesOk s'.ranges ∧ s'.lastAllocAddr = s.lastAllocAddr ∧
      (result = .ok () → (∃ r ∈ s.ranges, r.start = addr ∧ r.rangeEnd = addr + freedSize) ∧
        ∃ f ∈ s'.ranges, f.isFree = true ∧ f.start ≤ addr ∧ addr + freedSize ≤ f.rangeEnd) := by
  rw [initialMemFree] at h
  by_cases disabled : s.disabled
  · rw [if_pos disabled] at h
    cases h
    exact ⟨ok, rfl, fun eq => by cases eq⟩
  rw [if_neg disabled] at h
  split at h
  · cases h
    exact ⟨ok, rfl, fun eq => by cases eq⟩
  · rename_i ranges removed
    -- a failed unmap ends the process
    cases freed
    · cases h
    · rw [if_pos rfl] at h
      cases h
      have okBefore : RangesOk (([] : List PalInitialMemRange).reverse ++ s.ranges) := by simpa using ok
      exact ⟨removeInitialRange_ok okBefore removed, rfl,
        fun _ => removeInitialRange_found okBefore removed⟩

/-- Turning the bookkeeping off changes neither the array nor where the next
scan would start. -/
theorem palDisableEarlyMemoryBookkeeping_keeps {memTotal : Nat}
    (h : palDisableEarlyMemoryBookkeeping allocAlign memoryAddressStart memTotal s = some s') :
    s'.ranges = s.ranges ∧ s'.lastAllocAddr = s.lastAllocAddr ∧ s'.disabled = true := by
  unfold palDisableEarlyMemoryBookkeeping at h
  dsimp only at h
  split at h
  · cases h
  · rename_i err s₁ scanned
    cases h
    obtain ⟨moves, -⟩ := scanBelow_spec scanned
    rw [moves]
    exact ⟨rfl, rfl, rfl⟩
  · rename_i a s₁ scanned
    cases h
    obtain ⟨moves, -⟩ := scanBelow_spec scanned
    rw [moves]
    exact ⟨rfl, rfl, rfl⟩

end Spec

/-! ## Runs -/

/-- The calls of the early bookkeeping; `freed` is the outcome of the unmap
behind `initial_mem_free`. -/
inductive EarlyMemOp
  | bkeep (size : Nat)
  | free (addr size : Nat) (freed : Bool)
  | disable (memTotal : Nat)
  deriving DecidableEq, Repr

/-- The state the PAL starts from: the ranges it added, and no reserved range
read yet. -/
def EarlyMem.initial (ranges : List PalInitialMemRange) (reserved : List (Nat × Nat)) : EarlyMem :=
  ⟨ranges, false, UINTPTR_MAX, UINTPTR_MAX, UINTPTR_MAX, reserved, (0, 0)⟩

section Run

variable (allocAlign memoryAddressStart memoryAddressEnd : Nat)

/-- One call on the state; `none` when the process ends. -/
def earlyMemStep : EarlyMemOp → EarlyMem → Option EarlyMem
  | .bkeep size, s => (initialMemBkeep allocAlign memoryAddressStart memoryAddressEnd size s).map Prod.snd
  | .free addr size freed, s => (initialMemFree addr size freed s).map Prod.snd
  | .disable memTotal, s => palDisableEarlyMemoryBookkeeping allocAlign memoryAddressStart memTotal s

/-- The requests the callers make: a positive size, a multiple of the
allocation alignment. -/
def EarlyMemOp.Aligned : EarlyMemOp → Prop
  | .bkeep size => 0 < size ∧ allocAlign ∣ size
  | _ => True

/-- The states reached from an array of the right shape by aligned calls. -/
inductive EarlyMemRun : EarlyMem → Prop
  | init {ranges : List PalInitialMemRange} {reserved : List (Nat × Nat)} :
      RangesOk ranges → EarlyMemRun (EarlyMem.initial ranges reserved)
  | step {s s' : EarlyMem} (op : EarlyMemOp) : EarlyMemRun s → op.Aligned allocAlign →
      earlyMemStep allocAlign memoryAddressStart memoryAddressEnd op s = some s' → EarlyMemRun s'

/-- What every call keeps: the shape of the array, and a scan that starts at
the end of memory or below it. -/
structure EarlyMem.Invariant (s : EarlyMem) : Prop where
  rangesOk : RangesOk s.ranges
  lastAllocAddr_le : s.lastAllocAddr = UINTPTR_MAX ∨ s.lastAllocAddr ≤ memoryAddressEnd

attribute [grind] earlyMemStep

variable {allocAlign memoryAddressStart memoryAddressEnd}

theorem EarlyMem.Invariant.scanStart_le {s : EarlyMem} (inv : s.Invariant memoryAddressEnd) :
    scanStart memoryAddressEnd s.lastAllocAddr ≤ memoryAddressEnd := by
  unfold scanStart
  rcases inv.lastAllocAddr_le with top | below
  · rw [if_pos top]
  · split_ifs
    · exact le_rfl
    · exact below

theorem earlyMemStep_invariant {op : EarlyMemOp} {s s' : EarlyMem}
    (inv : s.Invariant memoryAddressEnd) (aligned : op.Aligned allocAlign)
    (h : earlyMemStep allocAlign memoryAddressStart memoryAddressEnd op s = some s') :
    s'.Invariant memoryAddressEnd := by
  cases op with
  | bkeep size =>
    obtain ⟨⟨result, s₁⟩, call, rfl⟩ := Option.map_eq_some_iff.mp h
    obtain ⟨ok, last, -⟩ := initialMemBkeep_spec inv.rangesOk aligned.1 call
    have := inv.scanStart_le
    refine ⟨ok, ?_⟩
    dsimp only
    rcases last with same | start | below
    · exact same ▸ inv.lastAllocAddr_le
    · exact .inr (start ▸ this)
    · exact .inr (by omega)
  | free addr size freed =>
    obtain ⟨⟨result, s₁⟩, call, rfl⟩ := Option.map_eq_some_iff.mp h
    obtain ⟨ok, last, -⟩ := initialMemFree_spec inv.rangesOk call
    exact ⟨ok, last ▸ inv.lastAllocAddr_le⟩
  | disable memTotal =>
    obtain ⟨ranges, last, -⟩ := palDisableEarlyMemoryBookkeeping_keeps h
    exact ⟨ranges ▸ inv.rangesOk, last ▸ inv.lastAllocAddr_le⟩

theorem EarlyMemRun.invariant {s : EarlyMem}
    (run : EarlyMemRun allocAlign memoryAddressStart memoryAddressEnd s) :
    s.Invariant memoryAddressEnd := by
  induction run with
  | init ok => exact ⟨ok, .inl rfl⟩
  | step op _ aligned h inv => exact earlyMemStep_invariant inv aligned h

end Run

/-! ## A scan that fails

Memory from `0x100000` to `0x10000000` in pages of `0x1000`, one reserved
range `[0x0F000000, 0x0F800000)`, and an empty array. A request too large to
fit reads the reserved range while it scans and fails; `g_last_alloc_addr`
stays at the end of memory, but the cursor has moved past the range. -/

theorem initialMemBkeep_fails_past_reserved :
    initialMemBkeep 0x1000 0x100000 0x10000000 0x0F000000
        (EarlyMem.initial [] [(0x0F000000, 0x0F800000)]) =
      some (.error .noMem, ⟨[], false, 0x10000000, 0, 0, [], (0, 0)⟩) := by
  rw [initialMemBkeep]
  simp only [EarlyMem.initial, Bool.false_eq_true, if_false, if_true]
  rw [findInitialRange, scanBelow]
  simp [findFreeRange, findBestFit, findNonReservedRangeBelow, skipReserved, reservedRangeOk,
    UINTPTR_MAX]

theorem initialMemBkeep_after_failed_scan :
    initialMemBkeep 0x1000 0x100000 0x10000000 0x900000 ⟨[], false, 0x10000000, 0, 0, [], (0, 0)⟩ =
      some (.ok 0x0F700000,
        ⟨[⟨0x0F700000, 0x10000000, false⟩], false, 0x0F700000, 0, 0, [], (0, 0)⟩) := by
  rw [initialMemBkeep]
  simp only [Bool.false_eq_true, if_false]
  rw [findInitialRange, scanBelow]
  simp [findFreeRange, findBestFit, findNonReservedRangeBelow, skipReserved, overlapsExistingRange,
    palAddInitialRange, insertRange, UINTPTR_MAX, INITIAL_MEM_RANGES_MAX]

theorem earlyMemRun_failed_scan :
    EarlyMemRun 0x1000 0x100000 0x10000000 ⟨[], false, 0x10000000, 0, 0, [], (0, 0)⟩ :=
  (EarlyMemRun.init RangesOk.nil).step (.bkeep 0x0F000000) ⟨by decide, by decide⟩
    (by rw [earlyMemStep, initialMemBkeep_fails_past_reserved]; rfl)

theorem earlyMemRun_after_failed_scan :
    EarlyMemRun 0x1000 0x100000 0x10000000
      ⟨[⟨0x0F700000, 0x10000000, false⟩], false, 0x0F700000, 0, 0, [], (0, 0)⟩ :=
  earlyMemRun_failed_scan.step (.bkeep 0x900000) ⟨by decide, by decide⟩
    (by rw [earlyMemStep, initialMemBkeep_after_failed_scan]; rfl)

/-- The next, smaller request is placed below the end of memory again, on the
reserved range the failed scan skipped. -/
theorem initialMemBkeep_overlaps_skipped_reserved_range :
    ∃ s₁ s₂, EarlyMemRun 0x1000 0x100000 0x10000000 s₂ ∧
      reservedRangeOk 0x1000 UINTPTR_MAX (0x0F000000, 0x0F800000) ∧
      initialMemBkeep 0x1000 0x100000 0x10000000 0x0F000000
        (EarlyMem.initial [] [(0x0F000000, 0x0F800000)]) = some (.error .noMem, s₁) ∧
      initialMemBkeep 0x1000 0x100000 0x10000000 0x900000 s₁ = some (.ok 0x0F700000, s₂) ∧
      ¬ (0x0F700000 + 0x900000 ≤ 0x0F000000 ∨ 0x0F800000 ≤ 0x0F700000) :=
  ⟨_, _, earlyMemRun_after_failed_scan, by decide, initialMemBkeep_fails_past_reserved,
    initialMemBkeep_after_failed_scan, by decide⟩

/-! ## What every run keeps -/

section Kept

variable {allocAlign memoryAddressStart memoryAddressEnd : Nat}

/-- Along every run the array stays sorted by descending address, with
non-empty entries and no two free neighbours touching. -/
theorem earlyMemRun_rangesOk {s : EarlyMem}
    (run : EarlyMemRun allocAlign memoryAddressStart memoryAddressEnd s) :
    RangesOk s.ranges ∧ s.ranges.Pairwise (fun a b => b.rangeEnd ≤ a.start) :=
  ⟨run.invariant.rangesOk, run.invariant.rangesOk.sorted⟩

theorem earlyMemRun_rangesOk_after_failed_scan :
    ∃ s, EarlyMemRun 0x1000 0x100000 0x10000000 s ∧
      s.ranges = [⟨0x0F700000, 0x10000000, false⟩] ∧
      RangesOk s.ranges ∧ s.ranges.Pairwise (fun a b => b.rangeEnd ≤ a.start) :=
  ⟨_, earlyMemRun_after_failed_scan, rfl, earlyMemRun_rangesOk earlyMemRun_after_failed_scan⟩

/-- In every reachable state, a range `initial_mem_bkeep` hands out meets no
entry in use; it was carved off the top of a free entry, or lies between the
start and the end of memory, clear of every entry. -/
theorem earlyMemRun_bkeep_apart {s s' : EarlyMem} {size addr : Nat}
    (run : EarlyMemRun allocAlign memoryAddressStart memoryAddressEnd s) (positive : 0 < size)
    (h : initialMemBkeep allocAlign memoryAddressStart memoryAddressEnd size s = some (.ok addr, s')) :
    (∀ r ∈ s.ranges, r.isFree = false → r.rangeEnd ≤ addr ∨ addr + size ≤ r.start) ∧
      ((∃ x ∈ s.ranges, x.isFree = true ∧ x.start ≤ addr ∧ addr + size = x.rangeEnd) ∨
        (memoryAddressStart ≤ addr ∧ addr + size ≤ memoryAddressEnd ∧
          ∀ r ∈ s.ranges, r.rangeEnd ≤ addr ∨ addr + size ≤ r.start)) := by
  have inv := run.invariant
  obtain ⟨-, -, spec⟩ := initialMemBkeep_spec inv.rangesOk positive h
  obtain ⟨apart, origin⟩ := spec addr rfl
  refine ⟨apart, origin.imp_right fun ⟨low, high, clear⟩ => ⟨low, ?_, clear⟩⟩
  exact Nat.le_trans high inv.scanStart_le

theorem earlyMemRun_bkeep_apart_after_failed_scan :
    ∃ s s', EarlyMemRun 0x1000 0x100000 0x10000000 s ∧
      initialMemBkeep 0x1000 0x100000 0x10000000 0x900000 s = some (.ok 0x0F700000, s') ∧
      (∀ r ∈ s.ranges, r.isFree = false → r.rangeEnd ≤ 0x0F700000 ∨ 0x0F700000 + 0x900000 ≤ r.start) ∧
      ((∃ x ∈ s.ranges, x.isFree = true ∧ x.start ≤ 0x0F700000 ∧ 0x0F700000 + 0x900000 = x.rangeEnd) ∨
        (0x100000 ≤ 0x0F700000 ∧ 0x0F700000 + 0x900000 ≤ 0x10000000 ∧
          ∀ r ∈ s.ranges, r.rangeEnd ≤ 0x0F700000 ∨ 0x0F700000 + 0x900000 ≤ r.start)) :=
  ⟨_, _, earlyMemRun_failed_scan, initialMemBkeep_after_failed_scan,
    earlyMemRun_bkeep_apart earlyMemRun_failed_scan (by decide) initialMemBkeep_after_failed_scan⟩

/-- In every reachable state, `initial_mem_free` succeeds only on a range that
is exactly an entry of the array, and a free entry covers it afterwards. -/
theorem earlyMemRun_free_exact {s s' : EarlyMem} {addr size : Nat} {freed : Bool}
    (run : EarlyMemRun allocAlign memoryAddressStart memoryAddressEnd s)
    (h : initialMemFree addr size freed s = some (.ok (), s')) :
    (∃ r ∈ s.ranges, r.start = addr ∧ r.rangeEnd = addr + size) ∧
      ∃ f ∈ s'.ranges, f.isFree = true ∧ f.start ≤ addr ∧ addr + size ≤ f.rangeEnd :=
  (initialMemFree_spec run.invariant.rangesOk h).2.2 rfl

theorem earlyMemRun_free_exact_after_failed_scan :
    ∃ s s', EarlyMemRun 0x1000 0x100000 0x10000000 s ∧
      initialMemFree 0x0F700000 0x900000 true s = some (.ok (), s') ∧
      (∃ r ∈ s.ranges, r.start = 0x0F700000 ∧ r.rangeEnd = 0x0F700000 + 0x900000) ∧
      ∃ f ∈ s'.ranges, f.isFree = true ∧ f.start ≤ 0x0F700000 ∧ 0x0F700000 + 0x900000 ≤ f.rangeEnd :=
  have freed : initialMemFree 0x0F700000 0x900000 true
      ⟨[⟨0x0F700000, 0x10000000, false⟩], false, 0x0F700000, 0, 0, [], (0, 0)⟩ =
        some (.ok (), ⟨[⟨0x0F700000, 0x10000000, true⟩], false, 0x0F700000, 0, 0, [], (0, 0)⟩) := by
    decide
  ⟨_, _, earlyMemRun_after_failed_scan, freed,
    earlyMemRun_free_exact earlyMemRun_after_failed_scan freed⟩

end Kept

end Gramine.Pal
