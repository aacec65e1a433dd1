import Gramine.LibOS.Bookkeep.VmaPageMap
import Gramine.LibOS.Bookkeep.VmaPlacement
import Gramine.Pal.VirtualMemory

/-!
# The program break

`libos/src/sys/libos_brk.c` keeps the heap in `brk_region`: the range
`[brk_start, brk_end)`, which `init_brk_region` books once as one unmapped VMA,
and the break `brk_current` inside it. The break is not aligned; the
bookkeeping and the PAL work on whole pages, up to
`ALLOC_ALIGN_UP(brk_current)`. `libos_syscall_brk(brk)` takes one of three
paths:

* a break at or below the aligned current break (shrinking, or growing within
  the last page) books the pages from `ALLOC_ALIGN_UP(brk)` on as unmapped
  again and frees them in the PAL, when there are any;
* a break above it, within the region and the `RLIMIT_DATA` limit, books the
  new pages readable and writable and allocates them in the PAL; when the PAL
  fails, the pages are booked as unmapped again, and a failure of that is
  `BUG()`;
* any other break changes nothing.

Every path answers the break it leaves. The model takes the value of
`get_rlimit_cur(RLIMIT_DATA)` as an argument of each call, since `setrlimit`
may change it between calls, and the answers of `alloc_vma` and of the host too.
`brk_lock` makes each call atomic, so a run is a sequence of calls, between
which other calls may change the bookkeeping and the address space outside the
heap (`LeavesHeap`).

`BrkInv` is what the calls keep: the break lies in the region; the pages below
the aligned break are booked as heap and allocated readable and writable; the
pages above it are booked as unmapped and not allocated; and no VMA crosses an
end of the region. `init_brk_region` establishes it (`initBrkRegion_brkInv`),
and every call keeps it and moves the break exactly when `BrkMoves` says,
leaving the page map and the address space as they were otherwise
(`libosSyscallBrk_spec`).
-/

namespace Gramine.LibOS.Sys

open Gramine.LibOS.Bookkeep Gramine.Pal IntervalList

section Model

variable (allocAlignment : Nat)

/-- `ALLOC_ALIGN_DOWN(x)`: `ALLOC_ALIGNMENT` is a power of two, so the mask of
`ALIGN_DOWN_POW2` takes the remainder. -/
def allocAlignDown (x : Nat) : Nat :=
  x - x % allocAlignment

/-- `ALLOC_ALIGN_UP(x)`, also `ALLOC_ALIGN_UP_PTR`. On a pointer in the last
page of the address space it would wrap to zero; `libos_syscall_brk` aligns
its argument first, but uses the result only for a break within the region. -/
def allocAlignUp (x : Nat) : Nat :=
  allocAlignDown allocAlignment (x + allocAlignment - 1)

/-- `brk_region`. -/
structure BrkRegion where
  dataSegmentSize : Nat
  brkStart : Nat
  brkCurrent : Nat
  brkEnd : Nat
  deriving DecidableEq, Repr

/-- What `libos_syscall_brk` reads and changes: `brk_region`, the bookkeeping
and the address space. -/
structure BrkSystem where
  region : BrkRegion
  vmas : VmaState
  mem : PalMem

/-- What the allocators answer during one call: `alloc_vma`, for the new VMA
and the spare of the `bkeep_mmap_fixed` that moves the break and of the one
that undoes a growth the PAL refused, and whether the host has the memory. -/
structure BrkAnswers where
  newVmaAllocated : Bool
  vma1Allocated : Bool
  undoNewVmaAllocated : Bool
  undoVma1Allocated : Bool
  memoryAvailable : Bool
  deriving DecidableEq, Repr

/-- The label `out:`, where every path answers the break it leaves. -/
def brkOut (st : BrkSystem) : Option (Nat × BrkSystem) :=
  some (st.region.brkCurrent, st)

/-- The path of `libos_syscall_brk` for a break at or below the aligned current
break: the pages from the aligned break on go back to the unmapped VMA and to
the host. -/
def brkShrink (brk : Nat) (answers : BrkAnswers) (st : BrkSystem) : Option (Nat × BrkSystem) :=
  let region := st.region
  let brkAligned := allocAlignUp allocAlignment brk
  let size := allocAlignUp allocAlignment region.brkCurrent - brkAligned
  if size ≠ 0 then
    match bkeepMmapFixed allocAlignment brkAligned (region.brkEnd - brkAligned) PROT_NONE
        (MAP_FIXED ||| VMA_UNMAPPED) none 0 answers.newVmaAllocated answers.vma1Allocated
        st.vmas with
    | .error _ => brkOut st
    | .ok vmas =>
      brkOut ⟨{ region with brkCurrent := brk }, vmas, palVirtualMemoryFree brkAligned size st.mem⟩
  else brkOut { st with region := { region with brkCurrent := brk } }

/-- The path for a break above the aligned current break, once the
`RLIMIT_DATA` check has passed: the new pages are booked and allocated, and
booked as unmapped again when the host refuses them. -/
def brkGrow (brk : Nat) (answers : BrkAnswers) (st : BrkSystem) : Option (Nat × BrkSystem) :=
  let region := st.region
  let brkCurrent := allocAlignUp allocAlignment region.brkCurrent
  let size := allocAlignUp allocAlignment brk - brkCurrent
  match bkeepMmapFixed allocAlignment brkCurrent size (PROT_READ ||| PROT_WRITE)
      (MAP_PRIVATE ||| MAP_ANONYMOUS ||| MAP_FIXED) none 0 answers.newVmaAllocated
      answers.vma1Allocated st.vmas with
  | .error _ => brkOut st
  | .ok vmas =>
    match palVirtualMemoryAlloc brkCurrent size (PAL_PROT_READ ||| PAL_PROT_WRITE)
        answers.memoryAvailable st.mem with
    | some mem => brkOut ⟨{ region with brkCurrent := brk }, vmas, mem⟩
    | none =>
      match bkeepMmapFixed allocAlignment brkCurrent (region.brkEnd - brkCurrent) PROT_NONE
          (MAP_FIXED ||| VMA_UNMAPPED) none 0 answers.undoNewVmaAllocated
          answers.undoVma1Allocated vmas with
      | .error _ => none
      | .ok vmas => brkOut { st with vmas }

/-- `libos_syscall_brk(brk)`, with `rlimData` the value of
`get_rlimit_cur(RLIMIT_DATA)`; `none` when it reaches `BUG()`. -/
def libosSyscallBrk (brk rlimData : Nat) (answers : BrkAnswers) (st : BrkSystem) :
    Option (Nat × BrkSystem) :=
  let region := st.region
  if brk < region.brkStart then brkOut st
  else if brk ≤ allocAlignUp allocAlignment region.brkCurrent then
    brkShrink allocAlignment brk answers st
  else if region.brkEnd < brk then brkOut st
  else if rlimData < region.dataSegmentSize ∨
      rlimData - region.dataSegmentSize < allocAlignUp allocAlignment brk - region.brkStart then
    brkOut st
  else brkGrow allocAlignment brk answers st

/-- What `init_brk_region` reads besides its arguments and the bookkeeping:
whether `create_lock` succeeds; `sys.brk.max_size` of the manifest, its
default included (`none` when it does not parse); the fields of
`g_pal_public_state` and `g_aslr_addr_top`; what `PalRandomBitsRead` answers,
the error `init_brk_region` returns for it or the bits read; and what
`alloc_vma` answers to the bookkeeping calls. -/
structure BrkInitEnv where
  lockCreated : Bool
  brkMaxSize : Option Nat
  memoryAddressStart : Nat
  memoryAddressEnd : Nat
  disableAslr : Bool
  aslrAddrTop : Nat
  randomBits : Except Int Nat
  layout : PalMemoryLayout
  receivedUserMemory : Bool
  fixedNewVmaAllocated : Bool
  fixedVma1Allocated : Bool
  aslrNewVmaAllocated : Bool
  anyNewVmaAllocated : Bool

/-- The offset `init_brk_region` adds to the start it is given: none without
ASLR, and otherwise the random bits taken below `0x2000000` and below the room
above the region, and aligned down. -/
def brkRandomOffset (env : BrkInitEnv) (brkStart brkMaxSize : Nat) : Except Int Nat :=
  if env.disableAslr then .ok 0
  else
    match env.randomBits with
    | .error err => .error err
    | .ok bits =>
      .ok (allocAlignDown allocAlignment
        (bits % min 0x2000000 (env.memoryAddressEnd - brkMaxSize - brkStart)))

/-- The fixed placement `init_brk_region` tries for the start it is given;
`.ok none` is `brk_start = NULL`: it tries none, or the range meets a VMA. -/
def brkPlaceFixed (env : BrkInitEnv) (brkStart brkMaxSize : Nat) (s : VmaState) :
    Except Int (Option (VmaState × Nat)) :=
  if brkStart ≠ 0 ∧ brkStart ≤ env.memoryAddressEnd ∧ brkMaxSize ≤ env.memoryAddressEnd ∧
      brkStart < env.memoryAddressEnd - brkMaxSize then
    match brkRandomOffset allocAlignment env brkStart brkMaxSize with
    | .error err => .error err
    | .ok offset =>
      match bkeepMmapFixed allocAlignment (brkStart + offset) brkMaxSize PROT_NONE
          (MAP_FIXED_NOREPLACE ||| VMA_UNMAPPED) none 0 env.fixedNewVmaAllocated
          env.fixedVma1Allocated s with
      | .ok s => .ok (some (s, brkStart + offset))
      | .error err => if err = -EEXIST then .ok none else .error err
  else .ok none

/-- Where `init_brk_region` books the region: at the fixed placement, or else
wherever `bkeep_mmap_any_aslr` finds room. -/
def brkPlace (env : BrkInitEnv) (brkStart brkMaxSize : Nat) (s : VmaState) :
    Except Int (VmaState × Nat) :=
  match brkPlaceFixed allocAlignment env brkStart brkMaxSize s with
  | .error err => .error err
  | .ok (some placed) => .ok placed
  | .ok none =>
    bkeepMmapAnyAslr allocAlignment env.layout env.receivedUserMemory env.memoryAddressStart
      env.memoryAddressEnd env.aslrAddrTop brkMaxSize PROT_NONE VMA_UNMAPPED none 0
      env.aslrNewVmaAllocated env.anyNewVmaAllocated s

/-- `init_brk_region(brk_start, data_segment_size)` on the `brk_region` of the
process: the region and the bookkeeping it leaves, and the `RLIMIT_DATA` it
sets, if it sets one. -/
def initBrkRegion (env : BrkInitEnv) (brkStart dataSegmentSize : Nat) (region : BrkRegion)
    (s : VmaState) : Except Int (BrkRegion × VmaState × Option Nat) :=
  if !env.lockCreated then .error (-ENOMEM)
  -- after a fork the region is already there, from the checkpoint
  else if region.brkStart ≠ 0 then .ok (region, s, none)
  else
    let dataSegmentSize := allocAlignUp allocAlignment dataSegmentSize
    match env.brkMaxSize with
    | none => .error (-EINVAL)
    | some brkMaxSize =>
      if brkStart ≠ 0 ∧ ¬ IsAllocAligned allocAlignment brkStart then .error (-EINVAL)
      else if ¬ IsAllocAligned allocAlignment brkMaxSize then .error (-EINVAL)
      else
        match brkPlace allocAlignment env brkStart brkMaxSize s with
        | .error err => .error err
        | .ok (s, brkStart) =>
          .ok (⟨dataSegmentSize, brkStart, brkStart, brkStart + brkMaxSize⟩, s,
            some ((brkMaxSize + dataSegmentSize) % 2 ^ 64))

attribute [grind] allocAlignDown allocAlignUp

end Model

/-! ## Aligned addresses -/

section Alignment

variable {allocAlignment : Nat}

theorem allocAlignDown_aligned (x : Nat) :
    IsAllocAligned allocAlignment (allocAlignDown allocAlignment x) :=
  Nat.dvd_sub_mod x

theorem allocAlignUp_aligned (x : Nat) :
    IsAllocAligned allocAlignment (allocAlignUp allocAlignment x) :=
  allocAlignDown_aligned _

theorem le_allocAlignUp (alignPos : 0 < allocAlignment) (x : Nat) :
    x ≤ allocAlignUp allocAlignment x := by
  have := Nat.mod_lt (x + allocAlignment - 1) alignPos
  simp only [allocAlignUp, allocAlignDown]
  omega

/-- `ALLOC_ALIGN_UP(x)` is the least aligned bound of `x`. -/
theorem allocAlignUp_le (alignPos : 0 < allocAlignment) {x y : Nat} (le : x ≤ y)
    (aligned : IsAllocAligned allocAlignment y) : allocAlignUp allocAlignment x ≤ y := by
  refine Nat.le_of_lt_add_of_dvd ?_ (allocAlignUp_aligned x) aligned
  simp only [allocAlignUp, allocAlignDown]
  omega

theorem allocAlignUp_of_aligned (alignPos : 0 < allocAlignment) {x : Nat}
    (aligned : IsAllocAligned allocAlignment x) : allocAlignUp allocAlignment x = x :=
  Nat.le_antisymm (allocAlignUp_le alignPos le_rfl aligned) (le_allocAlignUp alignPos x)

end Alignment

/-! ## The heap in the bookkeeping -/

/-- What the bookkeeping says about a page of the heap below the aligned break:
an anonymous private mapping, readable and writable. -/
def heapPage : PageInfo :=
  ⟨PROT_READ ||| PROT_WRITE, MAP_PRIVATE ||| MAP_ANONYMOUS, none, none⟩

/-- What it says about a page of the heap from the aligned break on: booked,
but unmapped. -/
def heapReservePage : PageInfo :=
  ⟨PROT_NONE, VMA_UNMAPPED, none, none⟩

/-- The protection the pages of the heap are allocated with. -/
def heapPalProt : UInt32 :=
  PAL_PROT_READ ||| PAL_PROT_WRITE

theorem newMapping_anonymous_pageInfo (node begin stop : Nat) (prot flags : UInt32) (x : Nat) :
    (newMapping node begin stop prot flags none 0).pageInfo x =
      ⟨prot, filterSavedFlags flags, none, none⟩ := by
  simp [LibosVma.pageInfo, newMapping]

@[simp] theorem heapMapping_pageInfo (node begin stop x : Nat) :
    (newMapping node begin stop (PROT_READ ||| PROT_WRITE)
      (MAP_PRIVATE ||| MAP_ANONYMOUS ||| MAP_FIXED) none 0).pageInfo x = heapPage := by
  rw [newMapping_anonymous_pageInfo]
  decide

/-- The unmapped VMAs of the heap, whichever call books them, say the same. -/
theorem reserveMapping_pageInfo {flags : UInt32} (saved : filterSavedFlags flags = VMA_UNMAPPED)
    (node begin stop x : Nat) :
    (newMapping node begin stop PROT_NONE flags none 0).pageInfo x = heapReservePage := by
  rw [newMapping_anonymous_pageInfo, saved]
  rfl

/-- The VMA holds the pages on both sides of `addr`. -/
def Straddles (vma : LibosVma) (addr : Nat) : Prop :=
  vma.begin < addr ∧ addr < vma.end'

attribute [grind] Straddles

/-- A piece of a VMA straddles only what the VMA straddles. -/
theorem straddles_of_pieceOf {g : PageInfo → PageInfo} {piece vma : LibosVma}
    (h : piece.PieceOf g vma) {addr : Nat} (straddles : Straddles piece addr) :
    Straddles vma addr := by
  obtain ⟨lower, upper⟩ := straddles
  obtain ⟨⟨first, -⟩, -⟩ := h piece.begin ⟨le_rfl, by omega⟩
  obtain ⟨⟨-, last⟩, -⟩ := h (piece.end' - 1) ⟨by omega, by omega⟩
  exact ⟨by omega, by omega⟩

section Booked

variable (allocAlignment : Nat)

/-- The bookkeeping of the heap `[start, stop)`: a well-formed tree in which no
VMA crosses an end of the heap, and every page of the heap is booked by a
user VMA. -/
structure HeapBooked (s : VmaState) (start stop : Nat) : Prop where
  wellFormed : s.WellFormed allocAlignment
  apart : ∀ vma ∈ s.vmaTree, ¬ Straddles vma start ∧ ¬ Straddles vma stop
  user : ∀ x, start ≤ x → x < stop →
    ∃ info, pageMap s.vmaTree x = some info ∧ info.flags &&& VMA_INTERNAL = 0

variable {allocAlignment} {s : VmaState} {start stop : Nat}

/-- Within the heap, `bkeep_mmap_fixed` of a user mapping without
`MAP_FIXED_NOREPLACE`, on a range that does not lie strictly inside one VMA,
fails only when `alloc_vma` has no new VMA. -/
theorem HeapBooked.bkeepMmapFixed_error (booked : HeapBooked allocAlignment s start stop)
    {addr length : Nat} {prot flags : UInt32} {newVmaAllocated vma1Allocated : Bool} {err : Int}
    (good : ¬ IsBadRange allocAlignment addr length) (lower : start ≤ addr)
    (upper : addr + length ≤ stop) (replacing : (flags &&& MAP_FIXED_NOREPLACE != 0) = false)
    (user : (flags &&& VMA_INTERNAL != 0) = false)
    (noSplit : ∀ vma ∈ s.vmaTree, ¬ (vma.begin < addr ∧ addr + length < vma.end'))
    (h : bkeepMmapFixed allocAlignment addr length prot flags none 0 newVmaAllocated
      vma1Allocated s = .error err) :
    newVmaAllocated = false := by
  rcases bkeepMmapFixed_eq_error booked.wellFormed replacing h with
    bad | unallocated | ⟨vma, member, ends, starts, internal⟩ | ⟨-, vma, member, inside⟩
  · exact absurd bad good
  · exact unallocated
  · -- a VMA meeting the range holds a page of the heap, which a user VMA books
    exfalso
    have nonempty := booked.wellFormed.nonempty vma member
    have positive := (not_isBadRange good).1
    have holds : vma.Holds (max addr vma.begin) := ⟨le_max_right _ _, max_lt ends nonempty⟩
    obtain ⟨info, booking, notInternal⟩ := booked.user (max addr vma.begin)
      (lower.trans (le_max_left _ _)) (max_lt (by omega) (by omega))
    rw [pageMap_eq_of_holds booked.wellFormed member holds, Option.some.injEq] at booking
    subst booking
    apply internal
    simpa [LibosVma.isInternal, user, LibosVma.pageInfo] using notInternal
  · exact absurd inside (noSplit vma member)

/-- `bkeep_mmap_fixed` of an anonymous user mapping within the heap keeps it
booked. -/
theorem HeapBooked.bkeepMmapFixed (booked : HeapBooked allocAlignment s start stop)
    {addr length : Nat} {prot flags : UInt32} {newVmaAllocated vma1Allocated : Bool}
    {s' : VmaState} (user : filterSavedFlags flags &&& VMA_INTERNAL = 0) (lower : start ≤ addr)
    (upper : addr + length ≤ stop)
    (h : bkeepMmapFixed allocAlignment addr length prot flags none 0 newVmaAllocated
      vma1Allocated s = .ok s') :
    HeapBooked allocAlignment s' start stop where
  wellFormed := bkeepMmapFixed_wellFormed booked.wellFormed h
  apart := by
    intro vma member
    rcases bkeepMmapFixed_pieceOf h vma member with rfl | ⟨old, found, piece⟩
    · -- the new mapping lies within the heap
      simp only [Straddles, newMapping_begin, newMapping_end']
      omega
    · exact ⟨fun straddles => (booked.apart old found).1 (straddles_of_pieceOf piece straddles),
        fun straddles => (booked.apart old found).2 (straddles_of_pieceOf piece straddles)⟩
  user := by
    intro x above below
    rw [pageMap_bkeepMmapFixed booked.wellFormed h]
    by_cases inRange : addr ≤ x ∧ x < addr + length
    · simp only [overwrite, inRange, and_self, ↓reduceIte, newMapping_anonymous_pageInfo]
      exact ⟨_, rfl, user⟩
    · simp only [overwrite, inRange, ↓reduceIte]
      exact booked.user x above below

end Booked

/-! ## What the calls keep -/

section Invariant

variable (allocAlignment : Nat)

/-- What `libos_syscall_brk` keeps. -/
structure BrkInv (st : BrkSystem) : Prop where
  booked : HeapBooked allocAlignment st.vmas st.region.brkStart st.region.brkEnd
  startAligned : IsAllocAligned allocAlignment st.region.brkStart
  endAligned : IsAllocAligned allocAlignment st.region.brkEnd
  startLe : st.region.brkStart ≤ st.region.brkCurrent
  currentLe : st.region.brkCurrent ≤ st.region.brkEnd
  /-- Below the aligned break the heap is booked as heap and allocated. -/
  heap : ∀ x, st.region.brkStart ≤ x → x < allocAlignUp allocAlignment st.region.brkCurrent →
    pageMap st.vmas.vmaTree x = some heapPage ∧ st.mem.prot x = some heapPalProt
  /-- From the aligned break on it is booked as unmapped and not allocated. -/
  reserve : ∀ x, allocAlignUp allocAlignment st.region.brkCurrent ≤ x → x < st.region.brkEnd →
    pageMap st.vmas.vmaTree x = some heapReservePage ∧ st.mem.prot x = none

/-- When `brk(brk)` moves the break to `brk`: the break lies in the region,
and either it is at or below the aligned current break and, if pages go back,
`alloc_vma` gives the VMA that books them, or it is above it, within the
`RLIMIT_DATA` limit, and `alloc_vma` and the host both give what the new pages
need. -/
def BrkMoves (region : BrkRegion) (brk rlimData : Nat) (answers : BrkAnswers) : Prop :=
  region.brkStart ≤ brk ∧ brk ≤ region.brkEnd ∧
    if brk ≤ allocAlignUp allocAlignment region.brkCurrent then
      allocAlignUp allocAlignment brk = allocAlignUp allocAlignment region.brkCurrent ∨
        answers.newVmaAllocated = true
    else
      region.dataSegmentSize ≤ rlimData ∧
        allocAlignUp allocAlignment brk - region.brkStart ≤ rlimData - region.dataSegmentSize ∧
        answers.newVmaAllocated = true ∧ answers.memoryAvailable = true

instance (region : BrkRegion) (brk rlimData : Nat) (answers : BrkAnswers) :
    Decidable (BrkMoves allocAlignment region brk rlimData answers) :=
  inferInstanceAs (Decidable (_ ∧ _ ∧ ite _ _ _))

/-- What a call from `st` does: it reaches `BUG()` only when the host refuses
a growth and `alloc_vma` has no VMA to undo it; otherwise it keeps the
invariant and either moves the break to `brk`, the pages it adds reading as
zero, or answers the break it had and leaves the region, the page map and the
address space as they were. -/
def BrkOutcome (st : BrkSystem) (brk rlimData : Nat) (answers : BrkAnswers) :
    Option (Nat × BrkSystem) → Prop
  | none => answers.memoryAvailable = false ∧ answers.undoNewVmaAllocated = false
  | some (ret, st') =>
    BrkInv allocAlignment st' ∧
      ((BrkMoves allocAlignment st.region brk rlimData answers ∧ ret = brk ∧
          st'.region = { st.region with brkCurrent := brk } ∧
          ∀ x, allocAlignUp allocAlignment st.region.brkCurrent ≤ x →
            x < allocAlignUp allocAlignment brk → st'.mem.bytes x = 0) ∨
        (¬ BrkMoves allocAlignment st.region brk rlimData answers ∧
          ret = st.region.brkCurrent ∧ st'.region = st.region ∧
          pageMap st'.vmas.vmaTree = pageMap st.vmas.vmaTree ∧ st'.mem = st.mem))

attribute [grind] BrkMoves

variable {allocAlignment} {st : BrkSystem}

theorem BrkInv.alignedCurrentLe (inv : BrkInv allocAlignment st)
    (alignPos : 0 < allocAlignment) :
    allocAlignUp allocAlignment st.region.brkCurrent ≤ st.region.brkEnd :=
  allocAlignUp_le alignPos inv.currentLe inv.endAligned

/-- No VMA crosses the aligned break: the heap below it and the unmapped pages
above it are booked differently. -/
theorem BrkInv.not_straddles_break (inv : BrkInv allocAlignment st)
    (alignPos : 0 < allocAlignment) {vma : LibosVma} (member : vma ∈ st.vmas.vmaTree) :
    ¬ Straddles vma (allocAlignUp allocAlignment st.region.brkCurrent) := by
  intro straddles
  have apart := inv.booked.apart vma member
  have currentLe := inv.alignedCurrentLe alignPos
  have startLe := inv.startLe.trans (le_allocAlignUp alignPos st.region.brkCurrent)
  -- the aligned break is no end of the region, which no VMA crosses
  have afterStart : st.region.brkStart ≠ allocAlignUp allocAlignment st.region.brkCurrent :=
    fun same => apart.1 (same ▸ straddles)
  have beforeEnd : allocAlignUp allocAlignment st.region.brkCurrent ≠ st.region.brkEnd :=
    fun same => apart.2 (same ▸ straddles)
  obtain ⟨lower, upper⟩ := straddles
  -- so the VMA holds the last page of the heap and the first unmapped one
  have lastHeld : vma.Holds (allocAlignUp allocAlignment st.region.brkCurrent - 1) :=
    ⟨by omega, by omega⟩
  have firstHeld : vma.Holds (allocAlignUp allocAlignment st.region.brkCurrent) :=
    ⟨by omega, upper⟩
  have last := pageMap_eq_of_holds inv.booked.wellFormed member lastHeld
  have first := pageMap_eq_of_holds inv.booked.wellFormed member firstHeld
  rw [(inv.heap _ (by omega) (by omega)).1, Option.some.injEq] at last
  rw [(inv.reserve _ le_rfl (by omega)).1, Option.some.injEq] at first
  have heapProt : heapPage.prot = vma.prot := congrArg PageInfo.prot last
  have reserveProt : heapReservePage.prot = vma.prot := congrArg PageInfo.prot first
  exact absurd (heapProt.trans reserveProt.symm) (by decide)

/-- A call that leaves the state as it was, for a break that `BrkMoves`
refuses. -/
theorem brkOut_outcome (inv : BrkInv allocAlignment st) {brk rlimData : Nat}
    {answers : BrkAnswers} (refused : ¬ BrkMoves allocAlignment st.region brk rlimData answers) :
    BrkOutcome allocAlignment st brk rlimData answers (brkOut st) :=
  ⟨inv, .inr ⟨refused, rfl, rfl, rfl, rfl⟩⟩

end Invariant

/-! ## The shrinking path -/

section Shrink

variable {allocAlignment : Nat} {st : BrkSystem}

/-- A break that moves within its aligned page changes no page. -/
theorem BrkInv.moveWithinPage (inv : BrkInv allocAlignment st) {brk : Nat}
    (above : st.region.brkStart ≤ brk) (below : brk ≤ st.region.brkEnd)
    (same : allocAlignUp allocAlignment brk = allocAlignUp allocAlignment st.region.brkCurrent) :
    BrkInv allocAlignment { st with region := { st.region with brkCurrent := brk } } where
  booked := inv.booked
  startAligned := inv.startAligned
  endAligned := inv.endAligned
  startLe := above
  currentLe := below
  heap := fun x lower upper => inv.heap x lower (by rw [← same]; exact upper)
  reserve := fun x lower upper => inv.reserve x (by rw [← same]; exact lower) upper

/-- The pages from the aligned break on go back: the bookkeeping books them as
unmapped, and the host frees those below the old aligned break. -/
theorem BrkInv.giveBack (alignPos : 0 < allocAlignment) (inv : BrkInv allocAlignment st)
    {brk : Nat} (above : st.region.brkStart ≤ brk)
    (below : brk ≤ allocAlignUp allocAlignment st.region.brkCurrent)
    {newVmaAllocated vma1Allocated : Bool} {vmas : VmaState}
    (booking : bkeepMmapFixed allocAlignment (allocAlignUp allocAlignment brk)
      (st.region.brkEnd - allocAlignUp allocAlignment brk) PROT_NONE (MAP_FIXED ||| VMA_UNMAPPED)
      none 0 newVmaAllocated vma1Allocated st.vmas = .ok vmas) :
    BrkInv allocAlignment ⟨{ st.region with brkCurrent := brk }, vmas,
      palVirtualMemoryFree (allocAlignUp allocAlignment brk)
        (allocAlignUp allocAlignment st.region.brkCurrent - allocAlignUp allocAlignment brk)
        st.mem⟩ := by
  have currentLe := inv.alignedCurrentLe alignPos
  have brkAbove := le_allocAlignUp alignPos brk
  have brkLe : allocAlignUp allocAlignment brk ≤ allocAlignUp allocAlignment st.region.brkCurrent :=
    allocAlignUp_le alignPos below (allocAlignUp_aligned _)
  have pages := pageMap_bkeepMmapFixed inv.booked.wellFormed booking
  refine ⟨inv.booked.bkeepMmapFixed (by decide) (by omega) (by omega) booking, inv.startAligned,
    inv.endAligned, above, show brk ≤ st.region.brkEnd by omega, fun x lower upper => ?_,
    fun x lower upper => ?_⟩
  · -- below the new aligned break nothing changed
    dsimp only at lower upper ⊢
    rw [pages, overwrite, palVirtualMemoryFree_prot, if_neg (by omega), if_neg (by omega)]
    exact inv.heap x lower (by omega)
  · -- from it on the pages are unmapped, and freed where they were allocated
    dsimp only at lower upper ⊢
    rw [pages, overwrite, palVirtualMemoryFree_prot, if_pos ⟨lower, by omega⟩,
      reserveMapping_pageInfo (by decide)]
    refine ⟨rfl, ?_⟩
    split_ifs with freed
    · rfl
    · exact (inv.reserve x (by omega) upper).2

/-- The path for a break at or below the aligned current break moves the
break, unless pages go back and `alloc_vma` has no VMA to book them. -/
theorem brkShrink_outcome (alignPos : 0 < allocAlignment) (inv : BrkInv allocAlignment st)
    {brk rlimData : Nat} {answers : BrkAnswers} (above : st.region.brkStart ≤ brk)
    (below : brk ≤ allocAlignUp allocAlignment st.region.brkCurrent) :
    BrkOutcome allocAlignment st brk rlimData answers (brkShrink allocAlignment brk answers st) := by
  have currentLe := inv.alignedCurrentLe alignPos
  have brkAbove := le_allocAlignUp alignPos brk
  have brkLe : allocAlignUp allocAlignment brk ≤ allocAlignUp allocAlignment st.region.brkCurrent :=
    allocAlignUp_le alignPos below (allocAlignUp_aligned _)
  have moves : BrkMoves allocAlignment st.region brk rlimData answers ↔
      (allocAlignUp allocAlignment brk = allocAlignUp allocAlignment st.region.brkCurrent ∨
        answers.newVmaAllocated = true) := by
    simp only [BrkMoves, below, ↓reduceIte]
    exact ⟨fun h => h.2.2, fun h => ⟨above, below.trans currentLe, h⟩⟩
  -- no page lies between the old aligned break and the new one
  have noneAdded : ∀ x, allocAlignUp allocAlignment st.region.brkCurrent ≤ x →
      x < allocAlignUp allocAlignment brk → st.mem.bytes x = 0 := fun x lower upper => by omega
  unfold brkShrink
  by_cases same : allocAlignUp allocAlignment brk = allocAlignUp allocAlignment st.region.brkCurrent
  · rw [if_neg (by omega)]
    exact ⟨inv.moveWithinPage above (below.trans currentLe) same,
      .inl ⟨moves.mpr (.inl same), rfl, rfl, noneAdded⟩⟩
  rw [if_pos (by omega)]
  split
  · -- the bookkeeping fails only without a new VMA, and then nothing moves
    rename_i err failed
    have unallocated := inv.booked.bkeepMmapFixed_error
      (not_isBadRange_sub (by omega) (allocAlignUp_aligned brk) inv.endAligned) (by omega)
      (by omega) (by decide) (by decide) (fun vma member inside =>
        (inv.booked.apart vma member).2 ⟨by omega, inside.2.trans_eq' (by omega)⟩) failed
    exact brkOut_outcome inv (by rw [moves, unallocated]; simp [same])
  · rename_i vmas booking
    exact ⟨inv.giveBack alignPos above below booking,
      .inl ⟨moves.mpr (.inr (bkeepMmapFixed_allocated booking)), rfl, rfl, noneAdded⟩⟩

end Shrink

/-! ## The growing path -/

section Grow

variable {allocAlignment : Nat} {st : BrkSystem}

/-- The pages from the aligned current break up to the aligned new break are
booked as heap and allocated. -/
theorem BrkInv.addPages (alignPos : 0 < allocAlignment) (inv : BrkInv allocAlignment st)
    {brk : Nat} (above : allocAlignUp allocAlignment st.region.brkCurrent < brk)
    (below : brk ≤ st.region.brkEnd) {newVmaAllocated vma1Allocated available : Bool}
    {vmas : VmaState} {mem : PalMem}
    (booking : bkeepMmapFixed allocAlignment (allocAlignUp allocAlignment st.region.brkCurrent)
      (allocAlignUp allocAlignment brk - allocAlignUp allocAlignment st.region.brkCurrent)
      (PROT_READ ||| PROT_WRITE) (MAP_PRIVATE ||| MAP_ANONYMOUS ||| MAP_FIXED) none 0
      newVmaAllocated vma1Allocated st.vmas = .ok vmas)
    (allocation : palVirtualMemoryAlloc (allocAlignUp allocAlignment st.region.brkCurrent)
      (allocAlignUp allocAlignment brk - allocAlignUp allocAlignment st.region.brkCurrent)
      (PAL_PROT_READ ||| PAL_PROT_WRITE) available st.mem = some mem) :
    BrkInv allocAlignment ⟨{ st.region with brkCurrent := brk }, vmas, mem⟩ := by
  have startLe := inv.startLe.trans (le_allocAlignUp alignPos st.region.brkCurrent)
  have brkAbove := le_allocAlignUp alignPos brk
  have brkLe := allocAlignUp_le alignPos below inv.endAligned
  have pages := pageMap_bkeepMmapFixed inv.booked.wellFormed booking
  obtain ⟨-, -, prot, -⟩ := palVirtualMemoryAlloc_eq_some.mp allocation
  refine ⟨inv.booked.bkeepMmapFixed (by decide) startLe (by omega) booking, inv.startAligned,
    inv.endAligned, show st.region.brkStart ≤ brk by omega, below, fun x lower upper => ?_,
    fun x lower upper => ?_⟩
  · dsimp only at lower upper ⊢
    rw [pages, overwrite, prot]
    by_cases added : allocAlignUp allocAlignment st.region.brkCurrent ≤ x
    · -- a new page of the heap
      rw [if_pos ⟨added, by omega⟩, if_pos ⟨added, by omega⟩, heapMapping_pageInfo]
      exact ⟨rfl, rfl⟩
    · rw [if_neg (by omega), if_neg (by omega)]
      exact inv.heap x lower (by omega)
  · -- above the new aligned break nothing changed
    dsimp only at lower upper ⊢
    rw [pages, overwrite, prot, if_neg (by omega), if_neg (by omega)]
    exact inv.reserve x (by omega) upper

/-- Booking the new pages and then booking the pages from the aligned current
break on as unmapped leaves the page map as it was. -/
theorem BrkInv.undoGrowth (alignPos : 0 < allocAlignment) (inv : BrkInv allocAlignment st)
    {brk : Nat} (above : allocAlignUp allocAlignment st.region.brkCurrent < brk)
    (below : brk ≤ st.region.brkEnd)
    {newVmaAllocated vma1Allocated undoNewVmaAllocated undoVma1Allocated : Bool}
    {vmas vmas' : VmaState}
    (booking : bkeepMmapFixed allocAlignment (allocAlignUp allocAlignment st.region.brkCurrent)
      (allocAlignUp allocAlignment brk - allocAlignUp allocAlignment st.region.brkCurrent)
      (PROT_READ ||| PROT_WRITE) (MAP_PRIVATE ||| MAP_ANONYMOUS ||| MAP_FIXED) none 0
      newVmaAllocated vma1Allocated st.vmas = .ok vmas)
    (undoing : bkeepMmapFixed allocAlignment (allocAlignUp allocAlignment st.region.brkCurrent)
      (st.region.brkEnd - allocAlignUp allocAlignment st.region.brkCurrent) PROT_NONE
      (MAP_FIXED ||| VMA_UNMAPPED) none 0 undoNewVmaAllocated undoVma1Allocated vmas =
        .ok vmas') :
    pageMap vmas'.vmaTree = pageMap st.vmas.vmaTree ∧
      BrkInv allocAlignment { st with vmas := vmas' } := by
  have currentLe := inv.alignedCurrentLe alignPos
  have brkAbove := le_allocAlignUp alignPos brk
  have brkLe := allocAlignUp_le alignPos below inv.endAligned
  have startLe := inv.startLe.trans (le_allocAlignUp alignPos st.region.brkCurrent)
  have grown := inv.booked.bkeepMmapFixed (by decide) startLe (by omega) booking
  have samePages : pageMap vmas'.vmaTree = pageMap st.vmas.vmaTree := by
    funext x
    rw [pageMap_bkeepMmapFixed grown.wellFormed undoing,
      pageMap_bkeepMmapFixed inv.booked.wellFormed booking]
    simp only [overwrite]
    by_cases undone : allocAlignUp allocAlignment st.region.brkCurrent ≤ x ∧ x < st.region.brkEnd
    · -- the pages from the aligned break on are unmapped again, as they were
      rw [if_pos (by omega), reserveMapping_pageInfo (by decide),
        (inv.reserve x undone.1 undone.2).1]
    · rw [if_neg (by omega), if_neg (by omega)]
  refine ⟨samePages, ⟨grown.bkeepMmapFixed (by decide) startLe (by omega) undoing,
    inv.startAligned, inv.endAligned, inv.startLe, inv.currentLe, fun x lower upper => ?_,
    fun x lower upper => ?_⟩⟩
  · simpa only [samePages] using inv.heap x lower upper
  · simpa only [samePages] using inv.reserve x lower upper

/-- The path for a break above the aligned current break, within the region
and the limit, moves the break when `alloc_vma` and the host give what the new
pages need; otherwise it leaves the pages as they were, or reaches `BUG()` when
`alloc_vma` has no VMA to undo a growth the host refused. -/
theorem brkGrow_outcome (alignPos : 0 < allocAlignment) (inv : BrkInv allocAlignment st)
    {brk rlimData : Nat} {answers : BrkAnswers}
    (above : allocAlignUp allocAlignment st.region.brkCurrent < brk)
    (below : brk ≤ st.region.brkEnd)
    (limit : ¬ (rlimData < st.region.dataSegmentSize ∨
      rlimData - st.region.dataSegmentSize <
        allocAlignUp allocAlignment brk - st.region.brkStart)) :
    BrkOutcome allocAlignment st brk rlimData answers (brkGrow allocAlignment brk answers st) := by
  have currentLe := inv.alignedCurrentLe alignPos
  have brkAbove := le_allocAlignUp alignPos brk
  have brkLe := allocAlignUp_le alignPos below inv.endAligned
  have startLe := inv.startLe.trans (le_allocAlignUp alignPos st.region.brkCurrent)
  have moves : BrkMoves allocAlignment st.region brk rlimData answers ↔
      answers.newVmaAllocated = true ∧ answers.memoryAvailable = true := by
    simp only [BrkMoves, show ¬ brk ≤ allocAlignUp allocAlignment st.region.brkCurrent by omega,
      ↓reduceIte]
    exact ⟨fun h => h.2.2.2.2, fun h => ⟨by omega, below, by omega, by omega, h⟩⟩
  unfold brkGrow
  dsimp only
  split
  · -- the bookkeeping fails only without a new VMA, and then nothing moves
    rename_i err failed
    have unallocated := inv.booked.bkeepMmapFixed_error
      (not_isBadRange_sub (by omega) (allocAlignUp_aligned _) (allocAlignUp_aligned brk)) startLe
      (by omega) (by decide) (by decide) (fun vma member inside =>
        inv.not_straddles_break alignPos member ⟨inside.1, by omega⟩) failed
    exact brkOut_outcome inv (by rw [moves, unallocated]; simp)
  rename_i vmas booking
  have allocated := bkeepMmapFixed_allocated booking
  split
  · rename_i mem allocation
    obtain ⟨available, -, -, bytes⟩ := palVirtualMemoryAlloc_eq_some.mp allocation
    refine ⟨inv.addPages alignPos above below booking allocation,
      .inl ⟨moves.mpr ⟨allocated, available⟩, rfl, rfl, fun x lower upper => ?_⟩⟩
    -- the new pages read as zero
    rw [bytes, if_pos ⟨lower, by omega⟩]
  -- the host refused: the new pages were free, so it had no memory
  rename_i refused
  have unavailable : answers.memoryAvailable = false := by
    rcases palVirtualMemoryAlloc_eq_none.mp refused with unavailable | ⟨x, lower, upper, taken⟩
    · exact unavailable
    · exact absurd (inv.reserve x lower (by omega)).2 taken
  have grown := inv.booked.bkeepMmapFixed (by decide) startLe (by omega) booking
  split
  · rename_i err failed
    refine ⟨unavailable, grown.bkeepMmapFixed_error
      (not_isBadRange_sub (by omega) (allocAlignUp_aligned _) inv.endAligned) startLe (by omega)
      (by decide) (by decide) (fun vma member inside => ?_) failed⟩
    -- a VMA holding the range strictly would cross the end of the region
    exact (grown.apart vma member).2 ⟨by omega, by omega⟩
  · rename_i vmas' undoing
    obtain ⟨samePages, undone⟩ := inv.undoGrowth alignPos above below booking undoing
    exact ⟨undone, .inr ⟨by rw [moves, unavailable]; simp, rfl, rfl, samePages, rfl⟩⟩

end Grow

/-! ## One call -/

section Call

variable {allocAlignment : Nat} {st : BrkSystem}

/-- Every call from a state of the invariant has the outcome `BrkOutcome`
describes. -/
theorem libosSyscallBrk_spec (alignPos : 0 < allocAlignment) (inv : BrkInv allocAlignment st)
    (brk rlimData : Nat) (answers : BrkAnswers) :
    BrkOutcome allocAlignment st brk rlimData answers
      (libosSyscallBrk allocAlignment brk rlimData answers st) := by
  unfold libosSyscallBrk
  dsimp only
  split_ifs with low shrinking high overLimit
  · -- below the region
    exact brkOut_outcome inv fun moves => absurd moves.1 (by omega)
  · exact brkShrink_outcome alignPos inv (by omega) shrinking
  · -- above the region
    exact brkOut_outcome inv fun moves => absurd moves.2.1 (by omega)
  · -- over the `RLIMIT_DATA` limit
    refine brkOut_outcome inv fun moves => ?_
    simp only [BrkMoves, shrinking, ↓reduceIte] at moves
    omega
  · exact brkGrow_outcome alignPos inv (by omega) (by omega) overLimit

end Call

/-! ## `init_brk_region` -/

section Init

variable {allocAlignment : Nat} {s s' : VmaState} {env : BrkInitEnv}

/-- A region booked as one unmapped VMA over a range no VMA met, where the
host had allocated nothing, satisfies the invariant with the break at its
start. -/
theorem brkInv_of_reserved (alignPos : 0 < allocAlignment) (wf : s.WellFormed allocAlignment)
    (wf' : s'.WellFormed allocAlignment) {mem : PalMem}
    (booked : ∀ x, mem.prot x ≠ none → pageMap s.vmaTree x ≠ none)
    {node dataSegmentSize start length : Nat} {flags : UInt32} (positive : 0 < length)
    (free : IsFree s.vmaTree start length) (saved : filterSavedFlags flags = VMA_UNMAPPED)
    (tree : s'.vmaTree =
      insertVma (newMapping node start (start + length) PROT_NONE flags none 0) s.vmaTree) :
    BrkInv allocAlignment ⟨⟨dataSegmentSize, start, start, start + length⟩, s', mem⟩ := by
  have newOk := wf'.vmasOk _ (by rw [tree]; exact mem_insertByHi.mpr (.inl rfl))
  have startAligned : IsAllocAligned allocAlignment start := newOk.beginAligned
  have pages : ∀ x, pageMap s'.vmaTree x =
      if start ≤ x ∧ x < start + length then some heapReservePage else pageMap s.vmaTree x := by
    intro x
    rw [tree, pageMap_insertVma wf (by simp only [newMapping_begin, newMapping_end']; omega)
      (fun other member => free other member)]
    simp only [newMapping_begin, newMapping_end', reserveMapping_pageInfo saved]
  -- the host had allocated only booked pages, and none of the region was booked
  have unallocated : ∀ x, start ≤ x → x < start + length → mem.prot x = none := by
    intro x lower upper
    by_contra taken
    refine booked x taken (lookup_eq_none_iff.mpr fun vma member holds => ?_)
    have := holds
    simp only [Contains] at this
    rcases free vma member with before | after <;> omega
  have current := allocAlignUp_of_aligned alignPos startAligned
  refine ⟨⟨wf', fun vma member => ?_, fun x lower upper => ?_⟩, startAligned, newOk.endAligned,
    le_rfl, Nat.le_add_right start length, fun x lower upper => ?_, fun x lower upper => ?_⟩
  · rw [tree] at member
    rcases mem_insertByHi.mp member with rfl | old
    · simp [Straddles]
    · -- the others lie apart from the region
      rcases free vma old with before | after
      · exact ⟨fun straddles => by simp only [Straddles] at straddles; omega,
          fun straddles => by simp only [Straddles] at straddles; omega⟩
      · exact ⟨fun straddles => by simp only [Straddles] at straddles; omega,
          fun straddles => by simp only [Straddles] at straddles; omega⟩
  · exact ⟨heapReservePage, by rw [pages, if_pos ⟨lower, upper⟩], by decide⟩
  · dsimp only at lower upper
    omega
  · dsimp only at lower upper ⊢
    rw [current] at lower
    exact ⟨by rw [pages, if_pos ⟨lower, upper⟩], unallocated x lower upper⟩

/-- The fixed placement books the region with `MAP_FIXED_NOREPLACE`. -/
theorem brkPlaceFixed_eq_some {brkStart brkMaxSize start : Nat}
    (h : brkPlaceFixed allocAlignment env brkStart brkMaxSize s = .ok (some (s', start))) :
    bkeepMmapFixed allocAlignment start brkMaxSize PROT_NONE (MAP_FIXED_NOREPLACE ||| VMA_UNMAPPED)
      none 0 env.fixedNewVmaAllocated env.fixedVma1Allocated s = .ok s' := by
  unfold brkPlaceFixed at h
  split_ifs at h with tried
  · split at h
    · cases h
    · split at h
      · rename_i booking
        cases h
        exact booking
      · split_ifs at h
        cases h
  · cases h

/-- Where `init_brk_region` books the region no VMA was, and the bookkeeping
gains one unmapped VMA there. -/
theorem brkPlace_reserved (wf : s.WellFormed allocAlignment)
    (earlyAligned : IsAllocAligned allocAlignment env.layout.earlyLibosMemRangeEnd)
    (lowAligned : IsAllocAligned allocAlignment (2 ^ 31)) {brkStart brkMaxSize start : Nat}
    (h : brkPlace allocAlignment env brkStart brkMaxSize s = .ok (s', start)) :
    s'.WellFormed allocAlignment ∧ 0 < brkMaxSize ∧ IsFree s.vmaTree start brkMaxSize ∧
      ∃ node flags, filterSavedFlags flags = VMA_UNMAPPED ∧
        s'.vmaTree =
          insertVma (newMapping node start (start + brkMaxSize) PROT_NONE flags none 0) s.vmaTree := by
  unfold brkPlace at h
  split at h
  · cases h
  · -- the fixed placement, which `MAP_FIXED_NOREPLACE` makes only where no VMA is
    rename_i placed fixed
    cases h
    have booking := brkPlaceFixed_eq_some fixed
    obtain ⟨good, cleared, clearing, rfl⟩ := bkeepMmapFixed_eq_ok booking
    rcases clearing with ⟨-, overlaps, rfl⟩ | ⟨replacing, -⟩
    · exact ⟨bkeepMmapFixed_wellFormed wf booking, (not_isBadRange good).1,
        apart_of_overlapsExisting wf overlaps, _, _, by decide, rfl⟩
    · exact absurd replacing (by decide)
  · -- anywhere, in the highest free range of one of the tries
    obtain ⟨topAddr, allocated, placing⟩ := bkeepMmapAnyAslr_eq_ok h
    obtain ⟨positive, free, rfl⟩ := bkeepMmapAnyInRange_isFree wf placing
    exact ⟨bkeepMmapAnyInRange_wellFormed wf earlyAligned lowAligned placing, positive, free, _,
      _, by decide, rfl⟩

/-- `init_brk_region` in a new process, where `brk_region` is zero, leaves the
invariant, when the host had allocated only booked pages. -/
theorem initBrkRegion_brkInv (alignPos : 0 < allocAlignment)
    (earlyAligned : IsAllocAligned allocAlignment env.layout.earlyLibosMemRangeEnd)
    (lowAligned : IsAllocAligned allocAlignment (2 ^ 31)) (wf : s.WellFormed allocAlignment)
    {mem : PalMem} (booked : ∀ x, mem.prot x ≠ none → pageMap s.vmaTree x ≠ none)
    {brkStart dataSegmentSize : Nat} {region : BrkRegion} {rlimData : Option Nat}
    (h : initBrkRegion allocAlignment env brkStart dataSegmentSize ⟨0, 0, 0, 0⟩ s =
      .ok (region, s', rlimData)) :
    BrkInv allocAlignment ⟨region, s', mem⟩ := by
  cases locked : env.lockCreated
  · simp [initBrkRegion, locked] at h
  cases maxSize : env.brkMaxSize with
  | none => simp [initBrkRegion, locked, maxSize] at h
  | some brkMaxSize =>
    simp only [initBrkRegion, locked, maxSize, Bool.not_true, Bool.false_eq_true, ↓reduceIte,
      ne_eq, not_true_eq_false] at h
    split_ifs at h
    split at h
    · cases h
    rename_i placed start placing
    cases h
    obtain ⟨wf', positive, free, node, flags, saved, tree⟩ :=
      brkPlace_reserved wf earlyAligned lowAligned placing
    exact brkInv_of_reserved alignPos wf wf' booked positive free saved tree

end Init

/-! ## Runs -/

section Run

variable (allocAlignment : Nat)

/-- A change by another part of the LibOS that does not touch the heap: the
region stays, the bookkeeping stays well formed with no VMA across an end of
the heap, and what the bookkeeping and the address space say about each page of
the heap stays. -/
structure LeavesHeap (st st' : BrkSystem) : Prop where
  region : st'.region = st.region
  wellFormed : st'.vmas.WellFormed allocAlignment
  apart : ∀ vma ∈ st'.vmas.vmaTree,
    ¬ Straddles vma st.region.brkStart ∧ ¬ Straddles vma st.region.brkEnd
  pages : ∀ x, st.region.brkStart ≤ x → x < st.region.brkEnd →
    pageMap st'.vmas.vmaTree x = pageMap st.vmas.vmaTree x ∧ st'.mem.prot x = st.mem.prot x

/-- The states a run reaches from `init`: calls of `libos_syscall_brk` that
return, with any break, limit and answers, and changes that leave the heap. -/
inductive BrkReachable (init : BrkSystem) : BrkSystem → Prop
  | init : BrkReachable init init
  | brk {st st' : BrkSystem} {brk rlimData ret : Nat} {answers : BrkAnswers} :
      BrkReachable init st →
      libosSyscallBrk allocAlignment brk rlimData answers st = some (ret, st') →
      BrkReachable init st'
  | other {st st' : BrkSystem} :
      BrkReachable init st → LeavesHeap allocAlignment st st' → BrkReachable init st'

variable {allocAlignment} {st st' : BrkSystem}

/-- A change that leaves the heap keeps the invariant. -/
theorem BrkInv.leavesHeap (alignPos : 0 < allocAlignment) (inv : BrkInv allocAlignment st)
    (leaves : LeavesHeap allocAlignment st st') : BrkInv allocAlignment st' := by
  obtain ⟨same, wf, apart, pages⟩ := leaves
  rcases st' with ⟨region', vmas', mem'⟩
  dsimp only at same wf apart pages ⊢
  subst same
  have currentLe := inv.alignedCurrentLe alignPos
  refine ⟨⟨wf, apart, fun x lower upper => ?_⟩, inv.startAligned, inv.endAligned, inv.startLe,
    inv.currentLe, fun x lower upper => ?_, fun x lower upper => ?_⟩
  · rw [(pages x lower upper).1]
    exact inv.booked.user x lower upper
  · dsimp only at lower upper
    rw [(pages x lower (by omega)).1, (pages x lower (by omega)).2]
    exact inv.heap x lower upper
  · dsimp only at lower upper
    have inRegion := inv.startLe.trans (le_allocAlignUp alignPos st.region.brkCurrent)
    rw [(pages x (by omega) upper).1, (pages x (by omega) upper).2]
    exact inv.reserve x lower upper

/-- Every state a run reaches from a state of the invariant keeps it. -/
theorem BrkReachable.brkInv (alignPos : 0 < allocAlignment) {init : BrkSystem}
    (initInv : BrkInv allocAlignment init) (reach : BrkReachable allocAlignment init st) :
    BrkInv allocAlignment st := by
  induction reach with
  | init => exact initInv
  | @brk _ _ brk rlimData _ answers _ call inv =>
    have outcome := libosSyscallBrk_spec alignPos inv brk rlimData answers
    rw [call] at outcome
    exact outcome.1
  | other _ leaves inv => exact inv.leavesHeap alignPos leaves

/-- A heap of 64 KiB asked for at `0x10000`, in a process without ASLR. -/
def freshHeapEnv : BrkInitEnv :=
  { lockCreated := true, brkMaxSize := some 0x10000, memoryAddressStart := 0x10000,
    memoryAddressEnd := 0x100000, disableAslr := true, aslrAddrTop := 0x100000,
    randomBits := .ok 0, layout := ⟨0, 0⟩, receivedUserMemory := true,
    fixedNewVmaAllocated := true, fixedVma1Allocated := true, aslrNewVmaAllocated := true,
    anyNewVmaAllocated := true }

/-- An address space in which the host has allocated nothing. -/
def emptyMem : PalMem :=
  ⟨fun _ => none, fun _ => 0⟩

/-- The heap `init_brk_region` books from `freshHeapEnv` in an empty tree. -/
def freshHeap : BrkSystem :=
  ⟨⟨0, 0x10000, 0x10000, 0x20000⟩,
    ⟨[⟨1, 0x10000, 0x20000, 0x20000, PROT_NONE, VMA_UNMAPPED, none, 0⟩], 0x10000, 3⟩, emptyMem⟩

end Run

end Gramine.LibOS.Sys
