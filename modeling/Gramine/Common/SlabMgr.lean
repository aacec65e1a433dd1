import Mathlib

/-!
# The slab allocator

`slabmgr.h` serves `malloc` in the LibOS and in the PAL. A request that fits
one of `SLAB_LEVEL` sizes takes a slot of that level: from the level's free
list, or from the top of the level's active area, activating or allocating
another area when that one is used up. A larger request gets a block of its
own from `system_malloc`, after a header that records its size.

The model is sequential: each call runs with `SYSTEM_LOCK` held as the code
takes it, and `system_malloc` answers each size as `sysMalloc` says (`none`
for `NULL`). Memory is the cells the allocator writes: the level byte of an
object, the size of a large object and the canary after a slot. Sizes are
`size_t`, so the arithmetic on a request's size is modulo `2 ^ 64`.
`canary` is whether `SLAB_CANARY` is defined, as it is for the LibOS.
-/

namespace Gramine.Common

/-- `size_t` holds values below `SIZE_T_MOD`. -/
def SIZE_T_MOD : Nat := 2 ^ 64
def SIZE_MAX : Nat := SIZE_T_MOD - 1

def MIN_MALLOC_ALIGNMENT : Nat := 16
def OBJ_PADDING : Nat := 15
def LARGE_OBJ_PADDING : Nat := 8
def AREA_PADDING : Nat := 8
def SLAB_LEVEL : Nat := 10
def SLAB_CANARY_STRING : Nat := 0xDEADBEEF
/-- `sizeof(LIST_TYPE(...))`: two pointers. -/
def LIST_TYPE_SIZE : Nat := 16
/-- `sizeof(SLAB_OBJ_TYPE)`, a packed structure: the level, its padding and a
list node. -/
def SLAB_OBJ_SIZE : Nat := 1 + OBJ_PADDING + LIST_TYPE_SIZE
/-- `sizeof(SLAB_AREA_TYPE)`: a list node, the size and padding. -/
def SLAB_AREA_SIZE : Nat := LIST_TYPE_SIZE + 8 + AREA_PADDING
/-- `sizeof(LARGE_MEM_OBJ_TYPE)`: the size, padding, the level and padding. -/
def LARGE_MEM_OBJ_SIZE : Nat := 8 + LARGE_OBJ_PADDING + 1 + OBJ_PADDING

/-- `ALIGN_UP(val, alignment)` on numbers that do not overflow. -/
def alignUp (val alignment : Nat) : Nat :=
  (val + alignment - 1) - (val + alignment - 1) % alignment

/-- `ALIGN_UP_POW2(val, alignment)` on a `size_t`. -/
def alignUpPow2 (val alignment : Nat) : Nat :=
  let sum := (val + alignment - 1) % SIZE_T_MOD
  sum - (sum &&& (alignment - 1))

def slabCanarySize (canary : Bool) : Nat := if canary then 8 else 0

/-- `SLAB_HDR_SIZE`. -/
def slabHdrSize (canary : Bool) : Nat :=
  alignUp (SLAB_OBJ_SIZE - LIST_TYPE_SIZE + slabCanarySize canary) MIN_MALLOC_ALIGNMENT

/-- `slab_levels`: the user buffer size of each level. -/
def slabLevels (canary : Bool) : List Nat :=
  let hdr := slabHdrSize canary
  [16, 32, 64, 128 - hdr, 256 - hdr, 512 - hdr, 1024 - hdr, 2048 - hdr, 4096 - hdr, 8288 - hdr]

/-- An area of slots: where `SLAB_AREA_TYPE` starts and its `size` in slots. -/
structure SlabArea where
  base : Nat
  size : Nat
  deriving DecidableEq, Repr

/-- The first slot of an area (`area->raw`). -/
def SlabArea.raw (area : SlabArea) : Nat :=
  area.base + SLAB_AREA_SIZE

/-- The entries of `SLAB_MGR_TYPE` for one level. The list of areas starts at
its head, where `LISTP_ADD` puts new areas; the free list holds slots by the
address of their `SLAB_OBJ_TYPE`. -/
structure SlabLevel where
  areaList : List SlabArea
  freeList : List Nat
  size : Nat
  addr : Nat
  addrTop : Nat
  activeArea : SlabArea
  deriving DecidableEq, Repr

/-- The manager, the cells of memory the allocator writes, and the blocks it
gave back with `system_free`. -/
structure SlabState where
  levels : List SlabLevel
  memory : Nat → Nat
  released : List (Nat × Nat)

/-- A write of one cell. -/
def SlabState.write (s : SlabState) (addr value : Nat) : SlabState :=
  { s with memory := Function.update s.memory addr value }

attribute [grind] alignUp SlabState.write

section Config

variable (canary : Bool)

/-- `__SUM_OBJ_SIZE(slab_size, size)`. -/
def sumObjSize (slabSize size : Nat) : Nat :=
  (slabSize + slabHdrSize canary) * size

/-- `__MAX_MEM_SIZE(slab_size, size)`. -/
def maxMemSize (slabSize size : Nat) : Nat :=
  SLAB_AREA_SIZE + sumObjSize canary slabSize size

/-- `__set_free_slab_area(area, mgr, level)`. -/
def setFreeSlabArea (area : SlabArea) (levelSize : Nat) (level : SlabLevel) : SlabLevel :=
  { level with
    addr := area.raw
    addrTop := area.raw + area.size * (levelSize + slabHdrSize canary)
    size := level.size + area.size
    activeArea := area }

/-- The area before the active one in the list of areas, `LISTP_PREV_ENTRY`. -/
def prevArea (level : SlabLevel) : Option SlabArea :=
  match level.areaList.idxOf? level.activeArea with
  | some (index + 1) => level.areaList[index]?
  | _ => none

/-- The loop of `maybe_enlarge_slab_mgr` over sizes: from `size` down by
halving, the first area `system_malloc` gives. -/
def mallocArea (sysMalloc : Nat → Option Nat) (levelSize : Nat) : Nat → Option SlabArea
  | 0 => none
  | size + 1 =>
    match sysMalloc (maxMemSize canary levelSize (size + 1)) with
    | some base => some ⟨base, size + 1⟩
    | none => mallocArea sysMalloc levelSize ((size + 1) / 2)
termination_by size => size
decreasing_by omega

/-- `maybe_enlarge_slab_mgr(mgr, level)` run by one thread: when the level has
neither a free slot nor room in its active area, the area before the active
one is activated; when there is none, a new area is put at the head of the
list, and the loop activates it on its next round. `none` is `-ENOMEM`. -/
def maybeEnlargeSlabMgr (sysMalloc : Nat → Option Nat) (levelSize : Nat) (level : SlabLevel) :
    Option SlabLevel :=
  if level.addr = level.addrTop ∧ level.freeList = [] then
    match prevArea level with
    | some area => some (setFreeSlabArea canary area levelSize level)
    | none =>
      match mallocArea canary sysMalloc levelSize level.size with
      | none => none
      | some area =>
        some (setFreeSlabArea canary area levelSize { level with areaList := area :: level.areaList })
  else some level

/-- The level of a request: the first whose buffer holds `size` bytes. -/
def slabLevelOf (size : Nat) : Option Nat :=
  (slabLevels canary).findIdx? (size ≤ ·)

/-- `slab_alloc(mgr, size)`: the address of the user buffer, or `none` for
`NULL`. -/
def slabAlloc (sysMalloc : Nat → Option Nat) (size : Nat) (s : SlabState) :
    Option Nat × SlabState :=
  match slabLevelOf canary size with
  | none =>
    -- a large object: its own block, after a header with its size and level 255
    let size := alignUpPow2 size MIN_MALLOC_ALIGNMENT
    match sysMalloc ((LARGE_MEM_OBJ_SIZE + size) % SIZE_T_MOD) with
    | none => (none, s)
    | some mem => (some (mem + LARGE_MEM_OBJ_SIZE), (s.write mem size).write (mem + 16) 255)
  | some index =>
    let levelSize := (slabLevels canary).getD index 0
    let level := s.levels.getD index ⟨[], [], 0, 0, 0, ⟨0, 0⟩⟩
    match maybeEnlargeSlabMgr canary sysMalloc levelSize level with
    | none => (none, s)
    | some level =>
      let (mobj, level) :=
        match level.freeList with
        | mobj :: rest => (mobj, { level with freeList := rest })
        | [] => (level.addr, { level with addr := level.addr + levelSize + slabHdrSize canary })
      let s := ({ s with levels := s.levels.set index level }.write mobj index)
      let raw := mobj + 16
      (some raw, if canary then s.write (raw + levelSize) SLAB_CANARY_STRING else s)

/-- `slab_get_buf_size(ptr)`: `none` where the code aborts on a corrupt
level. -/
def slabGetBufSize (memory : Nat → Nat) (ptr : Nat) : Option Nat :=
  let level := memory (ptr - OBJ_PADDING - 1)
  if level = 255 then some (memory (ptr - LARGE_MEM_OBJ_SIZE))
  else if SLAB_LEVEL ≤ level then none
  else (slabLevels canary)[level]?

/-- `slab_free(mgr, obj)`: a large object's block goes back with
`system_free`, a slot to the tail of its level's free list. `none` where the
code aborts. -/
def slabFree (obj : Nat) (s : SlabState) : Option SlabState :=
  if obj = 0 then some s
  else
    let level := s.memory (obj - OBJ_PADDING - 1)
    if level = 255 then
      let mem := obj - LARGE_MEM_OBJ_SIZE
      some { s with released := s.released ++ [(mem, s.memory mem + LARGE_MEM_OBJ_SIZE)] }
    else if SLAB_LEVEL ≤ level then none
    else
      let mobj := obj - 16
      let entry := s.levels.getD level ⟨[], [], 0, 0, 0, ⟨0, 0⟩⟩
      some { s with levels := s.levels.set level { entry with freeList := entry.freeList ++ [mobj] } }

/-- The largest user buffer a slot holds. -/
theorem slabLevels_le : ∀ size ∈ slabLevels canary, size ≤ 8288 := by
  cases canary <;> decide

/-- A request of more than any level holds is a large object. -/
theorem slabLevelOf_eq_none {size : Nat} (large : 8288 < size) : slabLevelOf canary size = none := by
  rw [slabLevelOf, List.findIdx?_eq_none_iff]
  intro levelSize mem
  have := slabLevels_le canary levelSize mem
  simpa using (show levelSize < size by omega)

/-- For the largest `size_t`, the size rounded up to 16 bytes wraps to 0: the
header asks `system_malloc` for its own 32 bytes, and the object it returns
records a buffer of 0 bytes. -/
theorem slabAlloc_size_max_records_empty_buffer (sysMalloc : Nat → Option Nat) (s : SlabState)
    (mem : Nat) (gives : sysMalloc LARGE_MEM_OBJ_SIZE = some mem) :
    slabAlloc canary sysMalloc SIZE_MAX s =
        (some (mem + LARGE_MEM_OBJ_SIZE), (s.write mem 0).write (mem + 16) 255) ∧
      slabGetBufSize canary ((s.write mem 0).write (mem + 16) 255).memory
        (mem + LARGE_MEM_OBJ_SIZE) = some 0 := by
  have wraps : alignUpPow2 SIZE_MAX MIN_MALLOC_ALIGNMENT = 0 := by decide
  have large : slabLevelOf canary SIZE_MAX = none :=
    slabLevelOf_eq_none canary (by decide)
  constructor
  · rw [slabAlloc, large]
    simp only [wraps, Nat.add_zero, Nat.mod_eq_of_lt (show LARGE_MEM_OBJ_SIZE < SIZE_T_MOD by decide),
      gives]
  · simp [slabGetBufSize, SlabState.write, Function.update, LARGE_MEM_OBJ_SIZE, OBJ_PADDING,
      LARGE_OBJ_PADDING]

end Config

theorem slabAlloc_size_max_in_libos :
    ∃ s', slabAlloc true (fun _ => some 0x10000) SIZE_MAX ⟨[], fun _ => 0, []⟩ =
        (some (0x10000 + LARGE_MEM_OBJ_SIZE), s') ∧
      slabGetBufSize true s'.memory (0x10000 + LARGE_MEM_OBJ_SIZE) = some 0 := by
  obtain ⟨allocated, recorded⟩ := slabAlloc_size_max_records_empty_buffer true
    (fun _ => some 0x10000) ⟨[], fun _ => 0, []⟩ 0x10000 rfl
  exact ⟨_, allocated, recorded⟩

end Gramine.Common
