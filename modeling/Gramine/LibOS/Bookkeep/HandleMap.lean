import Mathlib
import Gramine.Common.Errno
import Gramine.Library.Doubling

/-!
# The descriptor table

`struct libos_handle_map` (`libos/src/bookkeep/libos_handle.c`) has a slot for
each file descriptor below `fd_size`. A slot is NULL until a descriptor is first
given there; closing it clears the entry's `vfd` to `FD_NULL` and keeps the
entry, so a slot is in use when it has an entry whose `vfd` is set
(`HANDLE_ALLOCATED`). `fd_top` is the highest descriptor in use, `FD_NULL` when
there is none: giving a descriptor above it raises it, and closing it walks
down to the next descriptor in use.

Each slot in use holds a reference to its `struct libos_handle`. Handles are
known here by number, and their `ref_count`s form a function that `get_handle`
and `put_handle` move. `__detach_fd_handle` hands the slot's reference to its
caller, which drops it with `put_handle`, as `close_handle_range` and
`close_cloexec_handles` do.

The calls run under the map's lock and are taken one at a time. The outcome of
each allocation (`calloc`, `malloc`) is a parameter, `RLIMIT_NOFILE` is one,
and `none` is a NULL dereference. Closing a descriptor also drops its POSIX
locks (`clear_posix_locks`) and epoll items, which touch no field here.
-/

namespace Gramine.LibOS.Bookkeep

/-- `FD_NULL`: `UINT32_MAX`, no descriptor. -/
def FD_NULL : Nat := 2 ^ 32 - 1

/-- `FD_CLOEXEC`. -/
def FD_CLOEXEC : Nat := 1

/-- `INIT_HANDLE_MAP_SIZE`. -/
def INIT_HANDLE_MAP_SIZE : Nat := 32

/-- `struct libos_fd_handle`: the descriptor, its flags and the handle, `none`
for NULL. -/
structure LibosFdHandle where
  vfd : Nat
  flags : Nat
  handle : Option Nat
  deriving DecidableEq, Repr

/-- `HANDLE_ALLOCATED(fd_handle)`. -/
def handleAllocated : Option LibosFdHandle → Bool
  | some fdHandle => fdHandle.vfd != FD_NULL
  | none => false

/-- `struct libos_handle_map`: the slots `map[0 .. fd_size)`, `none` for NULL. -/
structure LibosHandleMap where
  fdSize : Nat
  fdTop : Nat
  map : List (Option LibosFdHandle)
  deriving DecidableEq, Repr

/-- `map->map[fd]`. -/
def LibosHandleMap.slot (handleMap : LibosHandleMap) (fd : Nat) : Option LibosFdHandle :=
  handleMap.map.getD fd none

/-- The `ref_count` of each handle. -/
abbrev RefCounts := Nat → Nat

/-- `get_handle`. -/
def getHandle (refCount : RefCounts) (hdl : Nat) : RefCounts :=
  Function.update refCount hdl (refCount hdl + 1)

/-- `put_handle`, which frees the handle once its count reaches zero. -/
def putHandle (refCount : RefCounts) (hdl : Nat) : RefCounts :=
  Function.update refCount hdl (refCount hdl - 1)

/-- A thread's handle map with the reference counts of all handles. -/
structure FdTable where
  handleMap : LibosHandleMap
  refCount : RefCounts

/-- `get_new_handle_map(size)`; `none` when an allocation fails. -/
def getNewHandleMap (size : Nat) (allocated : Bool) : Option LibosHandleMap :=
  if allocated then some ⟨size, FD_NULL, List.replicate size none⟩ else none

/-- `__get_fd_handle`: the handle at `fd` and the descriptor's flags. -/
def getFdHandle' (fd : Nat) (handleMap : LibosHandleMap) : Option (Option Nat × Nat) :=
  if handleMap.fdTop ≠ FD_NULL ∧ fd ≤ handleMap.fdTop then
    match handleMap.slot fd with
    | some fdHandle =>
      if fdHandle.vfd ≠ FD_NULL then some (fdHandle.handle, fdHandle.flags) else none
    | none => none
  else none

/-- The loop of `__detach_fd_handle` that moves `fd_top` down from the
detached `vfd` to the next descriptor in use, or to `FD_NULL`. -/
def lowerFdTop (handleMap : LibosHandleMap) : Nat → Nat
  | 0 => FD_NULL
  | vfd + 1 => if handleAllocated (handleMap.slot vfd) then vfd else lowerFdTop handleMap vfd

/-- The entry `__detach_fd_handle` leaves in a slot: `vfd` is `FD_NULL`, the
handle NULL and the flags zero. -/
def clearedEntry : Option LibosFdHandle := some ⟨FD_NULL, 0, none⟩

/-- `__detach_fd_handle` on the slot of `fd`: the map, and the handle the slot
held, whose reference goes to the caller. -/
def detachFdHandle' (fd : Nat) (handleMap : LibosHandleMap) : LibosHandleMap × Option Nat :=
  match handleMap.slot fd with
  | some fdHandle =>
    if fdHandle.vfd ≠ FD_NULL then
      let cleared := { handleMap with map := handleMap.map.set fd clearedEntry }
      if fdHandle.vfd = handleMap.fdTop then
        ({ cleared with fdTop := lowerFdTop cleared fdHandle.vfd }, fdHandle.handle)
      else (cleared, fdHandle.handle)
    else (handleMap, none)
  | none => (handleMap, none)

/-- `detach_fd_handle`. -/
def detachFdHandle (fd : Nat) (handleMap : LibosHandleMap) : LibosHandleMap × Option Nat :=
  if fd < handleMap.fdSize then detachFdHandle' fd handleMap else (handleMap, none)

/-- `__enlarge_handle_map`; `allocated` is the outcome of its `calloc`. -/
def enlargeHandleMap (size : Nat) (allocated : Bool) (handleMap : LibosHandleMap) :
    Except Int LibosHandleMap :=
  if size ≤ handleMap.fdSize then .ok handleMap
  else if !allocated then .error (-ENOMEM)
  else .ok { handleMap with
    map := handleMap.map.take handleMap.fdSize ++ List.replicate (size - handleMap.fdSize) none
    fdSize := size }

/-- The loop of `__set_new_fd_handle` that skips the descriptors in use from
`fd` up to `fd_top`. -/
def findFreeFd (handleMap : LibosHandleMap) (fd : Nat) : Nat :=
  if fd ≤ handleMap.fdTop ∧ handleAllocated (handleMap.slot fd) then
    findFreeFd handleMap (fd + 1)
  else fd
termination_by handleMap.fdTop + 1 - fd

/-- `__init_handle` on the slot of `fd`: an entry is allocated when the slot is
NULL, and the slot takes a reference to `hdl`. -/
def initHandle' (fd hdl fdFlags : Nat) (allocated : Bool) (s : FdTable) : Except Int FdTable :=
  if s.handleMap.slot fd = none ∧ !allocated then .error (-ENOMEM)
  else .ok ⟨{ s.handleMap with map := s.handleMap.map.set fd (some ⟨fd, fdFlags, some hdl⟩) },
    getHandle s.refCount hdl⟩

/-- The size `__set_new_fd_handle` doubles from. -/
def growFrom (fdSize : Nat) : Nat :=
  if fdSize = 0 then INIT_HANDLE_MAP_SIZE else fdSize

attribute [grind] FD_NULL INIT_HANDLE_MAP_SIZE handleAllocated LibosHandleMap.slot getNewHandleMap
  clearedEntry detachFdHandle' enlargeHandleMap initHandle' growFrom

theorem growFrom_pos (fdSize : Nat) : 0 < growFrom fdSize := by
  unfold growFrom INIT_HANDLE_MAP_SIZE
  split <;> omega

/-- The descriptor `__set_new_fd_handle` picks: with `findFree`, the first one
not in use from `fd` on; else `fd`, when it is not in use. -/
def chooseFd (fd : Nat) (findFree : Bool) (handleMap : LibosHandleMap) : Except Int Nat :=
  if handleMap.fdTop ≠ FD_NULL then
    if findFree then .ok (findFreeFd handleMap fd)
    else if fd ≤ handleMap.fdTop ∧ handleAllocated (handleMap.slot fd) then .error (-EBADF)
    else .ok fd
  else .ok fd

/-- The map `__set_new_fd_handle` puts `fd` in: the old one when it has a slot
for `fd`, else one grown by doubling. -/
def reserveFd (fd : Nat) (callocOk : Bool) (handleMap : LibosHandleMap) :
    Except Int LibosHandleMap :=
  if handleMap.fdSize ≤ fd then
    -- the doubling loop, in `uint32_t`
    match Doubling.grow 32 (growFrom handleMap.fdSize) (fd + 1) (growFrom_pos handleMap.fdSize) with
    | none => .error (-ENFILE)
    | some newSize => enlargeHandleMap newSize callocOk handleMap
  else .ok handleMap

/-- `__set_new_fd_handle`: the table after the call, which may have grown even
when the call fails, and the descriptor given or the error. `callocOk` and
`mallocOk` are the outcomes of the allocations of `__enlarge_handle_map` and
`__init_handle`. -/
def setNewFdHandle' (fd hdl fdFlags : Nat) (findFree : Bool) (rlimitNofile : Nat)
    (callocOk mallocOk : Bool) (s : FdTable) : FdTable × Except Int Nat :=
  match chooseFd fd findFree s.handleMap with
  | .error err => (s, .error err)
  | .ok fd =>
    if rlimitNofile ≤ fd then (s, .error (-EMFILE))
    else
      match reserveFd fd callocOk s.handleMap with
      | .error err => (s, .error err)
      | .ok handleMap =>
        match initHandle' fd hdl fdFlags mallocOk ⟨handleMap, s.refCount⟩ with
        | .error err => (⟨handleMap, s.refCount⟩, .error err)
        | .ok s =>
          if s.handleMap.fdTop = FD_NULL ∨ s.handleMap.fdTop < fd then
            ({ s with handleMap := { s.handleMap with fdTop := fd } }, .ok fd)
          else (s, .ok fd)

/-- `set_new_fd_handle`. -/
def setNewFdHandle (hdl fdFlags rlimitNofile : Nat) (callocOk mallocOk : Bool) (s : FdTable) :
    FdTable × Except Int Nat :=
  setNewFdHandle' 0 hdl fdFlags true rlimitNofile callocOk mallocOk s

/-- `set_new_fd_handle_by_fd`. -/
def setNewFdHandleByFd (fd hdl fdFlags rlimitNofile : Nat) (callocOk mallocOk : Bool)
    (s : FdTable) : FdTable × Except Int Nat :=
  setNewFdHandle' fd hdl fdFlags false rlimitNofile callocOk mallocOk s

/-- `set_new_fd_handle_above_fd`. -/
def setNewFdHandleAboveFd (fd hdl fdFlags rlimitNofile : Nat) (callocOk mallocOk : Bool)
    (s : FdTable) : FdTable × Except Int Nat :=
  setNewFdHandle' fd hdl fdFlags true rlimitNofile callocOk mallocOk s

/-! ## Closing ranges of descriptors -/

/-- Closing the descriptor `i` in a loop: `__detach_fd_handle`, then
`put_handle` on the handle the slot held. -/
def closeFd (i : Nat) (s : FdTable) : FdTable :=
  match detachFdHandle' i s.handleMap with
  | (handleMap, some hdl) => ⟨handleMap, putHandle s.refCount hdl⟩
  | (handleMap, none) => ⟨handleMap, s.refCount⟩

/-- `fd_hdl->flags |= FD_CLOEXEC` on the slot of `i`. -/
def setCloexec (i : Nat) (s : FdTable) : FdTable :=
  { s with handleMap := { s.handleMap with
      map := s.handleMap.map.set i ((s.handleMap.slot i).map fun fdHandle =>
        { fdHandle with flags := fdHandle.flags ||| FD_CLOEXEC }) } }

/-- The loop of `close_handle_range` and `close_cloexec_handles`: from `i` on,
while `fd_top` is set and `i` is at most `fd_top` and `last`, `body` on each
descriptor in use; `fd_top` is read again at every turn. -/
def walkFds (last : Nat) (body : Nat → FdTable → FdTable) (i : Nat) (s : FdTable) : FdTable :=
  if s.handleMap.fdTop ≠ FD_NULL ∧ i ≤ s.handleMap.fdTop ∧ i ≤ last then
    walkFds last body (i + 1) (if handleAllocated (s.handleMap.slot i) then body i s else s)
  else s
termination_by last + 1 - i

/-- `close_handle_range(first, last, cloexec)`. -/
def closeHandleRange (first last : Nat) (cloexec : Bool) (s : FdTable) : FdTable :=
  walkFds last (if cloexec then setCloexec else closeFd) first s

/-- `close_cloexec_handles`; a set `fd_top` is below `FD_NULL`, so the loop
has no other bound. -/
def closeCloexecHandles (s : FdTable) : FdTable :=
  walkFds FD_NULL (fun i s =>
    if ((s.handleMap.slot i).map (·.flags)).getD 0 &&& FD_CLOEXEC ≠ 0 then closeFd i s else s) 0 s

/-! ## `dup_handle_map` -/

/-- The error path of `dup_handle_map`: `put_handle` on the handle of each
entry of the new map below `i`; `none` when one of them is NULL. -/
def releaseCopies (newMap : LibosHandleMap) (refCount : RefCounts) : List Nat → Option RefCounts
  | [] => some refCount
  | j :: rest =>
    match newMap.slot j with
    | some fdNew =>
      match fdNew.handle with
      | some hdl => releaseCopies newMap (putHandle refCount hdl) rest
      | none => none
    | none => none

/-- The loop of `dup_handle_map` over the descriptors `i` of the old map: a
descriptor in use gets a new entry in the new map after `get_handle` on its
handle. `mallocOk i` is the outcome of the entry's allocation. -/
def dupEntries (old : LibosHandleMap) (mallocOk : Nat → Bool) :
    List Nat → LibosHandleMap → RefCounts → Option (Except Int LibosHandleMap × RefCounts)
  | [], newMap, refCount => some (.ok newMap, refCount)
  | i :: rest, newMap, refCount =>
    match old.slot i with
    | some fdOld =>
      if fdOld.vfd ≠ FD_NULL then
        match fdOld.handle with
        | some hdl =>
          let refCount := getHandle refCount hdl
          if mallocOk i then
            dupEntries old mallocOk rest
              { newMap with map := newMap.map.set i (some { fdOld with handle := some hdl }) }
              refCount
          else
            (releaseCopies newMap refCount (List.range i)).map fun refCount =>
              (.error (-ENOMEM), refCount)
        | none => none
      else dupEntries old mallocOk rest newMap refCount
    | none => dupEntries old mallocOk rest newMap refCount

/-- `dup_handle_map`: the new map or the error, and the reference counts.
`allocated` is the outcome of `get_new_handle_map`. -/
def dupHandleMap (old : LibosHandleMap) (allocated : Bool) (mallocOk : Nat → Bool)
    (refCount : RefCounts) : Option (Except Int LibosHandleMap × RefCounts) :=
  match getNewHandleMap old.fdSize allocated with
  | none => some (.error (-ENOMEM), refCount)
  | some newMap =>
    let newMap := { newMap with fdTop := old.fdTop }
    if old.fdTop = FD_NULL then some (.ok newMap, refCount)
    else dupEntries old mallocOk (List.range (old.fdTop + 1)) newMap refCount

/-- `dup_handle_map` with the number of readers holding the old map's lock:
it takes the lock for reading first, and every return but the one after a
failed `get_new_handle_map` releases it. -/
def dupHandleMapLocked (old : LibosHandleMap) (allocated : Bool) (mallocOk : Nat → Bool)
    (refCount : RefCounts) (readers : Nat) : Option (Except Int LibosHandleMap × RefCounts × Nat) :=
  let readers := readers + 1
  match getNewHandleMap old.fdSize allocated with
  | none => some (.error (-ENOMEM), refCount, readers)
  | some _ =>
    (dupHandleMap old allocated mallocOk refCount).map fun (result, refCount) => (result, refCount, readers - 1)

/-! ## Descriptors in use -/

attribute [grind] chooseFd reserveFd setNewFdHandle' closeFd walkFds dupEntries dupHandleMap

namespace LibosHandleMap

/-- The descriptor `fd` is in use. -/
def Allocated (handleMap : LibosHandleMap) (fd : Nat) : Prop :=
  handleAllocated (handleMap.slot fd) = true

instance (handleMap : LibosHandleMap) (fd : Nat) : Decidable (handleMap.Allocated fd) :=
  inferInstanceAs (Decidable (handleAllocated (handleMap.slot fd) = true))

/-- The slot is in use and holds a reference to `hdl`. -/
def holdsHandle (hdl : Nat) (entry : Option LibosFdHandle) : Bool :=
  handleAllocated entry && decide (entry.bind LibosFdHandle.handle = some hdl)

/-- How many descriptors in use hold a reference to the handle `hdl`. -/
def references (handleMap : LibosHandleMap) (hdl : Nat) : Nat :=
  handleMap.map.countP (holdsHandle hdl)

/-- The map is well formed: a slot for each descriptor below `fd_size`, which
is a `uint32_t`; each entry in use sits at its own `vfd` and has a handle; and
`fd_top` is the highest descriptor in use, `FD_NULL` when there is none. -/
structure WellFormed (handleMap : LibosHandleMap) : Prop where
  length : handleMap.map.length = handleMap.fdSize
  fits : handleMap.fdSize ≤ FD_NULL
  entry : ∀ fd fdHandle, handleMap.slot fd = some fdHandle → fdHandle.vfd ≠ FD_NULL →
    fdHandle.vfd = fd ∧ fdHandle.handle.isSome
  topAllocated : handleMap.fdTop ≠ FD_NULL → handleMap.Allocated handleMap.fdTop
  belowTop : ∀ fd, handleMap.Allocated fd → handleMap.fdTop ≠ FD_NULL ∧ fd ≤ handleMap.fdTop

attribute [grind] Allocated holdsHandle references

variable {handleMap : LibosHandleMap}

theorem slot_eq_none {fd : Nat} (past : handleMap.map.length ≤ fd) : handleMap.slot fd = none :=
  List.getD_eq_default _ _ past

theorem slot_set (entry : Option LibosFdHandle) (fd k : Nat) :
    ({ handleMap with map := handleMap.map.set fd entry } : LibosHandleMap).slot k =
      if fd = k ∧ fd < handleMap.map.length then entry else handleMap.slot k := by
  simp only [slot, List.getD_eq_getElem?_getD, List.getElem?_set]
  by_cases here : fd = k
  · subst here
    by_cases inside : fd < handleMap.map.length <;> simp [inside]
  · simp [here]

theorem allocated_iff {fd : Nat} :
    handleMap.Allocated fd ↔ ∃ fdHandle, handleMap.slot fd = some fdHandle ∧ fdHandle.vfd ≠ FD_NULL := by
  unfold Allocated
  cases handleMap.slot fd with
  | none => simp [handleAllocated]
  | some fdHandle => simp [handleAllocated]

theorem WellFormed.lt_fdSize (wf : handleMap.WellFormed) {fd : Nat} (inUse : handleMap.Allocated fd) :
    fd < handleMap.fdSize := by
  by_contra past
  have : handleMap.slot fd = none := slot_eq_none (by rw [wf.length]; omega)
  simp [Allocated, this, handleAllocated] at inUse

theorem WellFormed.lt_fdNull (wf : handleMap.WellFormed) {fd : Nat} (inUse : handleMap.Allocated fd) :
    fd < FD_NULL := by
  have := wf.lt_fdSize inUse
  have := wf.fits
  omega

end LibosHandleMap

open LibosHandleMap

/-- Where the walk of `__detach_fd_handle` stops: at `FD_NULL` when no
descriptor below `vfd` is in use, else at the highest one. -/
theorem lowerFdTop_spec (handleMap : LibosHandleMap) (vfd : Nat) :
    (lowerFdTop handleMap vfd = FD_NULL ∧ ∀ k < vfd, ¬ handleMap.Allocated k) ∨
    (lowerFdTop handleMap vfd < vfd ∧ handleMap.Allocated (lowerFdTop handleMap vfd) ∧
      ∀ k, lowerFdTop handleMap vfd < k → k < vfd → ¬ handleMap.Allocated k) := by
  induction vfd with
  | zero => exact .inl ⟨rfl, fun k below => absurd below (Nat.not_lt_zero k)⟩
  | succ vfd ih =>
    by_cases inUse : handleMap.Allocated vfd
    · -- the walk stops at `vfd`
      have stops : lowerFdTop handleMap (vfd + 1) = vfd := if_pos inUse
      rw [stops]
      exact .inr ⟨by omega, inUse, fun k above below => by omega⟩
    · have goesOn : lowerFdTop handleMap (vfd + 1) = lowerFdTop handleMap vfd := if_neg inUse
      rw [goesOn]
      rcases ih with ⟨none, below⟩ | ⟨lower, lowerInUse, between⟩
      · refine .inl ⟨none, fun k lt => ?_⟩
        rcases Nat.lt_succ_iff_lt_or_eq.mp lt with lt | rfl
        · exact below k lt
        · exact inUse
      · refine .inr ⟨by omega, lowerInUse, fun k above lt => ?_⟩
        rcases Nat.lt_succ_iff_lt_or_eq.mp lt with lt | rfl
        · exact between k above lt
        · exact inUse

/-! ## `__detach_fd_handle` -/

section Detach

variable {handleMap : LibosHandleMap}

theorem allocated_set_cleared {fd k : Nat} :
    ({ handleMap with map := handleMap.map.set fd clearedEntry } : LibosHandleMap).Allocated k ↔
      handleMap.Allocated k ∧ k ≠ fd := by
  unfold Allocated
  rw [slot_set]
  by_cases same : fd = k
  · subst same
    by_cases inside : fd < handleMap.map.length
    · simp [inside, clearedEntry, handleAllocated]
    · simp [inside, slot_eq_none (Nat.le_of_not_lt inside), handleAllocated]
  · simp [same, Ne.symm same]

theorem detachFdHandle'_of_free {fd : Nat} (free : ¬ handleMap.Allocated fd) :
    detachFdHandle' fd handleMap = (handleMap, none) := by
  unfold detachFdHandle'
  split
  · rename_i fdHandle found
    rw [if_neg fun set => free (allocated_iff.mpr ⟨fdHandle, found, set⟩)]
  · rfl

/-- Clearing a slot in use keeps the map well formed once `fd_top` is walked
down past it. -/
theorem LibosHandleMap.WellFormed.clear (wf : handleMap.WellFormed) {fd : Nat} (inUse : handleMap.Allocated fd) :
    let cleared : LibosHandleMap := { handleMap with map := handleMap.map.set fd clearedEntry }
    (if fd = handleMap.fdTop then { cleared with fdTop := lowerFdTop cleared fd }
      else cleared).WellFormed := by
  intro cleared
  have below := wf.lt_fdNull inUse
  have entry : ∀ k fdHandle, cleared.slot k = some fdHandle → fdHandle.vfd ≠ FD_NULL →
      fdHandle.vfd = k ∧ fdHandle.handle.isSome := by
    intro k fdHandle found set
    rw [slot_set] at found
    split_ifs at found with here
    · cases found
      exact absurd rfl set
    · exact wf.entry k fdHandle found set
  have length : cleared.map.length = cleared.fdSize := by simp [cleared, wf.length]
  split_ifs with atTop
  · -- the walk from `fd` finds the new top below it
    rcases lowerFdTop_spec cleared fd with ⟨none, free⟩ | ⟨lower, lowerInUse, between⟩
    · refine ⟨length, wf.fits, entry, fun set => absurd none set, fun k inUse' => ?_⟩
      obtain ⟨inUse, other⟩ := allocated_set_cleared.mp inUse'
      have := (wf.belowTop k inUse).2
      exact absurd inUse' (free k (by omega))
    · refine ⟨length, wf.fits, entry, fun _ => lowerInUse, fun k inUse' =>
        ⟨show lowerFdTop cleared fd ≠ FD_NULL by omega, ?_⟩⟩
      obtain ⟨inUse, other⟩ := allocated_set_cleared.mp inUse'
      have := (wf.belowTop k inUse).2
      show k ≤ lowerFdTop cleared fd
      by_contra above
      exact between k (by omega) (by omega) inUse'
  · refine ⟨length, wf.fits, entry, fun set => ?_, fun k inUse' => ?_⟩
    · exact allocated_set_cleared.mpr ⟨wf.topAllocated set, Ne.symm atTop⟩
    · exact wf.belowTop k (allocated_set_cleared.mp inUse').1

/-- `__detach_fd_handle` on a slot in use clears it, keeps the map well formed,
and hands the slot's handle to the caller. -/
theorem detachFdHandle'_of_allocated (wf : handleMap.WellFormed) {fd : Nat}
    (inUse : handleMap.Allocated fd) :
    ∃ hdl, (handleMap.slot fd).bind LibosFdHandle.handle = some hdl ∧
      (detachFdHandle' fd handleMap).2 = some hdl ∧
      (detachFdHandle' fd handleMap).1.map = handleMap.map.set fd clearedEntry ∧
      (detachFdHandle' fd handleMap).1.fdSize = handleMap.fdSize ∧
      (detachFdHandle' fd handleMap).1.WellFormed := by
  obtain ⟨fdHandle, found, set⟩ := allocated_iff.mp inUse
  obtain ⟨atFd, hasHandle⟩ := wf.entry fd fdHandle found set
  obtain ⟨hdl, held⟩ := Option.isSome_iff_exists.mp hasHandle
  have cleared := wf.clear inUse
  unfold detachFdHandle'
  rw [found]
  dsimp only
  rw [if_pos set]
  simp only [atFd, Option.bind_some, held]
  split_ifs with atTop
  · exact ⟨hdl, rfl, rfl, rfl, rfl, by simpa [atTop] using cleared⟩
  · exact ⟨hdl, rfl, rfl, rfl, rfl, by simpa [atTop] using cleared⟩

/-- Setting the slot of `fd` moves the count of references to `hdl` by what
the old and the new entry hold. -/
theorem references_set {fd : Nat} (inside : fd < handleMap.map.length)
    (entry : Option LibosFdHandle) (hdl : Nat) :
    ({ handleMap with map := handleMap.map.set fd entry } : LibosHandleMap).references hdl +
        (if holdsHandle hdl (handleMap.slot fd) then 1 else 0) =
      handleMap.references hdl + (if holdsHandle hdl entry then 1 else 0) := by
  have atFd : handleMap.slot fd = handleMap.map[fd] := by
    simp [slot, List.getD_eq_getElem?_getD, inside]
  unfold references
  rw [List.countP_set inside, atFd]
  by_cases old : holdsHandle hdl handleMap.map[fd] = true
  · have := List.countP_pos_iff.mpr ⟨_, List.getElem_mem inside, old⟩
    simp only [old, if_true]
    split_ifs <;> omega
  · simp only [old, if_false, Bool.false_eq_true]
    split_ifs <;> omega

theorem holdsHandle_clearedEntry (hdl : Nat) : holdsHandle hdl clearedEntry = false := by
  simp [holdsHandle, clearedEntry, handleAllocated]

theorem holdsHandle_none (hdl : Nat) : holdsHandle hdl none = false := rfl

/-- An entry in use counts one reference to the handle it holds. -/
theorem holdsHandle_some {vfd : Nat} (flags hdl other : Nat) (set : vfd ≠ FD_NULL) :
    holdsHandle other (some ⟨vfd, flags, some hdl⟩) = decide (hdl = other) := by
  simp [holdsHandle, handleAllocated, set]

/-- Detaching `fd` drops the slot's reference from the map; it went to the
caller. -/
theorem references_detachFdHandle' (wf : handleMap.WellFormed) (fd hdl : Nat) :
    (detachFdHandle' fd handleMap).1.references hdl +
        (if (detachFdHandle' fd handleMap).2 = some hdl then 1 else 0) =
      handleMap.references hdl := by
  by_cases inUse : handleMap.Allocated fd
  · obtain ⟨held, heldBy, handed, map, -, -⟩ := detachFdHandle'_of_allocated wf inUse
    have inside : fd < handleMap.map.length := wf.length ▸ wf.lt_fdSize inUse
    have holds : holdsHandle hdl (handleMap.slot fd) = decide (held = hdl) := by
      rw [holdsHandle, show handleAllocated (handleMap.slot fd) = true from inUse, heldBy]
      simp
    have counted := references_set inside clearedEntry hdl
    rw [holds, holdsHandle_clearedEntry] at counted
    rw [handed, references, map]
    simp only [Option.some.injEq, decide_eq_true_eq, Bool.false_eq_true, if_false,
      Nat.add_zero] at counted ⊢
    exact counted
  · simp [detachFdHandle'_of_free inUse]

/-- Detaching keeps the map well formed, whether or not `fd` was in use. -/
theorem detachFdHandle'_wellFormed (wf : handleMap.WellFormed) (fd : Nat) :
    (detachFdHandle' fd handleMap).1.WellFormed := by
  by_cases inUse : handleMap.Allocated fd
  · obtain ⟨-, -, -, -, -, detachedWf⟩ := detachFdHandle'_of_allocated wf inUse
    exact detachedWf
  · rw [detachFdHandle'_of_free inUse]
    exact wf

/-- On a well formed map the bound check of `detach_fd_handle` changes
nothing: a descriptor past `fd_size` is not in use. -/
theorem detachFdHandle_eq (wf : handleMap.WellFormed) (fd : Nat) :
    detachFdHandle fd handleMap = detachFdHandle' fd handleMap := by
  unfold detachFdHandle
  split_ifs with inside
  · rfl
  · rw [detachFdHandle'_of_free fun inUse => inside (wf.lt_fdSize inUse)]

end Detach

/-! ## `__set_new_fd_handle` -/

section Set

variable {handleMap handleMap' : LibosHandleMap}

/-- The loop skips descriptors in use only, and stops at one that is free or
past `fd_top`. -/
theorem findFreeFd_spec (handleMap : LibosHandleMap) (fd : Nat) :
    fd ≤ findFreeFd handleMap fd ∧
      (∀ k, fd ≤ k → k < findFreeFd handleMap fd → handleMap.Allocated k) ∧
      (findFreeFd handleMap fd ≤ handleMap.fdTop → ¬ handleMap.Allocated (findFreeFd handleMap fd)) := by
  induction fd using findFreeFd.induct handleMap with
  | case1 fd skip ih =>
    rw [findFreeFd, if_pos skip]
    obtain ⟨after, inUse, free⟩ := ih
    refine ⟨by omega, fun k above below => ?_, free⟩
    rcases Nat.lt_or_ge fd k with later | here
    · exact inUse k later below
    · have : k = fd := by omega
      subst this
      exact skip.2
  | case2 fd stop =>
    rw [findFreeFd, if_neg stop]
    exact ⟨Nat.le_refl fd, fun k above below => absurd below (by omega), fun within inUse =>
      stop ⟨within, inUse⟩⟩

/-- The descriptor picked is free; with `findFree` it is the first free one
from `fd` on, else it is `fd`. -/
theorem chooseFd_ok (wf : handleMap.WellFormed) {fd fd' : Nat} {findFree : Bool}
    (h : chooseFd fd findFree handleMap = .ok fd') :
    ¬ handleMap.Allocated fd' ∧
      (findFree = true → fd ≤ fd' ∧ ∀ k, fd ≤ k → k < fd' → handleMap.Allocated k) ∧
      (findFree = false → fd' = fd) := by
  unfold chooseFd at h
  split_ifs at h with set free occupied
  · -- the first free descriptor from `fd` on
    cases h
    obtain ⟨after, skipped, stops⟩ := findFreeFd_spec handleMap fd
    refine ⟨fun inUse => ?_, fun _ => ⟨after, skipped⟩, fun no => by simp [no] at free⟩
    by_cases within : findFreeFd handleMap fd ≤ handleMap.fdTop
    · exact stops within inUse
    · exact within (wf.belowTop _ inUse).2
  · cases h
    exact ⟨fun inUse => occupied ⟨(wf.belowTop fd inUse).2, inUse⟩,
      fun yes => by simp [yes] at free, fun _ => rfl⟩
  · -- `fd_top` is `FD_NULL`: no descriptor is in use
    cases h
    exact ⟨fun inUse => set (wf.belowTop fd inUse).1,
      fun _ => ⟨Nat.le_refl fd, fun k above below => absurd below (by omega)⟩, fun _ => rfl⟩

theorem chooseFd_error {fd : Nat} {findFree : Bool} {err : Int}
    (h : chooseFd fd findFree handleMap = .error err) :
    err = -EBADF ∧ findFree = false ∧ handleMap.Allocated fd := by
  unfold chooseFd at h
  split_ifs at h with set free occupied
  cases h
  exact ⟨rfl, by simpa using free, occupied.2⟩

/-- A map with the same slots and `fd_top` is well formed as the old one is. -/
theorem LibosHandleMap.WellFormed.of_slots (wf : handleMap.WellFormed)
    (length : handleMap'.map.length = handleMap'.fdSize) (fits : handleMap'.fdSize ≤ FD_NULL)
    (slots : ∀ k, handleMap'.slot k = handleMap.slot k) (top : handleMap'.fdTop = handleMap.fdTop) :
    handleMap'.WellFormed := by
  have allocated : ∀ k, handleMap'.Allocated k ↔ handleMap.Allocated k := by
    intro k
    unfold Allocated
    rw [slots]
  refine ⟨length, fits, fun k fdHandle found => wf.entry k fdHandle (slots k ▸ found),
    fun set => ?_, fun k inUse => ?_⟩
  · rw [top] at set ⊢
    exact (allocated _).mpr (wf.topAllocated set)
  · rw [top]
    exact wf.belowTop k ((allocated k).mp inUse)

theorem slot_append_none (n k : Nat) :
    ({ handleMap with map := handleMap.map ++ List.replicate n none } : LibosHandleMap).slot k =
      handleMap.slot k := by
  simp only [slot, List.getD_eq_getElem?_getD, List.getElem?_append]
  split_ifs
  · rfl
  · simp only [List.getElem?_replicate, List.getElem?_eq_none (by omega : handleMap.map.length ≤ k)]
    split_ifs <;> rfl

/-- The map `__set_new_fd_handle` puts the descriptor in has a slot for it, and
the old slots, `fd_top` and references. -/
theorem reserveFd_ok (wf : handleMap.WellFormed) {fd : Nat} {callocOk : Bool}
    (h : reserveFd fd callocOk handleMap = .ok handleMap') :
    handleMap'.WellFormed ∧ fd < handleMap'.fdSize ∧ handleMap'.fdTop = handleMap.fdTop ∧
      (∀ k, handleMap'.slot k = handleMap.slot k) ∧ handleMap'.references = handleMap.references := by
  unfold reserveFd at h
  split_ifs at h with past
  · split at h
    · cases h
    · rename_i newSize grown
      obtain ⟨holds, larger, fitsGrown⟩ := Doubling.grow_spec grown
      have start : growFrom handleMap.fdSize < 2 ^ 32 := by
        have := wf.fits
        unfold growFrom INIT_HANDLE_MAP_SIZE FD_NULL at *
        split <;> omega
      have fitsNew := fitsGrown start
      unfold enlargeHandleMap at h
      rw [if_neg (by omega)] at h
      split_ifs at h
      cases h
      have taken : handleMap.map.take handleMap.fdSize = handleMap.map := by
        rw [← wf.length, List.take_length]
      refine ⟨wf.of_slots (by simp [taken, wf.length]; omega)
        (show newSize ≤ FD_NULL by unfold FD_NULL; omega)
        (fun k => by rw [taken]; exact slot_append_none _ k) rfl, show fd < newSize by omega, rfl,
        fun k => by rw [taken]; exact slot_append_none _ k, ?_⟩
      funext hdl
      simp [references, taken, List.countP_replicate, holdsHandle, handleAllocated]
  · cases h
    exact ⟨wf, by omega, rfl, fun _ => rfl, rfl⟩

theorem initHandle'_ok {fd hdl fdFlags : Nat} {allocated : Bool} {s s' : FdTable}
    (h : initHandle' fd hdl fdFlags allocated s = .ok s') :
    s'.handleMap = { s.handleMap with map := s.handleMap.map.set fd (some ⟨fd, fdFlags, some hdl⟩) } ∧
      s'.refCount = getHandle s.refCount hdl := by
  unfold initHandle' at h
  split_ifs at h
  cases h
  exact ⟨rfl, rfl⟩

variable {s s' : FdTable} {fd hdl fdFlags fd' rlimitNofile : Nat} {findFree callocOk mallocOk : Bool}

theorem setNewFdHandle'_eq_ok
    (h : setNewFdHandle' fd hdl fdFlags findFree rlimitNofile callocOk mallocOk s = (s', .ok fd')) :
    chooseFd fd findFree s.handleMap = .ok fd' ∧ fd' < rlimitNofile ∧
      ∃ reserved, reserveFd fd' callocOk s.handleMap = .ok reserved ∧
        s'.refCount = getHandle s.refCount hdl ∧
        s'.handleMap =
          { fdSize := reserved.fdSize
            fdTop := if reserved.fdTop = FD_NULL ∨ reserved.fdTop < fd' then fd' else reserved.fdTop
            map := reserved.map.set fd' (some ⟨fd', fdFlags, some hdl⟩) } := by
  unfold setNewFdHandle' at h
  split at h
  · cases h
  · rename_i chosen picked
    split_ifs at h with limit
    · cases h
    · split at h
      · cases h
      · rename_i reserved reserve
        split at h
        · cases h
        · rename_i initialized init
          obtain ⟨map, refs⟩ := initHandle'_ok init
          split_ifs at h with raise
          · cases h
            refine ⟨picked, by omega, reserved, reserve, refs, ?_⟩
            rw [map] at raise ⊢
            simp only at raise
            simp [raise]
          · cases h
            refine ⟨picked, by omega, reserved, reserve, refs, ?_⟩
            rw [map] at raise ⊢
            simp only at raise
            simp [raise]

/-- A descriptor that `__set_new_fd_handle` gives was free (with `findFree`,
the first free one from `fd` on; else `fd` itself) and below `RLIMIT_NOFILE`;
it now holds the handle, every other slot is as it was, the map stays well
formed, and the handle gains the one reference the map gained. -/
theorem setNewFdHandle'_ok (wf : s.handleMap.WellFormed)
    (h : setNewFdHandle' fd hdl fdFlags findFree rlimitNofile callocOk mallocOk s = (s', .ok fd')) :
    s'.handleMap.WellFormed ∧ fd' < rlimitNofile ∧ ¬ s.handleMap.Allocated fd' ∧
      (findFree = true → fd ≤ fd' ∧ ∀ k, fd ≤ k → k < fd' → s.handleMap.Allocated k) ∧
      (findFree = false → fd' = fd) ∧
      s'.handleMap.slot fd' = some ⟨fd', fdFlags, some hdl⟩ ∧
      (∀ k, k ≠ fd' → s'.handleMap.slot k = s.handleMap.slot k) ∧
      (∀ held, s'.handleMap.references held =
        s.handleMap.references held + if held = hdl then 1 else 0) ∧
      s'.refCount = getHandle s.refCount hdl := by
  obtain ⟨picked, limit, reserved, reserve, refs, newMap⟩ := setNewFdHandle'_eq_ok h
  obtain ⟨free, first, same⟩ := chooseFd_ok wf picked
  obtain ⟨reservedWf, inside, top, slots, references⟩ := reserveFd_ok wf reserve
  have insideMap : fd' < reserved.map.length := reservedWf.length ▸ inside
  have notNull : fd' ≠ FD_NULL := by have := reservedWf.fits; omega
  have slot' : ∀ k, s'.handleMap.slot k =
      if fd' = k then some ⟨fd', fdFlags, some hdl⟩ else s.handleMap.slot k := by
    intro k
    rw [newMap, ← slots k]
    exact (slot_set _ fd' k).trans (by simp [insideMap])
  have allocated' : ∀ k, s'.handleMap.Allocated k ↔ k = fd' ∨ s.handleMap.Allocated k := by
    intro k
    unfold Allocated
    rw [slot' k]
    by_cases here : fd' = k
    · subst here
      simp [handleAllocated, notNull]
    · simp [here, Ne.symm here]
  have topIs : s'.handleMap.fdTop =
      if s.handleMap.fdTop = FD_NULL ∨ s.handleMap.fdTop < fd' then fd' else s.handleMap.fdTop := by
    rw [newMap, top]
  refine ⟨⟨by simp [newMap, reservedWf.length], by simpa [newMap] using reservedWf.fits,
    fun k fdHandle found set => ?_, fun set => ?_, fun k inUse => ?_⟩, limit, free, first, same,
    by simp [slot'], fun k other => by simp [slot', Ne.symm other], fun held => ?_, refs⟩
  · -- each entry sits at its own descriptor
    rw [slot' k] at found
    split_ifs at found with here
    · cases found
      exact ⟨here, rfl⟩
    · exact wf.entry k fdHandle found set
  · -- the new `fd_top` is in use
    rw [topIs] at set ⊢
    split_ifs with raise
    · exact (allocated' fd').mpr (.inl rfl)
    · rw [if_neg raise] at set
      exact (allocated' _).mpr (.inr (wf.topAllocated set))
  · -- and no descriptor in use is above it
    rw [topIs]
    rcases (allocated' k).mp inUse with rfl | inUse
    · split_ifs with raise
      · exact ⟨notNull, Nat.le_refl k⟩
      · exact ⟨fun null => raise (.inl null), by omega⟩
    · obtain ⟨set, below⟩ := wf.belowTop k inUse
      split_ifs with raise
      · exact ⟨notNull, by omega⟩
      · exact ⟨set, below⟩
  · -- the one new reference is to `hdl`
    have counted := references_set insideMap (some ⟨fd', fdFlags, some hdl⟩) held
    have wasFree : holdsHandle held (reserved.slot fd') = false := by
      simp only [holdsHandle, slots, Bool.and_eq_false_iff]
      exact .inl (by simpa [Allocated] using free)
    rw [wasFree, congrFun references held] at counted
    have newMapRefs : s'.handleMap.references held =
        ({ reserved with map := reserved.map.set fd' (some ⟨fd', fdFlags, some hdl⟩) } :
          LibosHandleMap).references held := by
      rw [newMap]
      rfl
    rw [newMapRefs]
    rw [holdsHandle_some fdFlags hdl held notNull] at counted
    simp only [decide_eq_true_eq, Bool.false_eq_true, if_false, Nat.add_zero] at counted
    simp only [counted, eq_comm]

/-- Without `findFree` the descriptor is `fd` itself, refused when in use. -/
theorem chooseFd_byFd (wf : handleMap.WellFormed) (fd : Nat) :
    chooseFd fd false handleMap = if handleMap.Allocated fd then .error (-EBADF) else .ok fd := by
  unfold chooseFd
  by_cases inUse : handleMap.Allocated fd
  · obtain ⟨set, below⟩ := wf.belowTop fd inUse
    rw [if_pos set, if_pos inUse]
    simp only [Bool.false_eq_true, if_false]
    exact if_pos ⟨below, inUse⟩
  · rw [if_neg inUse]
    simp only [Bool.false_eq_true, if_false]
    split_ifs with set occupied
    · exact absurd occupied.2 inUse
    · rfl
    · rfl

/-- A call whose descriptor is refused returns at once. -/
theorem setNewFdHandle'_of_chooseFd_error {err : Int}
    (picked : chooseFd fd findFree s.handleMap = .error err) :
    setNewFdHandle' fd hdl fdFlags findFree rlimitNofile callocOk mallocOk s = (s, .error err) := by
  unfold setNewFdHandle'
  rw [picked]

/-- A descriptor at or above `RLIMIT_NOFILE` is refused with `-EMFILE` before
anything changes. -/
theorem setNewFdHandle'_of_limit (picked : chooseFd fd findFree s.handleMap = .ok fd')
    (limit : rlimitNofile ≤ fd') :
    setNewFdHandle' fd hdl fdFlags findFree rlimitNofile callocOk mallocOk s =
      (s, .error (-EMFILE)) := by
  unfold setNewFdHandle'
  rw [picked]
  exact if_pos limit

theorem reserveFd_error {fd : Nat} {callocOk : Bool} {err : Int}
    (h : reserveFd fd callocOk handleMap = .error err) : err = -ENFILE ∨ err = -ENOMEM := by
  unfold reserveFd at h
  split_ifs at h
  split at h
  · cases h
    exact .inl rfl
  · unfold enlargeHandleMap at h
    split_ifs at h
    cases h
    exact .inr rfl

theorem initHandle'_error {fd hdl fdFlags : Nat} {allocated : Bool} {s : FdTable} {err : Int}
    (h : initHandle' fd hdl fdFlags allocated s = .error err) : err = -ENOMEM := by
  unfold initHandle' at h
  split_ifs at h
  cases h
  rfl

/-- When `__set_new_fd_handle` fails, no slot and no count moved: it failed
with `-EBADF` because `fd` is in use (without `findFree`), with `-EMFILE`
because the descriptor it picked is not below `RLIMIT_NOFILE`, or on an
allocation. The map may have grown, and stays well formed. -/
theorem setNewFdHandle'_error (wf : s.handleMap.WellFormed) {err : Int}
    (h : setNewFdHandle' fd hdl fdFlags findFree rlimitNofile callocOk mallocOk s = (s', .error err)) :
    s'.handleMap.WellFormed ∧ (∀ k, s'.handleMap.slot k = s.handleMap.slot k) ∧
      s'.handleMap.fdTop = s.handleMap.fdTop ∧ s'.handleMap.references = s.handleMap.references ∧
      s'.refCount = s.refCount ∧
      ((err = -EBADF ∧ findFree = false ∧ s.handleMap.Allocated fd) ∨
        ∃ chosen, chooseFd fd findFree s.handleMap = .ok chosen ∧
          (rlimitNofile ≤ chosen ∧ err = -EMFILE ∨
            chosen < rlimitNofile ∧ (err = -ENFILE ∨ err = -ENOMEM))) := by
  unfold setNewFdHandle' at h
  split at h
  · rename_i failed picking
    cases h
    exact ⟨wf, fun _ => rfl, rfl, rfl, rfl, .inl (chooseFd_error picking)⟩
  · rename_i chosen picked
    split_ifs at h with limit
    · cases h
      exact ⟨wf, fun _ => rfl, rfl, rfl, rfl, .inr ⟨chosen, picked, .inl ⟨limit, rfl⟩⟩⟩
    · split at h
      · rename_i failed reserving
        cases h
        exact ⟨wf, fun _ => rfl, rfl, rfl, rfl,
          .inr ⟨chosen, picked, .inr ⟨by omega, reserveFd_error reserving⟩⟩⟩
      · rename_i reserved reserve
        obtain ⟨reservedWf, -, top, slots, references⟩ := reserveFd_ok wf reserve
        split at h
        · rename_i failed initializing
          cases h
          exact ⟨reservedWf, slots, top, references, rfl,
            .inr ⟨chosen, picked, .inr ⟨by omega, .inr (initHandle'_error initializing)⟩⟩⟩
        · split_ifs at h <;> cases h

end Set

/-! ## Counting references -/

/-- Every reference the map holds is counted in its handle's `ref_count`. -/
def FdTable.Covered (s : FdTable) : Prop :=
  ∀ hdl, s.handleMap.references hdl ≤ s.refCount hdl

/-- From `s` to `s'` each `ref_count` moved exactly as the map's references
to the handle did. -/
def FdTable.Accounted (s s' : FdTable) : Prop :=
  ∀ hdl, s'.refCount hdl + s.handleMap.references hdl = s.refCount hdl + s'.handleMap.references hdl

theorem FdTable.Accounted.refl (s : FdTable) : s.Accounted s := fun _ => rfl

theorem FdTable.Accounted.trans {s₁ s₂ s₃ : FdTable} (first : s₁.Accounted s₂)
    (second : s₂.Accounted s₃) : s₁.Accounted s₃ := by
  intro hdl
  have := first hdl
  have := second hdl
  omega

@[simp] theorem getHandle_apply (refCount : RefCounts) (hdl held : Nat) :
    getHandle refCount hdl held = refCount held + if held = hdl then 1 else 0 := by
  unfold getHandle Function.update
  split <;> simp_all

@[simp] theorem putHandle_apply (refCount : RefCounts) (hdl held : Nat) :
    putHandle refCount hdl held = refCount held - if held = hdl then 1 else 0 := by
  unfold putHandle Function.update
  split <;> simp_all

section Close

variable {s : FdTable}


/-- Closing `i` leaves the map `__detach_fd_handle` leaves. -/
theorem closeFd_handleMap (i : Nat) : (closeFd i s).handleMap = (detachFdHandle' i s.handleMap).1 := by
  unfold closeFd
  split <;> simp_all

/-- Closing a descriptor keeps the map well formed and every reference counted,
and its handle loses the reference the map lost. -/
theorem closeFd_spec (wf : s.handleMap.WellFormed) (covered : s.Covered) (i : Nat) :
    (closeFd i s).handleMap.WellFormed ∧ (closeFd i s).Covered ∧ s.Accounted (closeFd i s) ∧
      (closeFd i s).handleMap.fdSize = s.handleMap.fdSize ∧
      ∀ k, (closeFd i s).handleMap.Allocated k ↔ s.handleMap.Allocated k ∧ k ≠ i := by
  by_cases inUse : s.handleMap.Allocated i
  · obtain ⟨held, -, handed, map, fdSize, detachedWf⟩ := detachFdHandle'_of_allocated wf inUse
    have closed : closeFd i s = ⟨(detachFdHandle' i s.handleMap).1, putHandle s.refCount held⟩ := by
      unfold closeFd
      split
      · rename_i handleMap' hdl detached
        rw [detached] at handed
        cases handed
        simp [detached]
      · rename_i handleMap' detached
        rw [detached] at handed
        cases handed
    have dropped := references_detachFdHandle' wf i
    rw [handed] at dropped
    rw [closed]
    have dropsOne : ∀ hdl, (detachFdHandle' i s.handleMap).1.references hdl +
        (if hdl = held then 1 else 0) = s.handleMap.references hdl := by
      intro hdl
      have := dropped hdl
      by_cases same : hdl = held
      · rw [if_pos same]
        rwa [if_pos (congrArg some same.symm)] at this
      · rw [if_neg same]
        rwa [if_neg fun eq => same (Option.some.inj eq).symm] at this
    refine ⟨detachedWf, fun hdl => ?_, fun hdl => ?_, fdSize, fun k => ?_⟩
    · show (detachFdHandle' i s.handleMap).1.references hdl ≤ putHandle s.refCount held hdl
      have := dropsOne hdl
      have := covered hdl
      rw [putHandle_apply]
      split_ifs at * <;> omega
    · show putHandle s.refCount held hdl + s.handleMap.references hdl =
        s.refCount hdl + (detachFdHandle' i s.handleMap).1.references hdl
      have := dropsOne hdl
      have := covered hdl
      rw [putHandle_apply]
      split_ifs at * <;> omega
    · show LibosHandleMap.Allocated _ k ↔ _
      unfold Allocated
      rw [show (detachFdHandle' i s.handleMap).1.slot k =
        ({ s.handleMap with map := s.handleMap.map.set i clearedEntry } : LibosHandleMap).slot k from
        by unfold slot; rw [map]]
      exact allocated_set_cleared
  · -- a free descriptor is left alone
    have same : closeFd i s = s := by
      unfold closeFd
      rw [detachFdHandle'_of_free inUse]
    rw [same]
    exact ⟨wf, covered, .refl s, rfl, fun k => ⟨fun inUse' => ⟨inUse', fun here => inUse (here ▸ inUse')⟩,
      And.left⟩⟩

/-- Setting `FD_CLOEXEC` changes flags only: the map stays well formed, with
the same descriptors in use and the same references. -/
theorem setCloexec_spec (wf : s.handleMap.WellFormed) (i : Nat) :
    (setCloexec i s).handleMap.WellFormed ∧ (setCloexec i s).refCount = s.refCount ∧
      (setCloexec i s).handleMap.references = s.handleMap.references ∧
      (setCloexec i s).handleMap.fdSize = s.handleMap.fdSize ∧
      ∀ k, (setCloexec i s).handleMap.Allocated k ↔ s.handleMap.Allocated k := by
  let flagged : Option LibosFdHandle → Option LibosFdHandle :=
    Option.map fun fdHandle => { fdHandle with flags := fdHandle.flags ||| FD_CLOEXEC }
  have slots : ∀ k, (setCloexec i s).handleMap.slot k =
      if i = k then flagged (s.handleMap.slot k) else s.handleMap.slot k := by
    intro k
    show ({ s.handleMap with map := s.handleMap.map.set i (flagged (s.handleMap.slot i)) } :
      LibosHandleMap).slot k = _
    rw [slot_set]
    by_cases here : i = k
    · subst here
      by_cases inside : i < s.handleMap.map.length
      · simp [inside]
      · simp [inside, slot_eq_none (Nat.le_of_not_lt inside), flagged]
    · simp [here]
  have allocated : ∀ k, (setCloexec i s).handleMap.Allocated k ↔ s.handleMap.Allocated k := by
    intro k
    unfold Allocated
    rw [slots]
    split_ifs
    · cases s.handleMap.slot k <;> simp [flagged, handleAllocated]
    · rfl
  have holds : ∀ hdl entry, holdsHandle hdl (flagged entry) = holdsHandle hdl entry := by
    intro hdl entry
    cases entry <;> simp [flagged, holdsHandle, handleAllocated]
  refine ⟨⟨by simp [setCloexec, wf.length], wf.fits, fun k fdHandle found set => ?_,
    fun set => (allocated _).mpr (wf.topAllocated set), fun k inUse => wf.belowTop k
    ((allocated k).mp inUse)⟩, rfl, ?_, rfl, allocated⟩
  · rw [slots] at found
    split_ifs at found
    · cases entry : s.handleMap.slot k with
      | none => simp [entry, flagged] at found
      | some old =>
        simp only [entry, flagged, Option.map_some, Option.some.injEq] at found
        subst found
        exact wf.entry k old entry set
    · exact wf.entry k fdHandle found set
  · funext hdl
    by_cases inside : i < s.handleMap.map.length
    · have counted := references_set inside (flagged (s.handleMap.slot i)) hdl
      rw [holds] at counted
      exact Nat.add_right_cancel counted
    · show List.countP _ (s.handleMap.map.set i _) = _
      rw [List.set_eq_of_length_le (by omega)]
      rfl

/-- A loop of `close_handle_range` or `close_cloexec_handles` keeps what each
turn keeps. -/
theorem walkFds_preserves (P : FdTable → Prop) {last : Nat} {body : Nat → FdTable → FdTable}
    (step : ∀ i s, P s → s.handleMap.Allocated i → P (body i s)) :
    ∀ i s, P s → P (walkFds last body i s) := by
  intro i s
  induction i, s using walkFds.induct last body with
  | case1 i s goesOn ih =>
    intro holds
    rw [walkFds, if_pos goesOn]
    apply ih
    split
    · rename_i inUse
      exact step i s holds inUse
    · exact holds
  | case2 i s stops =>
    intro holds
    rw [walkFds, if_neg stops]
    exact holds

/-- `close_handle_range` without `cloexec` closes exactly the descriptors in
use from `i` to `last`, keeping the map well formed and the counts right. -/
theorem walkFds_closeFd (last : Nat) : ∀ i (s : FdTable), s.handleMap.WellFormed → s.Covered →
    (walkFds last closeFd i s).handleMap.WellFormed ∧ (walkFds last closeFd i s).Covered ∧
      s.Accounted (walkFds last closeFd i s) ∧
      ∀ k, (walkFds last closeFd i s).handleMap.Allocated k ↔
        s.handleMap.Allocated k ∧ ¬ (i ≤ k ∧ k ≤ last) := by
  intro i s
  induction i, s using walkFds.induct last closeFd with
  | case1 i s goesOn ih =>
    intro wf covered
    rw [walkFds, if_pos goesOn]
    -- one turn closes `i` if it is in use, then the walk goes on from `i + 1`
    have turn : (if handleAllocated (s.handleMap.slot i) then closeFd i s else s).handleMap.WellFormed ∧
        (if handleAllocated (s.handleMap.slot i) then closeFd i s else s).Covered ∧
        s.Accounted (if handleAllocated (s.handleMap.slot i) then closeFd i s else s) ∧
        ∀ k, (if handleAllocated (s.handleMap.slot i) then closeFd i s else s).handleMap.Allocated k ↔
          s.handleMap.Allocated k ∧ k ≠ i := by
      split
      · obtain ⟨wf', covered', accounted, -, allocated⟩ := closeFd_spec wf covered i
        exact ⟨wf', covered', accounted, allocated⟩
      · rename_i free
        exact ⟨wf, covered, .refl s, fun k => ⟨fun inUse => ⟨inUse, fun here => free (here ▸ inUse)⟩,
          And.left⟩⟩
    obtain ⟨wf', covered', accounted, allocated⟩ := turn
    simp only [dite_eq_ite] at ih
    obtain ⟨wf'', covered'', accounted', allocated'⟩ := ih wf' covered'
    refine ⟨wf'', covered'', accounted.trans accounted', fun k => ?_⟩
    rw [allocated', allocated]
    constructor
    · rintro ⟨⟨inUse, other⟩, outside⟩
      exact ⟨inUse, fun ⟨above, below⟩ => outside ⟨by omega, below⟩⟩
    · rintro ⟨inUse, outside⟩
      exact ⟨⟨inUse, fun here => outside ⟨by omega, by omega⟩⟩, fun ⟨above, below⟩ =>
        outside ⟨by omega, below⟩⟩
  | case2 i s stops =>
    intro wf covered
    rw [walkFds, if_neg stops]
    refine ⟨wf, covered, .refl s, fun k => ⟨fun inUse => ⟨inUse, fun ⟨above, below⟩ => ?_⟩,
      And.left⟩⟩
    -- the walk stopped, so nothing from `i` to `last` is in use
    obtain ⟨set, atMost⟩ := wf.belowTop k inUse
    exact stops ⟨set, by omega, by omega⟩

end Close

/-! ## `dup_handle_map` -/

section Dup

variable {old : LibosHandleMap} {mallocOk : Nat → Bool}

/-- Two maps whose slots hold the same references have the same counts. -/
theorem references_eq_of_slots {handleMap handleMap' : LibosHandleMap}
    (length : handleMap.map.length = handleMap'.map.length)
    (same : ∀ hdl k, holdsHandle hdl (handleMap.slot k) = holdsHandle hdl (handleMap'.slot k)) :
    handleMap.references = handleMap'.references := by
  funext hdl
  have mapped : handleMap.map.map (holdsHandle hdl) = handleMap'.map.map (holdsHandle hdl) := by
    apply List.ext_getElem (by simp [length])
    intro k inLeft inRight
    have := same hdl k
    simp only [List.length_map] at inLeft inRight
    simp only [slot, List.getD_eq_getElem _ _ inLeft, List.getD_eq_getElem _ _ inRight] at this
    simpa using this
  have counted : ∀ l : List (Option LibosFdHandle),
      (l.map (holdsHandle hdl)).countP (fun b => b) = l.countP (holdsHandle hdl) := by
    intro l
    rw [List.countP_map]
    rfl
  unfold references
  rw [← counted, ← counted, mapped]

/-! ### One descriptor of the copy loop -/

section Step

variable {i : Nat} (rest : List Nat) (newMap : LibosHandleMap) (refCount : RefCounts)

/-- The loop skips a descriptor not in use. -/
theorem dupEntries_skip (free : ¬ old.Allocated i) :
    dupEntries old mallocOk (i :: rest) newMap refCount = dupEntries old mallocOk rest newMap refCount := by
  simp only [dupEntries]
  split
  · rename_i fdOld found
    rw [if_neg fun set => free (allocated_iff.mpr ⟨fdOld, found, set⟩)]
  · rfl

variable {fdOld : LibosFdHandle} {hdl : Nat} (found : old.slot i = some fdOld) (set : fdOld.vfd ≠ FD_NULL)
  (held : fdOld.handle = some hdl)
include found set held

/-- The loop copies a descriptor in use after taking a reference to its
handle. -/
theorem dupEntries_copy (allocated : mallocOk i = true) :
    dupEntries old mallocOk (i :: rest) newMap refCount =
      dupEntries old mallocOk rest { newMap with map := newMap.map.set i (some { fdOld with handle := some hdl }) }
        (getHandle refCount hdl) := by
  simp only [dupEntries, found, if_pos set, held, allocated, if_true]

/-- A failed allocation leaves through the clean-up of the descriptors below,
with the reference to the handle already taken. -/
theorem dupEntries_fail (failed : mallocOk i = false) :
    dupEntries old mallocOk (i :: rest) newMap refCount =
      (releaseCopies newMap (getHandle refCount hdl) (List.range i)).map fun refCount =>
        (.error (-ENOMEM), refCount) := by
  simp only [dupEntries, found, if_pos set, held, failed, Bool.false_eq_true, if_false]

end Step

/-- The copy loop of `dup_handle_map`, when every allocation succeeds: each
descriptor of `is` in use in the old map gets its entry in the new one, and
each such entry's handle gains the reference. -/
theorem dupEntries_ok (wf : old.WellFormed) : ∀ (is : List Nat) (newMap newMap' : LibosHandleMap)
    (refCount refCount' : RefCounts), newMap.map.length = old.fdSize →
    (∀ k ∈ is, newMap.slot k = none) → is.Nodup →
    dupEntries old mallocOk is newMap refCount = some (.ok newMap', refCount') →
    newMap'.fdSize = newMap.fdSize ∧ newMap'.fdTop = newMap.fdTop ∧
      newMap'.map.length = newMap.map.length ∧
      (∀ k, newMap'.slot k = if k ∈ is ∧ old.Allocated k then old.slot k else newMap.slot k) ∧
      ∀ hdl, refCount' hdl + newMap.references hdl = refCount hdl + newMap'.references hdl
  | [], newMap, newMap', refCount, refCount', _, _, _, h => by
    simp only [dupEntries, Option.some.injEq, Prod.mk.injEq, Except.ok.injEq] at h
    obtain ⟨rfl, rfl⟩ := h
    exact ⟨rfl, rfl, rfl, fun k => by simp, fun _ => rfl⟩
  | i :: rest, newMap, newMap', refCount, refCount', length, empty, distinct, h => by
    have notLater : i ∉ rest := (List.nodup_cons.mp distinct).1
    have restEmpty : ∀ k ∈ rest, newMap.slot k = none :=
      fun k member => empty k (List.mem_cons_of_mem i member)
    by_cases inUse : old.Allocated i
    · obtain ⟨fdOld, found, set⟩ := allocated_iff.mp inUse
      obtain ⟨-, hasHandle⟩ := wf.entry i fdOld found set
      obtain ⟨hdl, held⟩ := Option.isSome_iff_exists.mp hasHandle
      cases allocated : mallocOk i
      · -- a failed allocation leaves through the error path
        rw [dupEntries_fail rest newMap refCount found set held allocated] at h
        cases releasing : releaseCopies newMap (getHandle refCount hdl) (List.range i) <;>
          simp [releasing] at h
      · -- the entry is copied to the new map with a new reference
        rw [dupEntries_copy rest newMap refCount found set held allocated] at h
        have inside : i < newMap.map.length := length ▸ wf.lt_fdSize inUse
        let copied : LibosHandleMap :=
          { newMap with map := newMap.map.set i (some { fdOld with handle := some hdl }) }
        have copiedSlot : ∀ k, copied.slot k = if i = k then some fdOld else newMap.slot k := by
          intro k
          rw [slot_set]
          simp [inside, ← held]
        obtain ⟨fdSize, top, length', slots, counted⟩ := dupEntries_ok wf rest copied newMap'
          (getHandle refCount hdl) refCount' (by simp [copied, length])
          (fun k member => by
            rw [copiedSlot]
            rw [if_neg fun (same : i = k) => notLater (same ▸ member)]
            exact restEmpty k member)
          (List.nodup_cons.mp distinct).2 h
        refine ⟨fdSize, top, by simpa [copied] using length', fun k => ?_, fun held' => ?_⟩
        · rw [slots k, copiedSlot]
          by_cases here : k = i
          · subst here
            simp [notLater, inUse, found]
          · simp [here, Ne.symm here]
        · have added := references_set inside (some { fdOld with handle := some hdl }) held'
          rw [empty i List.mem_cons_self, holdsHandle_none,
            holdsHandle_some fdOld.flags hdl held' set] at added
          simp only [Bool.false_eq_true, if_false, Nat.add_zero, decide_eq_true_eq] at added
          have copiedRefs : copied.references held' =
              newMap.references held' + if hdl = held' then 1 else 0 := added
          have := counted held'
          rw [getHandle_apply, copiedRefs] at this
          split_ifs at this <;> omega
    · -- the loop skips `i`, whose slot stays as it was
      rw [dupEntries_skip rest newMap refCount inUse] at h
      obtain ⟨fdSize, top, length', slots, counted⟩ := dupEntries_ok wf rest newMap newMap'
        refCount refCount' length restEmpty (List.nodup_cons.mp distinct).2 h
      refine ⟨fdSize, top, length', fun k => ?_, counted⟩
      rw [slots k]
      by_cases here : k = i
      · subst here
        simp [inUse, notLater]
      · simp [here]

/-- The copy loop fails only where an allocation failed. -/
theorem dupEntries_error : ∀ (is : List Nat) (newMap : LibosHandleMap)
    (refCount refCount' : RefCounts) {err : Int},
    dupEntries old mallocOk is newMap refCount = some (.error err, refCount') →
      ∃ i ∈ is, mallocOk i = false
  | [], _, _, _, _, h => by simp [dupEntries] at h
  | i :: rest, newMap, refCount, refCount', err, h => by
    -- every branch but the failed allocation goes on with `rest`
    have later : ∀ newMap refCount, dupEntries old mallocOk rest newMap refCount =
        some (.error err, refCount') → ∃ j ∈ i :: rest, mallocOk j = false := by
      intro newMap refCount h
      obtain ⟨j, member, failed⟩ := dupEntries_error rest newMap refCount refCount' h
      exact ⟨j, List.mem_cons_of_mem i member, failed⟩
    simp only [dupEntries] at h
    split at h
    · rename_i fdOld found
      by_cases set : fdOld.vfd ≠ FD_NULL
      · rw [if_pos set] at h
        split at h
        · by_cases allocated : mallocOk i
          · rw [if_pos allocated] at h
            exact later _ _ h
          · exact ⟨i, List.mem_cons_self, by simpa using allocated⟩
        · cases h
      · rw [if_neg set] at h
        exact later _ _ h
    · exact later _ _ h

theorem holdsHandle_of_free {handleMap : LibosHandleMap} {k : Nat} (free : ¬ handleMap.Allocated k)
    (hdl : Nat) : holdsHandle hdl (handleMap.slot k) = false := by
  simp only [Allocated] at free
  simp [holdsHandle, free]

/-- A copy of the entries in use of a well formed map, with its size and
`fd_top`, is well formed and holds the same references. -/
theorem LibosHandleMap.WellFormed.of_copy (wf : old.WellFormed) {copy : LibosHandleMap}
    (length : copy.map.length = old.fdSize) (fdSize : copy.fdSize = old.fdSize)
    (top : copy.fdTop = old.fdTop)
    (slots : ∀ k, copy.slot k = if old.Allocated k then old.slot k else none) :
    copy.WellFormed ∧ copy.references = old.references := by
  have allocated : ∀ k, copy.Allocated k ↔ old.Allocated k := by
    intro k
    unfold Allocated
    rw [slots]
    split_ifs with inUse
    · exact Iff.rfl
    · exact ⟨nofun, fun set => absurd set inUse⟩
  refine ⟨⟨by rw [length, fdSize], fdSize ▸ wf.fits, fun k fdHandle found set => ?_,
    fun set => ?_, fun k inUse => ?_⟩, ?_⟩
  · rw [slots] at found
    split_ifs at found
    · exact wf.entry k fdHandle found set
  · rw [top] at set ⊢
    exact (allocated _).mpr (wf.topAllocated set)
  · rw [top]
    exact wf.belowTop k ((allocated k).mp inUse)
  · apply references_eq_of_slots (by rw [length, wf.length])
    intro hdl k
    rw [slots]
    split_ifs with inUse
    · rfl
    · rw [holdsHandle_none, holdsHandle_of_free inUse]

/-- The map `get_new_handle_map` allocates has no entry. -/
theorem slot_replicate_none (fdSize fdTop n k : Nat) :
    (⟨fdSize, fdTop, List.replicate n none⟩ : LibosHandleMap).slot k = none := by
  simp only [slot, List.getD_eq_getElem?_getD, List.getElem?_replicate]
  split_ifs <;> rfl

theorem references_replicate_none (fdSize fdTop n : Nat) :
    (⟨fdSize, fdTop, List.replicate n none⟩ : LibosHandleMap).references = fun _ => 0 := by
  funext hdl
  simp [references, List.countP_replicate, holdsHandle_none]

/-- A successful `dup_handle_map` gives a well formed copy of the entries in
use, with the map's size and `fd_top`, and each handle gains one reference for
each entry of the copy that holds it. -/
theorem dupHandleMap_ok (wf : old.WellFormed) {allocated : Bool} {refCount refCount' : RefCounts}
    {newMap : LibosHandleMap}
    (h : dupHandleMap old allocated mallocOk refCount = some (.ok newMap, refCount')) :
    newMap.WellFormed ∧ newMap.fdSize = old.fdSize ∧ newMap.fdTop = old.fdTop ∧
      (∀ k, newMap.slot k = if old.Allocated k then old.slot k else none) ∧
      newMap.references = old.references ∧
      ∀ hdl, refCount' hdl = refCount hdl + old.references hdl := by
  let fresh : LibosHandleMap := ⟨old.fdSize, old.fdTop, List.replicate old.fdSize none⟩
  have copied : newMap.fdSize = old.fdSize ∧ newMap.fdTop = old.fdTop ∧
      newMap.map.length = old.fdSize ∧
      (∀ k, newMap.slot k = if old.Allocated k then old.slot k else none) ∧
      ∀ hdl, refCount' hdl = refCount hdl + newMap.references hdl := by
    cases allocated
    · simp [dupHandleMap, getNewHandleMap] at h
    · simp only [dupHandleMap, getNewHandleMap, if_true] at h
      split_ifs at h with empty
      · -- no descriptor is in use: the copy is the fresh map
        simp only [Option.some.injEq, Prod.mk.injEq, Except.ok.injEq] at h
        obtain ⟨rfl, rfl⟩ := h
        refine ⟨rfl, rfl, by simp, fun k => ?_, fun hdl => ?_⟩
        · rw [if_neg fun inUse => (wf.belowTop k inUse).1 empty]
          exact slot_replicate_none _ _ _ k
        · simp [references_replicate_none]
      · obtain ⟨fdSize, top, length, slots, counted⟩ := dupEntries_ok wf
          (List.range (old.fdTop + 1)) fresh newMap refCount refCount' (by simp [fresh])
          (fun k _ => slot_replicate_none _ _ _ k) List.nodup_range h
        refine ⟨fdSize, top, length.trans (by simp [fresh]), fun k => ?_, fun hdl => ?_⟩
        · -- every descriptor in use is at most `fd_top`, so the loop reaches it
          rw [slots k]
          by_cases inUse : old.Allocated k
          · have := (wf.belowTop k inUse).2
            simp only [List.mem_range, inUse, and_true, if_true]
            rw [if_pos (by omega)]
          · simp [inUse, fresh, slot_replicate_none]
        · have := counted hdl
          rw [references_replicate_none] at this
          omega
  obtain ⟨fdSize, top, length, slots, counted⟩ := copied
  obtain ⟨newWf, references⟩ := wf.of_copy length fdSize top slots
  exact ⟨newWf, fdSize, top, slots, references, fun hdl => references ▸ counted hdl⟩

/-! ### A failed allocation -/

/-- Copying the descriptors of `pre` without a failure, then those of `rest`. -/
theorem dupEntries_append_ok : ∀ {pre : List Nat} (rest : List Nat) {newMap newMap' : LibosHandleMap}
    {refCount refCount' : RefCounts},
    dupEntries old mallocOk pre newMap refCount = some (.ok newMap', refCount') →
    dupEntries old mallocOk (pre ++ rest) newMap refCount = dupEntries old mallocOk rest newMap' refCount'
  | [], rest, newMap, newMap', refCount, refCount', h => by
    simp only [dupEntries, Option.some.injEq, Prod.mk.injEq, Except.ok.injEq] at h
    obtain ⟨rfl, rfl⟩ := h
    rfl
  | i :: pre, rest, newMap, newMap', refCount, refCount', h => by
    rw [List.cons_append]
    by_cases inUse : old.Allocated i
    · obtain ⟨fdOld, found, set⟩ := allocated_iff.mp inUse
      cases held : fdOld.handle with
      | none => simp [dupEntries, found, set, held] at h
      | some hdl =>
        cases allocated : mallocOk i
        · rw [dupEntries_fail pre newMap refCount found set held allocated] at h
          cases releasing : releaseCopies newMap (getHandle refCount hdl) (List.range i) <;>
            simp [releasing] at h
        · rw [dupEntries_copy pre newMap refCount found set held allocated] at h
          rw [dupEntries_copy (pre ++ rest) newMap refCount found set held allocated]
          exact dupEntries_append_ok rest h
    · rw [dupEntries_skip pre newMap refCount inUse] at h
      rw [dupEntries_skip (pre ++ rest) newMap refCount inUse]
      exact dupEntries_append_ok rest h

/-- Without a failed allocation the copy loop over a well formed map finishes. -/
theorem dupEntries_finishes (wf : old.WellFormed) : ∀ {is : List Nat},
    (∀ k ∈ is, old.Allocated k → mallocOk k = true) → ∀ (newMap : LibosHandleMap) (refCount : RefCounts),
      ∃ newMap' refCount', dupEntries old mallocOk is newMap refCount = some (.ok newMap', refCount')
  | [], _, newMap, refCount => ⟨newMap, refCount, rfl⟩
  | i :: rest, allocated, newMap, refCount => by
    have later := dupEntries_finishes wf fun k member => allocated k (List.mem_cons_of_mem i member)
    by_cases inUse : old.Allocated i
    · obtain ⟨fdOld, found, set⟩ := allocated_iff.mp inUse
      obtain ⟨-, hasHandle⟩ := wf.entry i fdOld found set
      obtain ⟨hdl, held⟩ := Option.isSome_iff_exists.mp hasHandle
      rw [dupEntries_copy rest newMap refCount found set held (allocated i List.mem_cons_self inUse)]
      exact later _ _
    · rw [dupEntries_skip rest newMap refCount inUse]
      exact later _ _

/-- The clean-up stops at the first NULL slot it reads. -/
theorem releaseCopies_none {newMap : LibosHandleMap} : ∀ {js : List Nat} {refCount : RefCounts},
    (∃ j ∈ js, newMap.slot j = none) → releaseCopies newMap refCount js = none
  | [], _, ⟨_, member, _⟩ => absurd member List.not_mem_nil
  | j :: rest, refCount, ⟨k, member, hole⟩ => by
    cases found : newMap.slot j with
    | none => simp [releaseCopies, found]
    | some fdNew =>
      have later : ∃ k ∈ rest, newMap.slot k = none := by
        rcases List.mem_cons.mp member with rfl | inRest
        · rw [found] at hole
          cases hole
        · exact ⟨k, inRest, hole⟩
      cases held : fdNew.handle with
      | none => simp [releaseCopies, found, held]
      | some hdl =>
        simp only [releaseCopies, found, held]
        exact releaseCopies_none later

/-- The clean-up takes back one reference for each entry in use it reads. -/
theorem releaseCopies_some {newMap : LibosHandleMap} (base : RefCounts) : ∀ {js : List Nat},
    (∀ j ∈ js, newMap.Allocated j ∧ ((newMap.slot j).bind LibosFdHandle.handle).isSome) →
    releaseCopies newMap (fun hdl => base hdl + js.countP fun j => holdsHandle hdl (newMap.slot j)) js = some base
  | [], _ => by simp [releaseCopies]
  | j :: rest, entries => by
    obtain ⟨inUse, hasHandle⟩ := entries j List.mem_cons_self
    obtain ⟨fdNew, found, set⟩ := allocated_iff.mp inUse
    obtain ⟨hdl, held⟩ := Option.isSome_iff_exists.mp (by simpa [found] using hasHandle)
    have entry : fdNew = ⟨fdNew.vfd, fdNew.flags, some hdl⟩ := by
      rw [← held]
    have put : putHandle (fun h => base h + (j :: rest).countP fun j => holdsHandle h (newMap.slot j)) hdl =
        fun h => base h + rest.countP fun j => holdsHandle h (newMap.slot j) := by
      funext h
      rw [putHandle_apply, List.countP_cons, found, entry, holdsHandle_some _ _ _ set]
      by_cases same : h = hdl
      · simp [same]
      · simp [same, Ne.symm same]
    simp only [releaseCopies, found, held, put]
    exact releaseCopies_some base fun j' member => entries j' (List.mem_cons_of_mem j member)

/-- The references of a map whose slots from `n` on are NULL are those of its
slots below `n`. -/
theorem references_eq_countP_range {handleMap : LibosHandleMap} {n : Nat}
    (past : ∀ k, n ≤ k → handleMap.slot k = none) (hdl : Nat) :
    handleMap.references hdl = (List.range n).countP fun j => holdsHandle hdl (handleMap.slot j) := by
  -- both sides count the slots below the larger of `n` and the length
  have extend : ∀ {m : Nat}, (∀ k, m ≤ k → handleMap.slot k = none) → ∀ d,
      ((List.range (m + d)).countP fun j => holdsHandle hdl (handleMap.slot j)) =
        (List.range m).countP fun j => holdsHandle hdl (handleMap.slot j) := by
    intro m empty d
    induction d with
    | zero => rfl
    | succ d ih =>
      rw [← Nat.add_assoc, List.range_succ, List.countP_append, ih]
      simp [empty (m + d) (by omega), holdsHandle_none]
  have slots : handleMap.map.countP (holdsHandle hdl) =
      (List.range handleMap.map.length).countP fun j => holdsHandle hdl (handleMap.slot j) := by
    unfold slot
    generalize handleMap.map = l
    induction l with
    | nil => rfl
    | cons entry l ih =>
      rw [List.length_cons, List.range_succ_eq_map, List.countP_cons, List.countP_cons, List.countP_map, ih]
      simp [Function.comp_def]
  have length := extend (m := handleMap.map.length) (fun k past => slot_eq_none past) (n - handleMap.map.length)
  have bound := extend past (handleMap.map.length - n)
  unfold references
  rw [slots, ← length, ← bound,
    show handleMap.map.length + (n - handleMap.map.length) = n + (handleMap.map.length - n) by omega]

/-- The descriptors from `0` to `top` are those below `i`, then `i`, then the
others. -/
theorem range_eq_append_cons {i top : Nat} (le : i ≤ top) :
    ∃ rest, List.range (top + 1) = List.range i ++ i :: rest := by
  rw [show top + 1 = i + (top - i + 1) by omega, List.range_add, List.range_succ_eq_map, List.map_cons,
    Nat.add_zero]
  exact ⟨_, rfl⟩

/-- Where the copy loop of `dup_handle_map` fails: at the first descriptor in
use whose allocation fails, the clean-up gives back the references of the
entries copied so far but not the one just taken, and reads the NULL slot of
a descriptor below that is not in use. -/
theorem dupHandleMap_failed (wf : old.WellFormed) (top : old.fdTop ≠ FD_NULL) {i : Nat} (le : i ≤ old.fdTop)
    {fdOld : LibosFdHandle} {hdl : Nat} (found : old.slot i = some fdOld) (set : fdOld.vfd ≠ FD_NULL)
    (held : fdOld.handle = some hdl) (failed : mallocOk i = false)
    (before : ∀ k < i, old.Allocated k → mallocOk k = true) (refCount : RefCounts) :
    dupHandleMap old true mallocOk refCount =
      if ∀ k < i, old.Allocated k then some (.error (-ENOMEM), getHandle refCount hdl) else none := by
  let fresh : LibosHandleMap := ⟨old.fdSize, old.fdTop, List.replicate old.fdSize none⟩
  have start : dupHandleMap old true mallocOk refCount =
      dupEntries old mallocOk (List.range (old.fdTop + 1)) fresh refCount := by
    simp [dupHandleMap, getNewHandleMap, top, fresh]
  have finishes : ∃ copy counts, dupEntries old mallocOk (List.range i) fresh refCount = some (.ok copy, counts) :=
    dupEntries_finishes wf (fun k member => before k (List.mem_range.mp member)) fresh refCount
  obtain ⟨copy, counts, copied⟩ := finishes
  obtain ⟨-, -, -, slots, counted⟩ := dupEntries_ok wf (List.range i) fresh copy refCount counts
    (by simp [fresh]) (fun k _ => slot_replicate_none _ _ _ k) List.nodup_range copied
  obtain ⟨rest, split⟩ := range_eq_append_cons le
  rw [start, split, dupEntries_append_ok _ copied, dupEntries_fail rest copy counts found set held failed]
  split_ifs with allBelow
  · -- every descriptor below `i` was copied: the clean-up takes back each copy's reference
    have entries : ∀ j ∈ List.range i, copy.Allocated j ∧ ((copy.slot j).bind LibosFdHandle.handle).isSome := by
      intro j member
      have inUse := allBelow j (List.mem_range.mp member)
      obtain ⟨fdHandle, atJ, setJ⟩ := allocated_iff.mp inUse
      have copiedJ : copy.slot j = some fdHandle := by rw [slots, if_pos ⟨member, inUse⟩, atJ]
      exact ⟨allocated_iff.mpr ⟨fdHandle, copiedJ, setJ⟩, by simpa [copiedJ] using (wf.entry j fdHandle atJ setJ).2⟩
    have past : ∀ k, i ≤ k → copy.slot k = none := by
      intro k le'
      rw [slots, if_neg fun below => by have := List.mem_range.mp below.1; omega]
      exact slot_replicate_none _ _ _ k
    have refs : getHandle counts hdl =
        fun h => getHandle refCount hdl h + (List.range i).countP fun j => holdsHandle h (copy.slot j) := by
      funext h
      have := counted h
      rw [references_replicate_none, references_eq_countP_range past h] at this
      simp only [getHandle_apply, Nat.add_zero] at this ⊢
      omega
    rw [refs, releaseCopies_some _ entries]
    rfl
  · -- a descriptor below `i` is not in use: the clean-up reads its NULL slot
    simp only [not_forall] at allBelow
    obtain ⟨k, lt, free⟩ := allBelow
    have hole : copy.slot k = none := by
      rw [slots, if_neg fun below => free below.2]
      exact slot_replicate_none _ _ _ k
    rw [releaseCopies_none ⟨k, List.mem_range.mpr lt, hole⟩]
    rfl

/-- When `get_new_handle_map` fails, `dup_handle_map` returns with the old
map's lock still held for reading. -/
theorem dupHandleMapLocked_unallocated (old : LibosHandleMap) (mallocOk : Nat → Bool) (refCount : RefCounts)
    (readers : Nat) :
    dupHandleMapLocked old false mallocOk refCount readers = some (.error (-ENOMEM), refCount, readers + 1) := by
  simp [dupHandleMapLocked, getNewHandleMap]

/-- Once the new map is allocated, every return releases the lock. -/
theorem dupHandleMapLocked_allocated (old : LibosHandleMap) (mallocOk : Nat → Bool) (refCount : RefCounts)
    (readers : Nat) :
    dupHandleMapLocked old true mallocOk refCount readers =
      (dupHandleMap old true mallocOk refCount).map fun (result, refCount) => (result, refCount, readers) := by
  simp [dupHandleMapLocked, getNewHandleMap]

/-- What `dup_handle_map` does with the old map's lock and the reference
counts on each of its returns. A failed `get_new_handle_map` returns with the
lock held. A failed entry allocation at descriptor `i` returns with one
reference to `i`'s handle too many, or reads a NULL slot when a descriptor
below `i` is not in use. A successful copy releases the lock and adds one
reference for each descriptor in use. -/
theorem dupHandleMap_not_failure_atomic :
    (∀ (old : LibosHandleMap) (mallocOk : Nat → Bool) (refCount : RefCounts) (readers : Nat),
      dupHandleMapLocked old false mallocOk refCount readers = some (.error (-ENOMEM), refCount, readers + 1)) ∧
    (∀ (old : LibosHandleMap) (mallocOk : Nat → Bool) (refCount : RefCounts) (readers i : Nat)
        (fdOld : LibosFdHandle) (hdl : Nat),
      old.WellFormed → old.fdTop ≠ FD_NULL → i ≤ old.fdTop → old.slot i = some fdOld → fdOld.vfd ≠ FD_NULL →
      fdOld.handle = some hdl → mallocOk i = false → (∀ k < i, old.Allocated k → mallocOk k = true) →
      dupHandleMapLocked old true mallocOk refCount readers =
        if ∀ k < i, old.Allocated k then some (.error (-ENOMEM), getHandle refCount hdl, readers) else none) ∧
    ∀ (old : LibosHandleMap) (mallocOk : Nat → Bool) (refCount refCount' : RefCounts) (readers readers' : Nat)
        (newMap : LibosHandleMap),
      old.WellFormed → dupHandleMapLocked old true mallocOk refCount readers = some (.ok newMap, refCount', readers') →
      readers' = readers ∧ newMap.fdTop = old.fdTop ∧
        (∀ k, newMap.slot k = if old.Allocated k then old.slot k else none) ∧
        ∀ hdl, refCount' hdl = refCount hdl + old.references hdl := by
  refine ⟨dupHandleMapLocked_unallocated, ?_, ?_⟩
  · intro old mallocOk refCount readers i fdOld hdl wf top le found set held failed before
    rw [dupHandleMapLocked_allocated, dupHandleMap_failed wf top le found set held failed before]
    split_ifs <;> rfl
  · intro old mallocOk refCount refCount' readers readers' newMap wf h
    rw [dupHandleMapLocked_allocated, Option.map_eq_some_iff] at h
    obtain ⟨⟨result, counts⟩, copied, same⟩ := h
    simp only [Prod.mk.injEq] at same
    obtain ⟨rfl, rfl, rfl⟩ := same
    obtain ⟨-, -, top, slots, -, counted⟩ := dupHandleMap_ok wf copied
    exact ⟨rfl, top, slots, counted⟩

end Dup

end Gramine.LibOS.Bookkeep
