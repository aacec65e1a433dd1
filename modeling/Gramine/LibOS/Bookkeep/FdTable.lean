import Gramine.LibOS.Bookkeep.HandleMap

/-!
# Runs of a descriptor table

A thread's table from `get_new_handle_map` through any sequence of the calls
of `libos_handle.c` on it (`fdStep`), each with the outcomes of its
allocations and its `RLIMIT_NOFILE`. After a successful `dup_handle_map` the
thread goes on with the copy, as `close_range` with `CLOSE_RANGE_UNSHARE`
does, and the old map keeps its own references.

Along every run the map stays well formed (`FdRun.wellFormed`). Each
`ref_count` is its count at the start plus one for each reference the map
holds and for each one it handed out (`FdTable.Counts`), to the caller of
`detach_fd_handle` or to the old map of `dup_handle_map`; the references
handed out are a ghost of the run. That holds while every allocation of
`dup_handle_map`'s copy loop succeeds: when one fails, the loop has already
taken a reference for the entry it could not copy, which its clean-up never
drops, and the clean-up reads the NULL slot of any descriptor below the
failing one that is not in use.
-/

namespace Gramine.LibOS.Bookkeep

open LibosHandleMap

/-- A call on a thread's table, with the outcomes of the allocations it makes. -/
inductive FdOp where
  | setNewFdHandle (hdl fdFlags rlimitNofile : Nat) (callocOk mallocOk : Bool)
  | setNewFdHandleByFd (fd hdl fdFlags rlimitNofile : Nat) (callocOk mallocOk : Bool)
  | setNewFdHandleAboveFd (fd hdl fdFlags rlimitNofile : Nat) (callocOk mallocOk : Bool)
  | detachFdHandle (fd : Nat)
  | closeHandleRange (first last : Nat) (cloexec : Bool)
  | closeCloexecHandles
  | dupHandleMap (allocated : Bool) (mallocOk : Nat → Bool)

/-- The table after a call; `none` when the call dereferences NULL. -/
def fdStep (s : FdTable) : FdOp → Option FdTable
  | .setNewFdHandle hdl fdFlags rlimitNofile callocOk mallocOk =>
    some (setNewFdHandle hdl fdFlags rlimitNofile callocOk mallocOk s).1
  | .setNewFdHandleByFd fd hdl fdFlags rlimitNofile callocOk mallocOk =>
    some (setNewFdHandleByFd fd hdl fdFlags rlimitNofile callocOk mallocOk s).1
  | .setNewFdHandleAboveFd fd hdl fdFlags rlimitNofile callocOk mallocOk =>
    some (setNewFdHandleAboveFd fd hdl fdFlags rlimitNofile callocOk mallocOk s).1
  | .detachFdHandle fd => some { s with handleMap := (detachFdHandle fd s.handleMap).1 }
  | .closeHandleRange first last cloexec => some (closeHandleRange first last cloexec s)
  | .closeCloexecHandles => some (closeCloexecHandles s)
  | .dupHandleMap allocated mallocOk =>
    (dupHandleMap s.handleMap allocated mallocOk s.refCount).map fun
      | (.ok newMap, refCount) => ⟨newMap, refCount⟩
      | (.error _, refCount) => ⟨s.handleMap, refCount⟩

/-- The references a call hands out of the table: the one `detach_fd_handle`
returns to its caller, and those the old map keeps after `dup_handle_map`. -/
def handedOut (s : FdTable) : FdOp → RefCounts
  | .detachFdHandle fd =>
    match (detachFdHandle fd s.handleMap).2 with
    | some hdl => getHandle (fun _ => 0) hdl
    | none => fun _ => 0
  | .dupHandleMap allocated mallocOk =>
    match dupHandleMap s.handleMap allocated mallocOk s.refCount with
    | some (.ok _, _) => s.handleMap.references
    | _ => fun _ => 0
  | _ => fun _ => 0

/-- Every allocation of `dup_handle_map`'s copy loop succeeds. -/
def FdOp.CopiesAll : FdOp → Prop
  | .dupHandleMap _ mallocOk => ∀ i, mallocOk i = true
  | _ => True

/-- The tables a thread reaches from `get_new_handle_map` with the calls that
`allowed` admits, and the references handed out on the way. -/
inductive FdRun (allowed : FdTable → FdOp → Prop) (refCount₀ : RefCounts) :
    FdTable → RefCounts → Prop where
  | init {size : Nat} {handleMap : LibosHandleMap} : size < 2 ^ 32 →
      getNewHandleMap size true = some handleMap →
      FdRun allowed refCount₀ ⟨handleMap, refCount₀⟩ (fun _ => 0)
  | step {s s' : FdTable} {held : RefCounts} (op : FdOp) : FdRun allowed refCount₀ s held →
      allowed s op → fdStep s op = some s' →
      FdRun allowed refCount₀ s' (fun hdl => held hdl + handedOut s op hdl)

/-- Each `ref_count` is its count at the start plus one for each reference the
map holds and for each one handed out. -/
def FdTable.Counts (refCount₀ held : RefCounts) (s : FdTable) : Prop :=
  ∀ hdl, s.refCount hdl = refCount₀ hdl + s.handleMap.references hdl + held hdl

attribute [grind] fdStep handedOut

variable {s s' : FdTable} {refCount₀ held : RefCounts}

theorem FdTable.Counts.covered (counts : s.Counts refCount₀ held) : s.Covered := by
  intro hdl
  have := counts hdl
  omega

theorem FdTable.Counts.of_accounted (counts : s.Counts refCount₀ held)
    (accounted : s.Accounted s') : s'.Counts refCount₀ held := by
  intro hdl
  have := counts hdl
  have := accounted hdl
  omega

/-! ## One call -/

section Step

variable {fd hdl fdFlags rlimitNofile : Nat} {findFree callocOk mallocOk : Bool}

/-- `__set_new_fd_handle` keeps the map well formed, and each count moves as
the map's references do, whether it gives a descriptor or fails. -/
theorem setNewFdHandle'_accounted (wf : s.handleMap.WellFormed) :
    (setNewFdHandle' fd hdl fdFlags findFree rlimitNofile callocOk mallocOk s).1.handleMap.WellFormed ∧
      s.Accounted (setNewFdHandle' fd hdl fdFlags findFree rlimitNofile callocOk mallocOk s).1 := by
  cases h : setNewFdHandle' fd hdl fdFlags findFree rlimitNofile callocOk mallocOk s with
  | mk s' result =>
    dsimp only
    cases result with
    | ok fd' =>
      obtain ⟨wf', -, -, -, -, -, -, references, refCount⟩ := setNewFdHandle'_ok wf h
      refine ⟨wf', fun held => ?_⟩
      rw [references, refCount, getHandle_apply]
      omega
    | error err =>
      obtain ⟨wf', -, -, references, refCount, -⟩ := setNewFdHandle'_error wf h
      refine ⟨wf', fun held => ?_⟩
      rw [references, refCount]

/-- A loop of `close_handle_range` or `close_cloexec_handles` whose body keeps
the map well formed and moves counts as references keeps both. -/
theorem walkFds_accounted {last : Nat} {body : Nat → FdTable → FdTable}
    (turn : ∀ i (t : FdTable), t.handleMap.WellFormed → t.Covered → t.handleMap.Allocated i →
      (body i t).handleMap.WellFormed ∧ (body i t).Covered ∧ t.Accounted (body i t))
    (i : Nat) (wf : s.handleMap.WellFormed) (covered : s.Covered) :
    (walkFds last body i s).handleMap.WellFormed ∧ (walkFds last body i s).Covered ∧
      s.Accounted (walkFds last body i s) := by
  apply walkFds_preserves (fun t => t.handleMap.WellFormed ∧ t.Covered ∧ s.Accounted t) _ i s
    ⟨wf, covered, .refl s⟩
  rintro j t ⟨wfT, coveredT, accounted⟩ inUse
  obtain ⟨wf', covered', accounted'⟩ := turn j t wfT coveredT inUse
  exact ⟨wf', covered', accounted.trans accounted'⟩

theorem closeFd_accounted (i : Nat) (t : FdTable) (wf : t.handleMap.WellFormed)
    (covered : t.Covered) :
    (closeFd i t).handleMap.WellFormed ∧ (closeFd i t).Covered ∧ t.Accounted (closeFd i t) := by
  obtain ⟨wf', covered', accounted, -, -⟩ := closeFd_spec wf covered i
  exact ⟨wf', covered', accounted⟩

theorem setCloexec_accounted (i : Nat) (t : FdTable) (wf : t.handleMap.WellFormed)
    (covered : t.Covered) :
    (setCloexec i t).handleMap.WellFormed ∧ (setCloexec i t).Covered ∧
      t.Accounted (setCloexec i t) := by
  obtain ⟨wf', refCount, references, -, -⟩ := setCloexec_spec wf i
  refine ⟨wf', fun hdl => ?_, fun hdl => ?_⟩
  · rw [refCount, references]
    exact covered hdl
  · rw [refCount, references]

theorem closeHandleRange_accounted (first last : Nat) (cloexec : Bool)
    (wf : s.handleMap.WellFormed) (covered : s.Covered) :
    (closeHandleRange first last cloexec s).handleMap.WellFormed ∧
      (closeHandleRange first last cloexec s).Covered ∧
      s.Accounted (closeHandleRange first last cloexec s) := by
  unfold closeHandleRange
  cases cloexec
  · exact walkFds_accounted (fun i t wf covered _ => closeFd_accounted i t wf covered) first wf
      covered
  · exact walkFds_accounted (fun i t wf covered _ => setCloexec_accounted i t wf covered) first wf
      covered

theorem closeCloexecHandles_accounted (wf : s.handleMap.WellFormed) (covered : s.Covered) :
    (closeCloexecHandles s).handleMap.WellFormed ∧ (closeCloexecHandles s).Covered ∧
      s.Accounted (closeCloexecHandles s) := by
  apply walkFds_accounted _ 0 wf covered
  intro i t wfT coveredT _
  -- the body closes `i` only when its entry has `FD_CLOEXEC`
  split
  · exact closeFd_accounted i t wfT coveredT
  · exact ⟨wfT, coveredT, .refl t⟩

/-- Detaching hands the slot's reference to the caller. -/
theorem detachFdHandle_counts (wf : s.handleMap.WellFormed) (counts : s.Counts refCount₀ held)
    (fd : Nat) :
    (detachFdHandle fd s.handleMap).1.WellFormed ∧
      FdTable.Counts refCount₀ (fun hdl => held hdl + handedOut s (.detachFdHandle fd) hdl)
        { s with handleMap := (detachFdHandle fd s.handleMap).1 } := by
  rw [detachFdHandle_eq wf]
  refine ⟨detachFdHandle'_wellFormed wf fd, fun hdl => ?_⟩
  have dropped := references_detachFdHandle' wf fd hdl
  have := counts hdl
  show s.refCount hdl = refCount₀ hdl + (detachFdHandle' fd s.handleMap).1.references hdl +
    (held hdl + handedOut s (.detachFdHandle fd) hdl)
  simp only [handedOut, detachFdHandle_eq wf]
  cases handed : (detachFdHandle' fd s.handleMap).2 with
  | some released =>
    rw [handed] at dropped
    simp only [Option.some.injEq, getHandle_apply] at dropped ⊢
    split_ifs at * <;> omega
  | none =>
    rw [handed] at dropped
    simp only [reduceCtorEq, if_false, Nat.add_zero] at dropped
    dsimp only
    omega

/-- A successful copy gives the thread a well formed map that holds what the
old one holds, and the old map keeps its references: each count gains them. -/
theorem dupHandleMap_counts (wf : s.handleMap.WellFormed) (counts : s.Counts refCount₀ held)
    {allocated : Bool} {mallocOk : Nat → Bool} (copies : ∀ i, mallocOk i = true)
    (h : fdStep s (.dupHandleMap allocated mallocOk) = some s') :
    s'.handleMap.WellFormed ∧
      s'.Counts refCount₀ (fun hdl => held hdl + handedOut s (.dupHandleMap allocated mallocOk) hdl) := by
  simp only [fdStep, handedOut] at h ⊢
  cases duplicated : dupHandleMap s.handleMap allocated mallocOk s.refCount with
  | none => simp [duplicated] at h
  | some result =>
    obtain ⟨outcome, refCount'⟩ := result
    simp only [duplicated, Option.map_some, Option.some.injEq] at h
    cases outcome with
    | ok newMap =>
      subst h
      obtain ⟨newWf, -, -, -, references, added⟩ := dupHandleMap_ok wf duplicated
      refine ⟨newWf, fun hdl => ?_⟩
      show refCount' hdl = refCount₀ hdl + newMap.references hdl + (held hdl + s.handleMap.references hdl)
      have := counts hdl
      rw [added hdl, references]
      omega
    | error err =>
      subst h
      -- only `get_new_handle_map` can fail when every copy is allocated
      have fresh : allocated = false := by
        cases allocated
        · rfl
        · simp only [dupHandleMap, getNewHandleMap, if_true] at duplicated
          split_ifs at duplicated
          · cases duplicated
          · obtain ⟨i, -, failed⟩ := dupEntries_error _ _ _ _ duplicated
            simp [copies i] at failed
      subst fresh
      simp only [dupHandleMap, getNewHandleMap, Bool.false_eq_true, if_false,
        Option.some.injEq, Prod.mk.injEq] at duplicated
      obtain ⟨-, rfl⟩ := duplicated
      exact ⟨wf, fun hdl => by simpa using counts hdl⟩

end Step

/-! ## Runs -/

section Run

variable {allowed : FdTable → FdOp → Prop}

theorem closeFd_wellFormed (i : Nat) (t : FdTable) (wf : t.handleMap.WellFormed) :
    (closeFd i t).handleMap.WellFormed := by
  rw [closeFd_handleMap]
  exact detachFdHandle'_wellFormed wf i

/-- Every call keeps the map well formed, whatever its allocations do. -/
theorem fdStep_wellFormed (wf : s.handleMap.WellFormed) {op : FdOp} (h : fdStep s op = some s') :
    s'.handleMap.WellFormed := by
  cases op with
  | setNewFdHandle hdl fdFlags rlimitNofile callocOk mallocOk =>
    cases h
    exact (setNewFdHandle'_accounted wf).1
  | setNewFdHandleByFd fd hdl fdFlags rlimitNofile callocOk mallocOk =>
    cases h
    exact (setNewFdHandle'_accounted wf).1
  | setNewFdHandleAboveFd fd hdl fdFlags rlimitNofile callocOk mallocOk =>
    cases h
    exact (setNewFdHandle'_accounted wf).1
  | detachFdHandle fd =>
    cases h
    show (detachFdHandle fd s.handleMap).1.WellFormed
    rw [detachFdHandle_eq wf]
    exact detachFdHandle'_wellFormed wf fd
  | closeHandleRange first last cloexec =>
    cases h
    apply walkFds_preserves (fun t => t.handleMap.WellFormed) _ first s wf
    intro i t wfT _
    cases cloexec
    · exact closeFd_wellFormed i t wfT
    · exact (setCloexec_spec wfT i).1
  | closeCloexecHandles =>
    cases h
    apply walkFds_preserves (fun t => t.handleMap.WellFormed) _ 0 s wf
    intro i t wfT _
    split
    · exact closeFd_wellFormed i t wfT
    · exact wfT
  | dupHandleMap allocated mallocOk =>
    simp only [fdStep] at h
    cases duplicated : dupHandleMap s.handleMap allocated mallocOk s.refCount with
    | none => simp [duplicated] at h
    | some result =>
      obtain ⟨outcome, refCount'⟩ := result
      simp only [duplicated, Option.map_some, Option.some.injEq] at h
      cases outcome with
      | ok newMap =>
        subst h
        exact (dupHandleMap_ok wf duplicated).1
      | error err =>
        subst h
        exact wf

/-- Every call whose copies succeed keeps each count at its start plus the
references held and handed out. -/
theorem fdStep_counts (wf : s.handleMap.WellFormed) (counts : s.Counts refCount₀ held)
    {op : FdOp} (copies : op.CopiesAll) (h : fdStep s op = some s') :
    s'.Counts refCount₀ (fun hdl => held hdl + handedOut s op hdl) := by
  cases op with
  | setNewFdHandle hdl fdFlags rlimitNofile callocOk mallocOk =>
    cases h
    exact counts.of_accounted (setNewFdHandle'_accounted wf).2
  | setNewFdHandleByFd fd hdl fdFlags rlimitNofile callocOk mallocOk =>
    cases h
    exact counts.of_accounted (setNewFdHandle'_accounted wf).2
  | setNewFdHandleAboveFd fd hdl fdFlags rlimitNofile callocOk mallocOk =>
    cases h
    exact counts.of_accounted (setNewFdHandle'_accounted wf).2
  | detachFdHandle fd =>
    cases h
    exact (detachFdHandle_counts wf counts fd).2
  | closeHandleRange first last cloexec =>
    cases h
    exact counts.of_accounted (closeHandleRange_accounted first last cloexec wf counts.covered).2.2
  | closeCloexecHandles =>
    cases h
    exact counts.of_accounted (closeCloexecHandles_accounted wf counts.covered).2.2
  | dupHandleMap allocated mallocOk =>
    exact (dupHandleMap_counts wf counts copies h).2

/-- The map `get_new_handle_map` gives is well formed and holds no reference. -/
theorem getNewHandleMap_wellFormed {size : Nat} {handleMap : LibosHandleMap} (fits : size < 2 ^ 32)
    (h : getNewHandleMap size true = some handleMap) :
    handleMap.WellFormed ∧ handleMap.references = fun _ => 0 := by
  simp only [getNewHandleMap, if_true, Option.some.injEq] at h
  subst h
  have free : ∀ fd, ¬ LibosHandleMap.Allocated ⟨size, FD_NULL, List.replicate size none⟩ fd := by
    intro fd inUse
    simp [Allocated, slot_replicate_none, handleAllocated] at inUse
  refine ⟨⟨by simp, show size ≤ FD_NULL by unfold FD_NULL; omega, fun fd fdHandle found => ?_, fun set => absurd rfl set,
    fun fd inUse => absurd inUse (free fd)⟩, references_replicate_none _ _ _⟩
  simp [slot_replicate_none] at found

/-- Along every run the map is well formed. -/
theorem FdRun.wellFormed (run : FdRun allowed refCount₀ s held) : s.handleMap.WellFormed := by
  induction run with
  | init fits fresh => exact (getNewHandleMap_wellFormed fits fresh).1
  | step op run admitted stepped ih => exact fdStep_wellFormed ih stepped

end Run

/-! ## The table along a run -/

section Reachable

variable {allowed : FdTable → FdOp → Prop}

/-- Along every run `fd_top` is the largest descriptor in use, and `FD_NULL`
exactly when none is; every entry in use sits below `fd_size` at its own
`vfd`. -/
theorem fdRun_fdTop_largest (run : FdRun allowed refCount₀ s held) :
    (s.handleMap.fdTop = FD_NULL ↔ ∀ fd, ¬ s.handleMap.Allocated fd) ∧
      (s.handleMap.fdTop ≠ FD_NULL → s.handleMap.Allocated s.handleMap.fdTop) ∧
      (∀ fd, s.handleMap.Allocated fd → fd ≤ s.handleMap.fdTop) ∧
      ∀ fd fdHandle, s.handleMap.slot fd = some fdHandle → fdHandle.vfd ≠ FD_NULL →
        fd < s.handleMap.fdSize ∧ fdHandle.vfd = fd := by
  have wf := run.wellFormed
  refine ⟨⟨fun none fd inUse => (wf.belowTop fd inUse).1 none, fun free => ?_⟩, wf.topAllocated,
    fun fd inUse => (wf.belowTop fd inUse).2, fun fd fdHandle found set => ?_⟩
  · -- a set `fd_top` is itself in use
    by_contra set
    exact free _ (wf.topAllocated set)
  · exact ⟨wf.lt_fdSize (allocated_iff.mpr ⟨fdHandle, found, set⟩),
      (wf.entry fd fdHandle found set).1⟩

theorem fdRun_fdTop_largest_after_open :
    ∃ s held, FdRun (fun _ _ => True) (fun _ => 0) s held ∧ s.handleMap.fdTop = 0 ∧
      ((s.handleMap.fdTop = FD_NULL ↔ ∀ fd, ¬ s.handleMap.Allocated fd) ∧
        (s.handleMap.fdTop ≠ FD_NULL → s.handleMap.Allocated s.handleMap.fdTop) ∧
        (∀ fd, s.handleMap.Allocated fd → fd ≤ s.handleMap.fdTop) ∧
        ∀ fd fdHandle, s.handleMap.slot fd = some fdHandle → fdHandle.vfd ≠ FD_NULL →
          fd < s.handleMap.fdSize ∧ fdHandle.vfd = fd) := by
  have run : FdRun (fun _ _ => True) (fun _ => 0) _ _ :=
    (FdRun.init (by decide : 32 < 2 ^ 32) rfl).step (.setNewFdHandle 7 0 1024 true true) trivial rfl
  exact ⟨_, _, run, by decide, fdRun_fdTop_largest run⟩

/-- `chosen` is the lowest descriptor from `fd` on that is not in use. -/
def LibosHandleMap.LowestFreeFrom (handleMap : LibosHandleMap) (fd chosen : Nat) : Prop :=
  fd ≤ chosen ∧ ¬ handleMap.Allocated chosen ∧ ∀ k, fd ≤ k → k < chosen → handleMap.Allocated k

/-- What `__set_new_fd_handle` does once it has picked the free descriptor
`chosen`: at or above `RLIMIT_NOFILE` it fails with `-EMFILE` and changes
nothing; below, it gives `chosen` the handle and changes no other slot, or
fails on an allocation and changes no slot. -/
def SetsChosen (s s' : FdTable) (result : Except Int Nat) (chosen hdl fdFlags rlimitNofile : Nat) :
    Prop :=
  (rlimitNofile ≤ chosen → result = .error (-EMFILE) ∧ s' = s) ∧
    (chosen < rlimitNofile →
      (result = .ok chosen ∧ s'.handleMap.slot chosen = some ⟨chosen, fdFlags, some hdl⟩ ∧
        ∀ k, k ≠ chosen → s'.handleMap.slot k = s.handleMap.slot k) ∨
      ((result = .error (-ENFILE) ∨ result = .error (-ENOMEM)) ∧
        ∀ k, s'.handleMap.slot k = s.handleMap.slot k))

section Chosen

variable {fd hdl fdFlags rlimitNofile : Nat} {findFree callocOk mallocOk : Bool}

theorem setNewFdHandle'_setsChosen (wf : s.handleMap.WellFormed) {chosen : Nat}
    (picked : chooseFd fd findFree s.handleMap = .ok chosen) :
    SetsChosen s (setNewFdHandle' fd hdl fdFlags findFree rlimitNofile callocOk mallocOk s).1
      (setNewFdHandle' fd hdl fdFlags findFree rlimitNofile callocOk mallocOk s).2
      chosen hdl fdFlags rlimitNofile := by
  constructor
  · intro limit
    rw [setNewFdHandle'_of_limit picked limit]
    exact ⟨rfl, rfl⟩
  · intro below
    cases h : setNewFdHandle' fd hdl fdFlags findFree rlimitNofile callocOk mallocOk s with
    | mk s' result =>
      dsimp only
      cases result with
      | ok fd' =>
        obtain ⟨picked', -, -⟩ := setNewFdHandle'_eq_ok h
        rw [picked, Except.ok.injEq] at picked'
        subst picked'
        obtain ⟨-, -, -, -, -, given, others, -⟩ := setNewFdHandle'_ok wf h
        exact .inl ⟨rfl, given, others⟩
      | error err =>
        obtain ⟨-, slots, -, -, -, cause⟩ := setNewFdHandle'_error wf h
        refine .inr ⟨?_, slots⟩
        rcases cause with ⟨-, byFd, inUse⟩ | ⟨chosen', picked', ⟨limit, -⟩ | ⟨-, failed⟩⟩
        · -- `-EBADF` is only for a descriptor in use, which `chooseFd` did not pick
          obtain ⟨free, -, same⟩ := chooseFd_ok wf picked
          exact absurd (same byFd ▸ inUse) free
        · rw [picked, Except.ok.injEq] at picked'
          omega
        · rcases failed with rfl | rfl
          · exact .inl rfl
          · exact .inr rfl

end Chosen

/-- Along every run, `set_new_fd_handle_above_fd` picks the lowest descriptor
from `fd` on that is not in use; it fails with `-EMFILE` when that one is not
below `RLIMIT_NOFILE`, and changes no other slot. -/
theorem setNewFdHandleAboveFd_lowest_free (run : FdRun allowed refCount₀ s held)
    (fd hdl fdFlags rlimitNofile : Nat) (callocOk mallocOk : Bool) :
    ∃ chosen, s.handleMap.LowestFreeFrom fd chosen ∧
      SetsChosen s (setNewFdHandleAboveFd fd hdl fdFlags rlimitNofile callocOk mallocOk s).1
        (setNewFdHandleAboveFd fd hdl fdFlags rlimitNofile callocOk mallocOk s).2
        chosen hdl fdFlags rlimitNofile := by
  have wf := run.wellFormed
  cases picked : chooseFd fd true s.handleMap with
  | error err => exact absurd (chooseFd_error picked).2.1 Bool.noConfusion
  | ok chosen =>
    obtain ⟨free, first, -⟩ := chooseFd_ok wf picked
    obtain ⟨above, skipped⟩ := first rfl
    exact ⟨chosen, ⟨above, free, skipped⟩, setNewFdHandle'_setsChosen wf picked⟩

/-- Along every run, `set_new_fd_handle_by_fd` refuses a descriptor in use with
`-EBADF` and changes nothing; a free one it gives as `SetsChosen` says. -/
theorem setNewFdHandleByFd_spec (run : FdRun allowed refCount₀ s held)
    (fd hdl fdFlags rlimitNofile : Nat) (callocOk mallocOk : Bool) :
    (s.handleMap.Allocated fd →
      setNewFdHandleByFd fd hdl fdFlags rlimitNofile callocOk mallocOk s = (s, .error (-EBADF))) ∧
      (¬ s.handleMap.Allocated fd →
        SetsChosen s (setNewFdHandleByFd fd hdl fdFlags rlimitNofile callocOk mallocOk s).1
          (setNewFdHandleByFd fd hdl fdFlags rlimitNofile callocOk mallocOk s).2
          fd hdl fdFlags rlimitNofile) := by
  have wf := run.wellFormed
  have picked := chooseFd_byFd wf fd
  constructor
  · intro inUse
    rw [if_pos inUse] at picked
    exact setNewFdHandle'_of_chooseFd_error picked
  · intro free
    rw [if_neg free] at picked
    exact setNewFdHandle'_setsChosen wf picked

theorem setNewFdHandleAboveFd_lowest_free_after_open :
    ∃ s held, FdRun (fun _ _ => True) (fun _ => 0) s held ∧
      ∃ chosen, s.handleMap.LowestFreeFrom 0 chosen ∧
        SetsChosen s (setNewFdHandleAboveFd 0 8 0 1024 true true s).1
          (setNewFdHandleAboveFd 0 8 0 1024 true true s).2 chosen 8 0 1024 := by
  have run : FdRun (fun _ _ => True) (fun _ => 0) _ _ :=
    (FdRun.init (by decide : 32 < 2 ^ 32) rfl).step (.setNewFdHandle 7 0 1024 true true) trivial rfl
  exact ⟨_, _, run, setNewFdHandleAboveFd_lowest_free run 0 8 0 1024 true true⟩

theorem setNewFdHandleByFd_spec_after_open :
    ∃ s held, FdRun (fun _ _ => True) (fun _ => 0) s held ∧ s.handleMap.Allocated 0 ∧
      ((s.handleMap.Allocated 0 →
        setNewFdHandleByFd 0 8 0 1024 true true s = (s, .error (-EBADF))) ∧
        (¬ s.handleMap.Allocated 0 →
          SetsChosen s (setNewFdHandleByFd 0 8 0 1024 true true s).1
            (setNewFdHandleByFd 0 8 0 1024 true true s).2 0 8 0 1024)) := by
  have run : FdRun (fun _ _ => True) (fun _ => 0) _ _ :=
    (FdRun.init (by decide : 32 < 2 ^ 32) rfl).step (.setNewFdHandle 7 0 1024 true true) trivial rfl
  exact ⟨_, _, run, by decide, setNewFdHandleByFd_spec run 0 8 0 1024 true true⟩

/-- Along every run whose copies succeed, each handle's `ref_count` is its
count at the start plus one for each entry that holds it and for each
reference handed out: `set_new_fd_handle` adds one with the entry, closing
drops one with it, and `detach_fd_handle` moves the entry's to its caller. -/
theorem fdRun_refCount_eq (run : FdRun (fun _ op => op.CopiesAll) refCount₀ s held) (hdl : Nat) :
    s.refCount hdl = refCount₀ hdl + s.handleMap.references hdl + held hdl := by
  induction run generalizing hdl with
  | init fits fresh => simp [(getNewHandleMap_wellFormed fits fresh).2]
  | step op run copies stepped ih => exact fdStep_counts run.wellFormed ih copies stepped hdl

theorem fdRun_refCount_eq_after_detach :
    ∃ s held, FdRun (fun _ op => op.CopiesAll) (fun _ => 0) s held ∧
      s.refCount 7 = 1 ∧ s.handleMap.references 7 = 0 ∧ held 7 = 1 ∧
      s.refCount 7 = 0 + s.handleMap.references 7 + held 7 := by
  have run : FdRun (fun _ op => op.CopiesAll) (fun _ => 0) _ _ :=
    ((FdRun.init (by decide : 32 < 2 ^ 32) rfl).step (.setNewFdHandle 7 0 1024 true true) trivial
      rfl).step (.detachFdHandle 0) trivial rfl
  exact ⟨_, _, run, by decide, by decide, by decide, fdRun_refCount_eq run 7⟩

end Reachable

/-! ## A failed copy -/

/-- `dup_handle_map` whose allocation for descriptor 1 fails, after
descriptors 0 and 1 were given handle 7: it returns `-ENOMEM` with the map
unchanged, and handle 7's count is one above what the map holds and has handed
out. With descriptor 0 never used and 1 and 2 given handle 7, a copy whose
allocation for 2 fails reads the NULL slot 0 in its clean-up. -/
theorem dupHandleMap_failure_breaks_counts :
    (∃ s held s', FdRun (fun _ _ => True) (fun _ => 0) s held ∧
      fdStep s (.dupHandleMap true fun i => i != 1) = some s' ∧ s'.handleMap = s.handleMap ∧
      s'.refCount 7 = s'.handleMap.references 7 +
        (held 7 + handedOut s (.dupHandleMap true fun i => i != 1) 7) + 1) ∧
      ∃ s held, FdRun (fun _ _ => True) (fun _ => 0) s held ∧
        fdStep s (.dupHandleMap true fun i => i != 2) = none := by
  constructor
  · have run : FdRun (fun _ _ => True) (fun _ => 0) _ _ :=
      ((FdRun.init (by decide : 32 < 2 ^ 32) rfl).step (.setNewFdHandleByFd 0 7 0 1024 true true)
        trivial rfl).step (.setNewFdHandleByFd 1 7 0 1024 true true) trivial rfl
    exact ⟨_, _, _, run, rfl, rfl, by decide⟩
  · have run : FdRun (fun _ _ => True) (fun _ => 0) _ _ :=
      ((FdRun.init (by decide : 32 < 2 ^ 32) rfl).step (.setNewFdHandleByFd 1 7 0 1024 true true)
        trivial rfl).step (.setNewFdHandleByFd 2 7 0 1024 true true) trivial rfl
    exact ⟨_, _, run, rfl⟩

end Gramine.LibOS.Bookkeep
