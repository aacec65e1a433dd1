import Gramine.LibOS.Bookkeep.VmaCalls

/-!
# The invariant over every run of the bookkeeping

The states the VMA bookkeeping reaches are those `init_vma` builds and those a
call leaves in a state it reaches. A call that fails leaves the state as it
was (`afterCall`), so error paths need no argument of their own. The one
condition on the calls is what the callers of `bkeep_vma_update_valid_length`
make sure of: they make an anonymous VMA valid to its end, if they update it
at all. Without that condition the invariant fails: a later split copies the
short `valid_end` of an anonymous VMA into a VMA that starts above it.
-/

namespace Gramine.LibOS.Bookkeep

open IntervalList

/-- What the callers of a call make sure of. Those of
`bkeep_vma_update_valid_length` update the VMA of a file mapping, or restore
the length a checkpoint recorded, which is the whole VMA for an anonymous one;
the other calls check their arguments themselves. -/
def VmaOp.ByCaller (s : VmaState) : VmaOp → Prop
  | .updateValidLength beginAddr validLength =>
    ∀ vma ∈ s.vmaTree, vma.begin = beginAddr → vma.file = none →
      validLength = vma.end' - vma.begin
  | _ => True

/-- The states the bookkeeping reaches from the tree `init_vma` builds, by
calls made as their callers make them. -/
inductive VmaReachable (allocAlignment : Nat) (layout : PalMemoryLayout)
    (ranges : List PalInitialMemRange) : VmaState → Prop
  | init {s : VmaState} : initVma allocAlignment ranges = .ok s → VmaReachable allocAlignment layout ranges s
  | step {s t : VmaState} (op : VmaOp) : VmaReachable allocAlignment layout ranges s →
      op.ByCaller s → vmaStep allocAlignment layout op s = some t →
      VmaReachable allocAlignment layout ranges t

variable {allocAlignment : Nat} {layout : PalMemoryLayout} {s t : VmaState}

/-! ## One call -/

/-- A call that fails leaves the state as it was. -/
theorem afterCall_wellFormed (wf : s.WellFormed allocAlignment) {result : Except Int VmaState}
    (ok : ∀ s', result = .ok s' → s'.WellFormed allocAlignment) :
    (afterCall s result).WellFormed allocAlignment := by
  cases result with
  | error err => exact wf
  | ok s' => exact ok s' rfl

theorem fst_map_eq_ok {α : Type} {result : Except Int (VmaState × α)} {s' : VmaState}
    (h : Prod.fst <$> result = .ok s') : ∃ x, result = .ok (s', x) := by
  cases result with
  | error err => cases h
  | ok pair =>
    injection h with same
    exact ⟨pair.2, by rw [← same]⟩

section Step

variable (earlyAligned : IsAllocAligned allocAlignment layout.earlyLibosMemRangeEnd)
  (lowAligned : IsAllocAligned allocAlignment (2 ^ 31))
include earlyAligned lowAligned

/-- Every call its callers may make keeps the tree well formed. -/
theorem vmaStep_wellFormed (wf : s.WellFormed allocAlignment) {op : VmaOp}
    (byCaller : op.ByCaller s) (h : vmaStep allocAlignment layout op s = some t) :
    t.WellFormed allocAlignment := by
  cases op with
  | mmapFixed addr length prot flags file offset newVmaAllocated vma1Allocated =>
    simp only [vmaStep, Option.some.injEq] at h
    subst h
    exact afterCall_wellFormed wf fun s' ok => bkeepMmapFixed_wellFormed wf ok
  | mmapAnyInRange receivedUserMemory bottomAddr topAddr length prot flags file offset
      newVmaAllocated =>
    simp only [vmaStep, Option.some.injEq] at h
    subst h
    refine afterCall_wellFormed wf fun s' ok => ?_
    obtain ⟨addr, ok⟩ := fst_map_eq_ok ok
    exact bkeepMmapAnyInRange_wellFormed wf earlyAligned lowAligned ok
  | munmap addr length isInternal vma1Allocated vma2Allocated =>
    simp only [vmaStep, Option.some.injEq] at h
    subst h
    refine afterCall_wellFormed wf fun s' ok => ?_
    obtain ⟨tmp, ok⟩ := fst_map_eq_ok ok
    exact bkeepMunmap_wellFormed wf ok
  | removeTmpVma node => exact bkeepRemoveTmpVma_wellFormed wf h
  | convertTmpVmaToUser node => exact bkeepConvertTmpVmaToUser_wellFormed wf h
  | mprotect addr length prot isInternal vma1Allocated vma2Allocated =>
    -- `none` is a crash, which reaches no state
    obtain ⟨result, called, rfl⟩ : ∃ result, bkeepMprotect allocAlignment addr length prot
        isInternal vma1Allocated vma2Allocated s = some result ∧ afterCall s result = t := by
      simpa [vmaStep] using h
    exact afterCall_wellFormed wf fun s' ok => bkeepMprotect_wellFormed wf (ok ▸ called)
  | updateValidLength beginAddr validLength =>
    simp only [vmaStep, Option.some.injEq] at h
    subst h
    exact afterCall_wellFormed wf fun s' ok => bkeepVmaUpdateValidLength_wellFormed wf byCaller ok

/-! ## Every run -/

/-- Every state the bookkeeping reaches is well formed. -/
theorem VmaReachable.wellFormed {ranges : List PalInitialMemRange}
    (ordered : ∀ range ∈ ranges, range.start ≤ range.end')
    (reach : VmaReachable allocAlignment layout ranges s) : s.WellFormed allocAlignment := by
  induction reach with
  | init built => exact initVma_wellFormed ordered built
  | step op _ byCaller stepped wf =>
    exact vmaStep_wellFormed earlyAligned lowAligned wf byCaller stepped

end Step

/-- In every state the bookkeeping reaches, the VMAs are non-empty, aligned,
disjoint and in address order, `valid_end` lies in each, and
`g_total_memory_size` is the sum of their lengths. -/
theorem vmaReachable_sane {ranges : List PalInitialMemRange}
    (ordered : ∀ range ∈ ranges, range.start ≤ range.end')
    (earlyAligned : IsAllocAligned allocAlignment layout.earlyLibosMemRangeEnd)
    (lowAligned : IsAllocAligned allocAlignment (2 ^ 31))
    (reach : VmaReachable allocAlignment layout ranges s) : s.Sane allocAlignment :=
  (reach.wellFormed earlyAligned lowAligned ordered).sane

/-- A page of an anonymous mapping unmapped from its middle, in pages of 4 KiB. -/
theorem vmaReachable_sane_after_munmap :
    (∀ range ∈ ([] : List PalInitialMemRange), range.start ≤ range.end') ∧
    IsAllocAligned 4096 (⟨0, 0⟩ : PalMemoryLayout).earlyLibosMemRangeEnd ∧
    IsAllocAligned 4096 (2 ^ 31) ∧
    VmaReachable 4096 ⟨0, 0⟩ []
      { vmaTree := [
          { node := 1, begin := 0x10000, end' := 0x11000, validEnd := 0x11000, prot := PROT_READ,
            flags := MAP_PRIVATE ||| MAP_ANONYMOUS, file := none, offset := 0 },
          { node := 3, begin := 0x11000, end' := 0x12000, validEnd := 0x12000, prot := PROT_NONE,
            flags := VMA_INTERNAL ||| VMA_UNMAPPED, file := none, offset := 0 },
          { node := 4, begin := 0x12000, end' := 0x13000, validEnd := 0x13000, prot := PROT_READ,
            flags := MAP_PRIVATE ||| MAP_ANONYMOUS, file := none, offset := 0 }]
        totalMemorySize := 0x3000
        nextNode := 5 } ∧
    VmaState.Sane 4096
      { vmaTree := [
          { node := 1, begin := 0x10000, end' := 0x11000, validEnd := 0x11000, prot := PROT_READ,
            flags := MAP_PRIVATE ||| MAP_ANONYMOUS, file := none, offset := 0 },
          { node := 3, begin := 0x11000, end' := 0x12000, validEnd := 0x12000, prot := PROT_NONE,
            flags := VMA_INTERNAL ||| VMA_UNMAPPED, file := none, offset := 0 },
          { node := 4, begin := 0x12000, end' := 0x13000, validEnd := 0x13000, prot := PROT_READ,
            flags := MAP_PRIVATE ||| MAP_ANONYMOUS, file := none, offset := 0 }]
        totalMemorySize := 0x3000
        nextNode := 5 } := by
  have mapped : VmaReachable 4096 ⟨0, 0⟩ []
      { vmaTree := [
          { node := 1, begin := 0x10000, end' := 0x13000, validEnd := 0x13000, prot := PROT_READ,
            flags := MAP_PRIVATE ||| MAP_ANONYMOUS, file := none, offset := 0 }]
        totalMemorySize := 0x3000
        nextNode := 3 } :=
    .step (.mmapFixed 0x10000 0x3000 PROT_READ (MAP_PRIVATE ||| MAP_ANONYMOUS ||| MAP_FIXED) none 0
      true true) (.init rfl) trivial (by decide)
  have reach : VmaReachable 4096 ⟨0, 0⟩ []
      { vmaTree := [
          { node := 1, begin := 0x10000, end' := 0x11000, validEnd := 0x11000, prot := PROT_READ,
            flags := MAP_PRIVATE ||| MAP_ANONYMOUS, file := none, offset := 0 },
          { node := 3, begin := 0x11000, end' := 0x12000, validEnd := 0x12000, prot := PROT_NONE,
            flags := VMA_INTERNAL ||| VMA_UNMAPPED, file := none, offset := 0 },
          { node := 4, begin := 0x12000, end' := 0x13000, validEnd := 0x13000, prot := PROT_READ,
            flags := MAP_PRIVATE ||| MAP_ANONYMOUS, file := none, offset := 0 }]
        totalMemorySize := 0x3000
        nextNode := 5 } :=
    .step (.munmap 0x11000 0x1000 false true true) mapped trivial (by decide)
  exact ⟨by simp, by decide, by decide, reach,
    vmaReachable_sane (by simp) (by decide) (by decide) reach⟩

/-- Without the callers' condition on `bkeep_vma_update_valid_length`, the
invariant fails: an anonymous mapping of three pages made valid for its first
page only, then unmapped in its middle page, leaves a last page whose
`valid_end` lies below its start. -/
theorem updateValidLength_anonymous_split_below_begin :
    initVma 4096 [] = .ok ⟨[], 0, 1⟩ ∧
    vmaStep 4096 ⟨0, 0⟩ (.mmapFixed 0x10000 0x3000 PROT_READ
        (MAP_PRIVATE ||| MAP_ANONYMOUS ||| MAP_FIXED) none 0 true true) ⟨[], 0, 1⟩ =
      some
        { vmaTree := [
            { node := 1, begin := 0x10000, end' := 0x13000, validEnd := 0x13000,
              prot := PROT_READ, flags := MAP_PRIVATE ||| MAP_ANONYMOUS, file := none,
              offset := 0 }]
          totalMemorySize := 0x3000
          nextNode := 3 } ∧
    vmaStep 4096 ⟨0, 0⟩ (.updateValidLength 0x10000 0x1000)
        { vmaTree := [
            { node := 1, begin := 0x10000, end' := 0x13000, validEnd := 0x13000,
              prot := PROT_READ, flags := MAP_PRIVATE ||| MAP_ANONYMOUS, file := none,
              offset := 0 }]
          totalMemorySize := 0x3000
          nextNode := 3 } =
      some
        { vmaTree := [
            { node := 1, begin := 0x10000, end' := 0x13000, validEnd := 0x11000,
              prot := PROT_READ, flags := MAP_PRIVATE ||| MAP_ANONYMOUS, file := none,
              offset := 0 }]
          totalMemorySize := 0x3000
          nextNode := 3 } ∧
    vmaStep 4096 ⟨0, 0⟩ (.munmap 0x11000 0x1000 false true true)
        { vmaTree := [
            { node := 1, begin := 0x10000, end' := 0x13000, validEnd := 0x11000,
              prot := PROT_READ, flags := MAP_PRIVATE ||| MAP_ANONYMOUS, file := none,
              offset := 0 }]
          totalMemorySize := 0x3000
          nextNode := 3 } =
      some
        { vmaTree := [
            { node := 1, begin := 0x10000, end' := 0x11000, validEnd := 0x11000,
              prot := PROT_READ, flags := MAP_PRIVATE ||| MAP_ANONYMOUS, file := none,
              offset := 0 },
            { node := 3, begin := 0x11000, end' := 0x12000, validEnd := 0x12000,
              prot := PROT_NONE, flags := VMA_INTERNAL ||| VMA_UNMAPPED, file := none,
              offset := 0 },
            { node := 4, begin := 0x12000, end' := 0x13000, validEnd := 0x11000,
              prot := PROT_READ, flags := MAP_PRIVATE ||| MAP_ANONYMOUS, file := none,
              offset := 0 }]
          totalMemorySize := 0x3000
          nextNode := 5 } ∧
    ¬ VmaState.Sane 4096
        { vmaTree := [
            { node := 1, begin := 0x10000, end' := 0x11000, validEnd := 0x11000,
              prot := PROT_READ, flags := MAP_PRIVATE ||| MAP_ANONYMOUS, file := none,
              offset := 0 },
            { node := 3, begin := 0x11000, end' := 0x12000, validEnd := 0x12000,
              prot := PROT_NONE, flags := VMA_INTERNAL ||| VMA_UNMAPPED, file := none,
              offset := 0 },
            { node := 4, begin := 0x12000, end' := 0x13000, validEnd := 0x11000,
              prot := PROT_READ, flags := MAP_PRIVATE ||| MAP_ANONYMOUS, file := none,
              offset := 0 }]
          totalMemorySize := 0x3000
          nextNode := 5 } := by
  refine ⟨rfl, by decide, by decide, by decide, fun sane => ?_⟩
  -- the last VMA starts at `0x12000` and is valid up to `0x11000`
  have := (sane.validEnd _ (List.mem_cons_of_mem _ (List.mem_cons_of_mem _
    List.mem_cons_self))).1
  exact absurd this (by decide)

end Gramine.LibOS.Bookkeep
