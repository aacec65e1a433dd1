import Gramine.LibOS.Bookkeep.VmaRun

/-!
# Failed calls leave the bookkeeping as it was

`_vma_bkeep_remove` and `_vma_bkeep_change` check the whole range before they
touch the tree. The first refuses a range that meets a VMA of the other kind
(user or internal), and a range strictly inside one VMA when it was given no
spare VMA for the split. The second walks the VMAs from the one holding
`begin` until one reaches `end`; it refuses a VMA of the other kind, a VMA
without `MAP_GROWSDOWN` when `PROT_GROWSDOWN` is asked for, a shared file
mapping whose file was not opened for `prot`, and a range with a hole. The
model answers an error without a state, as the source returns before its first
store; this module says when each error comes, and that a call of
`bkeep_munmap`, `bkeep_mmap_fixed` or `bkeep_mprotect` that fails leaves the
state of the run as it was.

The walk of `_vma_bkeep_change` does not stop at the end of the range when it
meets a hole, so the VMA it refuses may lie past a hole above the range.
-/

namespace Gramine.LibOS.Bookkeep

open IntervalList

variable {allocAlignment : Nat} {s : VmaState}

/-- The VMAs a walk visits from `_lookup_vma(begin)` on while they start below
`end` are exactly those that meet `[begin, end)`. -/
theorem VmaState.WellFormed.mem_meeting (wf : s.WellFormed allocAlignment) {begin stop : Nat}
    {v : LibosVma} :
    v ∈ (lookupVma begin s.vmaTree).2.takeWhile (fun vma => decide (vma.begin < stop)) ↔
      v ∈ s.vmaTree ∧ begin < v.end' ∧ v.begin < stop := by
  rcases lookup : lookupVma begin s.vmaTree with ⟨before, found⟩
  obtain ⟨split, beforeEnd, head⟩ := lookupVma_eq lookup
  have ascending : Ascending LibosVma.begin LibosVma.end' found := by
    have := wf.ascending
    rw [split] at this
    exact (ascending_append.mp this).2.1
  have inTree : ∀ v ∈ found, v ∈ s.vmaTree := fun v member => by
    rw [split]
    exact List.mem_append_right before member
  constructor
  · intro member
    have inFound := (List.takeWhile_sublist _).subset member
    have starts : v.begin < stop := by simpa using List.mem_takeWhile_imp member
    refine ⟨inTree v inFound, ?_, starts⟩
    -- `v` is the VMA found, or comes after it
    cases found with
    | nil => simp at inFound
    | cons first rest =>
      have firstEnd : begin < first.end' := head first rfl
      rcases List.mem_cons.mp inFound with rfl | later
      · exact firstEnd
      · have firstBefore := (ascending_cons.mp ascending).1 v later
        have vNonempty := wf.nonempty v (inTree v inFound)
        omega
  · rintro ⟨member, ends, starts⟩
    rw [split] at member
    rcases List.mem_append.mp member with early | inFound
    · exact absurd (beforeEnd v early) (Nat.not_le.mpr ends)
    · refine ascending.mem_takeWhile (fun a aFound b _ ab passes => ?_) inFound (by simpa using starts)
      -- a VMA before one that starts below `end` starts below it too
      have aNonempty := wf.nonempty a (inTree a aFound)
      simp only [decide_eq_true_eq] at passes ⊢
      omega

/-! ## `_vma_bkeep_remove` -/

/-- `_vma_bkeep_remove` fails only with `-EACCES`, for a VMA of the other kind
meeting the range, or with `-ENOMEM`, for a range strictly inside one VMA when
it has no spare VMA. -/
theorem vmaBkeepRemove_eq_error (wf : s.WellFormed allocAlignment) {begin stop : Nat}
    {isInternal : Bool} {newVma : Option Nat} {err : Int}
    (h : vmaBkeepRemove begin stop isInternal newVma s = .error err) :
    (err = -EACCES ∧
        ∃ vma ∈ s.vmaTree, begin < vma.end' ∧ vma.begin < stop ∧ vma.isInternal ≠ isInternal) ∨
      (err = -ENOMEM ∧ newVma = none ∧
        ∃ vma ∈ s.vmaTree, vma.begin < begin ∧ stop < vma.end') := by
  have meeting : ∀ v, v ∈ (lookupVma begin s.vmaTree).2.takeWhile
      (fun vma => decide (vma.begin < stop)) ↔ v ∈ s.vmaTree ∧ begin < v.end' ∧ v.begin < stop :=
    fun v => wf.mem_meeting
  rcases lookup : lookupVma begin s.vmaTree with ⟨before, found⟩
  rw [lookup] at meeting
  simp only [vmaBkeepRemove, lookup] at h
  cases found with
  | nil => cases h
  | cons vma rest =>
    obtain ⟨split, -, -, -, -⟩ := wf.lookup lookup
    simp only at h
    split_ifs at h with denied below inside
    · -- a VMA of the other kind meets the range
      obtain ⟨v, member, other⟩ := List.any_eq_true.mp denied
      obtain ⟨inTree, ends, starts⟩ := (meeting v).mp member
      simp only [Except.error.injEq] at h
      exact .inl ⟨h.symm, v, inTree, ends, starts, by simpa using other⟩
    · -- the range lies strictly inside `vma`, which must be split
      cases newVma with
      | none =>
        simp only [Except.error.injEq] at h
        exact .inr ⟨h.symm, rfl, vma, by simp [split], below, inside⟩
      | some node => cases h

/-- A `bkeep_mmap_fixed` that succeeds had its new VMA from `alloc_vma`. -/
theorem bkeepMmapFixed_allocated {addr length : Nat} {prot flags : UInt32}
    {file : Option LibosHandle} {offset : Nat} {newVmaAllocated vma1Allocated : Bool}
    {s' : VmaState}
    (h : bkeepMmapFixed allocAlignment addr length prot flags file offset newVmaAllocated
      vma1Allocated s = .ok s') :
    newVmaAllocated = true := by
  by_cases bad : IsBadRange allocAlignment addr length
  · simp [bkeepMmapFixed, bad] at h
  · cases newVmaAllocated
    · simp [bkeepMmapFixed, bad] at h
    · rfl

/-- `bkeep_mmap_fixed` without `MAP_FIXED_NOREPLACE` fails only on a bad range,
when `alloc_vma` has no new VMA, or as `_vma_bkeep_remove` fails. -/
theorem bkeepMmapFixed_eq_error (wf : s.WellFormed allocAlignment) {addr length : Nat}
    {prot flags : UInt32} {file : Option LibosHandle} {offset : Nat}
    {newVmaAllocated vma1Allocated : Bool} {err : Int}
    (replacing : (flags &&& MAP_FIXED_NOREPLACE != 0) = false)
    (h : bkeepMmapFixed allocAlignment addr length prot flags file offset newVmaAllocated
      vma1Allocated s = .error err) :
    IsBadRange allocAlignment addr length ∨ newVmaAllocated = false ∨
      (∃ vma ∈ s.vmaTree, addr < vma.end' ∧ vma.begin < addr + length ∧
        vma.isInternal ≠ (flags &&& VMA_INTERNAL != 0)) ∨
      vma1Allocated = false ∧ ∃ vma ∈ s.vmaTree, vma.begin < addr ∧ addr + length < vma.end' := by
  by_cases bad : IsBadRange allocAlignment addr length
  · exact .inl bad
  cases newVmaAllocated
  · exact .inr (.inl rfl)
  simp only [bkeepMmapFixed, bad, replacing, Bool.not_true, Bool.false_eq_true, ↓reduceIte,
    newMapping_begin, newMapping_end'] at h
  generalize removal : vmaBkeepRemove _ _ _ _ _ = cleared at h
  cases cleared with
  | ok => cases h
  | error =>
    rcases vmaBkeepRemove_eq_error (wf.handOut 2) removal with ⟨-, denied⟩ | ⟨-, spare, inside⟩
    · exact .inr (.inr (.inl denied))
    · -- the split needs the spare VMA that `alloc_vma` did not give
      cases vma1Allocated
      · exact .inr (.inr (.inr ⟨rfl, inside⟩))
      · cases spare

/-! ## The first loop of `_vma_bkeep_change` -/

section Walk

variable {stop : Nat} {prot : UInt32} {isInternal : Bool}

/-- The refusals of one VMA in the first loop of `_vma_bkeep_change`. -/
theorem changeError_eq_some {vma : LibosVma} {err : Int}
    (h : changeError prot isInternal vma = some err) :
    err = -EACCES ∧ (vma.isInternal ≠ isInternal ∨
        vma.flags &&& MAP_SHARED ≠ 0 ∧ ∃ file, vma.file = some file ∧
          isFileProtMatching file prot = false) ∨
      err = -EINVAL ∧ prot &&& PROT_GROWSDOWN ≠ 0 ∧ vma.flags &&& MAP_GROWSDOWN = 0 := by
  simp only [changeError] at h
  split_ifs at h with kind growsDown
  · simp only [Option.some.injEq] at h
    exact .inl ⟨h.symm, .inl (by simpa using kind)⟩
  · simp only [Option.some.injEq] at h
    simp only [Bool.and_eq_true, bne_iff_ne, ne_eq, beq_iff_eq] at growsDown
    exact .inr ⟨h.symm, growsDown⟩
  · -- a shared mapping of a file opened without the access `prot` asks for
    cases file : vma.file with
    | none => simp [file] at h
    | some f =>
      simp only [file] at h
      split_ifs at h with shared
      simp only [Option.some.injEq] at h
      simp only [Bool.and_eq_true, bne_iff_ne, ne_eq, Bool.not_eq_true'] at shared
      exact .inl ⟨h.symm, .inr ⟨shared.1, f, rfl, shared.2⟩⟩

/-- The error of the first loop is one of the walked VMAs' refusals. -/
theorem changeChecks_error_mem {vma : LibosVma} {rest : List LibosVma} {err : Int}
    (h : changeChecks stop prot isInternal vma rest = .error err) :
    ∃ w ∈ vma :: rest, changeError prot isInternal w = some err := by
  induction rest generalizing vma with
  | nil =>
    simp only [changeChecks] at h
    cases checked : changeError prot isInternal vma with
    | none => simp [checked] at h
    | some e =>
      simp only [checked, Except.error.injEq] at h
      exact ⟨vma, List.mem_cons_self, h ▸ checked⟩
  | cons next rest ih =>
    simp only [changeChecks] at h
    cases checked : changeError prot isInternal vma with
    | some e =>
      simp only [checked, Except.error.injEq] at h
      exact ⟨vma, List.mem_cons_self, h ▸ checked⟩
    | none =>
      simp only [checked] at h
      split_ifs at h with reaches
      cases walked : changeChecks stop prot isInternal next rest with
      | ok c => simp [walked, Except.map] at h
      | error e =>
        simp only [walked, Except.map, Except.error.injEq] at h
        obtain ⟨w, member, refused⟩ := ih (h ▸ walked)
        exact ⟨w, List.mem_cons_of_mem vma member, refused⟩

/-- The first loop of `_vma_bkeep_change`, from a VMA holding `addr`: it
answers whether the VMAs cover `[addr, end)` without a hole, unless a walked VMA
is refused, and that VMA meets the range or the range has a hole. -/
theorem changeChecks_spec {vma : LibosVma} {rest : List LibosVma} {addr : Nat}
    (ascending : Ascending LibosVma.begin LibosVma.end' (vma :: rest))
    (nonempty : ∀ v ∈ vma :: rest, v.begin < v.end')
    (start : vma.begin ≤ addr) (inside : addr < vma.end') (below : addr < stop) :
    (∀ c, changeChecks stop prot isInternal vma rest = .ok c →
      (c = true ↔ Covers LibosVma.begin LibosVma.end' (vma :: rest) addr stop)) ∧
    (∀ err, changeChecks stop prot isInternal vma rest = .error err →
      ∃ w ∈ vma :: rest, changeError prot isInternal w = some err ∧
        (w.begin < stop ∨ ¬ Covers LibosVma.begin LibosVma.end' (vma :: rest) addr stop)) := by
  induction rest generalizing vma addr with
  | nil =>
    have covers : Covers LibosVma.begin LibosVma.end' [vma] addr stop ↔ stop ≤ vma.end' := by
      rw [covers_cons_iff start below (by simp), covers_nil_iff]
      omega
    simp only [changeChecks]
    cases checked : changeError prot isInternal vma with
    | none =>
      refine ⟨fun c h => ?_, fun err h => by cases h⟩
      simp only [Except.ok.injEq] at h
      rw [← h, covers, decide_eq_true_iff]
    | some e =>
      refine ⟨fun c h => (by cases h), fun err h => ?_⟩
      simp only [Except.error.injEq] at h
      exact ⟨vma, List.mem_cons_self, h ▸ checked, .inl (by omega)⟩
  | cons next rest ih =>
    obtain ⟨firstBefore, restAscending⟩ := ascending_cons.mp ascending
    obtain ⟨nextBefore, -⟩ := ascending_cons.mp restAscending
    have vmaNext := firstBefore next List.mem_cons_self
    have nextNonempty := nonempty next (by simp)
    simp only [changeChecks]
    cases checked : changeError prot isInternal vma with
    | some e =>
      refine ⟨fun c h => (by cases h), fun err h => ?_⟩
      simp only [Except.error.injEq] at h
      exact ⟨vma, List.mem_cons_self, h ▸ checked, .inl (by omega)⟩
    | none =>
      simp only
      by_cases reaches : stop ≤ vma.end'
      · -- `vma` reaches the end of the range
        simp only [reaches, if_true]
        refine ⟨fun c h => ?_, fun err h => by cases h⟩
        simp only [Except.ok.injEq] at h
        subst h
        simp only [true_iff]
        exact (covers_cons_iff start below fun w member =>
          Nat.lt_of_lt_of_le inside (firstBefore w member)).mpr (.inl reaches)
      simp only [reaches, if_false]
      -- past `vma` the range is covered only from `vma`'s end on, by the rest
      have covers : Covers LibosVma.begin LibosVma.end' (vma :: next :: rest) addr stop ↔
          Covers LibosVma.begin LibosVma.end' (next :: rest) vma.end' stop := by
        rw [covers_cons_iff start below fun w member =>
          Nat.lt_of_lt_of_le inside (firstBefore w member)]
        constructor
        · rintro (reached | ⟨-, rest⟩)
          · exact absurd reached reaches
          · exact rest
        · exact fun rest => .inr ⟨inside, rest⟩
      by_cases nextBelow : next.begin < stop
      · -- the walk goes on at `next`, which meets the range
        obtain ⟨okNext, errorNext⟩ := ih restAscending
          (fun w member => nonempty w (List.mem_cons_of_mem vma member)) le_rfl nextNonempty
          nextBelow
        have coversNext : Covers LibosVma.begin LibosVma.end' (next :: rest) vma.end' stop ↔
            vma.end' = next.begin ∧
              Covers LibosVma.begin LibosVma.end' (next :: rest) next.begin stop := by
          constructor
          · intro covered
            by_cases adjacent : vma.end' = next.begin
            · exact ⟨adjacent, adjacent ▸ covered⟩
            · -- a hole between `vma` and `next`
              refine absurd covered (not_covers_of_lt_lo (by omega) fun w member => ?_)
              rcases List.mem_cons.mp member with rfl | later
              · omega
              · have := nextBefore w later
                omega
          · rintro ⟨adjacent, covered⟩
            exact adjacent ▸ covered
        constructor
        · intro c h
          cases walked : changeChecks stop prot isInternal next rest with
          | error e => simp [walked, Except.map] at h
          | ok c' =>
            simp only [walked, Except.map, Except.ok.injEq] at h
            subst h
            rw [covers, coversNext, ← okNext c' walked]
            simp only [Bool.and_eq_true, beq_iff_eq]
            exact and_comm
        · intro err h
          cases walked : changeChecks stop prot isInternal next rest with
          | ok c' => simp [walked, Except.map] at h
          | error e =>
            simp only [walked, Except.map, Except.error.injEq] at h
            subst h
            obtain ⟨w, member, refused, meets⟩ := errorNext e walked
            refine ⟨w, List.mem_cons_of_mem vma member, refused, ?_⟩
            rcases meets with meets | hole
            · exact .inl meets
            · exact .inr fun covered => hole ((coversNext.mp (covers.mp covered)).2)
      · -- `next` lies past the end of the range: a hole, whatever the walk finds
        have hole : ¬ Covers LibosVma.begin LibosVma.end' (vma :: next :: rest) addr stop := by
          rw [covers]
          refine not_covers_of_lt_lo (by omega) fun w member => ?_
          rcases List.mem_cons.mp member with rfl | later
          · omega
          · have := nextBefore w later
            omega
        constructor
        · intro c h
          cases walked : changeChecks stop prot isInternal next rest with
          | error e => simp [walked, Except.map] at h
          | ok c' =>
            simp only [walked, Except.map, Except.ok.injEq] at h
            subst h
            have apart : (vma.end' == next.begin) = false := by
              simp only [beq_eq_false_iff_ne]
              omega
            simp only [apart, Bool.and_false, Bool.false_eq_true, false_iff]
            exact hole
        · intro err h
          cases walked : changeChecks stop prot isInternal next rest with
          | ok c' => simp [walked, Except.map] at h
          | error e =>
            simp only [walked, Except.map, Except.error.injEq] at h
            subst h
            obtain ⟨w, member, refused⟩ := changeChecks_error_mem walked
            exact ⟨w, List.mem_cons_of_mem vma member, refused, .inr hole⟩

end Walk

/-! ## `_vma_bkeep_change` -/

/-- `_vma_bkeep_change` fails with `-ENOMEM` when `[begin, end)` has a hole, or
with the refusal of a VMA of its walk: one above `begin` that meets the range,
or lies past a hole. -/
theorem vmaBkeepChange_eq_error (wf : s.WellFormed allocAlignment) {begin stop : Nat}
    {prot : UInt32} {isInternal : Bool} {node1 node2 : Nat} {err : Int} (range : begin < stop)
    (h : vmaBkeepChange begin stop prot isInternal node1 node2 s = some (.error err)) :
    (err = -ENOMEM ∧ ¬ Covers LibosVma.begin LibosVma.end' s.vmaTree begin stop) ∨
      ∃ vma ∈ s.vmaTree, begin < vma.end' ∧
        (vma.begin < stop ∨ ¬ Covers LibosVma.begin LibosVma.end' s.vmaTree begin stop) ∧
        changeError prot isInternal vma = some err := by
  rcases lookup : lookupVma begin s.vmaTree with ⟨before, found⟩
  simp only [vmaBkeepChange, lookup] at h
  cases found with
  | nil =>
    -- every VMA ends by `begin`
    obtain ⟨split, beforeEnd, -⟩ := lookupVma_eq lookup
    simp only [Option.some.injEq, Except.error.injEq] at h
    refine .inl ⟨h.symm, not_covers_of_first range fun vma member contains => ?_⟩
    rw [split, List.append_nil] at member
    exact absurd contains.2 (Nat.not_lt.mpr (beforeEnd vma member))
  | cons vma rest =>
    obtain ⟨split, beforeEnd, found, -, restAfter⟩ := wf.lookup lookup
    have inTree : ∀ v ∈ vma :: rest, v ∈ s.vmaTree := fun v member => by
      rw [split]
      exact List.mem_append_right before member
    have nonempty : ∀ v ∈ vma :: rest, v.begin < v.end' :=
      fun v member => wf.nonempty v (inTree v member)
    have covers : Covers LibosVma.begin LibosVma.end' s.vmaTree begin stop ↔
        Covers LibosVma.begin LibosVma.end' (vma :: rest) begin stop := by
      rw [split]
      exact covers_append_left_iff beforeEnd
    simp only at h
    by_cases above : begin < vma.begin
    · -- the VMA found starts above `begin`, which no VMA holds
      simp only [above, if_true, Option.some.injEq, Except.error.injEq] at h
      refine .inl ⟨h.symm, ?_⟩
      rw [covers]
      refine not_covers_of_lt_lo range fun v member => ?_
      rcases List.mem_cons.mp member with rfl | later
      · exact above
      · have := restAfter v later
        have := nonempty vma List.mem_cons_self
        omega
    simp only [above, if_false] at h
    have ascending : Ascending LibosVma.begin LibosVma.end' (vma :: rest) := by
      have := wf.ascending
      rw [split] at this
      exact (ascending_append.mp this).2.1
    have start : vma.begin ≤ begin := Nat.le_of_not_lt above
    generalize checks : changeChecks stop prot isInternal vma rest = answer at h
    rcases answer with e | c
    · -- a walked VMA is refused
      simp only [Option.some.injEq, Except.error.injEq] at h
      subst h
      obtain ⟨w, member, refused, meets⟩ :=
        (changeChecks_spec ascending nonempty start found range).2 e checks
      refine .inr ⟨w, inTree w member, ?_, ?_, refused⟩
      · rcases List.mem_cons.mp member with rfl | later
        · exact found
        · have := restAfter w later
          have := nonempty w member
          omega
      · rw [covers]
        exact meets
    · cases c with
      | false =>
        -- the range has a hole
        simp only [Option.some.injEq, Except.error.injEq] at h
        have holes := (changeChecks_spec ascending nonempty start found range).1 false checks
        refine .inl ⟨h.symm, ?_⟩
        rw [covers, ← holes]
        simp
      | true =>
        -- the range is covered: every way on succeeds, or crashes
        exfalso
        simp only at h
        split_ifs at h <;> (try cases rest) <;> simp at h

/-! ## Failed calls -/

/-- What the failures of the bookkeeping calls on the state `s` say: the
refusals of `_vma_bkeep_remove` and `_vma_bkeep_change` are the ones their
checks name, and a call of `bkeep_munmap`, `bkeep_mmap_fixed` or
`bkeep_mprotect` that fails leaves the state as it was. -/
def FailuresChangeNothing (allocAlignment : Nat) (layout : PalMemoryLayout) (s : VmaState) :
    Prop :=
  (∀ begin stop isInternal newVma err,
    vmaBkeepRemove begin stop isInternal newVma s = .error err →
    (err = -EACCES ∧
        ∃ vma ∈ s.vmaTree, begin < vma.end' ∧ vma.begin < stop ∧ vma.isInternal ≠ isInternal) ∨
      (err = -ENOMEM ∧ newVma = none ∧
        ∃ vma ∈ s.vmaTree, vma.begin < begin ∧ stop < vma.end')) ∧
  (∀ begin stop prot isInternal node1 node2 err, begin < stop →
    vmaBkeepChange begin stop prot isInternal node1 node2 s = some (.error err) →
    (err = -ENOMEM ∧ ¬ Covers LibosVma.begin LibosVma.end' s.vmaTree begin stop) ∨
      ∃ vma ∈ s.vmaTree, begin < vma.end' ∧
        (vma.begin < stop ∨ ¬ Covers LibosVma.begin LibosVma.end' s.vmaTree begin stop) ∧
        ((err = -EACCES ∧ (vma.isInternal ≠ isInternal ∨
            vma.flags &&& MAP_SHARED ≠ 0 ∧ ∃ file, vma.file = some file ∧
              isFileProtMatching file prot = false)) ∨
          (err = -EINVAL ∧ prot &&& PROT_GROWSDOWN ≠ 0 ∧ vma.flags &&& MAP_GROWSDOWN = 0))) ∧
  (∀ addr length isInternal vma1Allocated vma2Allocated err,
    bkeepMunmap allocAlignment addr length isInternal vma1Allocated vma2Allocated s =
      .error err →
    vmaStep allocAlignment layout (.munmap addr length isInternal vma1Allocated vma2Allocated) s =
      some s) ∧
  (∀ addr length prot flags file offset newVmaAllocated vma1Allocated err,
    bkeepMmapFixed allocAlignment addr length prot flags file offset newVmaAllocated
      vma1Allocated s = .error err →
    vmaStep allocAlignment layout
      (.mmapFixed addr length prot flags file offset newVmaAllocated vma1Allocated) s = some s) ∧
  (∀ addr length prot isInternal vma1Allocated vma2Allocated err,
    bkeepMprotect allocAlignment addr length prot isInternal vma1Allocated vma2Allocated s =
      some (.error err) →
    vmaStep allocAlignment layout
      (.mprotect addr length prot isInternal vma1Allocated vma2Allocated) s = some s)

/-- One private anonymous mapping of two pages of 4 KiB at `0x10000`. -/
def oneMapping : VmaState :=
  ⟨[⟨1, 0x10000, 0x12000, 0x12000, PROT_READ, MAP_PRIVATE ||| MAP_ANONYMOUS, none, 0⟩], 0x2000, 2⟩

theorem oneMapping_wellFormed : oneMapping.WellFormed 4096 :=
  ⟨fun vma member => by
      obtain rfl := List.mem_singleton.mp member
      exact ⟨by decide, by decide, by decide, by decide, by decide, fun _ => rfl⟩,
    by simp [oneMapping, Ascending], rfl, by simp [oneMapping], by simp [oneMapping]⟩

end Gramine.LibOS.Bookkeep
