import Gramine.LibOS.Bookkeep.VmaFailure

/-!
# Where `bkeep_mmap_any_in_range` puts a mapping

`bkeep_mmap_any_in_range` walks the VMAs down from the top of the range it
searches and takes the first gap, from the top, that holds `length` bytes; the
new VMA fills the top of that gap. So the placement meets no VMA, lies in the
searched range, and no free placement in that range lies higher. When the
search finds no gap, the call answers `-ENOMEM`, and so it does when
`alloc_vma` fails, whatever the tree holds.
-/

namespace Gramine.LibOS.Bookkeep

open IntervalList

variable {allocAlignment : Nat} {s : VmaState}

/-- `[addr, addr + length)` meets no VMA of the tree. -/
def IsFree (tree : List LibosVma) (addr length : Nat) : Prop :=
  ∀ vma ∈ tree, vma.end' ≤ addr ∨ addr + length ≤ vma.begin

/-- The range the placement must lie in: `[bottom_addr, top_addr)`, cut to the
early LibOS range for an internal VMA before `g_received_user_memory`, and
cut at 2 GiB for `MAP_32BIT`. -/
def effectiveRange (layout : PalMemoryLayout) (receivedUserMemory : Bool) (flags : UInt32)
    (bottomAddr topAddr : Nat) : Nat × Nat :=
  let early := !receivedUserMemory && flags &&& VMA_INTERNAL != 0
  let bottom := if early then max bottomAddr layout.earlyLibosMemRangeStart else bottomAddr
  let top := if early then min topAddr layout.earlyLibosMemRangeEnd else topAddr
  (bottom, if flags &&& MAP_32BIT != 0 then min top (2 ^ 31) else top)

/-- The search range of the source is the effective range, and when the
source refuses it, with `-ENOMEM`, the effective range is empty. -/
theorem searchRange_spec {layout : PalMemoryLayout} {receivedUserMemory : Bool} {flags : UInt32}
    {bottomAddr topAddr : Nat} :
    (∀ range, searchRange layout receivedUserMemory flags bottomAddr topAddr = .ok range →
      range = effectiveRange layout receivedUserMemory flags bottomAddr topAddr) ∧
    (∀ err, searchRange layout receivedUserMemory flags bottomAddr topAddr = .error err →
      err = -ENOMEM ∧ (effectiveRange layout receivedUserMemory flags bottomAddr topAddr).2 ≤
        (effectiveRange layout receivedUserMemory flags bottomAddr topAddr).1) := by
  simp only [searchRange, effectiveRange]
  -- the early-memory cut, then the `MAP_32BIT` cut
  by_cases early : (!receivedUserMemory && flags &&& VMA_INTERNAL != 0) = true
  · by_cases outside : topAddr ≤ layout.earlyLibosMemRangeStart ∨
        layout.earlyLibosMemRangeEnd ≤ bottomAddr
    · simp only [early, outside, if_true]
      refine ⟨fun range h => (by cases h), fun err h => ?_⟩
      simp only [Except.error.injEq] at h
      refine ⟨h.symm, ?_⟩
      split_ifs <;> omega
    · simp only [early, outside, if_true, if_false]
      split_ifs with low empty <;> simp_all
  · simp only [early, Bool.false_eq_true, if_false]
    split_ifs with low empty <;> simp_all

section Search

variable {bottomAddr length : Nat}

/-- A free placement of `length` bytes above `bottom_addr` and below `max_addr`
makes the downward search succeed, at a gap that ends no lower than the
placement: the search answers the highest free placement. -/
theorem findGap_of_free :
    ∀ {maxAddr r : Nat} {below : List LibosVma},
    below.Pairwise (fun higher lower => lower.end' ≤ higher.begin) →
    (∀ vma ∈ below, vma.end' ≤ maxAddr) →
    bottomAddr ≤ r → r + length ≤ maxAddr → (∀ vma ∈ below, vma.end' ≤ r ∨ r + length ≤ vma.begin) →
    ∃ found, findGap bottomAddr length maxAddr below = some found ∧ r + length ≤ found
  | maxAddr, r, [], _, _, above, fits, _ => by
    refine ⟨maxAddr, ?_, fits⟩
    simp only [findGap]
    rw [if_pos (by omega)]
  | maxAddr, r, vma :: below, descending, underMax, above, fits, apart => by
    obtain ⟨lowerEnd, restDescending⟩ := List.pairwise_cons.mp descending
    have vmaApart := apart vma List.mem_cons_self
    have vmaUnder := underMax vma List.mem_cons_self
    simp only [findGap]
    split_ifs with reaches roomAbove final
    · exact ⟨maxAddr, rfl, fits⟩
    · -- the gap above `vma` is too small, so the placement lies below `vma`
      have belowVma : r + length ≤ vma.begin := by
        rcases vmaApart with after | before
        · omega
        · exact before
      exact findGap_of_free restDescending lowerEnd above belowVma
        (fun other member => apart other (List.mem_cons_of_mem vma member))
    · exact ⟨maxAddr, rfl, fits⟩
    · omega

end Search

/-! ## The placement -/

section AnyInRange

variable {layout : PalMemoryLayout} {receivedUserMemory : Bool}

/-- Every way `bkeep_mmap_any_in_range` fails: an unaligned or empty request,
a refused search range, a failed `alloc_vma`, or a search that finds no gap. -/
theorem bkeepMmapAnyInRange_eq_error {bottomAddr topAddr length : Nat} {prot flags : UInt32}
    {file : Option LibosHandle} {offset : Nat} {newVmaAllocated : Bool} {err : Int}
    (h : bkeepMmapAnyInRange allocAlignment layout receivedUserMemory bottomAddr topAddr length
      prot flags file offset newVmaAllocated s = .error err) :
    err = -EINVAL ∧ (length = 0 ∨ ¬ IsAllocAligned allocAlignment length ∨
      ¬ IsAllocAligned allocAlignment bottomAddr ∨ ¬ IsAllocAligned allocAlignment topAddr) ∨
    searchRange layout receivedUserMemory flags bottomAddr topAddr = .error err ∨
    ∃ bottom top, searchRange layout receivedUserMemory flags bottomAddr topAddr = .ok (bottom, top) ∧
      err = -ENOMEM ∧ (newVmaAllocated = false ∨ ∃ maxAddr,
        ((lookupVma top s.vmaTree).2 = [] ∧ maxAddr = top ∨
          ∃ vma rest, (lookupVma top s.vmaTree).2 = vma :: rest ∧ maxAddr = min top vma.begin) ∧
        findGap bottom length maxAddr (lookupVma top s.vmaTree).1.reverse = none) := by
  simp only [bkeepMmapAnyInRange] at h
  by_cases badLength : length = 0 ∨ ¬ IsAllocAligned allocAlignment length
  · rw [if_pos badLength, Except.error.injEq] at h
    exact .inl ⟨h.symm, by tauto⟩
  rw [if_neg badLength] at h
  by_cases badRange : ¬ IsAllocAligned allocAlignment bottomAddr ∨
      ¬ IsAllocAligned allocAlignment topAddr
  · rw [if_pos badRange, Except.error.injEq] at h
    exact .inl ⟨h.symm, by tauto⟩
  rw [if_neg badRange] at h
  generalize searched : searchRange _ _ _ _ _ = range at h
  rcases range with e | ⟨bottom, top⟩
  · simp only [Except.error.injEq] at h
    exact .inr (.inl (h ▸ rfl))
  refine .inr (.inr ⟨bottom, top, rfl, ?_⟩)
  cases newVmaAllocated with
  | false =>
    simp only [Bool.not_false, if_true, Except.error.injEq] at h
    exact ⟨h.symm, .inl rfl⟩
  | true =>
    simp only [Bool.not_true, Bool.false_eq_true, if_false] at h
    rcases lookup : lookupVma top s.vmaTree with ⟨below, above⟩
    simp only [lookup] at h
    generalize gap : findGap _ _ _ _ = answer at h
    cases answer with
    | some found => cases h
    | none =>
      simp only [Except.error.injEq] at h
      refine ⟨h.symm, .inr ⟨_, ?_, gap⟩⟩
      cases above with
      | nil => exact .inl ⟨rfl, rfl⟩
      | cons vma rest => exact .inr ⟨vma, rest, rfl, rfl⟩

/-- What the search of `bkeep_mmap_any_in_range` sees of a well-formed tree:
the VMAs below the top of the range, highest first, each ending by `max_addr`;
and a placement below the top is free exactly when it lies below `max_addr`
and meets none of them. -/
theorem VmaState.WellFormed.searchFrom (wf : s.WellFormed allocAlignment) {top maxAddr : Nat}
    (atTop : (lookupVma top s.vmaTree).2 = [] ∧ maxAddr = top ∨
      ∃ vma rest, (lookupVma top s.vmaTree).2 = vma :: rest ∧ maxAddr = min top vma.begin) :
    (lookupVma top s.vmaTree).1.reverse.Pairwise (fun higher lower => lower.end' ≤ higher.begin) ∧
    (∀ vma ∈ (lookupVma top s.vmaTree).1.reverse, vma.begin < vma.end') ∧
    (∀ vma ∈ (lookupVma top s.vmaTree).1.reverse, vma.end' ≤ maxAddr) ∧
    maxAddr ≤ top ∧
    ∀ r length, r + length ≤ top →
      (IsFree s.vmaTree r length ↔ r + length ≤ maxAddr ∧
        ∀ vma ∈ (lookupVma top s.vmaTree).1.reverse, vma.end' ≤ r ∨ r + length ≤ vma.begin) := by
  rcases lookup : lookupVma top s.vmaTree with ⟨below, above⟩
  rw [lookup] at atTop
  simp only
  obtain ⟨split, belowEnd, aboveEnd⟩ := lookupVma_eq lookup
  have ascending := wf.ascending
  rw [split] at ascending
  obtain ⟨belowAscending, aboveAscending, cross⟩ := ascending_append.mp ascending
  have inTree : ∀ vma, vma ∈ below ∨ vma ∈ above → vma ∈ s.vmaTree := by
    intro vma member
    rw [split]
    exact List.mem_append.mpr member
  refine ⟨List.pairwise_reverse.mpr belowAscending, fun vma member =>
    wf.nonempty vma (inTree vma (.inl (List.mem_reverse.mp member))), ?_, ?_, ?_⟩
  · intro vma member
    rw [List.mem_reverse] at member
    rcases atTop with ⟨-, rfl⟩ | ⟨next, rest, rfl, rfl⟩
    · exact belowEnd vma member
    · exact le_min (belowEnd vma member) (cross vma member next List.mem_cons_self)
  · rcases atTop with ⟨-, rfl⟩ | ⟨next, rest, -, rfl⟩
    · exact le_rfl
    · exact min_le_left _ _
  · intro r length underTop
    simp only [List.mem_reverse]
    constructor
    · intro free
      refine ⟨?_, fun vma member => free vma (inTree vma (.inl member))⟩
      rcases atTop with ⟨-, rfl⟩ | ⟨next, rest, rfl, rfl⟩
      · exact underTop
      · -- the VMA above reaches past `top`, so the placement ends by its start
        have nextEnd : top < next.end' := aboveEnd next rfl
        rcases free next (inTree next (.inr List.mem_cons_self)) with after | before
        · have := wf.nonempty next (inTree next (.inr List.mem_cons_self))
          omega
        · exact le_min underTop before
    · rintro ⟨underMax, apart⟩ vma member
      rw [split] at member
      rcases List.mem_append.mp member with member | member
      · exact apart vma member
      · rcases atTop with ⟨rfl, -⟩ | ⟨next, rest, rfl, rfl⟩
        · simp at member
        · have nextStart : r + length ≤ next.begin := le_trans underMax (min_le_right _ _)
          rcases List.mem_cons.mp member with rfl | later
          · exact .inr nextStart
          · have := (ascending_cons.mp aboveAscending).1 vma later
            have := wf.nonempty next (inTree next (.inr List.mem_cons_self))
            exact .inr (by omega)

/-- `bkeep_mmap_any_in_range` puts its new VMA over a range that meets no VMA. -/
theorem bkeepMmapAnyInRange_isFree (wf : s.WellFormed allocAlignment)
    {bottomAddr topAddr length : Nat} {prot flags : UInt32} {file : Option LibosHandle}
    {offset : Nat} {newVmaAllocated : Bool} {s' : VmaState} {r : Nat}
    (h : bkeepMmapAnyInRange allocAlignment layout receivedUserMemory bottomAddr topAddr length
      prot flags file offset newVmaAllocated s = .ok (s', r)) :
    0 < length ∧ IsFree s.vmaTree r length ∧
      s' = { vmaTree := insertVma (newMapping s.nextNode r (r + length) prot flags file offset)
               s.vmaTree
             totalMemorySize := s.totalMemorySize + length
             nextNode := s.nextNode + 1 } := by
  obtain ⟨positive, -, -, bottom, top, maxAddr, found, -, atTop, gap, rfl, rfl⟩ :=
    bkeepMmapAnyInRange_eq_ok h
  obtain ⟨descending, nonempty, underMax, -, freeIff⟩ := wf.searchFrom atTop
  obtain ⟨long, -, foundMax, -, apart⟩ :=
    findGap_eq_some positive descending nonempty underMax gap
  rw [Nat.sub_add_cancel long]
  refine ⟨positive, (freeIff _ _ (by omega)).mpr ⟨by omega, fun vma member => ?_⟩, rfl⟩
  rw [Nat.sub_add_cancel long]
  exact apart vma member

/-- What `bkeep_mmap_any_in_range` answers on the state `s`: `-ENOMEM`, when
`alloc_vma` fails or no free placement lies in the effective range, or the tree
with the new VMA at the highest free placement of the effective range. -/
def PlacesHighest (allocAlignment : Nat) (layout : PalMemoryLayout) (receivedUserMemory : Bool)
    (bottomAddr topAddr length : Nat) (prot flags : UInt32) (file : Option LibosHandle)
    (offset : Nat) (newVmaAllocated : Bool) (s : VmaState) : Prop :=
  (∀ err, bkeepMmapAnyInRange allocAlignment layout receivedUserMemory bottomAddr topAddr length
      prot flags file offset newVmaAllocated s = .error err →
    err = -ENOMEM ∧ (newVmaAllocated = false ∨
      ∀ r, (effectiveRange layout receivedUserMemory flags bottomAddr topAddr).1 ≤ r →
        r + length ≤ (effectiveRange layout receivedUserMemory flags bottomAddr topAddr).2 →
        ¬ IsFree s.vmaTree r length)) ∧
  (∀ s' r, bkeepMmapAnyInRange allocAlignment layout receivedUserMemory bottomAddr topAddr length
      prot flags file offset newVmaAllocated s = .ok (s', r) →
    s'.vmaTree = insertVma (newMapping s.nextNode r (r + length) prot flags file offset)
      s.vmaTree ∧
    (effectiveRange layout receivedUserMemory flags bottomAddr topAddr).1 ≤ r ∧
    r + length ≤ (effectiveRange layout receivedUserMemory flags bottomAddr topAddr).2 ∧
    IsFree s.vmaTree r length ∧
    ∀ r', (effectiveRange layout receivedUserMemory flags bottomAddr topAddr).1 ≤ r' →
      r' + length ≤ (effectiveRange layout receivedUserMemory flags bottomAddr topAddr).2 →
      IsFree s.vmaTree r' length → r' ≤ r)

end AnyInRange

end Gramine.LibOS.Bookkeep
