import Mathlib
import Gramine.LibOS.Bookkeep.Vma

/-!
# What each bookkeeping call does to the tree

One lemma per function of the model says every way the function can succeed:
which VMAs of the tree it found, and the tree and counter it leaves. The
invariant (`VmaInvariant`) and the page map (`VmaPageMap`) are proved from
these lemmas and never unfold the functions again.
-/

namespace Gramine.LibOS.Bookkeep

open IntervalList

/-! ## Lookups in the tree -/

/-- What `_lookup_vma(addr)` found: the tree is the VMAs before the one it
returns, which end by `addr`, followed by that VMA, which ends above `addr`,
and those after it. -/
theorem lookupVma_eq {addr : Nat} {tree before found : List LibosVma}
    (h : lookupVma addr tree = (before, found)) :
    tree = before ++ found ∧ (∀ vma ∈ before, vma.end' ≤ addr) ∧
      ∀ vma ∈ found.head?, addr < vma.end' := by
  simp only [lookupVma, Prod.mk.injEq] at h
  obtain ⟨rfl, rfl⟩ := h
  refine ⟨(List.takeWhile_append_dropWhile).symm, ?_, ?_⟩
  · intro vma member
    simpa using List.mem_takeWhile_imp member
  · intro vma head
    have := List.head?_dropWhile_not (fun vma => !decide (addr < vma.end')) tree
    rw [Option.mem_def.mp head] at this
    simpa using this

/-- The lookup of a VMA's own start finds the VMA. -/
theorem lookupVma_of_mem {before after : List LibosVma} {vma : LibosVma}
    (before_end : ∀ v ∈ before, v.end' ≤ vma.begin) (nonempty : vma.begin < vma.end') :
    lookupVma vma.begin (before ++ vma :: after) = (before, vma :: after) := by
  simp only [lookupVma, Prod.mk.injEq]
  constructor
  · rw [List.takeWhile_append_of_pos (by simpa using before_end)]
    simp [nonempty]
  · rw [List.dropWhile_append_of_pos (by simpa using before_end)]
    simp [nonempty]

/-! ## Nodes -/

/-- A node that occurs once is updated where it stands. -/
theorem updateNode_eq {node : Nat} {f : LibosVma → LibosVma} {before after : List LibosVma}
    {vma : LibosVma} (others : ∀ v ∈ before, v.node ≠ node) (here : vma.node = node) :
    updateNode node f (before ++ vma :: after) = before ++ f vma :: after := by
  induction before with
  | nil => simp [updateNode, here]
  | cons v before ih =>
    have : v.node ≠ node := others v List.mem_cons_self
    simp only [List.cons_append, updateNode, this, if_false]
    rw [ih fun w member => others w (List.mem_cons_of_mem v member)]

/-- A walk resumes at the one place the node occurs. -/
theorem splitAtNode_eq {node : Nat} {before after : List LibosVma} {vma : LibosVma}
    (others : ∀ v ∈ before, v.node ≠ node) (here : vma.node = node) :
    splitAtNode node (before ++ vma :: after) = (before, vma :: after) := by
  have notYet : ∀ v ∈ before, (v.node != node) = true := by simpa using others
  simp only [splitAtNode, Prod.mk.injEq]
  constructor
  · rw [List.takeWhile_append_of_pos notYet]
    simp [here]
  · rw [List.dropWhile_append_of_pos notYet]
    simp [here]

/-- The two parts of the tree a walk is split into make up the tree. -/
theorem splitAtNode_append (node : Nat) (tree : List LibosVma) :
    (splitAtNode node tree).1 ++ (splitAtNode node tree).2 = tree :=
  List.takeWhile_append_dropWhile

/-! ## The removal loop -/

/-- The VMAs the loops of `_vma_bkeep_remove` leave. -/
def keptFollowing (stop : Nat) : List LibosVma → List LibosVma
  | [] => []
  | vma :: rest =>
    if vma.end' ≤ stop then keptFollowing stop rest
    else if vma.begin < stop then vma.cutBegin stop :: rest
    else vma :: rest

/-- The bytes the loops of `_vma_bkeep_remove` take out of the total. -/
def removedLength (stop : Nat) : List LibosVma → Nat
  | [] => 0
  | vma :: rest =>
    if vma.end' ≤ stop then (vma.end' - vma.begin) + removedLength stop rest
    else if vma.begin < stop then stop - vma.begin
    else 0

attribute [grind] keptFollowing removedLength

theorem removeFollowing_eq (stop : Nat) (tree : List LibosVma) (total : Nat) :
    removeFollowing stop tree total =
      (keptFollowing stop tree, total - removedLength stop tree) := by
  induction tree generalizing total with
  | nil => simp [removeFollowing, keptFollowing, removedLength]
  | cons vma rest ih =>
    simp only [removeFollowing, keptFollowing, removedLength]
    split_ifs
    · rw [ih, Nat.sub_sub]
    · rfl
    · simp

/-- What the loops leave and what they take out make up what they found. -/
theorem totalLength_keptFollowing (stop : Nat) (tree : List LibosVma) :
    totalLength LibosVma.begin LibosVma.end' (keptFollowing stop tree) +
      removedLength stop tree = totalLength LibosVma.begin LibosVma.end' tree := by
  induction tree with
  | nil => simp [keptFollowing, removedLength]
  | cons vma rest ih =>
    simp only [keptFollowing, removedLength]
    split_ifs with ends starts
    · rw [totalLength_cons, ← ih]
      omega
    · simp only [totalLength_cons, LibosVma.cutBegin]
      omega
    · simp

/-- Every VMA the loops leave is one they found, or the VMA that reached past
`end` with its head trimmed. -/
theorem mem_keptFollowing {stop : Nat} {tree : List LibosVma} {vma : LibosVma}
    (h : vma ∈ keptFollowing stop tree) :
    vma ∈ tree ∨ ∃ old ∈ tree, old.begin < stop ∧ stop < old.end' ∧ vma = old.cutBegin stop := by
  induction tree with
  | nil => simp [keptFollowing] at h
  | cons first rest ih =>
    simp only [keptFollowing] at h
    split_ifs at h with ends starts
    · rcases ih h with member | ⟨old, member, cut⟩
      · exact .inl (List.mem_cons_of_mem first member)
      · exact .inr ⟨old, List.mem_cons_of_mem first member, cut⟩
    · rcases List.mem_cons.mp h with rfl | member
      · exact .inr ⟨first, List.mem_cons_self, starts, Nat.lt_of_not_le ends, rfl⟩
      · exact .inl (List.mem_cons_of_mem first member)
    · exact .inl h

/-- In an ascending tree, what the loops leave starts at `end` or later. -/
theorem keptFollowing_begin_ge {stop : Nat} {tree : List LibosVma}
    (ascending : Ascending LibosVma.begin LibosVma.end' tree)
    (nonempty : ∀ vma ∈ tree, vma.begin < vma.end') :
    ∀ vma ∈ keptFollowing stop tree, stop ≤ vma.begin := by
  induction tree with
  | nil => simp [keptFollowing]
  | cons first rest ih =>
    obtain ⟨firstBefore, restAscending⟩ := ascending_cons.mp ascending
    have firstNonempty := nonempty first List.mem_cons_self
    -- the VMAs after `first` start where `first` ends, past `end`
    have laterStart : ¬ first.end' ≤ stop → ∀ vma ∈ rest, stop ≤ vma.begin := by
      intro late vma member
      have := firstBefore vma member
      omega
    intro vma member
    simp only [keptFollowing] at member
    split_ifs at member with ends starts
    · exact ih restAscending (fun v m => nonempty v (List.mem_cons_of_mem first m)) vma member
    · rcases List.mem_cons.mp member with rfl | member
      · simp [LibosVma.cutBegin]
      · exact laterStart ends vma member
    · rcases List.mem_cons.mp member with rfl | member
      · omega
      · exact laterStart ends vma member

/-- Every VMA the loops leave lies inside one they found. -/
theorem keptFollowing_inside {stop : Nat} {tree : List LibosVma} :
    ∀ vma ∈ keptFollowing stop tree, ∃ old ∈ tree, old.begin ≤ vma.begin ∧ vma.end' ≤ old.end' := by
  intro vma member
  rcases mem_keptFollowing member with found | ⟨old, found, below, -, rfl⟩
  · exact ⟨vma, found, le_rfl, le_rfl⟩
  · exact ⟨old, found, by simp [LibosVma.cutBegin]; omega, by simp [LibosVma.cutBegin]⟩

/-- The loops keep the nodes of the VMAs they leave. -/
theorem keptFollowing_nodes (stop : Nat) (tree : List LibosVma) :
    ((keptFollowing stop tree).map LibosVma.node).Sublist (tree.map LibosVma.node) := by
  induction tree with
  | nil => simp [keptFollowing]
  | cons vma rest ih =>
    simp only [keptFollowing]
    split_ifs
    · exact ih.cons vma.node
    · simp [LibosVma.cutBegin]
    · exact List.Sublist.refl _

theorem keptFollowing_ascending {stop : Nat} {tree : List LibosVma}
    (ascending : Ascending LibosVma.begin LibosVma.end' tree) :
    Ascending LibosVma.begin LibosVma.end' (keptFollowing stop tree) := by
  induction tree with
  | nil => exact Ascending.nil
  | cons first rest ih =>
    obtain ⟨firstBefore, restAscending⟩ := ascending_cons.mp ascending
    simp only [keptFollowing]
    split_ifs
    · exact ih restAscending
    · -- the trimmed VMA still ends where it did
      exact ascending_cons.mpr ⟨firstBefore, restAscending⟩
    · exact ascending

/-! ## `_vma_bkeep_remove` -/

/-- Every way `_vma_bkeep_remove` succeeds: the range meets no VMA, or the
first VMA it meets holds it whole and is split, or that VMA starts below the
range and loses its tail before the loops run on, or the loops run from it. -/
theorem vmaBkeepRemove_eq_ok {begin stop : Nat} {isInternal : Bool} {newVma : Option Nat}
    {s s' : VmaState} (h : vmaBkeepRemove begin stop isInternal newVma s = .ok s') :
    (lookupVma begin s.vmaTree).2 = [] ∧ s' = s ∨
    ∃ before vma rest, lookupVma begin s.vmaTree = (before, vma :: rest) ∧
      ((vma.begin < begin ∧ stop < vma.end' ∧ ∃ node, newVma = some node ∧
          s' = { s with
            vmaTree := insertVma (splitVma vma node stop).2
              (before ++ (splitVma vma node stop).1.cutEnd begin :: rest)
            totalMemorySize := s.totalMemorySize - (stop - begin) }) ∨
        (vma.begin < begin ∧ vma.end' ≤ stop ∧
          s' = { s with
            vmaTree := before ++ vma.cutEnd begin :: keptFollowing stop rest
            totalMemorySize := s.totalMemorySize - (vma.end' - begin) - removedLength stop rest }) ∨
        (begin ≤ vma.begin ∧
          s' = { s with
            vmaTree := before ++ keptFollowing stop (vma :: rest)
            totalMemorySize := s.totalMemorySize - removedLength stop (vma :: rest) })) := by
  simp only [vmaBkeepRemove] at h
  generalize lookup : lookupVma begin s.vmaTree = split at h
  obtain ⟨before, found⟩ := split
  cases found with
  | nil =>
    simp only [Except.ok.injEq] at h
    exact .inl ⟨rfl, h.symm⟩
  | cons vma rest =>
    refine .inr ⟨before, vma, rest, rfl, ?_⟩
    simp only [removeFollowing_eq] at h
    split_ifs at h with denied below inside
    · cases newVma with
      | none => cases h
      | some node =>
        simp only [Except.ok.injEq] at h
        exact .inl ⟨below, inside, node, rfl, h.symm⟩
    · simp only [Except.ok.injEq] at h
      exact .inr (.inl ⟨below, Nat.le_of_not_lt inside, h.symm⟩)
    · simp only [Except.ok.injEq] at h
      exact .inr (.inr ⟨Nat.le_of_not_lt below, h.symm⟩)

/-! ## Calls that add a VMA -/

section Calls

variable {allocAlignment : Nat}

/-- Every way `bkeep_munmap` succeeds: the range is cleared by
`_vma_bkeep_remove` with the second spare node, if it was allocated, and the
first spare node holds the unmapped VMA. -/
theorem bkeepMunmap_eq_ok {addr length : Nat} {isInternal vma1Allocated vma2Allocated : Bool}
    {s s' : VmaState} {tmp : Nat}
    (h : bkeepMunmap allocAlignment addr length isInternal vma1Allocated vma2Allocated s =
      .ok (s', tmp)) :
    ¬ IsBadRange allocAlignment addr length ∧ tmp = s.nextNode ∧
      ∃ cleared, vmaBkeepRemove addr (addr + length) isInternal
          (if vma2Allocated then some (s.nextNode + 1) else none)
          { s with nextNode := s.nextNode + 2 } = .ok cleared ∧
        s' = addUnmappedVma addr (addr + length) s.nextNode cleared := by
  simp only [bkeepMunmap] at h
  generalize spare : (if vma2Allocated then some (s.nextNode + 1) else none) = spareNode at h
  split_ifs at h with bad allocated
  generalize removed : vmaBkeepRemove _ _ _ _ _ = result at h
  cases result with
  | error err => cases h
  | ok cleared =>
    simp only [Except.ok.injEq, Prod.mk.injEq] at h
    exact ⟨bad, h.2.symm, cleared, rfl, h.1.symm⟩

/-- Every way `bkeep_mmap_fixed` succeeds: with `MAP_FIXED_NOREPLACE` the range
met no VMA, otherwise `_vma_bkeep_remove` cleared it; then the new mapping goes
in, in the first spare node. -/
theorem bkeepMmapFixed_eq_ok {addr length : Nat} {prot flags : UInt32}
    {file : Option LibosHandle} {offset : Nat} {newVmaAllocated vma1Allocated : Bool}
    {s s' : VmaState}
    (h : bkeepMmapFixed allocAlignment addr length prot flags file offset newVmaAllocated
      vma1Allocated s = .ok s') :
    ¬ IsBadRange allocAlignment addr length ∧ ∃ cleared,
      ((flags &&& MAP_FIXED_NOREPLACE != 0) = true ∧
          overlapsExisting addr (addr + length) s.vmaTree = false ∧
          cleared = { s with nextNode := s.nextNode + 2 } ∨
        (flags &&& MAP_FIXED_NOREPLACE != 0) = false ∧
          vmaBkeepRemove addr (addr + length) (flags &&& VMA_INTERNAL != 0)
            (if vma1Allocated then some (s.nextNode + 1) else none)
            { s with nextNode := s.nextNode + 2 } = .ok cleared) ∧
      s' = { cleared with
        vmaTree := insertVma (newMapping s.nextNode addr (addr + length) prot flags file offset)
          cleared.vmaTree
        totalMemorySize := cleared.totalMemorySize + length } := by
  simp only [bkeepMmapFixed] at h
  generalize spare : (if vma1Allocated then some (s.nextNode + 1) else none) = spareNode at h
  split_ifs at h with bad allocated noReplace overlaps
  · simp only [Except.ok.injEq] at h
    subst h
    refine ⟨bad, _, .inl ⟨noReplace, by simpa [newMapping] using overlaps, rfl⟩, ?_⟩
    simp [newMapping]
  · generalize removed : vmaBkeepRemove _ _ _ _ _ = result at h
    cases result with
    | error err => cases h
    | ok cleared =>
      simp only [Except.ok.injEq] at h
      subst h
      refine ⟨bad, cleared, .inr ⟨by simpa using noReplace, by simpa [newMapping] using removed⟩, ?_⟩
      simp [newMapping]

/-- A gap the search answers holds `length` bytes. -/
theorem findGap_length_le {bottomAddr length : Nat} (positive : 0 < length) :
    ∀ {maxAddr found : Nat} {below : List LibosVma},
    findGap bottomAddr length maxAddr below = some found → length ≤ found
  | maxAddr, found, [], h => by
    simp only [findGap] at h
    split_ifs at h with fits
    cases h
    omega
  | maxAddr, found, vma :: below, h => by
    simp only [findGap] at h
    split_ifs at h with reaches fits final
    · cases h
      omega
    · exact findGap_length_le positive h
    · cases h
      omega

/-- The downward search of `bkeep_mmap_any_in_range` over VMAs listed highest
first, each ending by `max_addr`: the gap it answers holds `length` bytes above
`bottom_addr`, ends at `max_addr` or at the start of one of the VMAs, and
meets none of them. -/
theorem findGap_eq_some {bottomAddr length : Nat} (positive : 0 < length) :
    ∀ {maxAddr found : Nat} {below : List LibosVma},
    below.Pairwise (fun higher lower => lower.end' ≤ higher.begin) →
    (∀ vma ∈ below, vma.begin < vma.end') →
    (∀ vma ∈ below, vma.end' ≤ maxAddr) →
    findGap bottomAddr length maxAddr below = some found →
    length ≤ found ∧ bottomAddr ≤ found - length ∧ found ≤ maxAddr ∧
      (found = maxAddr ∨ ∃ vma ∈ below, found = vma.begin) ∧
      ∀ vma ∈ below, vma.end' ≤ found - length ∨ found ≤ vma.begin
  | maxAddr, found, [], _, _, _, h => by
    simp only [findGap] at h
    split_ifs at h with fits
    cases h
    refine ⟨by omega, by omega, le_rfl, .inl rfl, by simp⟩
  | maxAddr, found, vma :: below, descending, nonempty, underMax, h => by
    obtain ⟨lowerEnd, restDescending⟩ := List.pairwise_cons.mp descending
    have vmaNonempty := nonempty vma List.mem_cons_self
    have vmaUnder := underMax vma List.mem_cons_self
    simp only [findGap] at h
    split_ifs at h with reaches fits final
    · -- the gap between `vma` and `max_addr` is large enough
      cases h
      refine ⟨by omega, by omega, le_rfl, .inl rfl, ?_⟩
      intro other member
      rcases List.mem_cons.mp member with rfl | lower
      · exact .inl (by omega)
      · have := lowerEnd other lower
        exact .inl (by omega)
    · -- the search goes on below `vma`
      obtain ⟨long, above, bounded, source, apart⟩ :=
        findGap_eq_some positive restDescending
          (fun other member => nonempty other (List.mem_cons_of_mem vma member))
          (fun other member => lowerEnd other member) h
      refine ⟨long, above, by omega, .inr ?_, ?_⟩
      · rcases source with rfl | ⟨other, member, rfl⟩
        · exact ⟨vma, List.mem_cons_self, rfl⟩
        · exact ⟨other, List.mem_cons_of_mem vma member, rfl⟩
      · intro other member
        rcases List.mem_cons.mp member with rfl | lower
        · exact .inr bounded
        · exact apart other lower
    · -- `vma` lies below `bottom_addr`: the gap above it is the last chance
      cases h
      refine ⟨by omega, by omega, le_rfl, .inl rfl, ?_⟩
      intro other member
      rcases List.mem_cons.mp member with rfl | lower
      · exact .inl (by omega)
      · have := lowerEnd other lower
        exact .inl (by omega)

/-- The searched range ends at `top_addr`, clamped by the end of the early
LibOS range, by 2 GiB, or by both. -/
theorem searchRange_eq_ok {layout : PalMemoryLayout} {receivedUserMemory : Bool}
    {flags : UInt32} {bottomAddr topAddr bottom top : Nat}
    (h : searchRange layout receivedUserMemory flags bottomAddr topAddr = .ok (bottom, top)) :
    top = topAddr ∨ top = min topAddr layout.earlyLibosMemRangeEnd ∨ top = min topAddr (2 ^ 31) ∨
      top = min (min topAddr layout.earlyLibosMemRangeEnd) (2 ^ 31) := by
  simp only [searchRange] at h
  -- the early-memory clamp, then the `MAP_32BIT` clamp
  split_ifs at h with early outside <;> simp only at h <;> split_ifs at h <;>
    simp only [Except.ok.injEq, Prod.mk.injEq] at h <;> omega

/-- Every way `bkeep_mmap_any_in_range` succeeds: in the searched range, the
search below the VMA found at its top answers a gap, and the new mapping fills
the top `length` bytes of the gap. -/
theorem bkeepMmapAnyInRange_eq_ok {layout : PalMemoryLayout} {receivedUserMemory : Bool}
    {bottomAddr topAddr length : Nat} {prot flags : UInt32} {file : Option LibosHandle}
    {offset : Nat} {newVmaAllocated : Bool} {s s' : VmaState} {addr : Nat}
    (h : bkeepMmapAnyInRange allocAlignment layout receivedUserMemory bottomAddr topAddr length
      prot flags file offset newVmaAllocated s = .ok (s', addr)) :
    0 < length ∧ IsAllocAligned allocAlignment length ∧ IsAllocAligned allocAlignment topAddr ∧
    ∃ bottom top maxAddr found,
      searchRange layout receivedUserMemory flags bottomAddr topAddr = .ok (bottom, top) ∧
      ((lookupVma top s.vmaTree).2 = [] ∧ maxAddr = top ∨
        ∃ vma rest, (lookupVma top s.vmaTree).2 = vma :: rest ∧ maxAddr = min top vma.begin) ∧
      findGap bottom length maxAddr (lookupVma top s.vmaTree).1.reverse = some found ∧
      addr = found - length ∧
      s' = { vmaTree := insertVma (newMapping s.nextNode (found - length) found prot flags file offset)
               s.vmaTree
             totalMemorySize := s.totalMemorySize + length
             nextNode := s.nextNode + 1 } := by
  simp only [bkeepMmapAnyInRange] at h
  split_ifs at h with badLength badRange unallocated
  · generalize searchRange _ _ _ _ _ = range at h
    rcases range with err | ⟨bottom, top⟩ <;> cases h
  have lengthOk : length ≠ 0 ∧ IsAllocAligned allocAlignment length := by simpa using badLength
  have rangeOk : IsAllocAligned allocAlignment bottomAddr ∧ IsAllocAligned allocAlignment topAddr := by
    simpa using badRange
  generalize searched : searchRange _ _ _ _ _ = range at h
  rcases range with err | ⟨bottom, top⟩
  · cases h
  rcases lookup : lookupVma top s.vmaTree with ⟨below, above⟩
  simp only [lookup] at h
  generalize gap : findGap _ _ _ _ = answer at h
  cases answer with
  | none => cases h
  | some found =>
    simp only [Except.ok.injEq, Prod.mk.injEq] at h
    obtain ⟨rfl, rfl⟩ := h
    have long := findGap_length_le (Nat.pos_of_ne_zero lengthOk.1) gap
    refine ⟨Nat.pos_of_ne_zero lengthOk.1, lengthOk.2, rangeOk.2, bottom, top, _, found, rfl,
      ?_, by rw [lookup]; exact gap, by simp [newMapping], by simp [newMapping]; omega⟩
    rw [lookup]
    cases above with
    | nil => exact .inl ⟨rfl, rfl⟩
    | cons vma rest => exact .inr ⟨vma, rest, rfl, rfl⟩

/-- What `bkeep_mmap_any_aslr` answers is what one of its tries answers. -/
theorem bkeepMmapAnyAslr_eq_ok {layout : PalMemoryLayout} {receivedUserMemory : Bool}
    {memoryAddressStart memoryAddressEnd aslrAddrTop length : Nat} {prot flags : UInt32}
    {file : Option LibosHandle} {offset : Nat} {aslrNewVmaAllocated newVmaAllocated : Bool}
    {s : VmaState} {placed : VmaState × Nat}
    (h : bkeepMmapAnyAslr allocAlignment layout receivedUserMemory memoryAddressStart
      memoryAddressEnd aslrAddrTop length prot flags file offset aslrNewVmaAllocated
      newVmaAllocated s = .ok placed) :
    ∃ topAddr allocated, bkeepMmapAnyInRange allocAlignment layout receivedUserMemory
      memoryAddressStart topAddr length prot flags file offset allocated s = .ok placed := by
  unfold bkeepMmapAnyAslr at h
  split at h
  · rename_i first
    cases h
    exact ⟨_, _, first⟩
  · exact ⟨_, _, h⟩

end Calls

/-! ## `_vma_bkeep_change` -/

/-- The second loop of `_vma_bkeep_change` gives `prot` to a stretch of VMAs
that end by `end`, and then either stops at a VMA that starts at `end` or
later, or splits the VMA reaching past `end` there. -/
theorem changeFollowing_eq (stop : Nat) (prot : UInt32) (node2 : Nat) :
    ∀ tree : List LibosVma, ∃ done after, tree = done ++ after ∧ (∀ vma ∈ done, vma.end' ≤ stop) ∧
      ((∀ vma ∈ after.head?, stop ≤ vma.begin) ∧
          changeFollowing stop prot node2 tree =
            (done.map (fun vma => vmaUpdateProt vma prot) ++ after, none) ∨
        ∃ vma rest, after = vma :: rest ∧ vma.begin < stop ∧ stop < vma.end' ∧
          changeFollowing stop prot node2 tree =
            (done.map (fun vma => vmaUpdateProt vma prot) ++
                vmaUpdateProt (splitVma vma node2 stop).1 prot :: rest,
              some (splitVma vma node2 stop).2))
  | [] => ⟨[], [], rfl, by simp, .inl ⟨by simp, rfl⟩⟩
  | vma :: rest => by
    simp only [changeFollowing]
    split_ifs with ends starts
    · -- `vma` ends by `end` and gets `prot`; the walk goes on
      obtain ⟨done, after, split, doneEnds, stops⟩ := changeFollowing_eq stop prot node2 rest
      refine ⟨vma :: done, after, by rw [split]; rfl, ?_, ?_⟩
      · intro other member
        rcases List.mem_cons.mp member with same | member
        · exact same ▸ ends
        · exact doneEnds other member
      rcases stops with ⟨starts, walked⟩ | ⟨cut, later, rfl, below, inside, walked⟩
      · exact .inl ⟨starts, by rw [walked]; rfl⟩
      · exact .inr ⟨cut, later, rfl, below, inside, by rw [walked]; rfl⟩
    · exact ⟨[], vma :: rest, rfl, by simp, .inl ⟨by simpa using starts, rfl⟩⟩
    · exact ⟨[], vma :: rest, rfl, by simp, .inr ⟨vma, rest, rfl, by omega, by omega, rfl⟩⟩

/-- Every way `_vma_bkeep_change` succeeds. The checks passed on the VMA that
holds `begin` and the ones after it; then either the range lies inside that
VMA, which is split at `begin` and at `end`; or it is split at `begin` and the
walk goes on from the VMA that followed it; or the walk starts at it. -/
theorem vmaBkeepChange_eq_some_ok {begin stop : Nat} {prot : UInt32} {isInternal : Bool}
    {node1 node2 : Nat} {s s' : VmaState}
    (h : vmaBkeepChange begin stop prot isInternal node1 node2 s = some (.ok s')) :
    ∃ before vma rest, lookupVma begin s.vmaTree = (before, vma :: rest) ∧ vma.begin ≤ begin ∧
      changeChecks stop prot isInternal vma rest = .ok true ∧
      ((vma.begin < begin ∧ prot &&& PROT_GROWSDOWN = 0 ∧ stop < vma.end' ∧
          s' = { s with
            vmaTree := insertVma
              (vmaUpdateProt (splitVma (vmaUpdateProt (splitVma vma node1 begin).2 prot) node2 stop).2
                vma.prot)
              (updateNode node1 (fun v => (splitVma v node2 stop).1)
                (insertVma (vmaUpdateProt (splitVma vma node1 begin).2 prot)
                  (before ++ (splitVma vma node1 begin).1 :: rest))) }) ∨
        (vma.begin < begin ∧ prot &&& PROT_GROWSDOWN = 0 ∧ vma.end' ≤ stop ∧
          ∃ next later, rest = next :: later ∧
          s' = { s with
            vmaTree :=
              insertTail (changeFollowing stop prot node2 (splitAtNode next.node
                  (insertVma (vmaUpdateProt (splitVma vma node1 begin).2 prot)
                    (before ++ (splitVma vma node1 begin).1 :: rest))).2).2
                ((splitAtNode next.node
                    (insertVma (vmaUpdateProt (splitVma vma node1 begin).2 prot)
                      (before ++ (splitVma vma node1 begin).1 :: rest))).1 ++
                  (changeFollowing stop prot node2 (splitAtNode next.node
                    (insertVma (vmaUpdateProt (splitVma vma node1 begin).2 prot)
                      (before ++ (splitVma vma node1 begin).1 :: rest))).2).1) }) ∨
        (¬ (vma.begin < begin ∧ prot &&& PROT_GROWSDOWN = 0) ∧
          s' = { s with
            vmaTree := insertTail (changeFollowing stop prot node2 (vma :: rest)).2
              (before ++ (changeFollowing stop prot node2 (vma :: rest)).1) })) := by
  simp only [vmaBkeepChange] at h
  rcases lookup : lookupVma begin s.vmaTree with ⟨before, found⟩
  simp only [lookup] at h
  cases found with
  | nil => cases h
  | cons vma rest =>
    refine ⟨before, vma, rest, rfl, ?_⟩
    simp only at h
    generalize checks : changeChecks stop prot isInternal vma rest = answer at h
    rcases answer with err | _ | _
    · simp only at h
      split_ifs at h <;> cases h
    · simp only at h
      split_ifs at h <;> cases h
    simp only at h
    split_ifs at h with above split inside
    · cases h
    · simp only [Option.some.injEq, Except.ok.injEq] at h
      refine ⟨Nat.le_of_not_lt above, rfl,
        .inl ⟨split.1, split.2, by simpa [splitVma, vmaUpdateProt] using inside, ?_⟩⟩
      rw [← h]
      simp [splitVma, LibosVma.cutEnd]
    · cases rest with
      | nil => cases h
      | cons next later =>
        simp only [Option.some.injEq, Except.ok.injEq] at h
        refine ⟨Nat.le_of_not_lt above, rfl,
          .inr (.inl ⟨split.1, split.2, ?_, next, later, rfl, h.symm⟩)⟩
        simpa [splitVma, vmaUpdateProt] using inside
    · simp only [Option.some.injEq, Except.ok.injEq] at h
      exact ⟨Nat.le_of_not_lt above, rfl, .inr (.inr ⟨split, h.symm⟩)⟩

/-- `_vma_bkeep_change` dereferences a null `next` exactly when the range
starts strictly inside the last VMA and reaches its end. -/
theorem vmaBkeepChange_eq_none {begin stop : Nat} {prot : UInt32} {isInternal : Bool}
    {node1 node2 : Nat} {s : VmaState} :
    vmaBkeepChange begin stop prot isInternal node1 node2 s = none ↔
      ∃ before vma, lookupVma begin s.vmaTree = (before, [vma]) ∧
        changeChecks stop prot isInternal vma [] = .ok true ∧
        vma.begin < begin ∧ prot &&& PROT_GROWSDOWN = 0 ∧ vma.end' ≤ stop := by
  constructor
  · intro h
    simp only [vmaBkeepChange] at h
    rcases lookup : lookupVma begin s.vmaTree with ⟨before, found⟩
    simp only [lookup] at h
    cases found with
    | nil => cases h
    | cons vma rest =>
      simp only at h
      generalize checks : changeChecks stop prot isInternal vma rest = answer at h
      rcases answer with err | _ | _
      · simp only at h
        split_ifs at h
      · simp only at h
        split_ifs at h
      simp only at h
      cases rest with
      | cons next later =>
        simp only at h
        split_ifs at h
      | nil =>
        simp only at h
        split_ifs at h with above split inside
        exact ⟨before, vma, rfl, checks, split.1, split.2,
          by simpa [splitVma, vmaUpdateProt] using inside⟩
  · rintro ⟨before, vma, lookup, checks, below, noGrowsDown, reaches⟩
    have notAbove : ¬ begin < vma.begin := by omega
    have notInside : ¬ stop < (vmaUpdateProt (splitVma vma node1 begin).2 prot).end' := by
      simp only [splitVma, vmaUpdateProt]
      omega
    simp only [vmaBkeepChange, lookup, checks, notAbove, if_false, below, noGrowsDown, and_self,
      if_true, notInside]

/-! ## `bkeep_mprotect` -/

section Calls

variable {allocAlignment : Nat}

/-- `bkeep_mprotect` succeeds only by `_vma_bkeep_change` with the two spare nodes. -/
theorem bkeepMprotect_eq_some_ok {addr length : Nat} {prot : UInt32}
    {isInternal vma1Allocated vma2Allocated : Bool} {s s' : VmaState}
    (h : bkeepMprotect allocAlignment addr length prot isInternal vma1Allocated vma2Allocated s =
      some (.ok s')) :
    ¬ IsBadRange allocAlignment addr length ∧
      vmaBkeepChange addr (addr + length) prot isInternal s.nextNode (s.nextNode + 1)
        { s with nextNode := s.nextNode + 2 } = some (.ok s') := by
  simp only [bkeepMprotect] at h
  split_ifs at h with bad unallocated1 unallocated2
  · cases h
  · cases h
  · cases h
  · exact ⟨bad, h⟩

/-- `bkeep_mprotect` crashes only where `_vma_bkeep_change` does. -/
theorem bkeepMprotect_eq_none {addr length : Nat} {prot : UInt32}
    {isInternal vma1Allocated vma2Allocated : Bool} {s : VmaState} :
    bkeepMprotect allocAlignment addr length prot isInternal vma1Allocated vma2Allocated s = none ↔
      ¬ IsBadRange allocAlignment addr length ∧ vma1Allocated = true ∧ vma2Allocated = true ∧
      vmaBkeepChange addr (addr + length) prot isInternal s.nextNode (s.nextNode + 1)
        { s with nextNode := s.nextNode + 2 } = none := by
  simp only [bkeepMprotect]
  split_ifs with bad unallocated1 unallocated2 <;> simp_all

end Calls

/-! ## Calls on one VMA -/

/-- Every way `bkeep_vma_update_valid_length` succeeds: the VMA found starts
at `begin_addr` and is at least `valid_length` long. -/
theorem bkeepVmaUpdateValidLength_eq_ok {beginAddr validLength : Nat} {s s' : VmaState}
    (h : bkeepVmaUpdateValidLength beginAddr validLength s = .ok s') :
    ∃ before vma rest, lookupVma beginAddr s.vmaTree = (before, vma :: rest) ∧
      vma.begin = beginAddr ∧ validLength ≤ vma.end' - vma.begin ∧
      s' = { s with vmaTree := before ++ { vma with validEnd := vma.begin + validLength } :: rest } := by
  simp only [bkeepVmaUpdateValidLength] at h
  rcases lookup : lookupVma beginAddr s.vmaTree with ⟨before, found⟩
  simp only [lookup] at h
  cases found with
  | nil => cases h
  | cons vma rest =>
    simp only at h
    split_ifs at h with outside wrong
    simp only [Except.ok.injEq] at h
    simp only [not_or, not_lt, ne_eq, not_not] at wrong
    exact ⟨before, vma, rest, rfl, wrong.1, wrong.2, h.symm⟩

/-- The first place a node occurs in the tree. -/
theorem exists_first_node {tree : List LibosVma} {node : Nat}
    (h : ∃ vma ∈ tree, vma.node = node) :
    ∃ before vma after, tree = before ++ vma :: after ∧ vma.node = node ∧
      ∀ v ∈ before, v.node ≠ node := by
  obtain ⟨vma, found⟩ :=
    Option.isSome_iff_exists.mp (List.find?_isSome.mpr (by simpa using h) :
      (tree.find? fun vma => vma.node == node).isSome)
  obtain ⟨here, before, after, split, others⟩ := List.find?_eq_some_iff_append.mp found
  exact ⟨before, vma, after, split, by simpa using here, fun v member => by
    simpa using others v member⟩

/-- Every way `bkeep_remove_tmp_vma` returns: the node is in the tree, and its
first occurrence is deleted. -/
theorem bkeepRemoveTmpVma_eq_some {node : Nat} {s s' : VmaState}
    (h : bkeepRemoveTmpVma node s = some s') :
    ∃ before vma after, s.vmaTree = before ++ vma :: after ∧ vma.node = node ∧
      (∀ v ∈ before, v.node ≠ node) ∧
      s' = { s with
        vmaTree := before ++ after
        totalMemorySize := s.totalMemorySize - (vma.end' - vma.begin) } := by
  simp only [bkeepRemoveTmpVma] at h
  rcases found : s.vmaTree.find? (fun vma => vma.node == node) with _ | vma
  · simp [found] at h
  · simp only [found, Option.some.injEq] at h
    obtain ⟨here, before, after, split, others⟩ := List.find?_eq_some_iff_append.mp found
    refine ⟨before, vma, after, split, by simpa using here,
      fun v member => by simpa using others v member, ?_⟩
    rw [← h, split, List.eraseP_append_right _ (fun v member => by simpa using others v member)]
    simp [here]

/-- Every way `bkeep_convert_tmp_vma_to_user` returns: the node is in the tree,
and its first occurrence loses `VMA_INTERNAL`. -/
theorem bkeepConvertTmpVmaToUser_eq_some {node : Nat} {s s' : VmaState}
    (h : bkeepConvertTmpVmaToUser node s = some s') :
    ∃ before vma after, s.vmaTree = before ++ vma :: after ∧ vma.node = node ∧
      (∀ v ∈ before, v.node ≠ node) ∧
      s' = { s with
        vmaTree := before ++ { vma with flags := vma.flags &&& ~~~VMA_INTERNAL } :: after } := by
  simp only [bkeepConvertTmpVmaToUser] at h
  split_ifs at h with present
  obtain ⟨before, vma, after, split, here, others⟩ :=
    exists_first_node (by simpa using present)
  refine ⟨before, vma, after, split, here, others, ?_⟩
  rw [← Option.some.inj h, split, updateNode_eq others here]

/-- `_bkeep_initial_vma` adds the VMA when it meets none. -/
theorem bkeepInitialVma_eq_ok {vma : LibosVma} {s s' : VmaState}
    (h : bkeepInitialVma vma s = .ok s') :
    overlapsExisting vma.begin vma.end' s.vmaTree = false ∧
      s' = { s with
        vmaTree := insertVma vma s.vmaTree
        totalMemorySize := s.totalMemorySize + (vma.end' - vma.begin) } := by
  simp only [bkeepInitialVma] at h
  split_ifs at h with overlaps
  simp only [Except.ok.injEq] at h
  exact ⟨by simpa using overlaps, h.symm⟩

end Gramine.LibOS.Bookkeep
