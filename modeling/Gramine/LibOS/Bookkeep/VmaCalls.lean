import Gramine.LibOS.Bookkeep.VmaInvariant

/-!
# Every bookkeeping call keeps the tree well formed

One theorem per call of `libos_vma.c`: from a well-formed state, the state a
successful call leaves is well formed. Each proof takes the call apart with its
lemma of `VmaSteps` and puts the result together from the shapes of
`VmaInvariant`: a removal (`vmaBkeepRemove_wellFormed`), a stretch replaced by
pieces (`WellFormed.replace`) and a VMA inserted apart from the others
(`WellFormed.insert`).

The nodes of the spare VMAs a call allocates are `nextNode` and the ones after
it; that they are not in the tree is what lets a split VMA and its copy be two
VMAs of the tree.
-/

namespace Gramine.LibOS.Bookkeep

open IntervalList

variable {allocAlignment : Nat} {s s' : VmaState}

/-! ## Arguments and spare nodes -/

theorem not_isBadRange {addr length : Nat} (h : ¬ IsBadRange allocAlignment addr length) :
    0 < length ∧ IsAllocAligned allocAlignment length ∧ IsAllocAligned allocAlignment addr ∧
      IsAllocAligned allocAlignment (addr + length) := by
  simp only [IsBadRange, not_or, not_not] at h
  exact ⟨Nat.pos_of_ne_zero h.1, h.2.1, h.2.2, Nat.dvd_add h.2.2 h.2.1⟩

/-- The range between two aligned addresses is a good argument. -/
theorem not_isBadRange_sub {addr stop : Nat} (range : addr < stop)
    (addrAligned : IsAllocAligned allocAlignment addr)
    (stopAligned : IsAllocAligned allocAlignment stop) :
    ¬ IsBadRange allocAlignment addr (stop - addr) := by
  simp only [IsBadRange, not_or, not_not]
  exact ⟨by omega, Nat.dvd_sub stopAligned addrAligned, addrAligned⟩

/-- The second spare node of a call that allocates two is not in the tree. -/
theorem VmaState.WellFormed.secondSpare (wf : s.WellFormed allocAlignment) (allocated : Bool) :
    ∀ node, (if allocated then some (s.nextNode + 1) else none) = some node →
      node < s.nextNode + 2 ∧ ∀ vma ∈ s.vmaTree, vma.node ≠ node := by
  intro node spare
  cases allocated <;> simp only [Bool.false_eq_true, if_false, if_true, reduceCtorEq,
    Option.some.injEq] at spare
  subst spare
  exact ⟨by omega, fun vma member => by have := wf.nodesFresh vma member; omega⟩

/-- After a removal that may have used the second spare node, the first one is
still not in the tree. -/
theorem VmaState.WellFormed.firstSpare_fresh (wf : s.WellFormed allocAlignment)
    {allocated : Bool} {tree : List LibosVma}
    (provenance : ∀ vma ∈ tree, (∃ old ∈ s.vmaTree, old.node = vma.node) ∨
      (if allocated then some (s.nextNode + 1) else none) = some vma.node) :
    ∀ vma ∈ tree, vma.node ≠ s.nextNode := by
  intro vma member
  rcases provenance vma member with ⟨old, oldMember, same⟩ | spare
  · have := wf.nodesFresh old oldMember
    omega
  · cases allocated <;> simp only [Bool.false_eq_true, if_false, if_true, reduceCtorEq,
      Option.some.injEq] at spare
    omega

/-! ## `bkeep_munmap` -/

/-- `_add_unmapped_vma` over an aligned range that meets no VMA, in a node not
in the tree. -/
theorem VmaState.WellFormed.addUnmappedVma (wf : s.WellFormed allocAlignment)
    {begin stop node : Nat} (range : begin < stop)
    (beginAligned : IsAllocAligned allocAlignment begin)
    (stopAligned : IsAllocAligned allocAlignment stop)
    (apart : ∀ vma ∈ s.vmaTree, vma.end' ≤ begin ∨ stop ≤ vma.begin)
    (fresh : ∀ vma ∈ s.vmaTree, vma.node ≠ node) (handedOut : node < s.nextNode) :
    (Bookkeep.addUnmappedVma begin stop node s).WellFormed allocAlignment := by
  refine wf.insert ?_ apart fresh rfl rfl handedOut le_rfl
  exact ⟨range, beginAligned, stopAligned, range.le, le_rfl, fun _ => rfl⟩

theorem bkeepMunmap_wellFormed (wf : s.WellFormed allocAlignment) {addr length : Nat}
    {isInternal vma1Allocated vma2Allocated : Bool} {tmp : Nat}
    (h : bkeepMunmap allocAlignment addr length isInternal vma1Allocated vma2Allocated s =
      .ok (s', tmp)) :
    s'.WellFormed allocAlignment := by
  obtain ⟨bad, -, cleared, removed, rfl⟩ := bkeepMunmap_eq_ok h
  obtain ⟨positive, -, addrAligned, stopAligned⟩ := not_isBadRange bad
  obtain ⟨clearedWf, clearedNext, apart, provenance⟩ := vmaBkeepRemove_wellFormed
    (wf.handOut 2) (by omega) addrAligned stopAligned (wf.secondSpare vma2Allocated) removed
  exact clearedWf.addUnmappedVma (by omega) addrAligned stopAligned apart
    (wf.firstSpare_fresh provenance) (by simp only [clearedNext]; omega)

/-! ## `bkeep_mmap_fixed` -/

theorem bkeepMmapFixed_wellFormed (wf : s.WellFormed allocAlignment) {addr length : Nat}
    {prot flags : UInt32} {file : Option LibosHandle} {offset : Nat}
    {newVmaAllocated vma1Allocated : Bool}
    (h : bkeepMmapFixed allocAlignment addr length prot flags file offset newVmaAllocated
      vma1Allocated s = .ok s') :
    s'.WellFormed allocAlignment := by
  obtain ⟨bad, cleared, clearing, rfl⟩ := bkeepMmapFixed_eq_ok h
  obtain ⟨positive, -, addrAligned, stopAligned⟩ := not_isBadRange bad
  have mappingOk : (newMapping s.nextNode addr (addr + length) prot flags file offset).Ok
      allocAlignment := newMapping_ok (by omega) addrAligned stopAligned
  rcases clearing with ⟨-, overlaps, rfl⟩ | ⟨-, removed⟩
  · -- `MAP_FIXED_NOREPLACE` on a range that meets no VMA
    exact (wf.handOut 2).insert mappingOk (apart_of_overlapsExisting wf overlaps)
      (fun vma member => Nat.ne_of_lt (wf.nodesFresh vma member)) rfl (by simp)
      (by simp) le_rfl
  · obtain ⟨clearedWf, clearedNext, apart, provenance⟩ := vmaBkeepRemove_wellFormed
      (wf.handOut 2) (by omega) addrAligned stopAligned (wf.secondSpare vma1Allocated) removed
    exact clearedWf.insert mappingOk apart (wf.firstSpare_fresh provenance) rfl (by simp)
      (by simp only [newMapping_node, clearedNext]; omega) le_rfl

/-! ## `bkeep_mmap_any_in_range` -/

section AnyInRange

variable {layout : PalMemoryLayout}

theorem IsAllocAligned.min {a b : Nat} (ha : IsAllocAligned allocAlignment a)
    (hb : IsAllocAligned allocAlignment b) : IsAllocAligned allocAlignment (min a b) := by
  rcases Nat.le_total a b with le | le
  · rwa [Nat.min_eq_left le]
  · rwa [Nat.min_eq_right le]

/-- The searched range ends at an aligned address when `top_addr`, the end of
the early LibOS range and 2 GiB are aligned. -/
theorem searchRange_top_aligned
    (earlyAligned : IsAllocAligned allocAlignment layout.earlyLibosMemRangeEnd)
    (lowAligned : IsAllocAligned allocAlignment (2 ^ 31)) {receivedUserMemory : Bool}
    {flags : UInt32} {bottomAddr topAddr bottom top : Nat}
    (topAligned : IsAllocAligned allocAlignment topAddr)
    (h : searchRange layout receivedUserMemory flags bottomAddr topAddr = .ok (bottom, top)) :
    IsAllocAligned allocAlignment top := by
  rcases searchRange_eq_ok h with rfl | rfl | rfl | rfl
  · exact topAligned
  · exact topAligned.min earlyAligned
  · exact topAligned.min lowAligned
  · exact (topAligned.min earlyAligned).min lowAligned

theorem bkeepMmapAnyInRange_wellFormed (wf : s.WellFormed allocAlignment)
    (earlyAligned : IsAllocAligned allocAlignment layout.earlyLibosMemRangeEnd)
    (lowAligned : IsAllocAligned allocAlignment (2 ^ 31)) {receivedUserMemory : Bool}
    {bottomAddr topAddr length : Nat} {prot flags : UInt32} {file : Option LibosHandle}
    {offset : Nat} {newVmaAllocated : Bool} {addr : Nat}
    (h : bkeepMmapAnyInRange allocAlignment layout receivedUserMemory bottomAddr topAddr length
      prot flags file offset newVmaAllocated s = .ok (s', addr)) :
    s'.WellFormed allocAlignment := by
  obtain ⟨positive, lengthAligned, topAligned, bottom, top, maxAddr, found, searched, atTop, gap,
    -, rfl⟩ := bkeepMmapAnyInRange_eq_ok h
  rcases lookup : lookupVma top s.vmaTree with ⟨below, above⟩
  simp only [lookup] at atTop gap
  obtain ⟨split, belowEnd, -⟩ := lookupVma_eq lookup
  have ascending := wf.ascending
  rw [split] at ascending
  obtain ⟨belowAscending, aboveAscending, cross⟩ := ascending_append.mp ascending
  -- the VMAs below end by `max_addr`: by `top_addr`, and by the start of the VMA above
  have underMax : ∀ vma ∈ below.reverse, vma.end' ≤ maxAddr := by
    intro vma member
    rw [List.mem_reverse] at member
    rcases atTop with ⟨-, rfl⟩ | ⟨next, rest, rfl, rfl⟩
    · exact belowEnd vma member
    · exact le_min (belowEnd vma member) (cross vma member next List.mem_cons_self)
  have maxAligned : IsAllocAligned allocAlignment maxAddr := by
    have topOk := searchRange_top_aligned earlyAligned lowAligned topAligned searched
    rcases atTop with ⟨-, rfl⟩ | ⟨next, rest, rfl, rfl⟩
    · exact topOk
    · exact topOk.min (wf.vmasOk next (by simp [split])).beginAligned
  obtain ⟨long, -, foundMax, foundAt, gapApart⟩ := findGap_eq_some positive
    (List.pairwise_reverse.mpr belowAscending)
    (fun vma member => wf.nonempty vma (by rw [split]; simp [List.mem_reverse.mp member]))
    underMax gap
  have foundAligned : IsAllocAligned allocAlignment found := by
    rcases foundAt with rfl | ⟨vma, member, rfl⟩
    · exact maxAligned
    · exact (wf.vmasOk vma (by rw [split]; simp [List.mem_reverse.mp member])).beginAligned
  have mappingOk : (newMapping s.nextNode (found - length) found prot flags file offset).Ok
      allocAlignment := newMapping_ok (by omega) (Nat.dvd_sub foundAligned lengthAligned) foundAligned
  refine wf.insert mappingOk ?_ (fun vma member => Nat.ne_of_lt (wf.nodesFresh vma member)) rfl
    (by simp only [newMapping_begin, newMapping_end']; omega)
    (by simp only [newMapping_node]; omega) (Nat.le_succ _)
  -- the gap meets no VMA below it, and ends by the start of those above it
  intro vma member
  rw [split] at member
  rcases List.mem_append.mp member with member | member
  · simpa using gapApart vma (List.mem_reverse.mpr member)
  · rcases atTop with ⟨rfl, -⟩ | ⟨next, rest, rfl, rfl⟩
    · simp at member
    · have nextNonempty := wf.nonempty next (by simp [split])
      rcases List.mem_cons.mp member with same | later
      · exact .inr (by simp only [newMapping_end', same]; omega)
      · have := (ascending_cons.mp aboveAscending).1 vma later
        exact .inr (by simp only [newMapping_end']; omega)

end AnyInRange

/-! ## `bkeep_mprotect` -/

section Change

/-- Splitting a VMA of the tree at an aligned address inside it, the copy in a
node not in the tree and given `prot`, keeps the tree well formed with its
total; every node of the new tree was in the tree or is the copy's. This is
the first step of `_vma_bkeep_change`. -/
theorem VmaState.WellFormed.splitAt (wf : s.WellFormed allocAlignment)
    {before rest : List LibosVma} {vma : LibosVma} {addr node : Nat} (prot : UInt32)
    (split : s.vmaTree = before ++ vma :: rest) (above : vma.begin < addr)
    (inside : addr < vma.end') (aligned : IsAllocAligned allocAlignment addr)
    (fresh : ∀ v ∈ s.vmaTree, v.node ≠ node) (handedOut : node < s.nextNode) :
    VmaState.WellFormed allocAlignment { s with
      vmaTree := insertVma (vmaUpdateProt (splitVma vma node addr).2 prot)
        (before ++ (splitVma vma node addr).1 :: rest) } ∧
    ∀ v ∈ insertVma (vmaUpdateProt (splitVma vma node addr).2 prot)
        (before ++ (splitVma vma node addr).1 :: rest),
      (∃ old ∈ s.vmaTree, old.node = v.node) ∨ v.node = node := by
  have vmaOk := wf.vmasOk vma (by simp [split])
  obtain ⟨beforeVma, restAfter⟩ := wf.around split
  have alone : s.vmaTree = before ++ [vma] ++ rest := by simp [split]
  have headOk : (vma.cutEnd addr).Ok allocAlignment := vmaOk.cutEnd above inside.le aligned
  have copyOk : (vmaUpdateProt (splitVma vma node addr).2 prot).Ok allocAlignment :=
    (vmaOk.splitVma inside aligned).vmaUpdateProt prot
  -- the head stays in the place of `vma`, and the copy goes in after it
  have headed : VmaState.WellFormed allocAlignment
      ⟨before ++ [vma.cutEnd addr] ++ rest, totalLength LibosVma.begin
        LibosVma.end' (before ++ [vma.cutEnd addr] ++ rest), s.nextNode⟩ :=
    wf.replace alone (by simp [Ascending]) (by simp; omega) (by simpa using headOk) (by simp)
      rfl rfl le_rfl
  have provenance : ∀ v ∈ insertVma (vmaUpdateProt (splitVma vma node addr).2 prot)
      (before ++ (splitVma vma node addr).1 :: rest),
      (∃ old ∈ s.vmaTree, old.node = v.node) ∨ v.node = node := by
    intro v member
    simp only [insertVma, mem_insertByHi, List.mem_append, List.mem_cons] at member
    rcases member with same | member | same | member
    · exact .inr (by simp [same])
    · exact .inl ⟨v, by simp [split, member], rfl⟩
    · exact .inl ⟨vma, by simp [split], by simp [same]⟩
    · exact .inl ⟨v, by simp [split, member], rfl⟩
  refine ⟨headed.insert copyOk ?_ ?_ (by simp) ?_ handedOut le_rfl, provenance⟩
  · intro other member
    simp only [List.append_assoc, List.singleton_append, List.mem_append, List.mem_cons] at member
    rcases member with member | same | member
    · exact .inl (by have := beforeVma other member; simp; omega)
    · exact .inl (by simp [same])
    · exact .inr (by simpa using restAfter other member)
  · intro other member
    obtain ⟨old, oldMember, same⟩ :=
      nodes_of_replace alone (by simp : ([vma.cutEnd addr].map LibosVma.node).Sublist
        ([vma].map LibosVma.node)) rfl other member
    exact same ▸ fresh old oldMember
  · have total := wf.total
    rw [alone] at total
    simp only [totalLength_append, totalLength_cons, totalLength_nil] at total ⊢
    simp only [vmaUpdateProt_begin, vmaUpdateProt_end', splitVma_snd_begin, splitVma_snd_end',
      LibosVma.cutEnd_begin, LibosVma.cutEnd_end']
    omega

/-- The same split, of the VMA in a node of the tree: the second split of
`_vma_bkeep_change`, which cuts the copy where it stands. -/
theorem VmaState.WellFormed.splitNode (wf : s.WellFormed allocAlignment) {vma : LibosVma}
    {addr node : Nat} (prot : UInt32) (member : vma ∈ s.vmaTree) (above : vma.begin < addr)
    (inside : addr < vma.end') (aligned : IsAllocAligned allocAlignment addr)
    (fresh : ∀ v ∈ s.vmaTree, v.node ≠ node) (handedOut : node < s.nextNode) :
    VmaState.WellFormed allocAlignment { s with
      vmaTree := insertVma (vmaUpdateProt (splitVma vma node addr).2 prot)
        (updateNode vma.node (fun v => (splitVma v node addr).1) s.vmaTree) } := by
  obtain ⟨before, first, rest, split, sameNode, others⟩ := exists_first_node ⟨vma, member, rfl⟩
  -- nodes are distinct, so the first VMA in the node of `vma` is `vma`
  have isVma : first = vma :=
    List.inj_on_of_nodup_map wf.nodesDistinct (by simp [split]) member sameNode
  subst isVma
  rw [split, updateNode_eq others sameNode]
  exact (wf.splitAt prot split above inside aligned fresh handedOut).1

/-- The second loop of `_vma_bkeep_change`, run from any point of a
well-formed tree, keeps it well formed; the tail it splits off goes in a node
not in the tree. -/
theorem VmaState.WellFormed.changeFollowing (wf : s.WellFormed allocAlignment)
    {upto fromNext : List LibosVma} {stop : Nat} {prot : UInt32} {node2 : Nat}
    (split : s.vmaTree = upto ++ fromNext) (stopAligned : IsAllocAligned allocAlignment stop)
    (fresh : ∀ vma ∈ s.vmaTree, vma.node ≠ node2) (handedOut : node2 < s.nextNode) :
    VmaState.WellFormed allocAlignment { s with
      vmaTree := insertTail (Bookkeep.changeFollowing stop prot node2 fromNext).2
        (upto ++ (Bookkeep.changeFollowing stop prot node2 fromNext).1) } := by
  obtain ⟨done, after, rfl, doneEnds, stops⟩ := changeFollowing_eq stop prot node2 fromNext
  have doneSplit : s.vmaTree = upto ++ done ++ after := by simp [split]
  have doneAscending : Ascending LibosVma.begin LibosVma.end' done :=
    (ascending_append.mp (ascending_append.mp (doneSplit ▸ wf.ascending)).1).2.1
  -- the VMAs that end by `end` keep their place; only their `prot` changes
  have updatedAscending : Ascending LibosVma.begin LibosVma.end'
      (done.map fun vma => vmaUpdateProt vma prot) :=
    doneAscending.map (fun vma => vmaUpdateProt_begin vma prot)
      (fun vma => vmaUpdateProt_end' vma prot)
  have updatedInside : ∀ vma ∈ done.map (fun vma => vmaUpdateProt vma prot),
      ∃ old ∈ done, old.begin ≤ vma.begin ∧ vma.end' ≤ old.end' := by
    intro vma member
    obtain ⟨old, oldMember, rfl⟩ := List.mem_map.mp member
    exact ⟨old, oldMember, by simp, by simp⟩
  have updatedOk : ∀ vma ∈ done.map (fun vma => vmaUpdateProt vma prot),
      vma.Ok allocAlignment := by
    intro vma member
    obtain ⟨old, oldMember, rfl⟩ := List.mem_map.mp member
    exact (wf.vmasOk old (by rw [doneSplit]; simp [oldMember])).vmaUpdateProt prot
  have updatedLength : totalLength LibosVma.begin LibosVma.end'
      (done.map fun vma => vmaUpdateProt vma prot) = totalLength LibosVma.begin LibosVma.end' done :=
    totalLength_map (fun vma => vmaUpdateProt_begin vma prot)
      (fun vma => vmaUpdateProt_end' vma prot) done
  rcases stops with ⟨-, walked⟩ | ⟨vma, rest, rfl, below, inside, walked⟩
  · -- no VMA reaches past `end`
    rw [walked]
    exact wf.replace doneSplit updatedAscending updatedInside updatedOk
      (by simp [Function.comp_def]) (by simp [insertTail])
      (by simp only [wf.total, doneSplit, totalLength_append, updatedLength]) le_rfl
  -- the VMA reaching past `end` is split there: its head stays, its tail goes in
  rw [walked]
  have vmaSplit : s.vmaTree = upto ++ (done ++ [vma]) ++ rest := by simp [doneSplit]
  have vmaOk := wf.vmasOk vma (by simp [doneSplit])
  have vmaAt : s.vmaTree = upto ++ done ++ vma :: rest := by simp [doneSplit]
  obtain ⟨beforeVma, restAfter⟩ := wf.around vmaAt
  have tailOk : (splitVma vma node2 stop).2.Ok allocAlignment := vmaOk.splitVma inside stopAligned
  have piecesAscending : Ascending LibosVma.begin LibosVma.end'
      (done.map (fun vma => vmaUpdateProt vma prot) ++ [vmaUpdateProt (vma.cutEnd stop) prot]) := by
    refine ascending_append.mpr ⟨updatedAscending, List.pairwise_singleton _ _, ?_⟩
    intro piece member head headMember
    obtain ⟨old, oldMember, rfl⟩ := List.mem_map.mp member
    rw [List.mem_singleton] at headMember
    subst headMember
    simpa using beforeVma old (by simp [oldMember])
  have piecesNodes : ((done.map (fun vma => vmaUpdateProt vma prot) ++
      [vmaUpdateProt (vma.cutEnd stop) prot]).map LibosVma.node).Sublist
      ((done ++ [vma]).map LibosVma.node) := by
    simp [Function.comp_def]
  have headed : VmaState.WellFormed allocAlignment
      ⟨upto ++ (done.map (fun vma => vmaUpdateProt vma prot) ++
          [vmaUpdateProt (vma.cutEnd stop) prot]) ++ rest,
        totalLength LibosVma.begin LibosVma.end' (upto ++ (done.map (fun vma => vmaUpdateProt vma
          prot) ++ [vmaUpdateProt (vma.cutEnd stop) prot]) ++ rest), s.nextNode⟩ := by
    refine wf.replace vmaSplit piecesAscending ?_ ?_ piecesNodes rfl rfl le_rfl
    · intro piece member
      rcases List.mem_append.mp member with member | member
      · obtain ⟨old, oldMember, inside⟩ := updatedInside piece member
        exact ⟨old, by simp [oldMember], inside⟩
      · rw [List.mem_singleton] at member
        exact ⟨vma, by simp, by simp [member], by simp [member]; omega⟩
    · intro piece member
      rcases List.mem_append.mp member with member | member
      · exact updatedOk piece member
      · rw [List.mem_singleton] at member
        exact member ▸ (vmaOk.cutEnd below inside.le stopAligned).vmaUpdateProt prot
  refine headed.insert tailOk ?_ ?_ (by simp [insertTail]) ?_ handedOut le_rfl
  · intro other member
    simp only [List.mem_append, List.mem_singleton] at member
    rcases member with (member | member | same) | member
    · exact .inl (by have := beforeVma other (by simp [member]); simp; omega)
    · obtain ⟨old, oldMember, rfl⟩ := List.mem_map.mp member
      exact .inl (by simpa using doneEnds old oldMember)
    · exact .inl (by simp [same])
    · exact .inr (by simpa using restAfter other member)
  · intro other member
    obtain ⟨old, oldMember, same⟩ := nodes_of_replace vmaSplit piecesNodes rfl other member
    exact same ▸ fresh old oldMember
  · have total := wf.total
    rw [vmaSplit] at total
    simp only [totalLength_append, totalLength_cons, totalLength_nil, updatedLength] at total ⊢
    simp only [vmaUpdateProt_begin, vmaUpdateProt_end', splitVma_snd_begin, splitVma_snd_end',
      LibosVma.cutEnd_begin, LibosVma.cutEnd_end']
    omega

/-- `_vma_bkeep_change` over an aligned range keeps the tree well formed when
its two spare nodes are distinct, handed out and not in the tree. -/
theorem vmaBkeepChange_wellFormed (wf : s.WellFormed allocAlignment) {begin stop : Nat}
    {prot : UInt32} {isInternal : Bool} {node1 node2 : Nat}
    (range : begin < stop) (beginAligned : IsAllocAligned allocAlignment begin)
    (stopAligned : IsAllocAligned allocAlignment stop)
    (fresh1 : ∀ vma ∈ s.vmaTree, vma.node ≠ node1) (fresh2 : ∀ vma ∈ s.vmaTree, vma.node ≠ node2)
    (distinct : node1 ≠ node2) (handedOut1 : node1 < s.nextNode)
    (handedOut2 : node2 < s.nextNode)
    (h : vmaBkeepChange begin stop prot isInternal node1 node2 s = some (.ok s')) :
    s'.WellFormed allocAlignment := by
  obtain ⟨before, vma, rest, lookup, -, -, change⟩ := vmaBkeepChange_eq_some_ok h
  obtain ⟨split, -, reaches, -, -⟩ := wf.lookup lookup
  rcases change with ⟨below, -, inside, rfl⟩ | ⟨below, -, -, next, later, -, rfl⟩ | ⟨-, rfl⟩
  · -- inside one VMA: split at `begin`, then the copy at `end`
    obtain ⟨splitWf, provenance⟩ :=
      wf.splitAt prot split below reaches beginAligned fresh1 handedOut1
    have copyMember : vmaUpdateProt (splitVma vma node1 begin).2 prot ∈
        insertVma (vmaUpdateProt (splitVma vma node1 begin).2 prot)
          (before ++ (splitVma vma node1 begin).1 :: rest) :=
      mem_insertByHi.mpr (.inl rfl)
    refine splitWf.splitNode vma.prot copyMember (by simp; omega) (by simpa using inside)
      stopAligned ?_ handedOut2
    intro other member
    rcases provenance other member with ⟨old, oldMember, same⟩ | same
    · exact same ▸ fresh2 old oldMember
    · exact same ▸ distinct
  · -- split at `begin`; the walk goes on from the VMA that followed
    obtain ⟨splitWf, provenance⟩ :=
      wf.splitAt prot split below reaches beginAligned fresh1 handedOut1
    refine splitWf.changeFollowing (splitAtNode_append next.node _).symm stopAligned ?_ handedOut2
    intro other member
    rcases provenance other member with ⟨old, oldMember, same⟩ | same
    · exact same ▸ fresh2 old oldMember
    · exact same ▸ distinct
  · -- the walk starts at the VMA found
    exact wf.changeFollowing split stopAligned fresh2 handedOut2

theorem bkeepMprotect_wellFormed (wf : s.WellFormed allocAlignment) {addr length : Nat}
    {prot : UInt32} {isInternal vma1Allocated vma2Allocated : Bool}
    (h : bkeepMprotect allocAlignment addr length prot isInternal vma1Allocated vma2Allocated s =
      some (.ok s')) :
    s'.WellFormed allocAlignment := by
  obtain ⟨bad, changed⟩ := bkeepMprotect_eq_some_ok h
  obtain ⟨positive, -, addrAligned, stopAligned⟩ := not_isBadRange bad
  -- the two spare nodes are `nextNode` and the one after it
  exact vmaBkeepChange_wellFormed (wf.handOut 2) (by omega) addrAligned stopAligned
    (fun vma member => Nat.ne_of_lt (wf.nodesFresh vma member))
    (fun vma member => by have := wf.nodesFresh vma member; omega)
    (by omega) (by simp) (by simp) changed

end Change

/-! ## The temporary VMA and `valid_end` -/

theorem bkeepRemoveTmpVma_wellFormed (wf : s.WellFormed allocAlignment) {node : Nat}
    (h : bkeepRemoveTmpVma node s = some s') :
    s'.WellFormed allocAlignment := by
  obtain ⟨before, vma, after, split, -, -, rfl⟩ := bkeepRemoveTmpVma_eq_some h
  have alone : s.vmaTree = before ++ [vma] ++ after := by simp [split]
  refine wf.replace alone Ascending.nil (by simp) (by simp) (List.nil_sublist _) (by simp) ?_ le_rfl
  have total := wf.total
  rw [split] at total
  simp only [totalLength_append, totalLength_cons, totalLength_nil] at total ⊢
  omega

/-- Changing fields of one VMA of the tree other than its range and its node
keeps the tree well formed, if the VMA may still stand in the tree. -/
theorem VmaState.WellFormed.updateOne (wf : s.WellFormed allocAlignment)
    {before after : List LibosVma} {vma updated : LibosVma}
    (split : s.vmaTree = before ++ vma :: after) (sameBegin : updated.begin = vma.begin)
    (sameEnd : updated.end' = vma.end') (sameNode : updated.node = vma.node)
    (ok : updated.Ok allocAlignment) :
    VmaState.WellFormed allocAlignment { s with vmaTree := before ++ updated :: after } := by
  have alone : s.vmaTree = before ++ [vma] ++ after := by simp [split]
  refine wf.replace alone (List.pairwise_singleton _ updated) ?_ (by simpa using ok)
    (by simp [sameNode]) (by simp) (by simp [wf.total, split, sameBegin, sameEnd]) le_rfl
  intro piece member
  rw [List.mem_singleton] at member
  exact ⟨vma, List.mem_singleton_self vma, by rw [member, sameBegin], by rw [member, sameEnd]⟩

theorem bkeepConvertTmpVmaToUser_wellFormed (wf : s.WellFormed allocAlignment) {node : Nat}
    (h : bkeepConvertTmpVmaToUser node s = some s') :
    s'.WellFormed allocAlignment := by
  obtain ⟨before, vma, after, split, -, -, rfl⟩ := bkeepConvertTmpVmaToUser_eq_some h
  have vmaOk := wf.vmasOk vma (by simp [split])
  -- only the flags change
  exact wf.updateOne split rfl rfl rfl ⟨vmaOk.nonempty, vmaOk.beginAligned, vmaOk.endAligned,
    vmaOk.validEndLower, vmaOk.validEndUpper, vmaOk.anonymousValid⟩

/-- `bkeep_vma_update_valid_length` keeps the tree well formed when it leaves
an anonymous VMA valid to its end, as its callers do: they update the VMA of a
file mapping, or restore the valid length a checkpoint recorded. -/
theorem bkeepVmaUpdateValidLength_wellFormed (wf : s.WellFormed allocAlignment)
    {beginAddr validLength : Nat}
    (byCaller : ∀ vma ∈ s.vmaTree, vma.begin = beginAddr → vma.file = none →
      validLength = vma.end' - vma.begin)
    (h : bkeepVmaUpdateValidLength beginAddr validLength s = .ok s') :
    s'.WellFormed allocAlignment := by
  obtain ⟨before, vma, rest, lookup, starts, fits, rfl⟩ := bkeepVmaUpdateValidLength_eq_ok h
  obtain ⟨split, -, -, -, -⟩ := wf.lookup lookup
  have vmaOk := wf.vmasOk vma (by simp [split])
  have nonempty := vmaOk.nonempty
  refine wf.updateOne split rfl rfl rfl
    { nonempty := vmaOk.nonempty
      beginAligned := vmaOk.beginAligned
      endAligned := vmaOk.endAligned
      validEndLower := Nat.le_add_right _ _
      validEndUpper := by simp only; omega
      anonymousValid := fun anonymous => ?_ }
  have := byCaller vma (by simp [split]) starts anonymous
  simp only
  omega

/-! ## `init_vma` -/

/-- The loop of `init_vma` keeps the tree well formed, given anonymous VMAs
valid to their ends, in distinct nodes that are handed out and not in the tree. -/
theorem bkeepInitialVmas_wellFormed :
    ∀ {vmas : List LibosVma} {s s' : VmaState}, s.WellFormed allocAlignment →
    (∀ vma ∈ vmas, vma.begin ≤ vma.end' ∧ vma.validEnd = vma.end' ∧ vma.file = none) →
    (∀ vma ∈ vmas, vma.node < s.nextNode ∧ ∀ v ∈ s.vmaTree, v.node ≠ vma.node) →
    (vmas.map LibosVma.node).Nodup →
    bkeepInitialVmas allocAlignment vmas s = .ok s' → s'.WellFormed allocAlignment
  | [], s, s', wf, _, _, _, h => by
    simp only [bkeepInitialVmas, Except.ok.injEq] at h
    exact h ▸ wf
  | vma :: vmas, s, s', wf, shapes, nodes, distinct, h => by
    have restShapes := fun v member => shapes v (List.mem_cons_of_mem vma member)
    obtain ⟨vmaNode, restNodes⟩ := List.nodup_cons.mp distinct
    simp only [bkeepInitialVmas] at h
    split_ifs at h with empty unaligned
    · -- an empty range is skipped
      exact bkeepInitialVmas_wellFormed wf restShapes
        (fun v member => nodes v (List.mem_cons_of_mem vma member)) restNodes h
    generalize added : bkeepInitialVma vma s = result at h
    rcases result with err | t
    · cases h
    obtain ⟨overlaps, rfl⟩ := bkeepInitialVma_eq_ok added
    obtain ⟨ordered, valid, anonymous⟩ := shapes vma List.mem_cons_self
    simp only [not_or, not_not] at unaligned
    have vmaOk : vma.Ok allocAlignment :=
      ⟨by omega, unaligned.1, unaligned.2, by omega, valid.le, fun _ => valid⟩
    have addedWf : VmaState.WellFormed allocAlignment { s with
        vmaTree := insertVma vma s.vmaTree
        totalMemorySize := s.totalMemorySize + (vma.end' - vma.begin) } :=
      wf.insert vmaOk (apart_of_overlapsExisting wf overlaps)
      (nodes vma List.mem_cons_self).2 rfl rfl (nodes vma List.mem_cons_self).1 le_rfl
    refine bkeepInitialVmas_wellFormed addedWf restShapes ?_ restNodes h
    -- the VMAs still to come are in nodes other than the one just inserted
    intro v member
    refine ⟨(nodes v (List.mem_cons_of_mem vma member)).1, fun other otherMember => ?_⟩
    rcases mem_insertByHi.mp otherMember with rfl | otherMember
    · exact fun same => vmaNode (List.mem_map.mpr ⟨v, member, same.symm⟩)
    · exact (nodes v (List.mem_cons_of_mem vma member)).2 other otherMember

/-- The VMAs of `init_vma` are in nodes `1, 2, ...`, one per range in use. -/
theorem initialVmas_nodes (ranges : List PalInitialMemRange) :
    (initialVmas ranges).map LibosVma.node =
      (List.range (initialVmas ranges).length).map (· + 1) := by
  apply List.ext_getElem
  · simp
  · intro i _ _
    simp [initialVmas]

/-- `init_vma` builds a well-formed tree from ranges that do not end before
they start. -/
theorem initVma_wellFormed {ranges : List PalInitialMemRange}
    (ordered : ∀ range ∈ ranges, range.start ≤ range.end')
    (h : initVma allocAlignment ranges = .ok s) :
    s.WellFormed allocAlignment := by
  have empty : VmaState.WellFormed allocAlignment ⟨[], 0, (initialVmas ranges).length + 1⟩ :=
    ⟨by simp, Ascending.nil, rfl, List.nodup_nil, by simp⟩
  refine bkeepInitialVmas_wellFormed empty ?_ ?_ ?_ h
  · intro vma member
    obtain ⟨i, bound, rfl⟩ := List.mem_mapIdx.mp member
    have inUse := List.mem_filter.mp (List.getElem_mem bound)
    exact ⟨ordered _ inUse.1, rfl, rfl⟩
  · intro vma member
    obtain ⟨i, bound, rfl⟩ := List.mem_mapIdx.mp member
    refine ⟨?_, by simp⟩
    have : i < (initialVmas ranges).length := by simpa [initialVmas] using bound
    simp only
    omega
  · rw [initialVmas_nodes]
    exact List.nodup_range.map fun a b same => by simpa using same

end Gramine.LibOS.Bookkeep
