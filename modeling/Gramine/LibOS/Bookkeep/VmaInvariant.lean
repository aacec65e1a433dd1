import Gramine.LibOS.Bookkeep.VmaSteps

/-!
# The invariant of the VMA tree

Every VMA in `vma_tree` is non-empty and aligned, with `valid_end` inside it;
the VMAs are pairwise disjoint and in address order; and
`g_total_memory_size` is the sum of their lengths. The bookkeeping keeps this
over every sequence of calls from the tree `init_vma` builds, provided
`bkeep_vma_update_valid_length` only shortens file-backed VMAs, as its callers
do: `split_vma` raises `valid_end` to the cut only for a file-backed VMA, so an
anonymous VMA has to be valid to its end.

The proofs carry more than the invariant: the tree's nodes are distinct and
below `nextNode`, so the nodes `alloc_vma` hands out are fresh. Each call is
taken through its lemma of `VmaSteps`; a call that replaces a stretch of the
tree by pieces of its VMAs (`WellFormed.replace`) and one that inserts a VMA
apart from the others (`WellFormed.insert`) are the two shapes of change.
-/

namespace Gramine.LibOS.Bookkeep

open IntervalList

section Invariant

variable (allocAlignment : Nat)

/-- A VMA that may stand in the tree. -/
structure LibosVma.Ok (vma : LibosVma) : Prop where
  nonempty : vma.begin < vma.end'
  beginAligned : IsAllocAligned allocAlignment vma.begin
  endAligned : IsAllocAligned allocAlignment vma.end'
  validEndLower : vma.begin ≤ vma.validEnd
  validEndUpper : vma.validEnd ≤ vma.end'
  /-- Only a file-backed VMA is ever shorter than its mapping. -/
  anonymousValid : vma.file = none → vma.validEnd = vma.end'

/-- The invariant of the tree and its counter that the bookkeeping keeps. -/
structure VmaState.Sane (s : VmaState) : Prop where
  nonempty : ∀ vma ∈ s.vmaTree, vma.begin < vma.end'
  aligned : ∀ vma ∈ s.vmaTree,
    IsAllocAligned allocAlignment vma.begin ∧ IsAllocAligned allocAlignment vma.end'
  validEnd : ∀ vma ∈ s.vmaTree, vma.begin ≤ vma.validEnd ∧ vma.validEnd ≤ vma.end'
  /-- Every VMA ends at or before the start of every later one: the VMAs are
  pairwise disjoint and the in-order traversal is sorted by address. -/
  ordered : s.vmaTree.Pairwise fun a b => a.end' ≤ b.begin
  total : s.totalMemorySize = (s.vmaTree.map fun vma => vma.end' - vma.begin).sum

/-- What the proofs carry from call to call. -/
structure VmaState.WellFormed (s : VmaState) : Prop where
  vmasOk : ∀ vma ∈ s.vmaTree, vma.Ok allocAlignment
  ascending : Ascending LibosVma.begin LibosVma.end' s.vmaTree
  total : s.totalMemorySize = totalLength LibosVma.begin LibosVma.end' s.vmaTree
  /-- No node is in the tree twice. -/
  nodesDistinct : (s.vmaTree.map LibosVma.node).Nodup
  /-- `alloc_vma` has handed out every node in the tree. -/
  nodesFresh : ∀ vma ∈ s.vmaTree, vma.node < s.nextNode

variable {allocAlignment}

theorem VmaState.WellFormed.sane {s : VmaState} (wf : s.WellFormed allocAlignment) :
    s.Sane allocAlignment where
  nonempty vma member := (wf.vmasOk vma member).nonempty
  aligned vma member := ⟨(wf.vmasOk vma member).beginAligned, (wf.vmasOk vma member).endAligned⟩
  validEnd vma member := ⟨(wf.vmasOk vma member).validEndLower,
    (wf.vmasOk vma member).validEndUpper⟩
  ordered := wf.ascending
  total := wf.total

theorem VmaState.WellFormed.nonempty {s : VmaState} (wf : s.WellFormed allocAlignment) :
    ∀ vma ∈ s.vmaTree, vma.begin < vma.end' :=
  fun vma member => (wf.vmasOk vma member).nonempty

end Invariant

/-! ## Pieces of VMAs -/

section Pieces

variable {allocAlignment : Nat} {vma : LibosVma}

theorem LibosVma.Ok.cutEnd (ok : vma.Ok allocAlignment) {stop : Nat} (above : vma.begin < stop)
    (inside : stop ≤ vma.end') (aligned : IsAllocAligned allocAlignment stop) :
    (vma.cutEnd stop).Ok allocAlignment where
  nonempty := above
  beginAligned := ok.beginAligned
  endAligned := aligned
  validEndLower := le_min ok.validEndLower above.le
  validEndUpper := min_le_right _ _
  anonymousValid anonymous := by
    simp only [LibosVma.cutEnd, ok.anonymousValid anonymous]
    omega

theorem LibosVma.Ok.cutBegin (ok : vma.Ok allocAlignment) {start : Nat}
    (inside : start < vma.end') (aligned : IsAllocAligned allocAlignment start) :
    (vma.cutBegin start).Ok allocAlignment where
  nonempty := inside
  beginAligned := aligned
  endAligned := ok.endAligned
  validEndLower := le_max_right _ _
  validEndUpper := max_le ok.validEndUpper inside.le
  anonymousValid anonymous := by
    simp only [LibosVma.cutBegin, ok.anonymousValid anonymous]
    omega

/-- The copy `split_vma` makes is a VMA that may stand in the tree: for an
anonymous VMA, because it was valid to its end. -/
theorem LibosVma.Ok.splitVma (ok : vma.Ok allocAlignment) {node addr : Nat}
    (inside : addr < vma.end')
    (aligned : IsAllocAligned allocAlignment addr) :
    (Bookkeep.splitVma vma node addr).2.Ok allocAlignment where
  nonempty := inside
  beginAligned := aligned
  endAligned := ok.endAligned
  validEndLower := by
    cases file : vma.file with
    | none => simp [Bookkeep.splitVma, file, ok.anonymousValid file, inside.le]
    | some handle => simp [Bookkeep.splitVma, file]
  validEndUpper := by
    cases file : vma.file with
    | none => simp [Bookkeep.splitVma, file, ok.validEndUpper]
    | some handle => simp [Bookkeep.splitVma, file, ok.validEndUpper, inside.le]
  anonymousValid anonymous := by
    have : vma.file = none := anonymous
    simp [Bookkeep.splitVma, this, ok.anonymousValid this]

theorem LibosVma.Ok.vmaUpdateProt (ok : vma.Ok allocAlignment) (prot : UInt32) :
    (Bookkeep.vmaUpdateProt vma prot).Ok allocAlignment where
  nonempty := ok.nonempty
  beginAligned := ok.beginAligned
  endAligned := ok.endAligned
  validEndLower := ok.validEndLower
  validEndUpper := ok.validEndUpper
  anonymousValid := ok.anonymousValid

theorem newMapping_ok {node begin stop : Nat} {prot flags : UInt32}
    {file : Option LibosHandle} {offset : Nat} (nonempty : begin < stop)
    (beginAligned : IsAllocAligned allocAlignment begin)
    (endAligned : IsAllocAligned allocAlignment stop) :
    (newMapping node begin stop prot flags file offset).Ok allocAlignment where
  nonempty := nonempty
  beginAligned := beginAligned
  endAligned := endAligned
  validEndLower := nonempty.le
  validEndUpper := le_rfl
  anonymousValid _ := rfl

end Pieces

/-! ## The two shapes of change -/

section Shapes

variable {allocAlignment : Nat} {s : VmaState}

/-- After a stretch is replaced by pieces that keep its nodes, every node of
the tree was there before. -/
theorem nodes_of_replace {tree tree' before middle pieces after : List LibosVma}
    (split : tree = before ++ middle ++ after)
    (nodes : (pieces.map LibosVma.node).Sublist (middle.map LibosVma.node))
    (replaced : tree' = before ++ pieces ++ after) :
    ∀ vma ∈ tree', ∃ old ∈ tree, old.node = vma.node := by
  intro vma member
  rw [replaced] at member
  rcases List.mem_append.mp member with member | member
  · rcases List.mem_append.mp member with member | member
    · exact ⟨vma, by rw [split]; simp [member], rfl⟩
    · -- a piece keeps the node of a VMA of the stretch
      obtain ⟨old, oldMember, sameNode⟩ :=
        List.mem_map.mp (nodes.subset (List.mem_map_of_mem member))
      exact ⟨old, by rw [split]; simp [oldMember], sameNode⟩
  · exact ⟨vma, by rw [split]; simp [member], rfl⟩

/-- Replacing a stretch of the tree by pieces of its VMAs keeps the tree well
formed, with the total set to the new sum. -/
theorem VmaState.WellFormed.replace (wf : s.WellFormed allocAlignment) {s' : VmaState}
    {before middle pieces after : List LibosVma} (split : s.vmaTree = before ++ middle ++ after)
    (ascending : Ascending LibosVma.begin LibosVma.end' pieces)
    (inside : ∀ vma ∈ pieces, ∃ old ∈ middle, old.begin ≤ vma.begin ∧ vma.end' ≤ old.end')
    (ok : ∀ vma ∈ pieces, vma.Ok allocAlignment)
    (nodes : (pieces.map LibosVma.node).Sublist (middle.map LibosVma.node))
    (tree : s'.vmaTree = before ++ pieces ++ after)
    (sum : s'.totalMemorySize = totalLength LibosVma.begin LibosVma.end' (before ++ pieces ++ after))
    (later : s.nextNode ≤ s'.nextNode) :
    s'.WellFormed allocAlignment where
  vmasOk vma member := by
    rw [tree] at member
    rcases List.mem_append.mp member with member | member
    · rcases List.mem_append.mp member with member | member
      · exact wf.vmasOk vma (by rw [split]; simp [member])
      · exact ok vma member
    · exact wf.vmasOk vma (by rw [split]; simp [member])
  ascending := tree ▸ (split ▸ wf.ascending).replace ascending inside
  total := tree ▸ sum
  nodesDistinct := by
    have old := wf.nodesDistinct
    rw [split] at old
    rw [tree]
    simp only [List.map_append] at old ⊢
    exact old.sublist ((List.Sublist.refl _).append nodes |>.append (List.Sublist.refl _))
  nodesFresh vma member := by
    obtain ⟨old, oldMember, sameNode⟩ := nodes_of_replace split nodes tree vma member
    exact sameNode ▸ (wf.nodesFresh old oldMember).trans_le later

/-- Inserting a VMA apart from all others, in a node not in the tree, keeps
the tree well formed, with its length added to the total. -/
theorem VmaState.WellFormed.insert (wf : s.WellFormed allocAlignment) {s' : VmaState}
    {vma : LibosVma} (ok : vma.Ok allocAlignment)
    (apart : ∀ other ∈ s.vmaTree, other.end' ≤ vma.begin ∨ vma.end' ≤ other.begin)
    (fresh : ∀ other ∈ s.vmaTree, other.node ≠ vma.node)
    (tree : s'.vmaTree = insertVma vma s.vmaTree)
    (sum : s'.totalMemorySize = s.totalMemorySize + (vma.end' - vma.begin))
    (handedOut : vma.node < s'.nextNode) (later : s.nextNode ≤ s'.nextNode) :
    s'.WellFormed allocAlignment where
  vmasOk other member := by
    rw [tree] at member
    rcases mem_insertByHi.mp member with rfl | member
    · exact ok
    · exact wf.vmasOk other member
  ascending := tree ▸ wf.ascending.insertByHi wf.nonempty ok.nonempty apart
  total := by
    rw [sum, tree, insertVma, totalLength_insertByHi, wf.total]
    omega
  nodesDistinct := by
    rw [tree]
    apply ((insertByHi_perm vma s.vmaTree).map LibosVma.node).nodup_iff.mpr
    simp only [List.map_cons, List.nodup_cons, List.mem_map, not_exists, not_and]
    exact ⟨fun other member same => fresh other member same, wf.nodesDistinct⟩
  nodesFresh other member := by
    rw [tree] at member
    rcases mem_insertByHi.mp member with rfl | member
    · exact handedOut
    · exact (wf.nodesFresh other member).trans_le later

/-- Handing out nodes keeps the tree well formed. -/
theorem VmaState.WellFormed.handOut (wf : s.WellFormed allocAlignment) (count : Nat) :
    VmaState.WellFormed allocAlignment { s with nextNode := s.nextNode + count } where
  vmasOk := wf.vmasOk
  ascending := wf.ascending
  total := wf.total
  nodesDistinct := wf.nodesDistinct
  nodesFresh vma member := by
    have := wf.nodesFresh vma member
    simp only
    omega

end Shapes

/-! ## Lookups and removal -/

section Removal

variable {allocAlignment : Nat} {s : VmaState}

/-- The VMAs before a VMA of a well-formed tree end by its start, and those
after it start at its end or later. -/
theorem VmaState.WellFormed.around (wf : s.WellFormed allocAlignment)
    {before rest : List LibosVma} {vma : LibosVma} (split : s.vmaTree = before ++ vma :: rest) :
    (∀ v ∈ before, v.end' ≤ vma.begin) ∧ ∀ v ∈ rest, vma.end' ≤ v.begin := by
  have ascending := wf.ascending
  rw [split] at ascending
  obtain ⟨-, tail, cross⟩ := ascending_append.mp ascending
  exact ⟨fun v member => cross v member vma List.mem_cons_self, (ascending_cons.mp tail).1⟩

/-- What a lookup finds in a well-formed tree: the VMAs before the one found
end by the address and by its start, and those after it start at its end or
later. -/
theorem VmaState.WellFormed.lookup (wf : s.WellFormed allocAlignment) {addr : Nat}
    {before rest : List LibosVma} {vma : LibosVma}
    (h : lookupVma addr s.vmaTree = (before, vma :: rest)) :
    s.vmaTree = before ++ vma :: rest ∧ (∀ v ∈ before, v.end' ≤ addr) ∧ addr < vma.end' ∧
      (∀ v ∈ before, v.end' ≤ vma.begin) ∧ ∀ v ∈ rest, vma.end' ≤ v.begin := by
  obtain ⟨split, beforeEnd, found⟩ := lookupVma_eq h
  exact ⟨split, beforeEnd, found vma rfl, wf.around split⟩

/-- The overlap test of `_bkeep_initial_vma` and `MAP_FIXED_NOREPLACE` is
exact on a well-formed tree: when it fails, the range meets no VMA. -/
theorem apart_of_overlapsExisting (wf : s.WellFormed allocAlignment) {begin stop : Nat}
    (h : overlapsExisting begin stop s.vmaTree = false) :
    ∀ vma ∈ s.vmaTree, vma.end' ≤ begin ∨ stop ≤ vma.begin := by
  rcases lookup : lookupVma begin s.vmaTree with ⟨before, found⟩
  simp only [overlapsExisting, lookup] at h
  cases found with
  | nil =>
    -- every VMA ends by `begin`
    obtain ⟨split, beforeEnd, -⟩ := lookupVma_eq lookup
    intro vma member
    rw [split] at member
    exact .inl (beforeEnd vma (by simpa using member))
  | cons tmp rest =>
    -- the VMA found starts at `end` or later, and so do those after it
    obtain ⟨split, beforeEnd, -, -, restAfter⟩ := wf.lookup lookup
    have stopLe : stop ≤ tmp.begin := by simpa using h
    have tmpNonempty := wf.nonempty tmp (by simp [split])
    intro vma member
    rw [split] at member
    simp only [List.mem_append, List.mem_cons] at member
    rcases member with member | same | member
    · exact .inl (beforeEnd vma member)
    · exact .inr (same ▸ stopLe)
    · exact .inr (by have := restAfter vma member; omega)

theorem keptFollowing_ok {stop : Nat} {tree : List LibosVma}
    (ok : ∀ vma ∈ tree, vma.Ok allocAlignment) (aligned : IsAllocAligned allocAlignment stop) :
    ∀ vma ∈ keptFollowing stop tree, vma.Ok allocAlignment := by
  intro vma member
  rcases mem_keptFollowing member with found | ⟨old, found, -, inside, rfl⟩
  · exact ok vma found
  · exact (ok old found).cutBegin inside aligned

/-- `_vma_bkeep_remove` of an aligned range keeps the tree well formed and
leaves no VMA that meets the range; every node left was in the tree, or is
the spare one. -/
theorem vmaBkeepRemove_wellFormed (wf : s.WellFormed allocAlignment) {s' : VmaState}
    {begin stop : Nat} {isInternal : Bool} {newVma : Option Nat} (range : begin < stop)
    (beginAligned : IsAllocAligned allocAlignment begin)
    (stopAligned : IsAllocAligned allocAlignment stop)
    (spare : ∀ node, newVma = some node → node < s.nextNode ∧ ∀ v ∈ s.vmaTree, v.node ≠ node)
    (h : vmaBkeepRemove begin stop isInternal newVma s = .ok s') :
    s'.WellFormed allocAlignment ∧ s'.nextNode = s.nextNode ∧
      (∀ vma ∈ s'.vmaTree, vma.end' ≤ begin ∨ stop ≤ vma.begin) ∧
      ∀ vma ∈ s'.vmaTree, (∃ old ∈ s.vmaTree, old.node = vma.node) ∨ newVma = some vma.node := by
  rcases vmaBkeepRemove_eq_ok h with ⟨empty, same⟩ | ⟨before, vma, rest, lookup, found⟩
  · -- no VMA ends above `begin`
    have nothing : lookupVma begin s.vmaTree = ((lookupVma begin s.vmaTree).1, []) :=
      Prod.ext rfl empty
    obtain ⟨split, beforeEnd, -⟩ := lookupVma_eq nothing
    subst same
    refine ⟨wf, rfl, fun vma member => .inl (beforeEnd vma ?_),
      fun vma member => .inl ⟨vma, member, rfl⟩⟩
    rw [split] at member
    simpa using member
  obtain ⟨split, beforeEnd, reaches, beforeVma, restAfter⟩ := wf.lookup lookup
  have vmaOk := wf.vmasOk vma (by simp [split])
  have treeTotal := wf.total
  rw [split] at treeTotal
  simp only [totalLength_append, totalLength_cons] at treeTotal
  have restAscending : Ascending LibosVma.begin LibosVma.end' rest :=
    (ascending_cons.mp (ascending_append.mp (split ▸ wf.ascending)).2.1).2
  have restOk : ∀ v ∈ rest, v.Ok allocAlignment :=
    fun v member => wf.vmasOk v (by simp [split, member])
  have foundAscending : Ascending LibosVma.begin LibosVma.end' (vma :: rest) :=
    ascending_cons.mpr ⟨restAfter, restAscending⟩
  have foundOk : ∀ v ∈ vma :: rest, v.Ok allocAlignment := by
    intro v member
    rcases List.mem_cons.mp member with same | member
    · exact same ▸ vmaOk
    · exact restOk v member
  have stretch : s.vmaTree = before ++ (vma :: rest) ++ [] := by simp [split]
  rcases found with ⟨below, inside, node, rfl, same⟩ | ⟨below, covered, same⟩ | ⟨above, same⟩
  · -- the range lies inside `vma`: its head stays where it was and its tail goes in
    subst same
    obtain ⟨spareBound, spareFresh⟩ := spare node rfl
    have headOk : ((vma.cutEnd stop).cutEnd begin).Ok allocAlignment :=
      (vmaOk.cutEnd (by omega) inside.le stopAligned).cutEnd below range.le beginAligned
    have tailOk : (splitVma vma node stop).2.Ok allocAlignment := vmaOk.splitVma inside stopAligned
    have alone : s.vmaTree = before ++ [vma] ++ rest := by simp [split]
    have headed : VmaState.WellFormed allocAlignment
        ⟨before ++ [(vma.cutEnd stop).cutEnd begin] ++ rest, totalLength LibosVma.begin
          LibosVma.end' (before ++ [(vma.cutEnd stop).cutEnd begin] ++ rest), s.nextNode⟩ :=
      wf.replace alone (by simp [Ascending]) (by simp [LibosVma.cutEnd]; omega)
        (by simpa using headOk) (by simp [LibosVma.cutEnd]) rfl rfl le_rfl
    refine ⟨headed.insert tailOk ?_ ?_ ?_ ?_ spareBound le_rfl, rfl, ?_, ?_⟩
    · intro other member
      simp only [List.append_assoc, List.singleton_append, List.mem_append, List.mem_cons] at member
      rcases member with member | same | member
      · exact .inl (by have := beforeEnd other member; simp [splitVma]; omega)
      · exact .inl (by simp [same, splitVma, LibosVma.cutEnd]; omega)
      · exact .inr (by simpa [splitVma] using restAfter other member)
    · intro other member
      simp only [List.append_assoc, List.singleton_append, List.mem_append, List.mem_cons] at member
      rcases member with member | same | member
      · exact spareFresh other (by simp [split, member])
      · exact same ▸ spareFresh vma (by simp [split])
      · exact spareFresh other (by simp [split, member])
    · simp [splitVma]
    · simp only [totalLength_append, totalLength_cons, totalLength_nil, splitVma, LibosVma.cutEnd]
      omega
    · intro other member
      simp only [splitVma, insertVma, mem_insertByHi, List.mem_append, List.mem_cons] at member
      rcases member with same | member | same | member
      · exact .inr (by simp [same])
      · exact .inl (beforeEnd other member)
      · exact .inl (by simp [same, LibosVma.cutEnd])
      · exact .inr (by have := restAfter other member; omega)
    · intro other member
      simp only [splitVma, insertVma, mem_insertByHi, List.mem_append, List.mem_cons] at member
      rcases member with same | member | same | member
      · exact .inr (by simp [same])
      · exact .inl ⟨other, by simp [split, member], rfl⟩
      · exact .inl ⟨vma, by simp [split], by simp [same, LibosVma.cutEnd]⟩
      · exact .inl ⟨other, by simp [split, member], rfl⟩
  · -- `vma` loses its tail, and the loops run on from the VMA after it
    subst same
    have kept : ∀ v ∈ keptFollowing stop rest, stop ≤ v.begin :=
      keptFollowing_begin_ge restAscending fun v member => (restOk v member).nonempty
    have sum := totalLength_keptFollowing stop rest
    have piecesAscending : Ascending LibosVma.begin LibosVma.end'
        (vma.cutEnd begin :: keptFollowing stop rest) := by
      refine ascending_cons.mpr ⟨fun other member => ?_, keptFollowing_ascending restAscending⟩
      have := kept other member
      simp only [LibosVma.cutEnd]
      omega
    have piecesInside : ∀ piece ∈ vma.cutEnd begin :: keptFollowing stop rest,
        ∃ old ∈ vma :: rest, old.begin ≤ piece.begin ∧ piece.end' ≤ old.end' := by
      intro piece member
      rcases List.mem_cons.mp member with same | member
      · exact ⟨vma, List.mem_cons_self, by simp [same, LibosVma.cutEnd],
          by simp [same, LibosVma.cutEnd]; omega⟩
      · obtain ⟨old, found, inside⟩ := keptFollowing_inside piece member
        exact ⟨old, List.mem_cons_of_mem vma found, inside⟩
    have piecesOk : ∀ piece ∈ vma.cutEnd begin :: keptFollowing stop rest,
        piece.Ok allocAlignment := by
      intro piece member
      rcases List.mem_cons.mp member with same | member
      · exact same ▸ vmaOk.cutEnd below (by omega) beginAligned
      · exact keptFollowing_ok restOk stopAligned piece member
    have piecesNodes : ((vma.cutEnd begin :: keptFollowing stop rest).map LibosVma.node).Sublist
        ((vma :: rest).map LibosVma.node) := by
      simpa [LibosVma.cutEnd] using (keptFollowing_nodes stop rest).cons_cons vma.node
    refine ⟨wf.replace stretch piecesAscending piecesInside piecesOk piecesNodes
      (by simp) (by simp only [List.append_nil, totalLength_append, totalLength_cons,
        LibosVma.cutEnd]; omega) le_rfl, rfl, ?_,
      fun other member => .inl (nodes_of_replace stretch piecesNodes (by simp) other member)⟩
    intro other member
    simp only [List.mem_append, List.mem_cons] at member
    rcases member with member | same | member
    · exact .inl (beforeEnd other member)
    · exact .inl (by simp [same, LibosVma.cutEnd])
    · exact .inr (kept other member)
  · -- the loops run from `vma`, which starts inside the range
    subst same
    have kept : ∀ v ∈ keptFollowing stop (vma :: rest), stop ≤ v.begin :=
      keptFollowing_begin_ge foundAscending fun v member => (foundOk v member).nonempty
    have sum := totalLength_keptFollowing stop (vma :: rest)
    simp only [totalLength_cons] at sum
    refine ⟨wf.replace stretch (keptFollowing_ascending foundAscending) keptFollowing_inside
      (keptFollowing_ok foundOk stopAligned) (keptFollowing_nodes stop _) (by simp)
      (by simp only [List.append_nil, totalLength_append]; omega) le_rfl, rfl, ?_,
      fun other member =>
        .inl (nodes_of_replace stretch (keptFollowing_nodes stop _) (by simp) other member)⟩
    intro other member
    simp only [List.mem_append] at member
    rcases member with member | member
    · exact .inl (beforeEnd other member)
    · exact .inr (kept other member)

end Removal

end Gramine.LibOS.Bookkeep
