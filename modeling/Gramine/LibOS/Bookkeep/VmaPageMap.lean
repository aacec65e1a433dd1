import Gramine.LibOS.Bookkeep.VmaCalls

/-!
# The VMA tree as a page map

Read page by page, the tree is a partial map: a page is sent to the `prot`,
the flags and the file of the VMA that holds it, and for a file mapping to the
page's offset in the file. An anonymous VMA has no file offset (`split_vma`
moves `offset` only for a file mapping), so the map keeps none for its pages.

What a call should do to the map is stated on the map alone (`overwrite`,
`protect`); that the tree a call leaves is read as that map is the refinement.
The proofs go through `lookup_eq_map_of_covers`: each VMA of the new tree is a
piece of a VMA of the old one (`PieceOf`), and each page the old tree maps
outside the range is still mapped.
-/

namespace Gramine.LibOS.Bookkeep

open IntervalList

/-! ## Pages -/

/-- What the tree says about one page. -/
structure PageInfo where
  prot : UInt32
  flags : UInt32
  file : Option LibosHandle
  fileOffset : Option Nat
  deriving DecidableEq, Repr

/-- What `vma` says about the page at `page`. -/
def LibosVma.pageInfo (vma : LibosVma) (page : Nat) : PageInfo :=
  ⟨vma.prot, vma.flags, vma.file, vma.file.map fun _ => vma.offset + (page - vma.begin)⟩

/-- The page at `page` lies in `vma`. -/
abbrev LibosVma.Holds (vma : LibosVma) (page : Nat) : Prop :=
  Contains LibosVma.begin LibosVma.end' vma page

/-- The tree read as a map from page addresses. -/
def pageMap (tree : List LibosVma) : Nat → Option PageInfo :=
  lookup LibosVma.begin LibosVma.end' LibosVma.pageInfo tree

/-- `vma_update_prot` on what is said about one page. -/
def PageInfo.updateProt (info : PageInfo) (prot : UInt32) : PageInfo :=
  { info with
    prot := prot &&& (PROT_NONE ||| PROT_READ ||| PROT_WRITE ||| PROT_EXEC)
    flags := if info.file.isSome && prot &&& PROT_WRITE != 0 then info.flags ||| VMA_TAINTED
      else info.flags }

/-! ## What the calls do to the map -/

/-- The map with the pages of `[begin, end)` sent to `info`. -/
def overwrite (map : Nat → Option PageInfo) (begin stop : Nat) (info : Nat → PageInfo) :
    Nat → Option PageInfo :=
  fun page => if begin ≤ page ∧ page < stop then some (info page) else map page

/-- The map with `prot` given to the mapped pages of `[begin, end)`. -/
def protect (map : Nat → Option PageInfo) (begin stop : Nat) (prot : UInt32) :
    Nat → Option PageInfo :=
  fun page => if begin ≤ page ∧ page < stop then (map page).map (·.updateProt prot) else map page

/-- What the internal VMA `bkeep_munmap` leaves says about each of its pages. -/
def unmappedPage : PageInfo :=
  ⟨PROT_NONE, VMA_INTERNAL ||| VMA_UNMAPPED, none, none⟩

/-! ## Pieces of VMAs -/

/-- Every page of `piece` lies in `vma`, and `piece` says about it `g` of what
`vma` says. -/
def LibosVma.PieceOf (g : PageInfo → PageInfo) (piece vma : LibosVma) : Prop :=
  ∀ page, piece.Holds page → vma.Holds page ∧ piece.pageInfo page = g (vma.pageInfo page)

attribute [grind] LibosVma.pageInfo overwrite

theorem LibosVma.PieceOf.refl (vma : LibosVma) : vma.PieceOf id vma :=
  fun _ holds => ⟨holds, rfl⟩

theorem LibosVma.PieceOf.trans {g h : PageInfo → PageInfo} {a b c : LibosVma}
    (ab : a.PieceOf g b) (bc : b.PieceOf h c) : a.PieceOf (g ∘ h) c := by
  intro page holds
  obtain ⟨bHolds, aSays⟩ := ab page holds
  obtain ⟨cHolds, bSays⟩ := bc page bHolds
  exact ⟨cHolds, by rw [aSays, bSays]; rfl⟩

theorem LibosVma.cutEnd_pieceOf {vma : LibosVma} {stop : Nat} (inside : stop ≤ vma.end') :
    (vma.cutEnd stop).PieceOf id vma := by
  rintro page ⟨lower, upper⟩
  simp only [LibosVma.cutEnd_begin, LibosVma.cutEnd_end'] at lower upper
  exact ⟨⟨lower, by omega⟩, rfl⟩

/-- A head cut off keeps the file offsets of the pages left: `offset` moves
with `begin` for a file mapping. -/
theorem LibosVma.cutBegin_pieceOf {vma : LibosVma} {start : Nat} (above : vma.begin ≤ start) :
    (vma.cutBegin start).PieceOf id vma := by
  rintro page ⟨lower, upper⟩
  simp only [LibosVma.cutBegin_begin, LibosVma.cutBegin_end'] at lower upper
  refine ⟨⟨by omega, upper⟩, ?_⟩
  cases file : vma.file <;> simp [LibosVma.pageInfo, file]
  omega

theorem splitVma_snd_pieceOf {vma : LibosVma} {node addr : Nat} (above : vma.begin ≤ addr) :
    (splitVma vma node addr).2.PieceOf id vma := by
  rintro page ⟨lower, upper⟩
  simp only [splitVma_snd_begin, splitVma_snd_end'] at lower upper
  refine ⟨⟨by omega, upper⟩, ?_⟩
  cases file : vma.file <;> simp [LibosVma.pageInfo, file]
  omega

theorem vmaUpdateProt_pieceOf (vma : LibosVma) (prot : UInt32) :
    (vmaUpdateProt vma prot).PieceOf (·.updateProt prot) vma :=
  fun _ holds => ⟨holds, rfl⟩

/-! ## Removal and insertion -/

section Removal

variable {allocAlignment : Nat} {s s' : VmaState}

theorem keptFollowing_pieceOf {stop : Nat} {tree : List LibosVma} :
    ∀ vma ∈ keptFollowing stop tree, ∃ old ∈ tree, vma.PieceOf id old := by
  intro vma member
  rcases mem_keptFollowing member with found | ⟨old, found, below, -, rfl⟩
  · exact ⟨vma, found, .refl vma⟩
  · exact ⟨old, found, LibosVma.cutBegin_pieceOf below.le⟩

/-- The loops of `_vma_bkeep_remove` leave every page at or above `end`. -/
theorem keptFollowing_covers {stop page : Nat} (above : stop ≤ page) :
    ∀ {tree : List LibosVma}, ∀ old ∈ tree, old.Holds page →
      ∃ vma ∈ keptFollowing stop tree, vma.Holds page
  | [], old, member, _ => absurd member List.not_mem_nil
  | first :: rest, old, member, holds => by
    simp only [keptFollowing]
    split_ifs with removed cut
    · -- `first` ends by `end`, so the page is in a later VMA
      rcases List.mem_cons.mp member with rfl | later
      · exact absurd holds.2 (by omega)
      · exact keptFollowing_covers above old later holds
    · rcases List.mem_cons.mp member with rfl | later
      · exact ⟨old.cutBegin stop, List.mem_cons_self, by simpa using above, by simpa using holds.2⟩
      · exact ⟨old, List.mem_cons_of_mem _ later, holds⟩
    · exact ⟨old, member, holds⟩

/-- Every VMA `_vma_bkeep_remove` leaves is a piece of a VMA of the tree. -/
theorem vmaBkeepRemove_pieceOf {begin stop : Nat} {isInternal : Bool} {newVma : Option Nat}
    (range : begin ≤ stop) (h : vmaBkeepRemove begin stop isInternal newVma s = .ok s') :
    ∀ vma ∈ s'.vmaTree, ∃ old ∈ s.vmaTree, vma.PieceOf id old := by
  rcases vmaBkeepRemove_eq_ok h with ⟨-, rfl⟩ | ⟨before, vma, rest, lookup, found⟩
  · exact fun vma member => ⟨vma, member, .refl vma⟩
  obtain ⟨split, -, reaches⟩ := lookupVma_eq lookup
  have reachesBegin : begin < vma.end' := reaches vma rfl
  have kept : ∀ v ∈ before, v ∈ s.vmaTree := fun v member => by simp [split, member]
  rcases found with ⟨below, inside, node, -, rfl⟩ | ⟨below, -, rfl⟩ | ⟨-, rfl⟩
  · intro piece member
    simp only [insertVma, mem_insertByHi, List.mem_append, List.mem_cons] at member
    rcases member with rfl | member | rfl | member
    · exact ⟨vma, by simp [split], splitVma_snd_pieceOf (by omega)⟩
    · exact ⟨piece, kept piece member, .refl piece⟩
    · exact ⟨vma, by simp [split], (LibosVma.cutEnd_pieceOf (by simpa using range)).trans
        (LibosVma.cutEnd_pieceOf inside.le)⟩
    · exact ⟨piece, by simp [split, member], .refl piece⟩
  · intro piece member
    simp only [List.mem_append, List.mem_cons] at member
    rcases member with member | rfl | member
    · exact ⟨piece, kept piece member, .refl piece⟩
    · exact ⟨vma, by simp [split], LibosVma.cutEnd_pieceOf reachesBegin.le⟩
    · obtain ⟨old, found, piece⟩ := keptFollowing_pieceOf piece member
      exact ⟨old, by simp [split, found], piece⟩
  · intro piece member
    rcases List.mem_append.mp member with member | member
    · exact ⟨piece, kept piece member, .refl piece⟩
    · obtain ⟨old, found, piece⟩ := keptFollowing_pieceOf piece member
      exact ⟨old, by simp [split, found], piece⟩

/-- `_vma_bkeep_remove` leaves every page outside the range. -/
theorem vmaBkeepRemove_covers (wf : s.WellFormed allocAlignment) {begin stop : Nat}
    {isInternal : Bool} {newVma : Option Nat}
    (h : vmaBkeepRemove begin stop isInternal newVma s = .ok s') :
    ∀ old ∈ s.vmaTree, ∀ page, old.Holds page → ¬ (begin ≤ page ∧ page < stop) →
      ∃ vma ∈ s'.vmaTree, vma.Holds page := by
  rcases vmaBkeepRemove_eq_ok h with ⟨-, rfl⟩ | ⟨before, vma, rest, lookup, found⟩
  · exact fun old member page holds _ => ⟨old, member, holds⟩
  obtain ⟨split, -, reaches, -, restAfter⟩ := wf.lookup lookup
  intro old member page holds outside
  obtain ⟨lower, upper⟩ := holds
  rw [split] at member
  simp only [List.mem_append, List.mem_cons] at member
  rcases found with ⟨below, inside, node, -, rfl⟩ | ⟨below, covered, rfl⟩ | ⟨above, rfl⟩
  · -- the head of `vma` keeps the pages below `begin`, its tail those from `end`
    simp only [insertVma, mem_insertByHi, List.mem_append, List.mem_cons]
    rcases member with member | rfl | member
    · exact ⟨old, .inr (.inl member), lower, upper⟩
    · by_cases low : page < begin
      · exact ⟨(old.cutEnd stop).cutEnd begin, .inr (.inr (.inl rfl)), by simpa using lower,
          by simpa using low⟩
      · exact ⟨(splitVma old node stop).2, .inl rfl, by simp; omega, by simpa using upper⟩
    · exact ⟨old, .inr (.inr (.inr member)), lower, upper⟩
  · simp only [List.mem_append, List.mem_cons]
    rcases member with member | rfl | member
    · exact ⟨old, .inl member, lower, upper⟩
    · exact ⟨old.cutEnd begin, .inr (.inl rfl), by simpa using lower, by simp; omega⟩
    · -- a later VMA starts above `begin`, so the page is at or above `end`
      have := restAfter old member
      obtain ⟨kept, found, keptHolds⟩ :=
        keptFollowing_covers (show stop ≤ page by omega) old member ⟨lower, upper⟩
      exact ⟨kept, .inr (.inr found), keptHolds⟩
  · rcases member with member | rfl | member
    · exact ⟨old, List.mem_append_left _ member, lower, upper⟩
    · obtain ⟨kept, found, keptHolds⟩ :=
        keptFollowing_covers (show stop ≤ page by omega) old List.mem_cons_self ⟨lower, upper⟩
      exact ⟨kept, List.mem_append_right _ found, keptHolds⟩
    · have := restAfter old member
      obtain ⟨kept, found, keptHolds⟩ := keptFollowing_covers (show stop ≤ page by omega) old
        (List.mem_cons_of_mem _ member) ⟨lower, upper⟩
      exact ⟨kept, List.mem_append_right _ found, keptHolds⟩

/-- `_vma_bkeep_remove` unmaps the pages of the range and no others. -/
theorem pageMap_vmaBkeepRemove (wf : s.WellFormed allocAlignment) {begin stop : Nat}
    {isInternal : Bool} {newVma : Option Nat} (range : begin < stop)
    (beginAligned : IsAllocAligned allocAlignment begin)
    (stopAligned : IsAllocAligned allocAlignment stop)
    (spare : ∀ node, newVma = some node → node < s.nextNode ∧ ∀ v ∈ s.vmaTree, v.node ≠ node)
    (h : vmaBkeepRemove begin stop isInternal newVma s = .ok s') (page : Nat) :
    pageMap s'.vmaTree page =
      if begin ≤ page ∧ page < stop then none else pageMap s.vmaTree page := by
  obtain ⟨removedWf, -, apart, -⟩ :=
    vmaBkeepRemove_wellFormed wf range beginAligned stopAligned spare h
  split_ifs with inRange
  · refine lookup_eq_none_iff.mpr fun vma member holds => ?_
    have := holds
    rcases apart vma member with before | after <;> (simp only [Contains] at this; omega)
  · refine lookup_eq_of_covers removedWf.ascending wf.ascending (fun vma member holds => ?_)
      fun old member holds => vmaBkeepRemove_covers wf h old member page holds inRange
    obtain ⟨old, found, piece⟩ := vmaBkeepRemove_pieceOf range.le h vma member
    exact ⟨old, found, piece page holds⟩

/-- Each VMA of the tree says what the map says about its pages. -/
theorem pageMap_eq_of_holds (wf : s.WellFormed allocAlignment) {vma : LibosVma}
    (member : vma ∈ s.vmaTree) {page : Nat} (holds : vma.Holds page) :
    pageMap s.vmaTree page = some (vma.pageInfo page) :=
  wf.ascending.lookup_eq_some_iff.mpr ⟨vma, member, holds, rfl⟩

/-- A VMA inserted apart from the others maps its own pages. -/
theorem pageMap_insertVma (wf : s.WellFormed allocAlignment) {vma : LibosVma}
    (nonempty : vma.begin < vma.end')
    (apart : ∀ other ∈ s.vmaTree, other.end' ≤ vma.begin ∨ vma.end' ≤ other.begin) (page : Nat) :
    pageMap (insertVma vma s.vmaTree) page =
      if vma.begin ≤ page ∧ page < vma.end' then some (vma.pageInfo page)
      else pageMap s.vmaTree page :=
  wf.ascending.lookup_insertByHi wf.nonempty nonempty apart

/-- The internal VMA `_add_unmapped_vma` puts over a range that meets no VMA
holds exactly the pages of the range. -/
theorem pageMap_addUnmappedVma (wf : s.WellFormed allocAlignment) {begin stop node : Nat}
    (range : begin < stop) (apart : ∀ vma ∈ s.vmaTree, vma.end' ≤ begin ∨ stop ≤ vma.begin)
    (page : Nat) :
    pageMap (addUnmappedVma begin stop node s).vmaTree page =
      if begin ≤ page ∧ page < stop then some unmappedPage else pageMap s.vmaTree page :=
  pageMap_insertVma wf range apart page

end Removal

/-! ## `bkeep_munmap` and `bkeep_mmap_fixed` -/

section Mapping

variable {allocAlignment : Nat} {s s' : VmaState}

/-- `bkeep_munmap` gives the pages of the range to an internal unmapped VMA and
leaves every other page as it was. -/
theorem pageMap_bkeepMunmap (wf : s.WellFormed allocAlignment) {addr length : Nat}
    {isInternal vma1Allocated vma2Allocated : Bool} {tmp : Nat}
    (h : bkeepMunmap allocAlignment addr length isInternal vma1Allocated vma2Allocated s =
      .ok (s', tmp)) :
    pageMap s'.vmaTree = overwrite (pageMap s.vmaTree) addr (addr + length) fun _ => unmappedPage := by
  obtain ⟨bad, -, cleared, removed, rfl⟩ := bkeepMunmap_eq_ok h
  obtain ⟨positive, -, addrAligned, stopAligned⟩ := not_isBadRange bad
  obtain ⟨clearedWf, -, apart, -⟩ := vmaBkeepRemove_wellFormed (wf.handOut 2) (by omega)
    addrAligned stopAligned (wf.secondSpare vma2Allocated) removed
  funext page
  rw [pageMap_addUnmappedVma clearedWf (by omega) apart, pageMap_vmaBkeepRemove (wf.handOut 2)
    (by omega) addrAligned stopAligned (wf.secondSpare vma2Allocated) removed]
  by_cases inRange : addr ≤ page ∧ page < addr + length <;> simp [overwrite, inRange]

/-- `bkeep_mmap_fixed` gives the pages of the range to the new mapping and
leaves every other page as it was; with `MAP_FIXED_NOREPLACE` the range held
no page before. -/
theorem pageMap_bkeepMmapFixed (wf : s.WellFormed allocAlignment) {addr length : Nat}
    {prot flags : UInt32} {file : Option LibosHandle} {offset : Nat}
    {newVmaAllocated vma1Allocated : Bool}
    (h : bkeepMmapFixed allocAlignment addr length prot flags file offset newVmaAllocated
      vma1Allocated s = .ok s') :
    pageMap s'.vmaTree = overwrite (pageMap s.vmaTree) addr (addr + length)
      (newMapping s.nextNode addr (addr + length) prot flags file offset).pageInfo := by
  obtain ⟨bad, cleared, clearing, rfl⟩ := bkeepMmapFixed_eq_ok h
  obtain ⟨positive, -, addrAligned, stopAligned⟩ := not_isBadRange bad
  funext page
  rcases clearing with ⟨-, overlaps, rfl⟩ | ⟨-, removed⟩
  · -- `MAP_FIXED_NOREPLACE` on a range that meets no VMA
    rw [pageMap_insertVma (wf.handOut 2) (by simp; omega) (apart_of_overlapsExisting wf overlaps)]
    by_cases inRange : addr ≤ page ∧ page < addr + length <;> simp [overwrite, inRange]
  · obtain ⟨clearedWf, -, apart, -⟩ := vmaBkeepRemove_wellFormed (wf.handOut 2) (by omega)
      addrAligned stopAligned (wf.secondSpare vma1Allocated) removed
    rw [pageMap_insertVma clearedWf (by simp; omega) apart, pageMap_vmaBkeepRemove (wf.handOut 2)
      (by omega) addrAligned stopAligned (wf.secondSpare vma1Allocated) removed]
    by_cases inRange : addr ≤ page ∧ page < addr + length <;> simp [overwrite, inRange]

/-- Every VMA `bkeep_mmap_fixed` leaves is the new mapping or a piece of a VMA
of the tree. -/
theorem bkeepMmapFixed_pieceOf {addr length : Nat} {prot flags : UInt32}
    {file : Option LibosHandle} {offset : Nat} {newVmaAllocated vma1Allocated : Bool}
    (h : bkeepMmapFixed allocAlignment addr length prot flags file offset newVmaAllocated
      vma1Allocated s = .ok s') :
    ∀ vma ∈ s'.vmaTree, vma = newMapping s.nextNode addr (addr + length) prot flags file offset ∨
      ∃ old ∈ s.vmaTree, vma.PieceOf id old := by
  obtain ⟨-, cleared, clearing, rfl⟩ := bkeepMmapFixed_eq_ok h
  intro vma member
  rcases mem_insertByHi.mp member with rfl | member
  · exact .inl rfl
  · right
    rcases clearing with ⟨-, -, rfl⟩ | ⟨-, removed⟩
    · exact ⟨vma, member, .refl vma⟩
    · exact vmaBkeepRemove_pieceOf (Nat.le_add_right addr length) removed vma member

end Mapping

/-! ## `bkeep_mprotect` -/

section Protect

variable {allocAlignment : Nat} {s s' : VmaState}

theorem mem_insertTail {tail : Option LibosVma} {tree : List LibosVma} {vma : LibosVma} :
    vma ∈ insertTail tail tree ↔ tail = some vma ∨ vma ∈ tree := by
  cases tail with
  | none => simp [insertTail]
  | some last => simp [insertTail, insertVma, eq_comm]

/-- A VMA `_vma_bkeep_change` leaves, as a piece of a VMA of the tree: it lies
in the range and got `prot`, or it lies outside and says what the old VMA said. -/
def ChangedPiece (begin stop : Nat) (prot : UInt32) (vma old : LibosVma) : Prop :=
  (vma.PieceOf (·.updateProt prot) old ∧ begin ≤ vma.begin ∧ vma.end' ≤ stop) ∨
    (vma.PieceOf id old ∧ (vma.end' ≤ begin ∨ stop ≤ vma.begin))

theorem ChangedPiece.unchanged {begin stop : Nat} {prot : UInt32} {vma : LibosVma}
    (outside : vma.end' ≤ begin ∨ stop ≤ vma.begin) : ChangedPiece begin stop prot vma vma :=
  .inr ⟨.refl vma, outside⟩

/-- What the second loop of `_vma_bkeep_change` leaves of VMAs that start at
`begin` or later. -/
theorem changeFollowing_pieceOf {begin stop : Nat} {prot : UInt32} {node2 : Nat}
    {tree : List LibosVma} (ascending : Ascending LibosVma.begin LibosVma.end' tree)
    (nonempty : ∀ v ∈ tree, v.begin < v.end') (above : ∀ v ∈ tree, begin ≤ v.begin) :
    ∀ vma, vma ∈ (changeFollowing stop prot node2 tree).1 ∨
        (changeFollowing stop prot node2 tree).2 = some vma →
      ∃ old ∈ tree, ChangedPiece begin stop prot vma old := by
  obtain ⟨done, after, rfl, doneEnds, stops⟩ := changeFollowing_eq stop prot node2 tree
  have afterAscending := (ascending_append.mp ascending).2.1
  -- the VMAs that end by `end` got `prot`
  have updated : ∀ vma ∈ done.map (fun vma => vmaUpdateProt vma prot),
      ∃ old ∈ done ++ after, ChangedPiece begin stop prot vma old := by
    intro vma member
    obtain ⟨old, found, rfl⟩ := List.mem_map.mp member
    exact ⟨old, List.mem_append_left _ found, .inl ⟨vmaUpdateProt_pieceOf old prot,
      by simpa using above old (List.mem_append_left _ found), by simpa using doneEnds old found⟩⟩
  rcases stops with ⟨starts, walked⟩ | ⟨cut, rest, rfl, below, inside, walked⟩
  · rw [walked]
    rintro vma (member | tail)
    · rcases List.mem_append.mp member with member | member
      · exact updated vma member
      -- the walk stopped at a VMA that starts at `end` or later
      refine ⟨vma, List.mem_append_right _ member, .unchanged (.inr ?_)⟩
      cases after with
      | nil => exact absurd member List.not_mem_nil
      | cons first later =>
        rcases List.mem_cons.mp member with rfl | member
        · exact starts vma rfl
        · have := (ascending_cons.mp afterAscending).1 vma member
          have := nonempty first (by simp)
          have := starts first rfl
          omega
    · cases tail
  · rw [walked]
    rintro vma (member | tail)
    · simp only [List.mem_append, List.mem_cons] at member
      rcases member with member | rfl | member
      · exact updated _ member
      · -- the head of the VMA reaching past `end` got `prot`
        exact ⟨cut, by simp, .inl ⟨(vmaUpdateProt_pieceOf _ prot).trans
          (LibosVma.cutEnd_pieceOf inside.le), by simpa using above cut (by simp), by simp⟩⟩
      · have := (ascending_cons.mp afterAscending).1 vma member
        exact ⟨vma, by simp [member], .unchanged (.inr (by omega))⟩
    · -- its tail is left as it was
      cases tail
      exact ⟨cut, by simp, .inr ⟨splitVma_snd_pieceOf below.le, .inr (by simp)⟩⟩

/-- The second loop of `_vma_bkeep_change` leaves every page it walks over. -/
theorem changeFollowing_covers {stop : Nat} {prot : UInt32} {node2 : Nat}
    {tree : List LibosVma} :
    ∀ old ∈ tree, ∀ page, old.Holds page → ∃ vma, (vma ∈ (changeFollowing stop prot node2 tree).1 ∨
      (changeFollowing stop prot node2 tree).2 = some vma) ∧ vma.Holds page := by
  obtain ⟨done, after, rfl, -, stops⟩ := changeFollowing_eq stop prot node2 tree
  intro old member page holds
  rcases stops with ⟨-, walked⟩ | ⟨cut, rest, rfl, below, inside, walked⟩
  · rw [walked]
    rcases List.mem_append.mp member with member | member
    · exact ⟨vmaUpdateProt old prot, .inl (List.mem_append_left _ (List.mem_map_of_mem member)),
        holds⟩
    · exact ⟨old, .inl (List.mem_append_right _ member), holds⟩
  · rw [walked]
    simp only [List.mem_append, List.mem_cons] at member
    rcases member with member | rfl | member
    · exact ⟨vmaUpdateProt old prot,
        .inl (List.mem_append_left _ (List.mem_map_of_mem member)), holds⟩
    · by_cases low : page < stop
      · exact ⟨vmaUpdateProt (old.cutEnd stop) prot, .inl (by simp), by simpa using holds.1,
          by simpa using low⟩
      · exact ⟨(splitVma old node2 stop).2, .inr rfl, by simp; omega, by simpa using holds.2⟩
    · exact ⟨old, .inl (by simp [member]), holds⟩

/-- Where the copy split off at `begin` goes in: after the head it was cut
from, in front of the VMA that followed. -/
theorem insertVma_between {before later : List LibosVma} {vma next : LibosVma}
    (earlier : ∀ v ∈ before, v.end' < vma.end') (upto : vma.end' ≤ next.end') :
    insertVma vma (before ++ next :: later) = before ++ vma :: next :: later := by
  rw [insertVma, insertByHi_append_of_lt earlier, insertByHi_cons_of_le upto]

/-- Unless it lies strictly inside one VMA, a change without `PROT_GROWSDOWN`
leaves pieces of the VMAs of the tree, given `prot` in the range, and every
page of the tree. -/
theorem vmaBkeepChange_pieceOf (wf : s.WellFormed allocAlignment) {begin stop : Nat}
    {prot : UInt32} {isInternal : Bool} {node1 node2 : Nat}
    (noGrowsDown : prot &&& PROT_GROWSDOWN = 0)
    (notInside : ∀ vma ∈ s.vmaTree, ¬ (vma.begin < begin ∧ stop < vma.end'))
    (fresh1 : ∀ vma ∈ s.vmaTree, vma.node ≠ node1)
    (h : vmaBkeepChange begin stop prot isInternal node1 node2 s = some (.ok s')) :
    (∀ vma ∈ s'.vmaTree, ∃ old ∈ s.vmaTree, ChangedPiece begin stop prot vma old) ∧
      ∀ old ∈ s.vmaTree, ∀ page, old.Holds page → ∃ vma ∈ s'.vmaTree, vma.Holds page := by
  obtain ⟨before, vma, rest, lookup, starts, -, change⟩ := vmaBkeepChange_eq_some_ok h
  obtain ⟨split, -, reaches, beforeVma, restAfter⟩ := wf.lookup lookup
  have vmaNonempty := wf.nonempty vma (by simp [split])
  have beforeKept : ∀ v ∈ before, ChangedPiece begin stop prot v v := fun v member =>
    .unchanged (.inl (by have := beforeVma v member; omega))
  have restAscending : Ascending LibosVma.begin LibosVma.end' (vma :: rest) :=
    (ascending_append.mp (split ▸ wf.ascending)).2.1
  have restNonempty : ∀ v ∈ vma :: rest, v.begin < v.end' :=
    fun v member => wf.nonempty v (by simp [split, member])
  -- what the walk from `tree` leaves in `s'`, with `prefix` kept in front of it
  have walk : ∀ {upto tree : List LibosVma}, Ascending LibosVma.begin LibosVma.end' tree →
      (∀ v ∈ tree, v.begin < v.end') → (∀ v ∈ tree, begin ≤ v.begin) →
      (∀ vma ∈ upto, ∃ old ∈ s.vmaTree, ChangedPiece begin stop prot vma old) →
      (∀ v ∈ tree, v ∈ s.vmaTree) →
      ∀ piece ∈ insertTail (changeFollowing stop prot node2 tree).2
        (upto ++ (changeFollowing stop prot node2 tree).1),
        ∃ old ∈ s.vmaTree, ChangedPiece begin stop prot piece old := by
    intro upto tree ascending nonempty above uptoPieces inTree piece member
    rcases mem_insertTail.mp member with tail | member
    · obtain ⟨old, found, changed⟩ := changeFollowing_pieceOf ascending nonempty above piece (.inr tail)
      exact ⟨old, inTree old found, changed⟩
    rcases List.mem_append.mp member with member | member
    · exact uptoPieces piece member
    · obtain ⟨old, found, changed⟩ :=
        changeFollowing_pieceOf ascending nonempty above piece (.inl member)
      exact ⟨old, inTree old found, changed⟩
  have walkCovers : ∀ {upto tree : List LibosVma}, ∀ old ∈ tree, ∀ page, old.Holds page →
      ∃ piece ∈ insertTail (changeFollowing stop prot node2 tree).2
        (upto ++ (changeFollowing stop prot node2 tree).1), piece.Holds page := by
    intro upto tree old member page holds
    obtain ⟨piece, found, pieceHolds⟩ := changeFollowing_covers old member page holds
    rcases found with member | tail
    · exact ⟨piece, mem_insertTail.mpr (.inr (List.mem_append_right _ member)), pieceHolds⟩
    · exact ⟨piece, mem_insertTail.mpr (.inl tail), pieceHolds⟩
  rcases change with ⟨below, -, inside, -⟩ | ⟨below, -, covered, next, later, rfl, rfl⟩ |
    ⟨notSplit, rfl⟩
  · exact absurd ⟨below, inside⟩ (notInside vma (by simp [split]))
  · -- split at `begin`; the walk goes on from `next`, after the copy
    have nextMember : next ∈ s.vmaTree := by simp [split]
    have nextAfter := restAfter next List.mem_cons_self
    have laterAscending := (ascending_cons.mp restAscending).2
    -- `next` is neither `vma` nor before it, so its node is not theirs
    have otherNode : ∀ v ∈ s.vmaTree, v.begin < next.begin → v.node ≠ next.node := by
      intro v member earlier same
      have := List.inj_on_of_nodup_map wf.nodesDistinct member nextMember same
      subst this
      omega
    have position : insertVma (vmaUpdateProt (splitVma vma node1 begin).2 prot)
        (before ++ (splitVma vma node1 begin).1 :: next :: later) =
        (before ++ [(splitVma vma node1 begin).1, vmaUpdateProt (splitVma vma node1 begin).2 prot])
          ++ next :: later := by
      have regroup : before ++ (splitVma vma node1 begin).1 :: next :: later =
          (before ++ [(splitVma vma node1 begin).1]) ++ next :: later := by simp
      rw [regroup, insertVma_between]
      · simp
      · intro v member
        rcases List.mem_append.mp member with member | member
        · have := beforeVma v member
          simp only [vmaUpdateProt_end', splitVma_snd_end']
          omega
        · simp only [List.mem_singleton] at member
          simp [member]
          omega
      · have := wf.nonempty next nextMember
        simp only [vmaUpdateProt_end', splitVma_snd_end']
        omega
    have resumed : splitAtNode next.node
        ((before ++ [(splitVma vma node1 begin).1,
          vmaUpdateProt (splitVma vma node1 begin).2 prot]) ++ next :: later) =
        (before ++ [(splitVma vma node1 begin).1,
          vmaUpdateProt (splitVma vma node1 begin).2 prot], next :: later) := by
      refine splitAtNode_eq (fun v member => ?_) rfl
      simp only [List.mem_append, List.mem_cons, List.not_mem_nil, or_false] at member
      rcases member with member | rfl | rfl
      · have := beforeVma v member
        have := wf.nonempty v (by simp [split, member])
        exact otherNode v (by simp [split, member]) (by omega)
      · exact otherNode vma (by simp [split]) (by omega)
      · exact fresh1 next nextMember ∘ Eq.symm
    simp only [position, resumed]
    have uptoPieces : ∀ piece ∈ before ++ [(splitVma vma node1 begin).1,
        vmaUpdateProt (splitVma vma node1 begin).2 prot],
        ∃ old ∈ s.vmaTree, ChangedPiece begin stop prot piece old := by
      intro piece member
      simp only [List.mem_append, List.mem_cons, List.not_mem_nil, or_false] at member
      rcases member with member | rfl | rfl
      · exact ⟨piece, by simp [split, member], beforeKept piece member⟩
      · exact ⟨vma, by simp [split], .inr ⟨LibosVma.cutEnd_pieceOf reaches.le, .inl (by simp)⟩⟩
      · exact ⟨vma, by simp [split], .inl ⟨(vmaUpdateProt_pieceOf _ prot).trans
          (splitVma_snd_pieceOf below.le), by simp, by simpa using covered⟩⟩
    refine ⟨walk laterAscending (fun v member => restNonempty v (List.mem_cons_of_mem _ member))
      (fun v member => by have := restAfter v member; omega) uptoPieces
      (fun v member => by simp [split, member]), fun old member page holds => ?_⟩
    rw [split] at member
    simp only [List.mem_append, List.mem_cons] at member
    rcases member with member | rfl | member
    · exact ⟨old, mem_insertTail.mpr (.inr (by simp [member])), holds⟩
    · -- the head keeps the pages below `begin`, the copy those from `begin`
      by_cases low : page < begin
      · exact ⟨(splitVma old node1 begin).1, mem_insertTail.mpr (.inr (by simp)),
          by simpa using holds.1, by simpa using low⟩
      · exact ⟨vmaUpdateProt (splitVma old node1 begin).2 prot,
          mem_insertTail.mpr (.inr (by simp)), by simp; omega, by simpa using holds.2⟩
    · exact walkCovers old (List.mem_cons.mpr member) page holds
  · -- the walk starts at `vma`, which starts at `begin`
    have atBegin : vma.begin = begin := by
      have : ¬ vma.begin < begin := fun earlier => notSplit ⟨earlier, noGrowsDown⟩
      omega
    have above : ∀ v ∈ vma :: rest, begin ≤ v.begin := by
      intro v member
      rcases List.mem_cons.mp member with rfl | member
      · omega
      · have := restAfter v member
        omega
    refine ⟨walk restAscending restNonempty above
      (fun piece member => ⟨piece, by simp [split, member], beforeKept piece member⟩)
      (fun v member => by simp [split, member]), fun old member page holds => ?_⟩
    rw [split] at member
    rcases List.mem_append.mp member with member | member
    · exact ⟨old, mem_insertTail.mpr (.inr (List.mem_append_left _ member)), holds⟩
    · exact walkCovers old member page holds

/-- `bkeep_mprotect` without `PROT_GROWSDOWN`, on a range that does not lie
strictly inside one VMA, gives `prot` to the mapped pages of the range as
`vma_update_prot` does and leaves every other page as it was. -/
theorem pageMap_bkeepMprotect (wf : s.WellFormed allocAlignment) {addr length : Nat}
    {prot : UInt32} {isInternal vma1Allocated vma2Allocated : Bool}
    (noGrowsDown : prot &&& PROT_GROWSDOWN = 0)
    (notInside : ∀ vma ∈ s.vmaTree, ¬ (vma.begin < addr ∧ addr + length < vma.end'))
    (h : bkeepMprotect allocAlignment addr length prot isInternal vma1Allocated vma2Allocated s =
      some (.ok s')) :
    pageMap s'.vmaTree = protect (pageMap s.vmaTree) addr (addr + length) prot := by
  have protectedWf := bkeepMprotect_wellFormed wf h
  obtain ⟨-, changed⟩ := bkeepMprotect_eq_some_ok h
  obtain ⟨pieces, covers⟩ := vmaBkeepChange_pieceOf (wf.handOut 2) noGrowsDown notInside
    (fun vma member => Nat.ne_of_lt (wf.nodesFresh vma member)) changed
  funext page
  simp only [protect]
  split_ifs with inRange
  · -- in the range, a page is held by a piece that got `prot`
    refine lookup_eq_map_of_covers protectedWf.ascending wf.ascending
      (fun vma member holds => ?_) fun old member holds => covers old member page holds
    obtain ⟨old, found, ⟨piece, -⟩ | ⟨-, outside⟩⟩ := pieces vma member
    · exact ⟨old, found, piece page holds⟩
    · have := holds
      rcases outside with outside | outside <;> (simp only [Contains] at this; omega)
  · -- outside it, by a piece that kept what its VMA said
    refine lookup_eq_of_covers protectedWf.ascending wf.ascending
      (fun vma member holds => ?_) fun old member holds => covers old member page holds
    obtain ⟨old, found, ⟨-, lower, upper⟩ | ⟨piece, -⟩⟩ := pieces vma member
    · have := holds
      simp only [Contains] at this
      omega
    · exact ⟨old, found, piece page holds⟩

end Protect

/-! ## The refinement -/

section Refinement

variable {allocAlignment : Nat} {s : VmaState}

/-- What the three calls do to the map in the state `s`: `bkeep_mmap_fixed`
and `bkeep_munmap` overwrite the range, and `bkeep_mprotect` without
`PROT_GROWSDOWN`, on a range that does not lie strictly inside one VMA, gives
`prot` to the range; a page outside the range keeps what the map said of it. -/
def RefinesPageMap (allocAlignment : Nat) (s : VmaState) : Prop :=
  (∀ (addr length : Nat) (prot flags : UInt32) (file : Option LibosHandle) (offset : Nat)
      (newVmaAllocated vma1Allocated : Bool) (s' : VmaState),
    bkeepMmapFixed allocAlignment addr length prot flags file offset newVmaAllocated
      vma1Allocated s = .ok s' →
    pageMap s'.vmaTree = overwrite (pageMap s.vmaTree) addr (addr + length)
      (newMapping s.nextNode addr (addr + length) prot flags file offset).pageInfo) ∧
  (∀ (addr length : Nat) (isInternal vma1Allocated vma2Allocated : Bool) (s' : VmaState)
      (tmp : Nat),
    bkeepMunmap allocAlignment addr length isInternal vma1Allocated vma2Allocated s =
      .ok (s', tmp) →
    pageMap s'.vmaTree = overwrite (pageMap s.vmaTree) addr (addr + length)
      fun _ => unmappedPage) ∧
  (∀ (addr length : Nat) (prot : UInt32) (isInternal vma1Allocated vma2Allocated : Bool)
      (s' : VmaState),
    prot &&& PROT_GROWSDOWN = 0 →
    (∀ vma ∈ s.vmaTree, ¬ (vma.begin < addr ∧ addr + length < vma.end')) →
    bkeepMprotect allocAlignment addr length prot isInternal vma1Allocated vma2Allocated s =
      some (.ok s') →
    pageMap s'.vmaTree = protect (pageMap s.vmaTree) addr (addr + length) prot)

end Refinement

end Gramine.LibOS.Bookkeep
