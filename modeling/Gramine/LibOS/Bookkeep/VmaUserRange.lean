import Gramine.LibOS.Bookkeep.VmaPlacement

/-!
# Ranges of user memory: `is_in_adjacent_user_vmas`

`_traverse_vmas_in_range` walks the VMAs that meet a range, from the one
`_lookup_vma` finds at its start, and answers whether they lie end to end
across the whole range, with the valid part of each when asked; its visitor may
stop the walk. `is_in_adjacent_user_vmas` walks with `adj_visitor`, which stops
at the first VMA that is internal, unmapped, or lacks a bit of `prot`. On a
well-formed tree the answer is exact: every byte of the range lies in the
valid part of a user VMA that is mapped and allows `prot`.
-/

namespace Gramine.LibOS.Bookkeep

open IntervalList

variable {allocAlignment : Nat} {s : VmaState}

/-- A VMA that `adj_visitor` lets the walk pass: a user VMA, not unmapped,
whose `prot` has every bit of `prot`. -/
def IsUserMapping (prot : UInt32) (vma : LibosVma) : Prop :=
  vma.flags &&& VMA_INTERNAL = 0 ∧ vma.flags &&& VMA_UNMAPPED = 0 ∧ vma.prot &&& prot = prot

instance (prot : UInt32) (vma : LibosVma) : Decidable (IsUserMapping prot vma) :=
  inferInstanceAs (Decidable (_ ∧ _ ∧ _))

theorem mask_or_eq_zero {x a b : UInt32} : x &&& (a ||| b) = 0 ↔ x &&& a = 0 ∧ x &&& b = 0 := by
  have distrib : x &&& (a ||| b) = (x &&& a) ||| (x &&& b) := by
    apply UInt32.toBitVec_inj.mp
    simp [BitVec.and_or_distrib_left]
  rw [distrib, UInt32.or_eq_zero_iff]

@[simp] theorem adjVisitor_fst (vma : LibosVma) (ctx : AdjVisitorCtx) :
    (adjVisitor vma ctx).1 = decide (IsUserMapping ctx.prot vma) := by
  rw [Bool.eq_iff_iff, decide_eq_true_iff]
  simp [adjVisitor, IsUserMapping, mask_or_eq_zero, and_assoc]

@[simp] theorem adjVisitor_snd (vma : LibosVma) (ctx : AdjVisitorCtx) :
    (adjVisitor vma ctx).2 = ⟨ctx.prot, ctx.isOk && decide (IsUserMapping ctx.prot vma)⟩ := by
  rw [← adjVisitor_fst]
  rfl

/-- The VMAs whose valid parts the walk may count. -/
abbrev userMappings (prot : UInt32) (tree : List LibosVma) : List LibosVma :=
  tree.filter fun vma => decide (IsUserMapping prot vma)

/-- A VMA `adj_visitor` refuses stops the walk with the answer "no"; and the
range from a byte of it is not covered by user mappings when the VMAs after
it start above that byte. -/
theorem traverseFollowing_adjVisitor_refused {stop : Nat} {prot : UInt32} {vma : LibosVma}
    {rest : List LibosVma} {addr : Nat} {isContinuous isOk : Bool}
    (refused : ¬ IsUserMapping prot vma) (later : ∀ c ∈ rest, addr < c.begin)
    (below : addr < stop) :
    ((traverseFollowing stop true adjVisitor vma rest isContinuous ⟨prot, isOk⟩).1 &&
        (traverseFollowing stop true adjVisitor vma rest isContinuous ⟨prot, isOk⟩).2.isOk) =
        true ↔
      isContinuous = true ∧ isOk = true ∧
        Covers LibosVma.begin LibosVma.validEnd (userMappings prot (vma :: rest)) addr stop := by
  have visit : adjVisitor vma ⟨prot, isOk⟩ = (false, ⟨prot, false⟩) := by
    simp [adjVisitor_fst, adjVisitor_snd, refused, Prod.ext_iff]
  rw [traverseFollowing, visit]
  simp only [Bool.and_false, Bool.false_eq_true, false_iff, not_and]
  intro _ _
  simp only [userMappings, List.filter_cons, refused, decide_false, Bool.false_eq_true, if_false]
  exact not_covers_of_lt_lo below fun c member => later c (List.mem_filter.mp member).1

/-- The loop of `_traverse_vmas_in_range` with `adj_visitor`, from a VMA
holding `addr`: the walk ends with the range continuous and every VMA
accepted exactly when the valid parts of the user mappings among the VMAs
cover `[addr, end)`. The induction follows the walk, one VMA at a time. -/
theorem traverseFollowing_adjVisitor {stop : Nat} {prot : UInt32} {vma : LibosVma}
    {rest : List LibosVma} {addr : Nat} {isContinuous isOk : Bool}
    (ascending : Ascending LibosVma.begin LibosVma.end' (vma :: rest))
    (ok : ∀ v ∈ vma :: rest, v.begin < v.end' ∧ v.begin ≤ v.validEnd ∧ v.validEnd ≤ v.end')
    (start : vma.begin ≤ addr) (inside : addr < vma.end') (below : addr < stop) :
    ((traverseFollowing stop true adjVisitor vma rest isContinuous ⟨prot, isOk⟩).1 &&
        (traverseFollowing stop true adjVisitor vma rest isContinuous ⟨prot, isOk⟩).2.isOk) =
        true ↔
      isContinuous = true ∧ isOk = true ∧
        Covers LibosVma.begin LibosVma.validEnd (userMappings prot (vma :: rest)) addr stop := by
  induction rest generalizing vma addr isContinuous isOk with
  | nil =>
    by_cases accepted : IsUserMapping prot vma
    swap
    · exact traverseFollowing_adjVisitor_refused accepted (by simp) below
    -- `vma` is the last VMA: its valid part must reach `end`
    have visit : adjVisitor vma ⟨prot, isOk⟩ = (true, ⟨prot, isOk⟩) := by
      simp [adjVisitor_fst, adjVisitor_snd, accepted, Prod.ext_iff]
    have filtered : userMappings prot [vma] = [vma] := by simp [userMappings, accepted]
    rw [traverseFollowing, visit, filtered, covers_cons_iff start below (by simp),
      covers_nil_iff]
    simp only [if_true, Bool.and_eq_true, decide_eq_true_eq]
    constructor
    · rintro ⟨⟨continuous, reaches⟩, isOk⟩
      exact ⟨continuous, isOk, .inl reaches⟩
    · rintro ⟨continuous, isOk, reaches | ⟨-, reaches⟩⟩ <;> exact ⟨⟨continuous, by omega⟩, isOk⟩
  | cons next rest ih =>
    obtain ⟨firstBefore, restAscending⟩ := ascending_cons.mp ascending
    obtain ⟨nextBefore, -⟩ := ascending_cons.mp restAscending
    have vmaNext := firstBefore next List.mem_cons_self
    have vmaOk := ok vma List.mem_cons_self
    have nextOk := ok next (by simp)
    by_cases accepted : IsUserMapping prot vma
    swap
    · exact traverseFollowing_adjVisitor_refused accepted
        (fun c member => Nat.lt_of_lt_of_le inside (firstBefore c member)) below
    have visit : adjVisitor vma ⟨prot, isOk⟩ = (true, ⟨prot, isOk⟩) := by
      simp [adjVisitor_fst, adjVisitor_snd, accepted, Prod.ext_iff]
    -- past `vma` the range is covered only from the end of its valid part on
    have covers : Covers LibosVma.begin LibosVma.validEnd (userMappings prot (vma :: next :: rest))
          addr stop ↔ stop ≤ vma.validEnd ∨ addr < vma.validEnd ∧
            Covers LibosVma.begin LibosVma.validEnd (userMappings prot (next :: rest))
              vma.validEnd stop := by
      have filtered : userMappings prot (vma :: next :: rest) =
          vma :: userMappings prot (next :: rest) := by
        simp [userMappings, accepted]
      rw [filtered]
      exact covers_cons_iff start below fun c member =>
        Nat.lt_of_lt_of_le inside (firstBefore c (List.mem_filter.mp member).1)
    rw [covers, traverseFollowing, visit]
    simp only [if_true]
    by_cases stopped : stop ≤ next.begin
    · -- `next` lies past the range: the valid part of `vma` must reach `end`
      simp only [stopped, if_true, Bool.and_eq_true, decide_eq_true_eq]
      have notRest : ¬ Covers LibosVma.begin LibosVma.validEnd
          (userMappings prot (next :: rest)) vma.validEnd stop ∨ stop ≤ vma.validEnd := by
        by_cases reaches : stop ≤ vma.validEnd
        · exact .inr reaches
        refine .inl (not_covers_of_lt_lo (by omega) fun c member => ?_)
        rcases List.mem_cons.mp (List.mem_filter.mp member).1 with rfl | farther
        · omega
        · have := nextBefore c farther
          omega
      constructor
      · rintro ⟨⟨continuous, reaches⟩, isOk⟩
        exact ⟨continuous, isOk, .inl reaches⟩
      · rintro ⟨continuous, isOk, reaches | ⟨-, covered⟩⟩
        · exact ⟨⟨continuous, reaches⟩, isOk⟩
        · rcases notRest with uncovered | reaches
          · exact absurd covered uncovered
          · exact ⟨⟨continuous, reaches⟩, isOk⟩
    · -- the walk goes on at `next`, which must start where the valid part ends
      simp only [stopped, if_false]
      have nextBelow : next.begin < stop := Nat.lt_of_not_le stopped
      rw [ih restAscending (fun v member => ok v (List.mem_cons_of_mem vma member)) le_rfl
        nextOk.1 nextBelow]
      simp only [Bool.and_eq_true, beq_iff_eq]
      constructor
      · rintro ⟨⟨continuous, adjacent⟩, isOk, covered⟩
        exact ⟨continuous, isOk, .inr ⟨by omega, adjacent ▸ covered⟩⟩
      · rintro ⟨continuous, isOk, reaches | ⟨-, covered⟩⟩
        · omega
        -- the first byte after the valid part lies in a user mapping that
        -- starts there, which can only be `next`
        obtain ⟨c, member, contains⟩ := covered vma.validEnd le_rfl (by omega)
        have adjacent : vma.validEnd = next.begin := by
          have cStart := contains.1
          rcases List.mem_cons.mp (List.mem_filter.mp member).1 with rfl | farther
          · omega
          · have := nextBefore c farther
            omega
        exact ⟨⟨continuous, adjacent⟩, isOk, adjacent ▸ covered⟩

/-- `is_in_adjacent_user_vmas(addr, length, prot)` on a well-formed tree: every
byte of `[addr, addr + length)` lies in the valid part of a user VMA that is
mapped and allows `prot`. -/
theorem isInAdjacentUserVmas_iff (wf : s.WellFormed allocAlignment) {addr length : Nat}
    {prot : UInt32} :
    isInAdjacentUserVmas addr length prot s = true ↔
      ∀ x, addr ≤ x → x < addr + length → ∃ vma ∈ s.vmaTree, vma.begin ≤ x ∧ x < vma.validEnd ∧
        vma.flags &&& VMA_INTERNAL = 0 ∧ vma.flags &&& VMA_UNMAPPED = 0 ∧
        vma.prot &&& prot = prot := by
  -- the right side is the cover of the range by the valid parts of the user mappings
  have target : (∀ x, addr ≤ x → x < addr + length → ∃ vma ∈ s.vmaTree, vma.begin ≤ x ∧
      x < vma.validEnd ∧ vma.flags &&& VMA_INTERNAL = 0 ∧ vma.flags &&& VMA_UNMAPPED = 0 ∧
      vma.prot &&& prot = prot) ↔
      Covers LibosVma.begin LibosVma.validEnd (userMappings prot s.vmaTree) addr (addr + length) := by
    simp only [Covers, Contains, userMappings, List.mem_filter, decide_eq_true_iff]
    constructor
    · intro covered x above below
      obtain ⟨vma, member, start, inside, user⟩ := covered x above below
      exact ⟨vma, ⟨member, user⟩, start, inside⟩
    · intro covered x above below
      obtain ⟨vma, ⟨member, user⟩, start, inside⟩ := covered x above below
      exact ⟨vma, member, start, inside, user⟩
  rw [target]
  simp only [isInAdjacentUserVmas, traverseVmasInRange]
  by_cases empty : length = 0
  · subst empty
    simp only [Nat.add_zero, if_true, Bool.and_self, true_iff]
    exact covers_of_le le_rfl
  simp only [Nat.left_eq_add, empty, if_false]
  rcases lookup : lookupVma addr s.vmaTree with ⟨before, found⟩
  obtain ⟨split, beforeEnd, head⟩ := lookupVma_eq lookup
  have ok : ∀ v ∈ s.vmaTree, v.begin < v.end' ∧ v.begin ≤ v.validEnd ∧ v.validEnd ≤ v.end' :=
    fun v member => ⟨(wf.vmasOk v member).nonempty, (wf.vmasOk v member).validEndLower,
      (wf.vmasOk v member).validEndUpper⟩
  have inTree : ∀ v ∈ found, v ∈ s.vmaTree := fun v member => by
    rw [split]
    exact List.mem_append_right before member
  -- the VMAs before the one found end by `addr`
  have dropBefore : Covers LibosVma.begin LibosVma.validEnd (userMappings prot s.vmaTree) addr
      (addr + length) ↔
      Covers LibosVma.begin LibosVma.validEnd (userMappings prot found) addr (addr + length) := by
    rw [split, userMappings, List.filter_append]
    refine covers_append_left_iff fun v member => ?_
    have inBefore := (List.mem_filter.mp member).1
    exact le_trans (ok v (by rw [split]; exact List.mem_append_left found inBefore)).2.2
      (beforeEnd v inBefore)
  rw [dropBefore]
  cases found with
  | nil =>
    simp only [Bool.false_and, Bool.false_eq_true, false_iff, userMappings, List.filter_nil,
      covers_nil_iff]
    omega
  | cons vma rest =>
    have vmaOk := ok vma (inTree vma List.mem_cons_self)
    have ascending : Ascending LibosVma.begin LibosVma.end' (vma :: rest) := by
      have := wf.ascending
      rw [split] at this
      exact (ascending_append.mp this).2.1
    have later : ∀ c ∈ userMappings prot (vma :: rest), vma.begin ≤ c.begin := by
      intro c member
      rcases List.mem_cons.mp (List.mem_filter.mp member).1 with rfl | farther
      · exact le_rfl
      · have := (ascending_cons.mp ascending).1 c farther
        omega
    simp only
    by_cases past : addr + length ≤ vma.begin
    · -- the range ends before the VMA found starts
      simp only [past, if_true, Bool.false_and, Bool.false_eq_true, false_iff]
      exact not_covers_of_lt_lo (by omega) fun c member => by
        have := later c member
        omega
    simp only [past, if_false]
    by_cases start : vma.begin ≤ addr
    · rw [traverseFollowing_adjVisitor ascending (fun v member => ok v (inTree v member)) start
        (head vma rfl) (by omega)]
      simp [start]
    · -- the range starts in a hole below the VMA found
      rw [traverseFollowing_adjVisitor ascending (fun v member => ok v (inTree v member)) le_rfl
        vmaOk.1 (by omega)]
      simp only [start, decide_false, Bool.false_eq_true, false_and, false_iff]
      exact not_covers_of_lt_lo (by omega) fun c member => by
        have := later c member
        omega

/-- The two pages of `oneMapping`, read. -/
theorem isInAdjacentUserVmas_iff_one_mapping :
    oneMapping.WellFormed 4096 ∧
      (isInAdjacentUserVmas 0x10000 0x2000 PROT_READ oneMapping = true ↔
        ∀ x, 0x10000 ≤ x → x < 0x10000 + 0x2000 → ∃ vma ∈ oneMapping.vmaTree, vma.begin ≤ x ∧
          x < vma.validEnd ∧ vma.flags &&& VMA_INTERNAL = 0 ∧ vma.flags &&& VMA_UNMAPPED = 0 ∧
          vma.prot &&& PROT_READ = PROT_READ) :=
  ⟨oneMapping_wellFormed, isInAdjacentUserVmas_iff oneMapping_wellFormed⟩

example : isInAdjacentUserVmas 0x10000 0x2000 PROT_READ oneMapping = true := by decide

-- the page after the mapping is in no VMA, and the mapping is not writable
example : isInAdjacentUserVmas 0x11000 0x2000 PROT_READ oneMapping = false := by decide
example : isInAdjacentUserVmas 0x10000 0x1000 PROT_WRITE oneMapping = false := by decide

end Gramine.LibOS.Bookkeep
