import Mathlib
import Gramine.Common.AvlTree.History

/-!
# The AVL invariant

`avl_tree.h` documents `balance` as the height of the node's right subtree
less that of its left one, and `debug_avl_tree_is_balanced` checks at every
node that this holds and that the difference is `-1`, `0` or `1`
(`Balanced`, decided by the source's own checker).

A rotation of `avl_tree_do_balance` takes a node whose balance reached `±2`
and gives a balanced subtree whose height is the old one less one exactly
when the function says the height changed (`doBalance_balanced`). The loop
of `avl_tree_balance` keeps one node pending: its child on `side` changed
height by one and every other `balance` field is right for the old heights
(`Pending`). So insertion and deletion keep the invariant, and from a tree
that has it they always return: the children that `avl_tree_do_balance`
reads without a check are never `NULL` there.
-/

namespace Gramine.Common

open SearchTree TreeZipper Function

variable {α : Type _}

/-! ## The checker of the source -/

/-- `avl_tree_is_balanced_size(node, &size)`: whether the subtree is
balanced, and its height. -/
def avlTreeIsBalancedSize (bal : α → Int) : BinaryTree α → Bool × Nat
  | .nil => (true, 0)
  | .node node l r =>
    let (retL, a) := avlTreeIsBalancedSize bal l
    let (retR, b) := avlTreeIsBalancedSize bal r
    let ret := retL && retR
    if a < b then (ret && b - a == 1 && bal node == 1, b + 1)
    else if a = b then (ret && bal node == 0, a + 1)
    else (ret && a - b == 1 && bal node == -1, a + 1)

/-- `debug_avl_tree_is_balanced(tree)`. -/
def debugAvlTreeIsBalanced (bal : α → Int) (root : BinaryTree α) : Bool :=
  (avlTreeIsBalancedSize bal root).1

/-- The AVL invariant: at every node `balance` is the height of the right
subtree less that of the left one, and is at most one either way. -/
def Balanced (bal : α → Int) : BinaryTree α → Prop
  | .nil => True
  | .node v l r =>
    Balanced bal l ∧ Balanced bal r ∧ bal v = (r.height : Int) - l.height ∧ -1 ≤ bal v ∧ bal v ≤ 1

section Checker

variable (bal : α → Int)

theorem avlTreeIsBalancedSize_snd : ∀ t : BinaryTree α, (avlTreeIsBalancedSize bal t).2 = t.height
  | .nil => rfl
  | .node v l r => by
    have left := avlTreeIsBalancedSize_snd l
    have right := avlTreeIsBalancedSize_snd r
    simp only [avlTreeIsBalancedSize]
    split_ifs <;> simp only [BinaryTree.height] <;> omega

/-- The source's checker decides the invariant. -/
theorem avlTreeIsBalancedSize_fst :
    ∀ t : BinaryTree α, (avlTreeIsBalancedSize bal t).1 = true ↔ Balanced bal t
  | .nil => by simp [avlTreeIsBalancedSize, Balanced]
  | .node v l r => by
    have left := avlTreeIsBalancedSize_fst l
    have right := avlTreeIsBalancedSize_fst r
    have heightL := avlTreeIsBalancedSize_snd bal l
    have heightR := avlTreeIsBalancedSize_snd bal r
    simp only [avlTreeIsBalancedSize, Balanced, ← left, ← right]
    rcases checkL : avlTreeIsBalancedSize bal l with ⟨retL, a⟩
    rcases checkR : avlTreeIsBalancedSize bal r with ⟨retR, b⟩
    rw [checkL] at heightL
    rw [checkR] at heightR
    dsimp only at heightL heightR ⊢
    subst heightL heightR
    -- the three branches of the source compare the two heights
    split_ifs <;> simp only [Bool.and_eq_true, beq_iff_eq, and_assoc] <;>
      exact and_congr_right fun _ => and_congr_right fun _ => by omega

instance (t : BinaryTree α) : Decidable (Balanced bal t) :=
  decidable_of_iff _ (avlTreeIsBalancedSize_fst bal t)

theorem debugAvlTreeIsBalanced_iff (root : BinaryTree α) :
    debugAvlTreeIsBalanced bal root = true ↔ Balanced bal root :=
  avlTreeIsBalancedSize_fst bal root

end Checker

/-! ## The invariant around a cursor -/

/-- Frames that make a balanced tree of any balanced subtree of height `h`
put into them. -/
def FramesBalanced (bal : α → Int) : List (Frame α) → Nat → Prop
  | [], _ => True
  | .left p s :: path, h =>
    Balanced bal s ∧ bal p = (s.height : Int) - h ∧ -1 ≤ bal p ∧ bal p ≤ 1 ∧
      FramesBalanced bal path (max h s.height + 1)
  | .right s p :: path, h =>
    Balanced bal s ∧ bal p = (h : Int) - s.height ∧ -1 ≤ bal p ∧ bal p ≤ 1 ∧
      FramesBalanced bal path (max s.height h + 1)

section Invariant

variable {bal bal' : α → Int}

/-- The invariant of a tree reads the `balance` fields of its own nodes only. -/
theorem Balanced.congr {t : BinaryTree α} (agree : ∀ x ∈ inorder t, bal' x = bal x)
    (balanced : Balanced bal t) : Balanced bal' t := by
  induction t with
  | nil => trivial
  | node v l r left right =>
    obtain ⟨balancedL, balancedR, here, low, high⟩ := balanced
    have atV : bal' v = bal v := agree v (by simp)
    refine ⟨left (fun x member => agree x (by simp [member])) balancedL,
      right (fun x member => agree x (by simp [member])) balancedR, ?_, ?_, ?_⟩ <;> omega

theorem FramesBalanced.congr {path : List (Frame α)} {h : Nat}
    (agree : ∀ x ∈ pathBefore path ++ pathAfter path, bal' x = bal x)
    (balanced : FramesBalanced bal path h) : FramesBalanced bal' path h := by
  induction path generalizing h with
  | nil => trivial
  | cons frame path ih =>
    cases frame with
    | left p s =>
      obtain ⟨sibling, here, low, high, rest⟩ := balanced
      have atP : bal' p = bal p := agree p (by simp [pathAfter])
      refine ⟨sibling.congr fun x member => agree x (by simp [pathAfter, member]), by omega, by omega,
        by omega, ih (fun x member => agree x ?_) rest⟩
      simp only [List.mem_append] at member ⊢
      rcases member with before | after
      · exact .inl (by simpa [pathBefore] using before)
      · exact .inr (by simp [pathAfter, after])
    | right s p =>
      obtain ⟨sibling, here, low, high, rest⟩ := balanced
      have atP : bal' p = bal p := agree p (by simp [pathBefore])
      refine ⟨sibling.congr fun x member => agree x (by simp [pathBefore, member]), by omega, by omega,
        by omega, ih (fun x member => agree x ?_) rest⟩
      simp only [List.mem_append] at member ⊢
      rcases member with before | after
      · exact .inl (by simp [pathBefore, before])
      · exact .inr (by simpa [pathAfter] using after)

/-- A tree is balanced exactly when the subtree at a cursor is and the frames
above fit its height. -/
theorem balanced_plug (t : BinaryTree α) (path : List (Frame α)) :
    Balanced bal (plug t path) ↔ Balanced bal t ∧ FramesBalanced bal path t.height := by
  induction path generalizing t with
  | nil => simp [plug, FramesBalanced]
  | cons frame path ih =>
    cases frame with
    | left p s =>
      rw [plug, ih]
      simp only [Balanced, FramesBalanced, BinaryTree.height]
      tauto
    | right s p =>
      rw [plug, ih]
      simp only [Balanced, FramesBalanced, BinaryTree.height]
      tauto

theorem height_map {β : Type _} (f : α → β) : ∀ t : BinaryTree α, (t.map f).height = t.height
  | .nil => rfl
  | .node v l r => by simp [BinaryTree.map, height_map f l, height_map f r]

/-- Renaming the nodes, with their `balance` fields, keeps the invariant. -/
theorem balanced_map (f : α → α) (same : ∀ v, bal' (f v) = bal v) :
    ∀ t : BinaryTree α, Balanced bal' (t.map f) ↔ Balanced bal t
  | .nil => .rfl
  | .node v l r => by
    simp only [BinaryTree.map, Balanced, balanced_map f same l, balanced_map f same r, height_map, same]

/-- A balanced tree of height `h` has at least `fib (h + 2) - 1` nodes, as
many as the sparsest AVL tree: its height is logarithmic in its size. -/
theorem Balanced.fib_le_numNodes : ∀ {t : BinaryTree α}, Balanced bal t → Nat.fib (t.height + 2) ≤ t.numNodes + 1
  | .nil, _ => le_refl _
  | .node v l r, ⟨balancedL, balancedR, atV, low, high⟩ => by
    have left := balancedL.fib_le_numNodes
    have right := balancedR.fib_le_numNodes
    have recurrence : Nat.fib (max l.height r.height + 3) =
        Nat.fib (max l.height r.height + 1) + Nat.fib (max l.height r.height + 2) := Nat.fib_add_two
    show Nat.fib (max l.height r.height + 3) ≤ l.numNodes + r.numNodes + 2
    -- the taller child is one lower than the node, the other at most two lower
    rcases le_total l.height r.height with lower | lower
    · have other : Nat.fib (r.height + 1) ≤ Nat.fib (l.height + 2) := Nat.fib_mono (by omega)
      rw [max_eq_right lower] at recurrence ⊢
      omega
    · have other : Nat.fib (l.height + 1) ≤ Nat.fib (r.height + 2) := Nat.fib_mono (by omega)
      rw [max_eq_left lower] at recurrence ⊢
      omega

/-- In a tree of distinct nodes, the subtree at a cursor has distinct nodes. -/
theorem nodup_subtree {z : Cursor α} (nodup : (inorder z.tree).Nodup) : (inorder z.subtree).Nodup := by
  rw [Cursor.tree, inorder_plug] at nodup
  exact nodup.sublist (List.infix_append _ _ _).sublist

/-- A change of `balance` fields inside the subtree at a cursor leaves the
frames above as they were. -/
theorem FramesBalanced.of_inside {z : Cursor α} {h : Nat} (nodup : (inorder z.tree).Nodup)
    (inside : ∀ x ∉ inorder z.subtree, bal' x = bal x) (frames : FramesBalanced bal z.path h) :
    FramesBalanced bal' z.path h := by
  rw [Cursor.tree, inorder_plug] at nodup
  refine frames.congr fun x member => inside x fun inSub => ?_
  rcases List.mem_append.mp member with before | after
  · rw [List.append_assoc] at nodup
    exact List.disjoint_of_nodup_append nodup before (List.mem_append_left _ inSub)
  · exact List.disjoint_of_nodup_append nodup (List.mem_append_right _ inSub) after

end Invariant

/-! ## Rotations -/

section Rotations

variable [DecidableEq α] {bal : α → Int}

omit [DecidableEq α] in
/-- In a subtree of distinct nodes the root is in neither of its subtrees, and
no node is in both. -/
theorem fresh_node {v : α} {l r : BinaryTree α} (nodup : (inorder (.node v l r)).Nodup) :
    v ∉ inorder l ∧ v ∉ inorder r ∧ (inorder l).Nodup ∧ (inorder r).Nodup ∧
      ∀ x ∈ inorder l, x ∉ inorder r := by
  rw [inorder_node, List.nodup_middle, List.nodup_cons, List.mem_append, not_or] at nodup
  obtain ⟨⟨notL, notR⟩, apart⟩ := nodup
  obtain ⟨nodupL, nodupR, disjoint⟩ := List.nodup_append.mp apart
  exact ⟨notL, notR, nodupL, nodupR, fun x member inR => disjoint x member x inR rfl⟩

omit [DecidableEq α] in
/-- A subtree none of whose nodes had its `balance` changed keeps the
invariant. -/
theorem Balanced.of_outside {bal' : α → Int} {t : BinaryTree α} (nodes : List α) (balanced : Balanced bal t)
    (fresh : ∀ x ∈ nodes, x ∉ inorder t) (outside : ∀ x, x ∉ nodes → bal' x = bal x) : Balanced bal' t :=
  balanced.congr fun x member => outside x fun inNodes => fresh x inNodes member

theorem rot1R_outside (q p : α) (a b c : BinaryTree α) (path : List (Frame α)) :
    ∀ x, x ∉ [p, q] → (rot1R bal q p a b c path).2 x = bal x := by
  intro x fresh
  simp only [List.mem_cons, List.not_mem_nil, or_false, not_or] at fresh
  simp only [rot1R]
  split_ifs <;> simp [update_of_ne fresh.1, update_of_ne fresh.2]

theorem rot1L_outside (q p : α) (a b c : BinaryTree α) (path : List (Frame α)) :
    ∀ x, x ∉ [p, q] → (rot1L bal q p a b c path).2 x = bal x := by
  intro x fresh
  simp only [List.mem_cons, List.not_mem_nil, or_false, not_or] at fresh
  simp only [rot1L]
  split_ifs <;> simp [update_of_ne fresh.1, update_of_ne fresh.2]

theorem rot2LR_outside (r q p : α) (a b c d : BinaryTree α) (path : List (Frame α)) :
    ∀ x, x ∉ [p, q, r] → (rot2LR bal r q p a b c d path).2 x = bal x := by
  intro x fresh
  simp only [List.mem_cons, List.not_mem_nil, or_false, not_or] at fresh
  simp only [rot2LR]
  split_ifs <;> simp [update_of_ne fresh.1, update_of_ne fresh.2.1, update_of_ne fresh.2.2]

theorem rot2RL_outside (r q p : α) (a b c d : BinaryTree α) (path : List (Frame α)) :
    ∀ x, x ∉ [p, q, r] → (rot2RL bal r q p a b c d path).2 x = bal x := by
  intro x fresh
  simp only [List.mem_cons, List.not_mem_nil, or_false, not_or] at fresh
  simp only [rot2RL]
  split_ifs <;> simp [update_of_ne fresh.1, update_of_ne fresh.2.1, update_of_ne fresh.2.2]

/-- `rot1R` balances a node two deeper on the left whose left child does not
lean right; the height drops by one unless that child was even. -/
theorem rot1R_balanced {q p : α} {a b c : BinaryTree α} (path : List (Frame α))
    (nodup : (inorder (.node p (.node q a b) c)).Nodup)
    (balancedA : Balanced bal a) (balancedB : Balanced bal b) (balancedC : Balanced bal c)
    (atQ : bal q = (b.height : Int) - a.height) (leans : -1 ≤ bal q ∧ bal q ≤ 0)
    (heavy : (c.height : Int) + 2 = max a.height b.height + 1) :
    Balanced (rot1R bal q p a b c path).2 (rot1R bal q p a b c path).1.subtree ∧
      ((rot1R bal q p a b c path).1.subtree.height : Int) + (if bal q = 0 then 0 else 1) =
        c.height + 3 := by
  obtain ⟨notLeft, notC, nodupLeft, -, apart⟩ := fresh_node nodup
  obtain ⟨notA, notB, -⟩ := fresh_node nodupLeft
  have inLeft : q ∈ inorder (.node q a b) := by simp
  have pq : p ≠ q := fun same => notLeft (same ▸ inLeft)
  simp only [inorder_node, List.mem_append, List.mem_cons, not_or] at notLeft
  have outside : ∀ x, x ∉ [p, q] → (rot1R bal q p a b c path).2 x = bal x := rot1R_outside q p a b c path
  have keepA := balancedA.of_outside [p, q] (by simp [notLeft.1, notA]) outside
  have keepB := balancedB.of_outside [p, q] (by simp [notLeft.2.2, notB]) outside
  have keepC := balancedC.of_outside [p, q] (by simp [notC, apart q inLeft]) outside
  revert keepA keepB keepC
  simp only [rot1R, Cursor.subtree]
  -- `q` leaned left and both end even, one lower; or `q` was even, `p` keeps
  -- one more on its left and the height stays
  split_ifs <;> intro keepA keepB keepC <;>
    refine ⟨⟨keepA, ⟨keepB, keepC, ?_⟩, ?_⟩, ?_⟩ <;>
    simp only [update_self, update_of_ne pq, BinaryTree.height] <;> omega

/-- `rot1L` is the mirror image of `rot1R`. -/
theorem rot1L_balanced {q p : α} {a b c : BinaryTree α} (path : List (Frame α))
    (nodup : (inorder (.node p a (.node q b c))).Nodup)
    (balancedA : Balanced bal a) (balancedB : Balanced bal b) (balancedC : Balanced bal c)
    (atQ : bal q = (c.height : Int) - b.height) (leans : 0 ≤ bal q ∧ bal q ≤ 1)
    (heavy : (a.height : Int) + 2 = max b.height c.height + 1) :
    Balanced (rot1L bal q p a b c path).2 (rot1L bal q p a b c path).1.subtree ∧
      ((rot1L bal q p a b c path).1.subtree.height : Int) + (if bal q = 0 then 0 else 1) =
        a.height + 3 := by
  obtain ⟨notA, notRight, -, nodupRight, apart⟩ := fresh_node nodup
  obtain ⟨notB, notC, -⟩ := fresh_node nodupRight
  have inRight : q ∈ inorder (.node q b c) := by simp
  have pq : p ≠ q := fun same => notRight (same ▸ inRight)
  simp only [inorder_node, List.mem_append, List.mem_cons, not_or] at notRight
  have outside : ∀ x, x ∉ [p, q] → (rot1L bal q p a b c path).2 x = bal x := rot1L_outside q p a b c path
  have qNotA : q ∉ inorder a := fun inA => apart q inA inRight
  have keepA := balancedA.of_outside [p, q] (by simp [notA, qNotA]) outside
  have keepB := balancedB.of_outside [p, q] (by simp [notRight.1, notB]) outside
  have keepC := balancedC.of_outside [p, q] (by simp [notRight.2.2, notC]) outside
  revert keepA keepB keepC
  simp only [rot1L, Cursor.subtree]
  split_ifs <;> intro keepA keepB keepC <;>
    refine ⟨⟨⟨keepA, keepB, ?_⟩, keepC, ?_⟩, ?_⟩ <;>
    simp only [update_self, update_of_ne pq, BinaryTree.height] <;> omega

/-- `rot2LR` balances a node two deeper on the left whose left child leans
right: the grandchild `r` takes the top, and the height drops by one. -/
theorem rot2LR_balanced {r q p : α} {a b c d : BinaryTree α} (path : List (Frame α))
    (nodup : (inorder (.node p (.node q a (.node r b c)) d)).Nodup)
    (balancedA : Balanced bal a) (balancedB : Balanced bal b) (balancedC : Balanced bal c)
    (balancedD : Balanced bal d) (atR : bal r = (c.height : Int) - b.height) (boundsR : -1 ≤ bal r ∧ bal r ≤ 1)
    (leansRight : (max b.height c.height + 1 : Int) - a.height = 1)
    (heavy : (d.height : Int) + 2 = max a.height (max b.height c.height + 1) + 1) :
    Balanced (rot2LR bal r q p a b c d path).2 (rot2LR bal r q p a b c d path).1.subtree ∧
      ((rot2LR bal r q p a b c d path).1.subtree.height : Int) + 1 = d.height + 3 := by
  obtain ⟨notLeft, notD, nodupLeft, -, apartD⟩ := fresh_node nodup
  obtain ⟨notA, notInner, -, nodupInner, apartA⟩ := fresh_node nodupLeft
  obtain ⟨notB, notC, -⟩ := fresh_node nodupInner
  have qInLeft : q ∈ inorder (.node q a (.node r b c)) := by simp
  have rInInner : r ∈ inorder (.node r b c) := by simp
  have rInLeft : r ∈ inorder (.node q a (.node r b c)) := by simp
  have pq : p ≠ q := fun same => notLeft (same ▸ qInLeft)
  have pr : p ≠ r := fun same => notLeft (same ▸ rInLeft)
  have qr : q ≠ r := fun same => notInner (same ▸ rInInner)
  simp only [inorder_node, List.mem_append, List.mem_cons, not_or] at notLeft notInner
  obtain ⟨pNotA, -, pNotB, -, pNotC⟩ := notLeft
  obtain ⟨qNotB, -, qNotC⟩ := notInner
  have outside : ∀ x, x ∉ [p, q, r] → (rot2LR bal r q p a b c d path).2 x = bal x :=
    rot2LR_outside r q p a b c d path
  have rNotA : r ∉ inorder a := fun inA => apartA r inA rInInner
  have keepA := balancedA.of_outside [p, q, r] (by simp [pNotA, notA, rNotA]) outside
  have keepB := balancedB.of_outside [p, q, r] (by simp [pNotB, qNotB, notB]) outside
  have keepC := balancedC.of_outside [p, q, r] (by simp [pNotC, qNotC, notC]) outside
  have keepD := balancedD.of_outside [p, q, r] (by simp [notD, apartD q qInLeft, apartD r rInLeft]) outside
  revert keepA keepB keepC keepD
  simp only [rot2LR, Cursor.subtree]
  -- the balance of `r` says which of `q` and `p` gets the taller of its subtrees
  split_ifs <;> intro keepA keepB keepC keepD <;>
    refine ⟨⟨⟨keepA, keepB, ?_⟩, ⟨keepC, keepD, ?_⟩, ?_⟩, ?_⟩ <;>
    simp only [update_self, update_of_ne pq.symm, update_of_ne pr, update_of_ne qr, BinaryTree.height] <;>
    omega

/-- `rot2RL` is the mirror image of `rot2LR`. -/
theorem rot2RL_balanced {r q p : α} {a b c d : BinaryTree α} (path : List (Frame α))
    (nodup : (inorder (.node p a (.node q (.node r b c) d))).Nodup)
    (balancedA : Balanced bal a) (balancedB : Balanced bal b) (balancedC : Balanced bal c)
    (balancedD : Balanced bal d) (atR : bal r = (c.height : Int) - b.height) (boundsR : -1 ≤ bal r ∧ bal r ≤ 1)
    (leansLeft : (d.height : Int) - (max b.height c.height + 1) = -1)
    (heavy : (a.height : Int) + 2 = max (max b.height c.height + 1) d.height + 1) :
    Balanced (rot2RL bal r q p a b c d path).2 (rot2RL bal r q p a b c d path).1.subtree ∧
      ((rot2RL bal r q p a b c d path).1.subtree.height : Int) + 1 = a.height + 3 := by
  obtain ⟨notA, notRight, -, nodupRight, apartA⟩ := fresh_node nodup
  obtain ⟨notInner, notD, nodupInner, -, apartD⟩ := fresh_node nodupRight
  obtain ⟨notB, notC, -⟩ := fresh_node nodupInner
  have qInRight : q ∈ inorder (.node q (.node r b c) d) := by simp
  have rInInner : r ∈ inorder (.node r b c) := by simp
  have rInRight : r ∈ inorder (.node q (.node r b c) d) := by simp
  have pq : p ≠ q := fun same => notRight (same ▸ qInRight)
  have pr : p ≠ r := fun same => notRight (same ▸ rInRight)
  have qr : q ≠ r := fun same => notInner (same ▸ rInInner)
  simp only [inorder_node, List.mem_append, List.mem_cons, not_or] at notRight notInner
  obtain ⟨⟨pNotB, -, pNotC⟩, -, pNotD⟩ := notRight
  obtain ⟨qNotB, -, qNotC⟩ := notInner
  have outside : ∀ x, x ∉ [p, q, r] → (rot2RL bal r q p a b c d path).2 x = bal x :=
    rot2RL_outside r q p a b c d path
  have qNotA : q ∉ inorder a := fun inA => apartA q inA qInRight
  have rNotA : r ∉ inorder a := fun inA => apartA r inA rInRight
  have keepA := balancedA.of_outside [p, q, r] (by simp [notA, qNotA, rNotA]) outside
  have keepB := balancedB.of_outside [p, q, r] (by simp [pNotB, qNotB, notB]) outside
  have keepC := balancedC.of_outside [p, q, r] (by simp [pNotC, qNotC, notC]) outside
  have rNotD : r ∉ inorder d := fun inD => apartD r rInInner inD
  have keepD := balancedD.of_outside [p, q, r] (by simp [pNotD, notD, rNotD]) outside
  revert keepA keepB keepC keepD
  simp only [rot2RL, Cursor.subtree]
  split_ifs <;> intro keepA keepB keepC keepD <;>
    refine ⟨⟨⟨keepA, keepB, ?_⟩, ⟨keepC, keepD, ?_⟩, ?_⟩, ?_⟩ <;>
    simp only [update_self, update_of_ne pq, update_of_ne pr, update_of_ne qr, BinaryTree.height] <;> omega

/-- `avl_tree_do_balance` at a node two deeper on one side whose subtrees are
balanced: it returns (no `NULL` child is read), the subtree it leaves in the
same place is balanced, and it is one lower exactly when the function says
the height changed, which it does unless the heavy child was even. -/
theorem doBalance_balanced {z : Cursor α} (nodup : (inorder z.subtree).Nodup)
    (balancedL : Balanced bal z.left) (balancedR : Balanced bal z.right)
    (atNode : bal z.node = (z.right.height : Int) - z.left.height) (heavy : bal z.node = -2 ∨ bal z.node = 2) :
    ∃ changed z' bal', doBalance bal z = some (changed, z', bal') ∧ z'.path = z.path ∧
      Balanced bal' z'.subtree ∧
      (z'.subtree.height : Int) + (if changed then 1 else 0) = z.subtree.height ∧
      (∀ x ∉ inorder z.subtree, bal' x = bal x) ∧
      (changed = false → ∃ q a b, (if bal z.node < 0 then z.left else z.right) = .node q a b ∧ bal q = 0) := by
  obtain ⟨v, l, r, path⟩ := z
  dsimp only [Cursor.subtree] at nodup balancedL balancedR atNode heavy ⊢
  have outside : ∀ nodes : List α, (∀ x ∈ nodes, x ∈ inorder (.node v l r)) →
      ∀ x ∉ inorder (.node v l r), x ∉ nodes := fun _ inside x notIn inNodes => notIn (inside x inNodes)
  rcases heavy with leftHeavy | rightHeavy
  · -- two deeper on the left: the left child exists
    cases l with
    | nil =>
      simp only [BinaryTree.height, Nat.cast_zero, sub_zero] at atNode
      omega
    | node q a c =>
      obtain ⟨balancedA, balancedC, atQ, lowQ, highQ⟩ := balancedL
      have tall : ((BinaryTree.node q a c).height : Int) = r.height + 2 := by omega
      have total : ((BinaryTree.node v (.node q a c) r).height : Int) = r.height + 3 := by
        simp only [BinaryTree.height, Nat.cast_add, Nat.cast_max, Nat.cast_one] at tall ⊢
        omega
      simp only [BinaryTree.height, Nat.cast_add, Nat.cast_max, Nat.cast_one] at tall
      rw [total]
      by_cases inner : bal q = 1
      · -- `q` leans right: its right child exists, and `rot2LR` lifts it
        cases c with
        | nil =>
          simp only [BinaryTree.height, Nat.cast_zero, zero_sub] at atQ
          omega
        | node r' b c' =>
          obtain ⟨balancedB, balancedC', atR, lowR, highR⟩ := balancedC
          simp only [BinaryTree.height, Nat.cast_add, Nat.cast_max, Nat.cast_one] at atQ tall
          obtain ⟨balanced, height⟩ := rot2LR_balanced path nodup balancedA balancedB balancedC' balancedR
            atR ⟨lowR, highR⟩ (by omega) (by omega)
          refine ⟨true, _, _, by simp [doBalance, leftHeavy, inner], rfl, balanced, ?_,
            fun x notIn => rot2LR_outside r' q v a b c' r path x (outside _ (by simp) x notIn), nofun⟩
          rw [if_pos rfl]
          exact height
      · -- `q` does not lean right: `rot1R`
        obtain ⟨balanced, height⟩ := rot1R_balanced path nodup balancedA balancedC balancedR atQ
          ⟨lowQ, by omega⟩ (by omega)
        refine ⟨bal q != 0, _, _, by simp [doBalance, leftHeavy, inner], rfl, balanced, ?_,
          fun x notIn => rot1R_outside q v a c r path x (outside _ (by simp) x notIn), ?_⟩
        · rw [← height]
          by_cases even : bal q = 0 <;>
            simp only [even, bne_self_eq_false, bne_iff_ne, ne_eq, not_false_eq_true, Bool.false_eq_true,
              if_true, if_false] <;>
            rfl
        · intro stays
          exact ⟨q, a, c, by simp [leftHeavy], by simpa using stays⟩
  · -- two deeper on the right: the mirror image
    cases r with
    | nil =>
      simp only [BinaryTree.height, Nat.cast_zero, zero_sub] at atNode
      omega
    | node q b c =>
      obtain ⟨balancedB, balancedC, atQ, lowQ, highQ⟩ := balancedR
      have tall : ((BinaryTree.node q b c).height : Int) = l.height + 2 := by omega
      have total : ((BinaryTree.node v l (.node q b c)).height : Int) = l.height + 3 := by
        simp only [BinaryTree.height, Nat.cast_add, Nat.cast_max, Nat.cast_one] at tall ⊢
        omega
      simp only [BinaryTree.height, Nat.cast_add, Nat.cast_max, Nat.cast_one] at tall
      rw [total]
      by_cases outer : 0 ≤ bal q
      · -- `q` does not lean left: `rot1L`
        obtain ⟨balanced, height⟩ := rot1L_balanced path nodup balancedL balancedB balancedC atQ
          ⟨outer, highQ⟩ (by omega)
        refine ⟨bal q != 0, _, _, by simp [doBalance, rightHeavy, outer], rfl, balanced, ?_,
          fun x notIn => rot1L_outside q v l b c path x (outside _ (by simp) x notIn), ?_⟩
        · rw [← height]
          by_cases even : bal q = 0 <;>
            simp only [even, bne_self_eq_false, bne_iff_ne, ne_eq, not_false_eq_true, Bool.false_eq_true,
              if_true, if_false] <;>
            rfl
        · intro stays
          exact ⟨q, b, c, by simp [rightHeavy], by simpa using stays⟩
      · -- `q` leans left: its left child exists, and `rot2RL` lifts it
        cases b with
        | nil =>
          simp only [BinaryTree.height, Nat.cast_zero, sub_zero] at atQ
          omega
        | node r' b c' =>
          obtain ⟨balancedB', balancedC', atR, lowR, highR⟩ := balancedB
          simp only [BinaryTree.height, Nat.cast_add, Nat.cast_max, Nat.cast_one] at atQ tall
          obtain ⟨balanced, height⟩ := rot2RL_balanced path nodup balancedL balancedB' balancedC' balancedC
            atR ⟨lowR, highR⟩ (by omega) (by omega)
          refine ⟨true, _, _, by simp [doBalance, rightHeavy, outer], rfl, balanced, ?_,
            fun x notIn => rot2RL_outside r' q v l b c' c path x (outside _ (by simp) x notIn), nofun⟩
          rw [if_pos rfl]
          exact height

end Rotations

/-! ## The loop of `avl_tree_balance` -/

/-- The value for a side: the first one on the left, the second on the right. -/
def Side.pick {β : Type _} : Side → β → β → β
  | .left, onLeft, _ => onLeft
  | .right, _, onRight => onRight

@[simp] theorem Side.pick_left {β : Type _} (onLeft onRight : β) : Side.left.pick onLeft onRight = onLeft := rfl

@[simp] theorem Side.pick_right {β : Type _} (onLeft onRight : β) : Side.right.pick onLeft onRight = onRight :=
  rfl

/-- The height of the subtree at the cursor with a child of height `h` on
`side` in place of the one it has. -/
def heightOn (z : Cursor α) (side : Side) (h : Nat) : Nat :=
  side.pick (max h z.right.height) (max z.left.height h) + 1

/-- The state `avl_tree_balance(node, side, height_increased)` is entered in:
the child on `side` of the node at the cursor has just become one higher, or
one lower, than the height `old` that the `balance` fields still describe.
Both children are balanced, the node's balance is right for the old height,
and the frames above fit the subtree's old height. On insertion, a grown
child whose root is even is the new leaf. -/
structure Pending (bal : α → Int) (z : Cursor α) (side : Side) (heightIncreased : Bool) (old : Nat) :
    Prop where
  nodup : (inorder z.tree).Nodup
  balancedLeft : Balanced bal z.left
  balancedRight : Balanced bal z.right
  changed : ((side.pick z.left z.right).height : Int) = old + if heightIncreased then 1 else -1
  atNode : bal z.node = side.pick ((z.right.height : Int) - old) ((old : Int) - z.left.height)
  bounded : -1 ≤ bal z.node ∧ bal z.node ≤ 1
  grownLeaf : heightIncreased = true → ∀ q a b, side.pick z.left z.right = .node q a b → bal q = 0 → old = 0
  frames : FramesBalanced bal z.path (heightOn z side old)

section Loop

variable {bal bal' : α → Int} {z : Cursor α} {side : Side} {heightIncreased : Bool} {old : Nat}

/-- The parent of a subtree that replaced one of height `old`, under frames
that fit the old one, is pending. -/
theorem Pending.up {t : BinaryTree α} {frame : Frame α} {path : List (Frame α)}
    (nodup : (inorder (plug t (frame :: path))).Nodup) (balanced : Balanced bal t)
    (changed : (t.height : Int) = old + if heightIncreased then 1 else -1)
    (grownLeaf : heightIncreased = true → ∀ q a b, t = .node q a b → bal q = 0 → old = 0)
    (frames : FramesBalanced bal (frame :: path) old) :
    Pending bal (frame.up t path) (sideOf frame) heightIncreased old := by
  cases frame with
  | left p s =>
    obtain ⟨sibling, atP, low, high, rest⟩ := frames
    exact ⟨nodup, balanced, sibling, changed, atP, ⟨low, high⟩, grownLeaf, rest⟩
  | right s p =>
    obtain ⟨sibling, atP, low, high, rest⟩ := frames
    exact ⟨nodup, sibling, balanced, changed, atP, ⟨low, high⟩, grownLeaf, rest⟩

/-- The arithmetic of one turn: the updated balance is the difference of the
children's heights. Without a rotation the subtree's height moved by what
the function reports; with one it is one higher on insertion, where the heavy
side is the grown one and the grown child is not the new leaf. -/
theorem Pending.update {heightChanged : Bool} {b : Int} (pending : Pending bal z side heightIncreased old)
    (updated : balanceUpdate (bal z.node) side heightIncreased = (heightChanged, b)) :
    b = (z.right.height : Int) - z.left.height ∧ -2 ≤ b ∧ b ≤ 2 ∧
      (heightIncreased = true → heightChanged = true → b ≠ 0) ∧
      (¬ (b = -2 ∨ b = 2) → (z.subtree.height : Int) =
        heightOn z side old + if heightChanged then (if heightIncreased then 1 else -1) else 0) ∧
      ((b = -2 ∨ b = 2) → (z.subtree.height : Int) = heightOn z side old + (if heightIncreased then 1 else 0) ∧
        (heightIncreased = true → (b < 0 ↔ side = .left) ∧ old ≠ 0)) := by
  obtain ⟨-, -, -, changed, atNode, ⟨low, high⟩, -, -⟩ := pending
  have height : (z.subtree.height : Int) = max (z.left.height : Int) z.right.height + 1 := by
    simp [Cursor.subtree, BinaryTree.height]
  rw [height, heightOn]
  -- the four branches of the source: the side that changed, and which way
  cases side <;> cases heightIncreased <;>
    simp only [balanceUpdate, Prod.mk.injEq, Side.pick_left, Side.pick_right, if_true, if_false,
      Bool.false_eq_true] at updated changed atNode ⊢ <;>
    obtain ⟨rfl, rfl⟩ := updated <;>
    simp only [decide_eq_true_eq, reduceCtorEq, iff_true, iff_false, true_implies, false_implies, and_true, true_and,
      Nat.cast_max, Nat.cast_add, Nat.cast_one] <;>
    split_ifs <;> omega

variable [DecidableEq α]

/-- One turn of `avl_tree_balance` at a pending node returns, and leaves in
the same place a balanced subtree, with the `balance` fields outside it
untouched. Its height is the old one moved by what the turn reports, and on
insertion a subtree reported grown has an uneven root. -/
theorem balanceTurn_balanced (pending : Pending bal z side heightIncreased old) :
    ∃ changed z' bal', balanceTurn bal z side heightIncreased = some (changed, z', bal') ∧
      z'.path = z.path ∧ Balanced bal' z'.subtree ∧ (∀ x ∉ inorder z.subtree, bal' x = bal x) ∧
      (z'.subtree.height : Int) = heightOn z side old + (if changed then (if heightIncreased then 1 else -1) else 0) ∧
      (heightIncreased = true → changed = true → bal' z'.node ≠ 0) := by
  rcases updated : balanceUpdate (bal z.node) side heightIncreased with ⟨heightChanged, b⟩
  obtain ⟨atNode, low, high, uneven, unrotated, rotated⟩ := pending.update updated
  have nodup := nodup_subtree pending.nodup
  obtain ⟨notL, notR, -, -, -⟩ := fresh_node nodup
  -- the node's own field is the only one the update changes
  have outsideNode : ∀ x ∉ inorder z.subtree, update bal z.node b x = bal x := by
    intro x notIn
    refine update_of_ne ?_ _ _
    rintro rfl
    exact notIn (by simp [Cursor.subtree])
  have balancedL : Balanced (update bal z.node b) z.left :=
    pending.balancedLeft.congr fun x member => update_of_ne (ne_of_mem_of_not_mem member notL) _ _
  have balancedR : Balanced (update bal z.node b) z.right :=
    pending.balancedRight.congr fun x member => update_of_ne (ne_of_mem_of_not_mem member notR) _ _
  have atNode' : update bal z.node b z.node = (z.right.height : Int) - z.left.height := by
    rw [update_self, atNode]
  by_cases rotate : b = -2 ∨ b = 2
  · -- the balance reached `±2`: `avl_tree_do_balance`
    obtain ⟨height, grown⟩ := rotated rotate
    obtain ⟨changed, z', bal', done, path, balanced, height', inside, even⟩ :=
      doBalance_balanced nodup balancedL balancedR atNode' (by rwa [update_self])
    refine ⟨if heightIncreased then false else changed, z', bal', ?_, path, balanced,
      fun x notIn => (inside x notIn).trans (outsideNode x notIn), ?_, ?_⟩
    · rw [balanceTurn, updated]
      dsimp only
      rw [if_pos rotate, done]
      rfl
    · cases heightIncreased with
      | false =>
        -- deletion: the height the rotation reports
        cases changed <;> simp only [if_true, if_false, Bool.false_eq_true] at height height' ⊢ <;> omega
      | true =>
        -- insertion: the grown child is uneven, so the rotation took the height back
        have lowered : changed = true := by
          cases changed with
          | true => rfl
          | false =>
            obtain ⟨q, a, c, heavy, evenQ⟩ := even rfl
            have onSide : (if update bal z.node b z.node < 0 then z.left else z.right) = side.pick z.left z.right := by
              rw [update_self]
              cases side
              · exact if_pos ((grown rfl).1.mpr rfl)
              · exact if_neg fun negative => by simpa using (grown rfl).1.mp negative
            rw [onSide] at heavy
            have notChild : z.node ∉ inorder (side.pick z.left z.right) := by
              cases side
              · exact notL
              · exact notR
            have inChild : q ∈ inorder (side.pick z.left z.right) := by
              rw [heavy]
              simp
            rw [update_of_ne (ne_of_mem_of_not_mem inChild notChild)] at evenQ
            exact absurd (pending.grownLeaf rfl q a c heavy evenQ) (grown rfl).2
        subst lowered
        simp only [if_true, if_false, Bool.false_eq_true] at height height' ⊢
        omega
    · rintro rfl stops
      simp at stops
  · -- no rotation: only the node's own field changes
    refine ⟨heightChanged, z, update bal z.node b, ?_, rfl, ⟨balancedL, balancedR, atNode', ?_, ?_⟩,
      outsideNode, unrotated rotate, ?_⟩
    · rw [balanceTurn, updated]
      dsimp only
      rw [if_neg rotate]
    · rw [update_self]
      omega
    · rw [update_self]
      omega
    · intro grows reported
      rw [update_self]
      exact uneven grows reported

/-- `avl_tree_balance` from a pending node returns, and the tree of the cursor
it stops at is balanced. The induction follows the walk up: a turn that
reports a change leaves the parent pending for the subtree's old height. -/
theorem avlTreeBalance_balanced (pending : Pending bal z side heightIncreased old) :
    ∃ z' bal', avlTreeBalance bal z side heightIncreased = some (z', bal') ∧ Balanced bal' z'.tree := by
  fun_induction avlTreeBalance bal z side heightIncreased generalizing old with
  | case1 bal z side stuck =>
    obtain ⟨_, _, _, turned, -⟩ := balanceTurn_balanced pending
    rw [stuck] at turned
    cases turned
  | case2 bal z side z' bal' turned =>
    obtain ⟨changed, z'', bal'', turned', path, balanced, inside, height, -⟩ := balanceTurn_balanced pending
    rw [turned, Option.some.injEq, Prod.mk.injEq, Prod.mk.injEq] at turned'
    obtain ⟨rfl, rfl, rfl⟩ := turned'
    -- the subtree kept its height: the frames above still fit it
    have kept : z'.subtree.height = heightOn z side old := by
      simp only [Bool.false_eq_true, if_false, add_zero, Nat.cast_inj] at height
      exact height
    refine ⟨z', bal', rfl, ?_⟩
    rw [Cursor.tree, balanced_plug, path, kept]
    exact ⟨balanced, pending.frames.of_inside pending.nodup inside⟩
  | case3 bal z side z' bal' turned top =>
    obtain ⟨changed, z'', bal'', turned', path, balanced, -⟩ := balanceTurn_balanced pending
    rw [turned, Option.some.injEq, Prod.mk.injEq, Prod.mk.injEq] at turned'
    obtain ⟨rfl, rfl, rfl⟩ := turned'
    refine ⟨z', bal', rfl, ?_⟩
    rw [Cursor.tree, path, top]
    exact balanced
  | case4 bal z side z' bal' turned frame path up ih =>
    obtain ⟨changed, z'', bal'', turned', samePath, balanced, inside, height, uneven⟩ :=
      balanceTurn_balanced pending
    rw [turned, Option.some.injEq, Prod.mk.injEq, Prod.mk.injEq] at turned'
    obtain ⟨rfl, rfl, rfl⟩ := turned'
    -- the parent is pending for the subtree's old height
    have frames := pending.frames.of_inside pending.nodup inside
    rw [up] at frames
    have plugged : plug z'.subtree (frame :: path) = z'.tree := by rw [Cursor.tree, samePath, up]
    refine ih (Pending.up ?_ balanced ?_ ?_ frames)
    · rw [plugged, balanceTurn_tree turned]
      exact pending.nodup
    · rw [if_pos rfl] at height
      exact height
    · intro grows q a c subtreeIs evenQ
      have root : z'.node = q := (BinaryTree.node.inj subtreeIs).1
      exact absurd (root ▸ evenQ) (uneven grows rfl)

end Loop

/-! ## Insertion and deletion -/

section Update

theorem balanced_unlinkedSubtree {bal : α → Int} {l r : BinaryTree α} (balancedL : Balanced bal l)
    (balancedR : Balanced bal r) : Balanced bal (unlinkedSubtree l r) := by
  cases l <;> cases r
  · trivial
  · exact balancedR
  · exact balancedL
  · exact balancedR

/-- What takes the place of a node with at most one child is one lower than
the node's subtree. -/
theorem height_unlinkedSubtree {l r : BinaryTree α} (oneChild : l = .nil ∨ r = .nil) :
    (unlinkedSubtree l r).height = max l.height r.height := by
  rcases oneChild with rfl | rfl
  · cases r <;> simp [unlinkedSubtree, BinaryTree.height]
  · cases l <;> simp [unlinkedSubtree, BinaryTree.height]

variable [DecidableEq α]

/-- `avl_tree_insert` of a node that is not in a balanced tree of distinct
nodes returns a balanced tree of distinct nodes. The walk down ends at an
empty place, and the new leaf there leaves its parent pending. -/
theorem avlTreeInsert_balanced (cmp : α → α → Bool) {tree : AvlTree α} {node : α}
    (nodup : (inorder tree.root).Nodup) (fresh : node ∉ inorder tree.root)
    (balanced : Balanced tree.balance tree.root) :
    ∃ tree', avlTreeInsert cmp tree node = some tree' ∧ (inorder tree'.root).Nodup ∧
      Balanced tree'.balance tree'.root := by
  rcases rootIs : tree.root with _ | ⟨root, l, r⟩
  · -- the new node alone
    refine ⟨⟨.node node .nil .nil, update tree.balance node 0⟩, by simp [avlTreeInsert, rootIs], by simp, ?_⟩
    simp [Balanced]
  · obtain ⟨frame, path, plugged, walked⟩ := insertUnbalanced_frame cmp node root l r []
    have plugged : BinaryTree.node root l r = plug .nil (frame :: path) := plugged
    rw [rootIs, plugged] at balanced
    rw [rootIs, plugged, inorder_plug, inorder_nil, List.append_nil] at nodup fresh
    have nodup' : (inorder (plug (.node node .nil .nil) (frame :: path))).Nodup := by
      simp only [inorder_plug, inorder_node, inorder_nil, List.nil_append, List.append_assoc,
        List.singleton_append]
      exact List.nodup_middle.mpr (List.nodup_cons.mpr ⟨fresh, nodup⟩)
    -- the frames fit the empty place, and the new node is in none of them
    have frames : FramesBalanced (update tree.balance node 0) (frame :: path) 0 :=
      ((balanced_plug .nil (frame :: path)).mp balanced).2.congr fun x member =>
        update_of_ne (ne_of_mem_of_not_mem member fresh) _ _
    have pending : Pending (update tree.balance node 0) (frame.up (.node node .nil .nil) path) (sideOf frame) true 0 :=
      Pending.up nodup' (by simp [Balanced]) (by simp [BinaryTree.height]) (fun _ _ _ _ _ _ => rfl) frames
    obtain ⟨z, bal, done, balanced'⟩ := avlTreeBalance_balanced pending
    refine ⟨⟨z.tree, bal⟩, by simp [avlTreeInsert, rootIs, walked, done], ?_, balanced'⟩
    rw [avlTreeBalance_inorder done, Frame.tree_up]
    exact nodup'

/-- Unlinking a node with at most one child from a balanced tree of distinct
nodes, and balancing from its parent, returns a balanced tree of distinct
nodes. The parent is pending, one lower on the node's side. -/
theorem deleteUnlinked_balanced {bal : α → Int} {z : Cursor α} (oneChild : z.left = .nil ∨ z.right = .nil)
    (nodup : (inorder z.tree).Nodup) (balanced : Balanced bal z.tree) :
    ∃ tree, deleteUnlinked bal z = some tree ∧ (inorder tree.root).Nodup ∧ Balanced tree.balance tree.root := by
  have nodupAfter : (z.before ++ z.after).Nodup := by
    rw [Cursor.inorder_tree] at nodup
    exact nodup.sublist ((List.sublist_cons_self _ _).append_left _)
  suffices unlinked : ∃ tree, deleteUnlinked bal z = some tree ∧ Balanced tree.balance tree.root by
    obtain ⟨tree, done, balanced'⟩ := unlinked
    exact ⟨tree, done, deleteUnlinked_inorder oneChild done ▸ nodupAfter, balanced'⟩
  obtain ⟨⟨balancedL, balancedR, -⟩, frames⟩ := (balanced_plug z.subtree z.path).mp balanced
  have balancedSub := balanced_unlinkedSubtree balancedL balancedR
  have nodupSub : (inorder (plug (unlinkedSubtree z.left z.right) z.path)).Nodup := by
    rw [inorder_plug_unlinkedSubtree oneChild]
    exact nodupAfter
  rcases pathIs : z.path with _ | ⟨frame, path⟩
  · -- the node was the root: what takes its place is the tree
    exact ⟨⟨unlinkedSubtree z.left z.right, bal⟩, by simp [deleteUnlinked, pathIs], balancedSub⟩
  · rw [pathIs] at frames nodupSub
    have lower : ((unlinkedSubtree z.left z.right).height : Int) = z.subtree.height + if false then 1 else -1 := by
      simp [height_unlinkedSubtree oneChild, Cursor.subtree, BinaryTree.height]
    obtain ⟨z', bal', done, balanced'⟩ :=
      avlTreeBalance_balanced (Pending.up nodupSub balancedSub lower (fun grows => by cases grows) frames)
    exact ⟨⟨z'.tree, bal'⟩, by simp [deleteUnlinked, pathIs, done], balanced'⟩

/-- `avl_tree_delete` of a node of a balanced tree of distinct nodes returns
a balanced tree of distinct nodes. The exchange with the next node renames
the tree and its `balance` fields together. -/
theorem avlTreeDelete_balanced {bal : α → Int} {z : Cursor α} (nodup : (inorder z.tree).Nodup)
    (balanced : Balanced bal z.tree) :
    ∃ tree, avlTreeDelete bal z = some tree ∧ (inorder tree.root).Nodup ∧ Balanced tree.balance tree.root := by
  rcases avlTreeDelete_cases bal z with ⟨w, l, r, next, -, rightIs, nextIs, swapped⟩ | ⟨oneChild, unlinked⟩
  · rw [swapped]
    have sameTree : next.tree = z.tree := by
      rw [nextIs, (descendLeft_spec w l r _).1, plug, ← rightIs]
      rfl
    have renamed : (next.map (Equiv.swap z.node next.node)).tree = z.tree.map (Equiv.swap z.node next.node) := by
      rw [Cursor.tree_map, sameTree]
    refine deleteUnlinked_balanced (.inl (by simp [nextIs, BinaryTree.map])) ?_ ?_
    · rw [renamed, inorder_map]
      exact List.Nodup.map (Equiv.injective _) nodup
    · -- each node takes its `balance` field along
      have same : ∀ v, (bal ∘ Equiv.swap z.node next.node) (Equiv.swap z.node next.node v) = bal v := by
        simp
      rw [renamed, balanced_map _ same]
      exact balanced
  · rw [unlinked]
    exact deleteUnlinked_balanced oneChild nodup balanced

end Update

/-! ## Over any history of calls -/

namespace AvlTree

variable [DecidableEq α]

/-- The contract of `avl_tree.h` on one call: a node is inserted when it is in
no tree, and deleted from the tree it is in. -/
def Op.Keeps (tree : AvlTree α) : Op α → Prop
  | .insert node => node ∉ inorder tree.root
  | .delete node => node ∈ inorder tree.root

instance (tree : AvlTree α) (op : Op α) : Decidable (op.Keeps tree) :=
  match op with
  | .insert node => inferInstanceAs (Decidable (node ∉ inorder tree.root))
  | .delete node => inferInstanceAs (Decidable (node ∈ inorder tree.root))

/-- A tree the calls of `avl_tree.h` keep as they find it: distinct nodes and
the AVL invariant. -/
structure Sound (tree : AvlTree α) : Prop where
  nodup : (inorder tree.root).Nodup
  balanced : Balanced tree.balance tree.root

section Sound

variable {cmp : α → α → Bool} {tree tree' : AvlTree α} {op : Op α}

omit [DecidableEq α] in
theorem sound_empty : Sound (empty : AvlTree α) := ⟨List.nodup_nil, trivial⟩

/-- A call that returns kept the contract. -/
theorem Op.keeps_of_step (stepped : step cmp tree op = some tree') : op.Keeps tree := by
  cases op with
  | insert node =>
    rw [step] at stepped
    split_ifs at stepped with present
    exact present
  | delete node =>
    obtain ⟨z, found, -⟩ := Option.bind_eq_some_iff.mp stepped
    obtain ⟨here, whole⟩ := locate_spec found
    have inTree : z.node ∈ inorder z.tree := by
      rw [Cursor.inorder_tree]
      simp
    rw [whole, here] at inTree
    exact inTree

/-- On a sound tree every call that keeps the contract returns, and returns a
sound tree. -/
theorem Sound.step_returns (sound : Sound tree) (keeps : op.Keeps tree) :
    ∃ tree', step cmp tree op = some tree' ∧ Sound tree' := by
  cases op with
  | insert node =>
    obtain ⟨tree', inserted, nodup, balanced⟩ := avlTreeInsert_balanced cmp sound.nodup keeps sound.balanced
    exact ⟨tree', by rw [step, if_neg keeps, inserted], nodup, balanced⟩
  | delete node =>
    -- the node's links give it a place in the tree
    obtain ⟨z, found⟩ := Option.isSome_iff_exists.mp (locate_isSome keeps [])
    have whole : z.tree = tree.root := (locate_spec found).2
    obtain ⟨tree', deleted, nodup, balanced⟩ :=
      avlTreeDelete_balanced (whole ▸ sound.nodup) (whole ▸ sound.balanced)
    exact ⟨tree', by rw [step, found, Option.bind_some, deleted], nodup, balanced⟩

theorem Sound.of_step (sound : Sound tree) (stepped : step cmp tree op = some tree') : Sound tree' := by
  obtain ⟨tree'', stepped', sound'⟩ := sound.step_returns (Op.keeps_of_step stepped)
  rw [stepped] at stepped'
  cases stepped'
  exact sound'

/-- A history keeps a sound tree sound. The induction is on the history. -/
theorem Sound.of_run {ops : List (Op α)} (sound : Sound tree) (ran : run cmp tree ops = some tree') :
    Sound tree' := by
  induction ops generalizing tree with
  | nil =>
    cases ran
    exact sound
  | cons op ops ih =>
    rw [run_cons] at ran
    obtain ⟨mid, stepped, rest⟩ := Option.bind_eq_some_iff.mp ran
    exact ih (sound.of_step stepped) rest

end Sound

end AvlTree

/-- Every tree a history of calls builds from the empty tree has distinct
nodes and passes `debug_avl_tree_is_balanced`, and from it every call that
keeps the contract of `avl_tree.h` returns. -/
theorem avlTree_history_balanced [DecidableEq α] (cmp : α → α → Bool) (ops : List (AvlTree.Op α))
    (tree : AvlTree α) (ran : AvlTree.run cmp AvlTree.empty ops = some tree) :
    debugAvlTreeIsBalanced tree.balance tree.root = true ∧ (inorder tree.root).Nodup ∧
      ∀ op : AvlTree.Op α, op.Keeps tree → ∃ tree', AvlTree.step cmp tree op = some tree' := by
  have sound := AvlTree.sound_empty.of_run ran
  refine ⟨(debugAvlTreeIsBalanced_iff _ _).mpr sound.balanced, sound.nodup, fun op keeps => ?_⟩
  obtain ⟨tree', stepped, -⟩ := sound.step_returns keeps
  exact ⟨tree', stepped⟩

theorem avlTree_history_balanced_keyCmp :
    AvlTree.run keyCmp AvlTree.empty [.insert (1, 0)] =
        some ⟨.node (1, 0) .nil .nil, update (fun _ => 0) (1, 0) 0⟩ ∧
      debugAvlTreeIsBalanced (update (fun _ => 0) (1, 0) 0) (.node (1, 0) .nil .nil) = true ∧
      (inorder (.node ((1 : Nat), (0 : Nat)) .nil .nil)).Nodup ∧
      ∀ op : AvlTree.Op (Nat × Nat), op.Keeps ⟨.node (1, 0) .nil .nil, update (fun _ => 0) (1, 0) 0⟩ →
        ∃ tree', AvlTree.step keyCmp ⟨.node (1, 0) .nil .nil, update (fun _ => 0) (1, 0) 0⟩ op = some tree' :=
  ⟨rfl, avlTree_history_balanced keyCmp [.insert (1, 0)] _ rfl⟩

/-- Every tree a history of calls builds from the empty tree has at least
`fib (h + 2) - 1` nodes at height `h`, so the walks down the tree
(`avl_tree_find`, `avl_tree_lower_bound`, `avl_tree_insert_unbalanced`) and the
walk up of `avl_tree_balance` take a number of steps logarithmic in its size. -/
theorem avlTree_history_height [DecidableEq α] (cmp : α → α → Bool) (ops : List (AvlTree.Op α))
    (tree : AvlTree α) (ran : AvlTree.run cmp AvlTree.empty ops = some tree) :
    Nat.fib (tree.root.height + 2) ≤ tree.root.numNodes + 1 :=
  (AvlTree.sound_empty.of_run ran).balanced.fib_le_numNodes

theorem avlTree_history_height_keyCmp :
    AvlTree.run keyCmp AvlTree.empty [.insert (1, 0)] =
        some ⟨.node (1, 0) .nil .nil, update (fun _ => 0) (1, 0) 0⟩ ∧
      Nat.fib ((BinaryTree.node ((1 : Nat), (0 : Nat)) .nil .nil).height + 2) ≤
        (BinaryTree.node ((1 : Nat), (0 : Nat)) .nil .nil).numNodes + 1 :=
  ⟨rfl, avlTree_history_height keyCmp [.insert (1, 0)] _ rfl⟩

/-- The assertions of `avl_tree_delete` on the node after one with a right
subtree hold in every balanced tree, so in every tree a history reaches: that
node has balance `0` or `1`, and a right child it has is a leaf with balance
`0`. -/
theorem avlTreeDelete_next_asserts {bal : α → Int} {z : Cursor α} (balanced : Balanced bal z.tree) {w : α}
    {l r : BinaryTree α} (rightIs : z.right = .node w l r) :
    let next := descendLeft w l r (.right z.left z.node :: z.path)
    (bal next.node = 0 ∨ bal next.node = 1) ∧ ∀ v a b, next.right = .node v a b → bal v = 0 ∧ a = .nil ∧ b = .nil := by
  intro next
  have sameTree : next.tree = z.tree := by
    rw [(descendLeft_spec w l r _).1, plug, ← rightIs]
    rfl
  obtain ⟨⟨-, balancedR, atNext, low, high⟩, -⟩ := (balanced_plug next.subtree next.path).mp (sameTree ▸ balanced)
  -- `next` has no left child, so its balance is the height of its right one
  have noLeft : next.left = .nil := descendLeft_left _ _ _ _
  rw [noLeft, BinaryTree.height, Nat.cast_zero, sub_zero] at atNext
  refine ⟨by omega, fun v a b rightNode => ?_⟩
  rw [rightNode] at balancedR atNext
  obtain ⟨-, -, atV, -⟩ := balancedR
  -- a child below `v` would make the right side of `next` two high
  cases a <;> cases b <;> simp only [BinaryTree.height] at atNext atV <;>
    first | exact ⟨by omega, rfl, rfl⟩ | omega

theorem avlTreeDelete_next_asserts_two :
    Balanced (fun x => if x = (1, 0) then 1 else 0)
        (BinaryTree.node ((1 : Nat), (0 : Nat)) .nil (.node (2, 0) .nil .nil)) ∧
      let next := descendLeft ((2 : Nat), (0 : Nat)) .nil .nil [.right .nil (1, 0)]
      ((if next.node = (1, 0) then 1 else 0 : Int) = 0 ∨ (if next.node = (1, 0) then 1 else 0 : Int) = 1) ∧
        ∀ v a b, next.right = .node v a b → (if v = (1, 0) then 1 else 0 : Int) = 0 ∧ a = .nil ∧ b = .nil :=
  ⟨by decide, @avlTreeDelete_next_asserts _ (fun x => if x = (1, 0) then 1 else 0)
    ⟨(1, 0), .nil, .node (2, 0) .nil .nil, []⟩ (by decide) _ _ _ rfl⟩

end Gramine.Common
