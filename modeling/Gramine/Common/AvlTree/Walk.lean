import Gramine.Library.TreeZipper

/-!
# Walks and lookups of the AVL tree

`avl_tree.c` keeps intrusive AVL trees: every node points to its children and
its parent, and the tree is ordered by a comparison `cmp` that the caller
supplies, meant as a total order `<=` on nodes. A node is a pointer, so it is
its own identity here, of any type `α`; a pointer into a tree is a cursor of
`TreeZipper`, whose frames are the parent links.

This module models the walks along the links, `avl_tree_first`,
`avl_tree_next`, `avl_tree_last` and `avl_tree_prev`, and the walks down from
the root, `avl_tree_find` and `avl_tree_lower_bound_fn`. Stepping with
`avl_tree_next` from any node visits the nodes after it in order
(`visitNext_of_lt`), and `avl_tree_prev` is its mirror image. Under the
search-tree invariant (`BstOrdered`) the order is sorted by `cmp`, the lower
bound is the first node in order its test holds of, and the lookup finds an
equal node exactly when there is one.
-/

namespace Gramine.Common

open SearchTree TreeZipper

variable {α : Type _}

/-! ## Walks along the links -/

/-- `while (node->left) node = node->left;` from the node `v` with subtrees
`l` and `r`. -/
def descendLeft : α → BinaryTree α → BinaryTree α → List (Frame α) → Cursor α
  | v, .nil, r, path => ⟨v, .nil, r, path⟩
  | v, .node w l' r', r, path => descendLeft w l' r' (.left v r :: path)

/-- `while (node->right) node = node->right;`. -/
def descendRight : α → BinaryTree α → BinaryTree α → List (Frame α) → Cursor α
  | v, l, .nil, path => ⟨v, l, .nil, path⟩
  | v, l, .node w l' r', path => descendRight w l' r' (.right l v :: path)

/-- `while (node->parent && node->parent->right == node) node = node->parent;`
then `return node->parent;`, from the subtree `t` under the frames `path`. -/
def climbFromRight : BinaryTree α → List (Frame α) → Option (Cursor α)
  | _, [] => none
  | t, .left p s :: path => some ⟨p, t, s, path⟩
  | t, .right s p :: path => climbFromRight (.node p s t) path

/-- `while (node->parent && node->parent->left == node) node = node->parent;`
then `return node->parent;`. -/
def climbFromLeft : BinaryTree α → List (Frame α) → Option (Cursor α)
  | _, [] => none
  | t, .left p s :: path => climbFromLeft (.node p t s) path
  | t, .right s p :: path => some ⟨p, s, t, path⟩

/-- `avl_tree_next(node)`. -/
def avlTreeNext (z : Cursor α) : Option (Cursor α) :=
  match z.right with
  | .node w l r => some (descendLeft w l r (.right z.left z.node :: z.path))
  | .nil => climbFromRight z.subtree z.path

/-- `avl_tree_prev(node)`. -/
def avlTreePrev (z : Cursor α) : Option (Cursor α) :=
  match z.left with
  | .node w l r => some (descendRight w l r (.left z.node z.right :: z.path))
  | .nil => climbFromLeft z.subtree z.path

/-- `avl_tree_first(tree)`. -/
def avlTreeFirst : BinaryTree α → Option (Cursor α)
  | .nil => none
  | .node v l r => some (descendLeft v l r [])

/-- `avl_tree_last(tree)`. -/
def avlTreeLast : BinaryTree α → Option (Cursor α)
  | .nil => none
  | .node v l r => some (descendRight v l r [])

/-- The nodes a loop `for (node = start; node; node = avl_tree_next(node))`
visits within `fuel` turns. -/
def visitNext : Nat → Option (Cursor α) → List α
  | 0, _ => []
  | _ + 1, none => []
  | fuel + 1, some z => z.node :: visitNext fuel (avlTreeNext z)

/-- The nodes a loop stepping with `avl_tree_prev` visits within `fuel` turns. -/
def visitPrev : Nat → Option (Cursor α) → List α
  | 0, _ => []
  | _ + 1, none => []
  | fuel + 1, some z => z.node :: visitPrev fuel (avlTreePrev z)

theorem descendLeft_spec (v : α) (l r : BinaryTree α) (path : List (Frame α)) :
    (descendLeft v l r path).tree = plug (.node v l r) path ∧
      (descendLeft v l r path).before = pathBefore path ∧
      (descendLeft v l r path).node :: (descendLeft v l r path).after =
        inorder (.node v l r) ++ pathAfter path := by
  induction l generalizing v r path with
  | nil => simp [descendLeft, Cursor.tree, Cursor.subtree, Cursor.before, Cursor.after]
  | node w l' r' left _ =>
    obtain ⟨tree, before, rest⟩ := left w r' (.left v r :: path)
    simp [descendLeft, tree, before, rest, plug, pathBefore, pathAfter]

/-- The walk down stops at a node with no left child. -/
@[simp] theorem descendLeft_left (v : α) (l r : BinaryTree α) (path : List (Frame α)) :
    (descendLeft v l r path).left = .nil := by
  induction l generalizing v r path with
  | nil => rfl
  | node w l' r' left _ => exact left w r' (.left v r :: path)

theorem climbFromRight_spec (t : BinaryTree α) (path : List (Frame α)) :
    (pathAfter path = [] ∧ climbFromRight t path = none) ∨
      ∃ z, climbFromRight t path = some z ∧ z.tree = plug t path ∧
        z.before = pathBefore path ++ inorder t ∧ z.node :: z.after = pathAfter path := by
  induction path generalizing t with
  | nil => exact .inl ⟨rfl, rfl⟩
  | cons frame path ih =>
    cases frame with
    | left p s =>
      -- the subtree is a left child: its parent is next
      refine .inr ⟨⟨p, t, s, path⟩, rfl, rfl, ?_, ?_⟩
      · simp [Cursor.before, pathBefore]
      · simp [Cursor.after, pathAfter]
    | right s p =>
      -- the subtree is a right child: climb on
      rcases ih (.node p s t) with ⟨last, climbs⟩ | ⟨z, climbs, tree, before, rest⟩
      · exact .inl ⟨last, climbs⟩
      · refine .inr ⟨z, climbs, tree, ?_, rest⟩
        rw [before]
        simp [pathBefore]

/-- `avl_tree_next` steps to the next node in order of the same tree, or
returns `NULL` at the last node. -/
theorem avlTreeNext_spec (z : Cursor α) :
    (z.after = [] ∧ avlTreeNext z = none) ∨
      ∃ z', avlTreeNext z = some z' ∧ z'.tree = z.tree ∧ z'.before = z.before ++ [z.node] ∧
        z'.node :: z'.after = z.after := by
  obtain ⟨node, left, right, path⟩ := z
  cases right with
  | node w l r =>
    -- the leftmost node of the right subtree
    obtain ⟨tree, before, rest⟩ := descendLeft_spec w l r (.right left node :: path)
    refine .inr ⟨_, rfl, ?_, ?_, ?_⟩
    · rw [tree]
      rfl
    · rw [before]
      simp [Cursor.before, pathBefore]
    · rw [rest]
      rfl
  | nil =>
    rcases climbFromRight_spec (.node node left .nil) path with ⟨last, climbs⟩ |
        ⟨z', climbs, tree, before, rest⟩
    · exact .inl ⟨by simp [Cursor.after, last], climbs⟩
    · refine .inr ⟨z', climbs, tree, ?_, ?_⟩
      · rw [before]
        simp [Cursor.before]
      · rw [rest]
        simp [Cursor.after]

/-- From any node, stepping with `avl_tree_next` visits that node and every
node after it, in order. The induction is on the number of turns. -/
theorem visitNext_of_lt (z : Cursor α) {fuel : Nat} (enough : z.after.length < fuel) :
    visitNext fuel (some z) = z.node :: z.after := by
  induction fuel generalizing z with
  | zero => omega
  | succ fuel ih =>
    rw [visitNext]
    rcases avlTreeNext_spec z with ⟨last, stops⟩ | ⟨z', steps, -, -, rest⟩
    · rw [stops, last]
      cases fuel <;> rfl
    · rw [steps, ← rest, ih z' (by rw [← rest] at enough; simpa using enough)]

/-! ## The mirror image -/

theorem descendRight_mirror (v : α) (l r : BinaryTree α) (path : List (Frame α)) :
    (descendRight v l r path).mirror =
      descendLeft v (mirror r) (mirror l) (path.map Frame.mirror) := by
  induction r generalizing v l path with
  | nil => rfl
  | node w l' r' _ right =>
    rw [descendRight, right w l' (.right l v :: path)]
    rfl

theorem climbFromLeft_mirror (t : BinaryTree α) (path : List (Frame α)) :
    (climbFromLeft t path).map Cursor.mirror = climbFromRight (mirror t) (path.map Frame.mirror) := by
  induction path generalizing t with
  | nil => rfl
  | cons frame path ih =>
    cases frame with
    | left p s =>
      rw [climbFromLeft, ih]
      rfl
    | right s p => rfl

/-- `avl_tree_prev` is `avl_tree_next` in the mirror image. -/
theorem avlTreePrev_eq (z : Cursor α) :
    avlTreePrev z = (avlTreeNext z.mirror).map Cursor.mirror := by
  obtain ⟨node, left, right, path⟩ := z
  cases left with
  | node w l r =>
    have step : avlTreeNext (Cursor.mirror ⟨node, .node w l r, right, path⟩) =
        some (descendRight w l r (.left node right :: path)).mirror := by
      rw [descendRight_mirror]
      rfl
    rw [step, Option.map_some, Cursor.mirror_mirror]
    rfl
  | nil =>
    have step : avlTreeNext (Cursor.mirror ⟨node, .nil, right, path⟩) =
        (climbFromLeft (.node node .nil right) path).map Cursor.mirror := by
      rw [climbFromLeft_mirror]
      rfl
    rw [step, Option.map_map]
    simp only [Function.comp_def, Cursor.mirror_mirror, Option.map_id']
    rfl

theorem avlTreeLast_eq (t : BinaryTree α) :
    avlTreeLast t = (avlTreeFirst (mirror t)).map Cursor.mirror := by
  cases t with
  | nil => rfl
  | node v l r =>
    have first : avlTreeFirst (mirror (.node v l r)) = some (descendRight v l r []).mirror := by
      rw [descendRight_mirror]
      rfl
    rw [first, Option.map_some, Cursor.mirror_mirror]
    rfl

theorem visitPrev_eq (fuel : Nat) (start : Option (Cursor α)) :
    visitPrev fuel start = visitNext fuel (start.map Cursor.mirror) := by
  induction fuel generalizing start with
  | zero => cases start <;> rfl
  | succ fuel ih =>
    cases start with
    | none => rfl
    | some z =>
      rw [visitPrev, ih, avlTreePrev_eq, Option.map_map]
      simp [Function.comp_def, visitNext]

/-- From any node, stepping with `avl_tree_prev` visits that node and every
node before it, in reverse order. -/
theorem visitPrev_of_lt (z : Cursor α) {fuel : Nat} (enough : z.before.length < fuel) :
    visitPrev fuel (some z) = z.node :: z.before.reverse := by
  rw [visitPrev_eq, Option.map_some, visitNext_of_lt z.mirror (by simpa [Cursor.after_mirror] using
    enough), Cursor.after_mirror, Cursor.mirror_node]

theorem length_inorder (t : BinaryTree α) : (inorder t).length = t.numNodes := by
  induction t with
  | nil => rfl
  | node x l r left right =>
    simp only [inorder_node, List.length_append, List.length_cons, BinaryTree.numNodes, left, right]
    omega

/-- From `avl_tree_first`, stepping with `avl_tree_next` visits every node of
the tree once, in order, and then stops. -/
theorem visitNext_first (t : BinaryTree α) {fuel : Nat} (enough : t.numNodes ≤ fuel) :
    visitNext fuel (avlTreeFirst t) = inorder t := by
  cases t with
  | nil => cases fuel <;> rfl
  | node v l r =>
    obtain ⟨-, -, rest⟩ := descendLeft_spec v l r []
    have all : inorder (.node v l r) = (descendLeft v l r []).node :: (descendLeft v l r []).after := by
      rw [rest]
      simp [pathAfter]
    have count := congrArg List.length all
    rw [length_inorder, List.length_cons] at count
    rw [avlTreeFirst, visitNext_of_lt _ (by omega), ← all]

/-- From `avl_tree_last`, stepping with `avl_tree_prev` visits every node of
the tree once, in reverse order, and then stops. -/
theorem visitPrev_last (t : BinaryTree α) {fuel : Nat} (enough : t.numNodes ≤ fuel) :
    visitPrev fuel (avlTreeLast t) = (inorder t).reverse := by
  rw [visitPrev_eq, avlTreeLast_eq, Option.map_map]
  simp only [Function.comp_def, Cursor.mirror_mirror, Option.map_id']
  rw [visitNext_first (mirror t) (by rwa [numNodes_mirror]), inorder_mirror]

/-! ## Lookups from the root -/

/-- `avl_tree_find_fn_to(tree, cmp_arg, cmp)`: at each node `cmp(cmp_arg, node)`
sends the walk left and `cmp(node, cmp_arg)` as well returns the node; the
walk of `SearchTree.find`. -/
def avlTreeFindFnTo (root : BinaryTree α) (cmpArg : α) (cmp : α → α → Bool) : Option α :=
  find (cmp cmpArg) (fun node => cmp node cmpArg) root

/-- `avl_tree_find(tree, node)`. -/
def avlTreeFind (cmp : α → α → Bool) (root : BinaryTree α) (node : α) : Option α :=
  avlTreeFindFnTo root node cmp

/-- The loop of `avl_tree_lower_bound_fn`: `ret` is the last node the walk went
left at. -/
def lowerBoundLoop {β : Type _} (cmpArg : β) (cmp : β → α → Bool) : BinaryTree α → Option α → Option α
  | .nil, ret => ret
  | .node node l r, ret =>
    if cmp cmpArg node then lowerBoundLoop cmpArg cmp l (some node) else lowerBoundLoop cmpArg cmp r ret

/-- `avl_tree_lower_bound_fn(tree, cmp_arg, cmp)`. -/
def avlTreeLowerBoundFn {β : Type _} (root : BinaryTree α) (cmpArg : β) (cmp : β → α → Bool) : Option α :=
  lowerBoundLoop cmpArg cmp root none

/-- `avl_tree_lower_bound(tree, cmp_arg)`, with `tree->cmp` as the test. -/
def avlTreeLowerBound (cmp : α → α → Bool) (root : BinaryTree α) (cmpArg : α) : Option α :=
  avlTreeLowerBoundFn root cmpArg cmp

/-- The loop with its accumulator is the recursive walk of the library. -/
theorem lowerBoundLoop_eq {β : Type _} (cmpArg : β) (cmp : β → α → Bool) (root : BinaryTree α)
    (ret : Option α) : lowerBoundLoop cmpArg cmp root ret = (lowerBound (cmp cmpArg) root).or ret := by
  induction root generalizing ret with
  | nil => rfl
  | node node l r left right =>
    rw [lowerBoundLoop, lowerBound]
    split
    · -- the remembered node is overwritten only by one further down
      rw [left]
      cases lowerBound (cmp cmpArg) l <;> rfl
    · exact right ret

theorem avlTreeLowerBoundFn_eq {β : Type _} (root : BinaryTree α) (cmpArg : β) (cmp : β → α → Bool) :
    avlTreeLowerBoundFn root cmpArg cmp = lowerBound (cmp cmpArg) root := by
  rw [avlTreeLowerBoundFn, lowerBoundLoop_eq, Option.or_none]

/-! ## The search-tree invariant -/

/-- What `avl_tree.h` asks of a tree: distinct nodes, in order by `cmp`. -/
structure Ordered (cmp : α → α → Bool) (root : BinaryTree α) : Prop where
  nodup : (inorder root).Nodup
  sorted : (inorder root).Pairwise fun a b => cmp a b = true

section Ordered

variable {cmp : α → α → Bool} {root : BinaryTree α}
  (trans : ∀ a b c, cmp a b = true → cmp b c = true → cmp a c = true)
include trans

/-- In a search tree a test compatible with `cmp` is the first node it holds
of that `avl_tree_lower_bound_fn` returns. -/
theorem avlTreeLowerBoundFn_eq_find? {β : Type _} (ordered : Ordered cmp root) (cmpArg : β)
    (cmpFn : β → α → Bool) (compatible : ∃ a, ∀ b, cmpFn cmpArg b = cmp a b) :
    avlTreeLowerBoundFn root cmpArg cmpFn = (inorder root).find? (cmpFn cmpArg) := by
  obtain ⟨a, same⟩ := compatible
  have test : cmpFn cmpArg = cmp a := funext same
  rw [avlTreeLowerBoundFn_eq, test]
  exact lowerBound_eq_find? (Rising.of_sorted trans ordered.sorted a)

/-- `avl_tree_find` returns a node that compares equal to its argument, and
returns one whenever the tree holds one. -/
theorem avlTreeFind_spec (ordered : Ordered cmp root) (node : α) :
    (∀ z, avlTreeFind cmp root node = some z → z ∈ inorder root ∧ cmp node z = true ∧ cmp z node = true) ∧
      ((∃ z ∈ inorder root, cmp node z = true ∧ cmp z node = true) → (avlTreeFind cmp root node).isSome) :=
  ⟨fun _ found => find_spec found,
    find_isSome (Rising.of_sorted trans ordered.sorted node) (Falling.of_sorted trans ordered.sorted node)⟩

end Ordered

end Gramine.Common
