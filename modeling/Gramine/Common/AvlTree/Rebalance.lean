import Gramine.Common.AvlTree.Walk

/-!
# Insertion, deletion and rebalancing

`avl_tree_insert` hangs the new node under the last node of the walk down
(`avl_tree_insert_unbalanced`) and `avl_tree_delete` first swaps a node with
two children with the next one, then unlinks it. Both then walk up with
`avl_tree_balance`, updating the `balance` fields and rotating a subtree whose
balance reached `±2` (`avl_tree_do_balance`, by one of `rot1L`, `rot1R`,
`rot2RL`, `rot2LR`).

The tree is the zipper's tree of node pointers and the `balance` fields are a
map on nodes. A rotation puts a new root into the old one's place, so it keeps
the frames above the subtree, and each rotation keeps the subtree's nodes in
order. So insertion puts the new node where `SearchTree.insert` does
(`avlTreeInsert_inorder`) and deletion drops the node from the order
(`avlTreeDelete_inorder`), whatever the rotations were.

`avl_tree_do_balance` reads the child on the heavy side, and the grandchild
for a double rotation, without a check: with wrong `balance` fields that
pointer can be `NULL`. The model returns `none` there.
-/

namespace Gramine.Common

open SearchTree TreeZipper Function

variable {α : Type _} [DecidableEq α]

/-- `enum side`: the child whose height changed. -/
inductive Side where
  | left
  | right
  deriving DecidableEq, Repr

/-- `struct avl_tree` with the nodes' `balance` fields: the height of the right
subtree less that of the left one. -/
structure AvlTree (α : Type _) where
  root : BinaryTree α
  balance : α → Int

/-! ## Rotations -/

/-- `rot1L(q, p)`: `q`, the right child of `p`, takes `p`'s place, with `p`
as its left child over `a` and `q`'s old left subtree `b`. -/
def rot1L (bal : α → Int) (q p : α) (a b c : BinaryTree α) (path : List (Frame α)) :
    Cursor α × (α → Int) :=
  (⟨q, .node p a b, c, path⟩,
    if bal q = 1 then update (update bal p 0) q 0 else update (update bal p 1) q (-1))

/-- `rot1R(q, p)`: `q`, the left child of `p`, takes `p`'s place. -/
def rot1R (bal : α → Int) (q p : α) (a b c : BinaryTree α) (path : List (Frame α)) :
    Cursor α × (α → Int) :=
  (⟨q, a, .node p b c, path⟩,
    if bal q = -1 then update (update bal p 0) q 0 else update (update bal p (-1)) q 1)

/-- `rot2RL(r, q, p)`: `r`, the left child of `p`'s right child `q`, takes
`p`'s place, with `p` and `q` as its children. -/
def rot2RL (bal : α → Int) (r q p : α) (a b c d : BinaryTree α) (path : List (Frame α)) :
    Cursor α × (α → Int) :=
  let bal :=
    if bal r = -1 then update (update bal p 0) q 1
    else if bal r = 0 then update (update bal p 0) q 0
    else update (update bal p (-1)) q 0
  (⟨r, .node p a b, .node q c d, path⟩, update bal r 0)

/-- `rot2LR(r, q, p)`: `r`, the right child of `p`'s left child `q`, takes
`p`'s place. -/
def rot2LR (bal : α → Int) (r q p : α) (a b c d : BinaryTree α) (path : List (Frame α)) :
    Cursor α × (α → Int) :=
  let bal :=
    if bal r = -1 then update (update bal q 0) p 1
    else if bal r = 0 then update (update bal q 0) p 0
    else update (update bal q (-1)) p 0
  (⟨r, .node q a b, .node p c d, path⟩, update bal r 0)

/-- `avl_tree_do_balance(node, &new_root)` at the cursor's node: whether the
subtree's height may have changed, and the cursor at its new root. -/
def doBalance (bal : α → Int) (z : Cursor α) : Option (Bool × Cursor α × (α → Int)) :=
  if bal z.node < 0 then
    match z.left with
    | .nil => none
    | .node q a b =>
      if bal q = 1 then
        match b with
        | .nil => none
        | .node r b c => some (true, rot2LR bal r q z.node a b c z.right z.path)
      else some (bal q != 0, rot1R bal q z.node a b z.right z.path)
  else
    match z.right with
    | .nil => none
    | .node q b c =>
      if 0 ≤ bal q then some (bal q != 0, rot1L bal q z.node z.left b c z.path)
      else
        match b with
        | .nil => none
        | .node r b c' => some (true, rot2RL bal r q z.node z.left b c' c z.path)

/-! ## The walk up -/

/-- The side of its parent a subtree hangs on: `node->parent->left == node`
or not. -/
def sideOf : Frame α → Side
  | .left _ _ => .left
  | .right _ _ => .right

/-- The update of `node->balance` at one turn of `avl_tree_balance`: whether
the subtree's height changed, and the new balance. -/
def balanceUpdate (b : Int) : Side → Bool → Bool × Int
  | .left, true => (decide (b ≤ 0), b - 1)
  | .left, false => (decide (b < 0), b + 1)
  | .right, true => (decide (0 ≤ b), b + 1)
  | .right, false => (decide (0 < b), b - 1)

/-- One turn of `avl_tree_balance` at the cursor's node: the update of its
balance and, where the balance became `±2`, the rotation. On insertion the
height never changes after a rotation. -/
def balanceTurn (bal : α → Int) (z : Cursor α) (side : Side) (heightIncreased : Bool) :
    Option (Bool × Cursor α × (α → Int)) :=
  let (heightChanged, b) := balanceUpdate (bal z.node) side heightIncreased
  let bal := update bal z.node b
  if b = -2 ∨ b = 2 then
    (doBalance bal z).map fun (changed, rest) => (if heightIncreased then false else changed, rest)
  else some (heightChanged, z, bal)

/-- `avl_tree_balance(node, side, height_increased)`: the cursor at the root of
the subtree where balancing stopped. -/
def avlTreeBalance (bal : α → Int) (z : Cursor α) (side : Side) (heightIncreased : Bool) :
    Option (Cursor α × (α → Int)) :=
  match balanceTurn bal z side heightIncreased with
  | none => none
  | some (false, z', bal') => some (z', bal')
  | some (true, z', bal') =>
    -- the subtree's new root has `node`'s parent
    match _parent : z.path with
    | [] => some (z', bal')
    | frame :: path => avlTreeBalance bal' (frame.up z'.subtree path) (sideOf frame) heightIncreased
termination_by z.path.length
decreasing_by simp [_parent]

/-! ## Insertion and deletion -/

/-- `avl_tree_insert_unbalanced(tree, node_to_insert)` from the node `node`
with subtrees `l` and `r`: the cursor at the new node's parent, and the side it
hangs on. -/
def insertUnbalanced (cmp : α → α → Bool) (nodeToInsert node : α) (l r : BinaryTree α)
    (path : List (Frame α)) : Cursor α × Side :=
  if cmp nodeToInsert node then
    match l with
    | .nil => (⟨node, .node nodeToInsert .nil .nil, r, path⟩, .left)
    | .node w l' r' => insertUnbalanced cmp nodeToInsert w l' r' (.left node r :: path)
  else
    match r with
    | .nil => (⟨node, l, .node nodeToInsert .nil .nil, path⟩, .right)
    | .node w l' r' => insertUnbalanced cmp nodeToInsert w l' r' (.right l node :: path)
termination_by sizeOf l + sizeOf r

/-- `avl_tree_insert(tree, node)`. The whole tree after balancing is the tree
of the cursor it stopped at, whose root is `tree->root` or, when balancing
reached the top, the new root. -/
def avlTreeInsert (cmp : α → α → Bool) (tree : AvlTree α) (node : α) : Option (AvlTree α) :=
  -- `avl_tree_init_node`
  let bal := update tree.balance node 0
  match tree.root with
  | .nil => some ⟨.node node .nil .nil, bal⟩
  | .node root l r =>
    let parent := insertUnbalanced cmp node root l r []
    (avlTreeBalance bal parent.1 parent.2 true).map fun (z, bal) => ⟨z.tree, bal⟩

/-- What takes the place of a node with at most one child. -/
def unlinkedSubtree : BinaryTree α → BinaryTree α → BinaryTree α
  | .nil, .nil => .nil
  | .node v l r, .nil => .node v l r
  | _, right => right

/-- `avl_tree_delete` once `node` has at most one child: it is unlinked and
its parent rebalanced. -/
def deleteUnlinked (bal : α → Int) (z : Cursor α) : Option (AvlTree α) :=
  let sub := unlinkedSubtree z.left z.right
  match z.path with
  | [] => some ⟨sub, bal⟩
  | frame :: path => (avlTreeBalance bal (frame.up sub path) (sideOf frame) false).map fun (z, bal) => ⟨z.tree, bal⟩

/-- `avl_tree_delete(tree, node)`, for the node at the cursor. A node with two
children first trades places with the next node, `balance` fields staying with
the places: the pointer surgery of the source amounts to exchanging the two
nodes in the tree. -/
def avlTreeDelete (bal : α → Int) (z : Cursor α) : Option (AvlTree α) :=
  match z.left, z.right with
  | .node _ _ _, .node w l r =>
    let next := descendLeft w l r (.right z.left z.node :: z.path)
    let σ := Equiv.swap z.node next.node
    deleteUnlinked (bal ∘ σ) (next.map σ)
  | _, _ => deleteUnlinked bal z

/-! ## The order of the nodes -/

section Order

variable {bal bal' : α → Int} {z z' : Cursor α} {changed : Bool}

/-- What `do_balance` can do: one of the four rotations, chosen by the
balances of the node and of its child on the heavy side. -/
theorem doBalance_cases (balanced : doBalance bal z = some (changed, z', bal')) :
    (∃ q a r b c, z.left = .node q a (.node r b c) ∧ bal z.node < 0 ∧ bal q = 1 ∧ changed = true ∧
      (z', bal') = rot2LR bal r q z.node a b c z.right z.path) ∨
    (∃ q a b, z.left = .node q a b ∧ bal z.node < 0 ∧ bal q ≠ 1 ∧ changed = (bal q != 0) ∧
      (z', bal') = rot1R bal q z.node a b z.right z.path) ∨
    (∃ q b c, z.right = .node q b c ∧ 0 ≤ bal z.node ∧ 0 ≤ bal q ∧ changed = (bal q != 0) ∧
      (z', bal') = rot1L bal q z.node z.left b c z.path) ∨
    (∃ q r b c d, z.right = .node q (.node r b c) d ∧ 0 ≤ bal z.node ∧ bal q < 0 ∧ changed = true ∧
      (z', bal') = rot2RL bal r q z.node z.left b c d z.path) := by
  obtain ⟨p, left, right, path⟩ := z
  by_cases heavy : bal p < 0
  · -- the left child `q` is heavy: `rot2LR` if it leans right, `rot1R` otherwise
    cases left with
    | nil => simp [doBalance, heavy] at balanced
    | node q a b =>
      by_cases inner : bal q = 1
      · cases b with
        | nil => simp [doBalance, heavy, inner] at balanced
        | node r b c =>
          simp only [doBalance, heavy, inner, if_true, Option.some.injEq, Prod.mk.injEq] at balanced
          exact .inl ⟨q, a, r, b, c, rfl, heavy, inner, balanced.1.symm, balanced.2.symm⟩
      · simp only [doBalance, heavy, inner, if_true, if_false, Option.some.injEq, Prod.mk.injEq] at balanced
        exact .inr (.inl ⟨q, a, b, rfl, heavy, inner, balanced.1.symm, balanced.2.symm⟩)
  · -- the right child `q` is heavy: `rot1L` unless it leans left
    cases right with
    | nil => simp [doBalance, heavy] at balanced
    | node q b c =>
      by_cases outer : 0 ≤ bal q
      · simp only [doBalance, heavy, outer, if_true, if_false, Option.some.injEq, Prod.mk.injEq] at balanced
        exact .inr (.inr (.inl ⟨q, b, c, rfl, Int.not_lt.mp heavy, outer, balanced.1.symm, balanced.2.symm⟩))
      · cases b with
        | nil => simp [doBalance, heavy, outer] at balanced
        | node r b c' =>
          simp only [doBalance, heavy, outer, if_false, Option.some.injEq, Prod.mk.injEq] at balanced
          exact .inr (.inr (.inr ⟨q, r, b, c', c, rfl, Int.not_lt.mp heavy, Int.not_le.mp outer, balanced.1.symm,
            balanced.2.symm⟩))

/-- `do_balance` keeps the frames above the subtree and the subtree's nodes
in order. -/
theorem doBalance_spec (balanced : doBalance bal z = some (changed, z', bal')) :
    z'.path = z.path ∧ inorder z'.subtree = inorder z.subtree := by
  obtain ⟨node, left, right, path⟩ := z
  rcases doBalance_cases balanced with ⟨q, a, r, b, c, rfl, -, -, -, same⟩ |
    ⟨q, a, b, rfl, -, -, -, same⟩ | ⟨q, b, c, rfl, -, -, -, same⟩ | ⟨q, r, b, c, d, rfl, -, -, -, same⟩ <;>
  · cases same
    simp [Cursor.subtree]

/-- What one turn of `avl_tree_balance` can do: update the balance, and
rotate if it became `±2`. -/
theorem balanceTurn_cases {side : Side} {heightIncreased heightChanged : Bool} {b : Int}
    (updated : balanceUpdate (bal z.node) side heightIncreased = (heightChanged, b))
    (turned : balanceTurn bal z side heightIncreased = some (changed, z', bal')) :
    (¬ (b = -2 ∨ b = 2) ∧ changed = heightChanged ∧ z' = z ∧ bal' = update bal z.node b) ∨
      ((b = -2 ∨ b = 2) ∧ ∃ changed', doBalance (update bal z.node b) z = some (changed', z', bal') ∧
        changed = (if heightIncreased then false else changed')) := by
  rw [balanceTurn, updated] at turned
  dsimp only at turned
  by_cases rotated : b = -2 ∨ b = 2
  · rw [if_pos rotated] at turned
    obtain ⟨⟨changed', z'', bal''⟩, balanced, same⟩ := Option.map_eq_some_iff.mp turned
    simp only [Prod.mk.injEq] at same
    obtain ⟨rfl, rfl, rfl⟩ := same
    exact .inr ⟨rotated, changed', balanced, rfl⟩
  · rw [if_neg rotated] at turned
    simp only [Option.some.injEq, Prod.mk.injEq] at turned
    obtain ⟨rfl, rfl, rfl⟩ := turned
    exact .inl ⟨rotated, rfl, rfl, rfl⟩

theorem balanceTurn_spec {side : Side} {heightIncreased : Bool}
    (turned : balanceTurn bal z side heightIncreased = some (changed, z', bal')) :
    z'.path = z.path ∧ inorder z'.subtree = inorder z.subtree := by
  rcases balanceTurn_cases rfl turned with ⟨-, -, rfl, -⟩ | ⟨-, _, balanced, -⟩
  · exact ⟨rfl, rfl⟩
  · exact doBalance_spec balanced

/-- A turn changes the tree only in the subtree at the cursor, whose nodes
stay in order. -/
theorem balanceTurn_tree {side : Side} {heightIncreased : Bool}
    (turned : balanceTurn bal z side heightIncreased = some (changed, z', bal')) :
    inorder z'.tree = inorder z.tree := by
  obtain ⟨path, same⟩ := balanceTurn_spec turned
  rw [Cursor.tree, Cursor.tree, path]
  exact inorder_plug_congr same _

/-- Balancing keeps the nodes of the whole tree in order. The induction
follows the walk up: each turn changes the subtree at the cursor only, and
keeps its nodes in order. -/
theorem avlTreeBalance_inorder {side : Side} {heightIncreased : Bool}
    (balanced : avlTreeBalance bal z side heightIncreased = some (z', bal')) :
    inorder z'.tree = inorder z.tree := by
  fun_induction avlTreeBalance bal z side heightIncreased with
  | case1 => cases balanced
  | case2 bal z side z'' bal'' turned =>
    cases balanced
    exact balanceTurn_tree turned
  | case3 bal z side z'' bal'' turned _ =>
    cases balanced
    exact balanceTurn_tree turned
  | case4 bal z side z'' bal'' turned frame path up ih =>
    obtain ⟨samePath, same⟩ := balanceTurn_spec turned
    rw [ih balanced, Frame.tree_up, Cursor.tree, up]
    exact inorder_plug_congr same _

omit [DecidableEq α] in
/-- The walk down hangs the new node where `SearchTree.insert` does. -/
theorem insertUnbalanced_tree (cmp : α → α → Bool) (nodeToInsert node : α) (l r : BinaryTree α)
    (path : List (Frame α)) :
    (insertUnbalanced cmp nodeToInsert node l r path).1.tree =
      plug (SearchTree.insert cmp nodeToInsert (.node node l r)) path := by
  fun_induction insertUnbalanced cmp nodeToInsert node l r path with
  | case1 node r path goesLeft => simp [SearchTree.insert, goesLeft, Cursor.tree, Cursor.subtree]
  | case2 node r path goesLeft w l' r' ih => rw [ih]; simp [SearchTree.insert, goesLeft, plug]
  | case3 node l path goesRight => simp [SearchTree.insert, goesRight, Cursor.tree, Cursor.subtree]
  | case4 node l path goesRight w l' r' ih => rw [ih]; simp [SearchTree.insert, goesRight, plug]

omit [DecidableEq α] in
/-- The walk down ends at an empty place, under frames `frame :: path'` of the
tree it walked, and hangs the new node there. -/
theorem insertUnbalanced_frame (cmp : α → α → Bool) (nodeToInsert node : α) (l r : BinaryTree α)
    (path : List (Frame α)) :
    ∃ frame path', plug (.node node l r) path = plug .nil (frame :: path') ∧
      insertUnbalanced cmp nodeToInsert node l r path =
        (frame.up (.node nodeToInsert .nil .nil) path', sideOf frame) := by
  fun_induction insertUnbalanced cmp nodeToInsert node l r path with
  | case1 node r path goesLeft => exact ⟨.left node r, path, rfl, rfl⟩
  | case2 node r path goesLeft w l' r' ih => exact ih
  | case3 node l path goesRight => exact ⟨.right l node, path, rfl, rfl⟩
  | case4 node l path goesRight w l' r' ih => exact ih

/-- Insertion puts the new node where `SearchTree.insert` does, whatever
rotations follow. -/
theorem avlTreeInsert_inorder (cmp : α → α → Bool) {tree tree' : AvlTree α} {node : α}
    (inserted : avlTreeInsert cmp tree node = some tree') :
    inorder tree'.root = inorder (SearchTree.insert cmp node tree.root) := by
  unfold avlTreeInsert at inserted
  split at inserted
  · rename_i empty
    cases inserted
    rw [empty]
    rfl
  · rename_i root l r rootIs
    obtain ⟨⟨z, bal⟩, balanced, rfl⟩ := Option.map_eq_some_iff.mp inserted
    rw [avlTreeBalance_inorder balanced, insertUnbalanced_tree, rootIs]
    rfl

omit [DecidableEq α] in
theorem inorder_unlinkedSubtree {l r : BinaryTree α} (oneChild : l = .nil ∨ r = .nil) :
    inorder (unlinkedSubtree l r) = inorder l ++ inorder r := by
  rcases oneChild with rfl | rfl
  · cases r <;> rfl
  · cases l <;> simp [unlinkedSubtree]

omit [DecidableEq α] in
theorem inorder_plug_unlinkedSubtree (oneChild : z.left = .nil ∨ z.right = .nil) :
    inorder (plug (unlinkedSubtree z.left z.right) z.path) = z.before ++ z.after := by
  rw [inorder_plug, inorder_unlinkedSubtree oneChild, Cursor.before, Cursor.after]
  simp

/-- Unlinking a node with at most one child drops it from the order. -/
theorem deleteUnlinked_inorder {tree : AvlTree α} (oneChild : z.left = .nil ∨ z.right = .nil)
    (deleted : deleteUnlinked bal z = some tree) : inorder tree.root = z.before ++ z.after := by
  rw [← inorder_plug_unlinkedSubtree oneChild]
  unfold deleteUnlinked at deleted
  split at deleted
  · rename_i top
    cases deleted
    rw [top]
    rfl
  · rename_i frame path parent
    obtain ⟨⟨z', bal'⟩, balanced, rfl⟩ := Option.map_eq_some_iff.mp deleted
    rw [avlTreeBalance_inorder balanced, Frame.tree_up, parent]

theorem map_swap_of_not_mem {a b : α} {l : List α} (notA : a ∉ l) (notB : b ∉ l) :
    l.map (Equiv.swap a b) = l := by
  conv_rhs => rw [← List.map_id l]
  exact List.map_congr_left fun x member =>
    Equiv.swap_apply_of_ne_of_ne (ne_of_mem_of_not_mem member notA) (ne_of_mem_of_not_mem member notB)

/-- What `avl_tree_delete` does: a node with two children first trades places
with the next node, the leftmost of its right subtree, and is unlinked there;
any other node is unlinked where it is. -/
theorem avlTreeDelete_cases (bal : α → Int) (z : Cursor α) :
    (∃ w l r next, z.left ≠ .nil ∧ z.right = .node w l r ∧
      next = descendLeft w l r (.right z.left z.node :: z.path) ∧
      avlTreeDelete bal z =
        deleteUnlinked (bal ∘ Equiv.swap z.node next.node) (next.map (Equiv.swap z.node next.node))) ∨
    ((z.left = .nil ∨ z.right = .nil) ∧ avlTreeDelete bal z = deleteUnlinked bal z) := by
  unfold avlTreeDelete
  split
  · rename_i v l' r' w l r leftIs rightIs
    exact .inl ⟨w, l, r, _, by simp [leftIs], rightIs, rfl, rfl⟩
  · rename_i notBoth
    refine .inr ⟨?_, rfl⟩
    cases leftIs : z.left with
    | nil => exact .inl rfl
    | node v l' r' =>
      cases rightIs : z.right with
      | nil => exact .inr rfl
      | node w l r => exact absurd rightIs (notBoth v l' r' w l r leftIs)

/-- Deletion drops the node from the order: a node with two children first
trades places with the next one, which has no left child. -/
theorem avlTreeDelete_inorder {tree : AvlTree α} (nodup : (inorder z.tree).Nodup)
    (deleted : avlTreeDelete bal z = some tree) : inorder tree.root = z.before ++ z.after := by
  rcases avlTreeDelete_cases bal z with ⟨w, l, r, next, -, rightIs, nextIs, swapped⟩ | ⟨oneChild, unlinked⟩
  · rw [swapped] at deleted
    -- `next`, the leftmost node on the right, comes right after `node`
    obtain ⟨-, before, rest⟩ := descendLeft_spec w l r (.right z.left z.node :: z.path)
    rw [← nextIs] at before rest
    have nextBefore : next.before = z.before ++ [z.node] := by
      rw [before]
      simp [pathBefore, Cursor.before]
    have nextRest : next.node :: next.after = z.after := by
      rw [rest, Cursor.after, rightIs]
      rfl
    rw [Cursor.inorder_tree, ← nextRest] at nodup
    have notBefore : z.node ∉ z.before ∧ next.node ∉ z.before :=
      ⟨fun member => List.disjoint_of_nodup_append nodup member (by simp),
        fun member => List.disjoint_of_nodup_append nodup member (by simp)⟩
    obtain ⟨notHere, nodupRest⟩ := List.nodup_cons.mp (List.nodup_append.mp nodup).2.1
    have notAfter : z.node ∉ next.after ∧ next.node ∉ next.after :=
      ⟨fun member => notHere (List.mem_cons_of_mem _ member), (List.nodup_cons.mp nodupRest).1⟩
    -- after the exchange `node` has no left child, and the order is that
    -- of the two nodes exchanged
    have noLeft : (next.map (Equiv.swap z.node next.node)).left = .nil := by simp [nextIs, BinaryTree.map]
    rw [deleteUnlinked_inorder (.inl noLeft) deleted, Cursor.before_map, Cursor.after_map, nextBefore,
      List.map_append, map_swap_of_not_mem notBefore.1 notBefore.2,
      map_swap_of_not_mem notAfter.1 notAfter.2, ← nextRest]
    simp
  · rw [unlinked] at deleted
    exact deleteUnlinked_inorder oneChild deleted

end Order

end Gramine.Common
