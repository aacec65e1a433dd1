import Gramine.Library.SearchTree

/-!
# Pointers into a tree with parent links

In a C tree whose nodes point to their children and to their parent, a walk
moves a pointer along those links. Here the pointer is a cursor: the node it
points at, that node's two subtrees, and the frames on the way up to the root,
each a parent with the subtree on its other side. Putting the frames back
gives the whole tree, so moving the cursor never changes the tree, and the
nodes before and after the cursor in order are read off its parts.

Mirroring a tree swaps left and right and reverses the order of its nodes; a
walk to the previous node is the mirror image of a walk to the next one.
-/

namespace TreeZipper

open SearchTree

variable {α : Type _}

/-- Where a subtree hangs: as the left child of `parent`, whose right subtree
is `sibling`, or as the right child, whose left subtree is `sibling`. -/
inductive Frame (α : Type _) where
  | left (parent : α) (sibling : BinaryTree α)
  | right (sibling : BinaryTree α) (parent : α)

/-- A subtree put back into the frames above it, innermost frame first. -/
def plug : BinaryTree α → List (Frame α) → BinaryTree α
  | t, [] => t
  | t, .left p s :: path => plug (.node p t s) path
  | t, .right s p :: path => plug (.node p s t) path

/-- A pointer to a node of a tree. -/
structure Cursor (α : Type _) where
  node : α
  left : BinaryTree α
  right : BinaryTree α
  path : List (Frame α)

/-- The parent in `frame` of the subtree `t`, as a cursor: one step up a
parent link. -/
def Frame.up : Frame α → BinaryTree α → List (Frame α) → Cursor α
  | .left p s, t, path => ⟨p, t, s, path⟩
  | .right s p, t, path => ⟨p, s, t, path⟩

@[simp] theorem Frame.path_up (frame : Frame α) (t : BinaryTree α) (path : List (Frame α)) :
    (frame.up t path).path = path := by
  cases frame <;> rfl

/-- The nodes the frames put before the subtree, in order. -/
def pathBefore : List (Frame α) → List α
  | [] => []
  | .left _ _ :: path => pathBefore path
  | .right s p :: path => pathBefore path ++ (inorder s ++ [p])

/-- The nodes the frames put after the subtree, in order. -/
def pathAfter : List (Frame α) → List α
  | [] => []
  | .left p s :: path => p :: inorder s ++ pathAfter path
  | .right _ _ :: path => pathAfter path

theorem inorder_plug (t : BinaryTree α) (path : List (Frame α)) :
    inorder (plug t path) = pathBefore path ++ inorder t ++ pathAfter path := by
  induction path generalizing t with
  | nil => simp [plug, pathBefore, pathAfter]
  | cons frame path ih =>
    cases frame with
    | left p s => simp [plug, pathBefore, pathAfter, ih]
    | right s p => simp [plug, pathBefore, pathAfter, ih]

/-- Subtrees with the same nodes in order give trees with the same nodes in
order. -/
theorem inorder_plug_congr {t t' : BinaryTree α} (same : inorder t' = inorder t)
    (path : List (Frame α)) : inorder (plug t' path) = inorder (plug t path) := by
  rw [inorder_plug, inorder_plug, same]

namespace Cursor

/-- The subtree at the cursor. -/
def subtree (z : Cursor α) : BinaryTree α := .node z.node z.left z.right

/-- The whole tree the cursor points into. -/
def tree (z : Cursor α) : BinaryTree α := plug z.subtree z.path

/-- The nodes before the cursor's node, in order. -/
def before (z : Cursor α) : List α := pathBefore z.path ++ inorder z.left

/-- The nodes after the cursor's node, in order. -/
def after (z : Cursor α) : List α := inorder z.right ++ pathAfter z.path

theorem inorder_tree (z : Cursor α) : inorder z.tree = z.before ++ z.node :: z.after := by
  simp [tree, subtree, before, after, inorder_plug]

end Cursor

@[simp] theorem Frame.tree_up (frame : Frame α) (t : BinaryTree α) (path : List (Frame α)) :
    (frame.up t path).tree = plug t (frame :: path) := by
  cases frame <;> rfl

/-! ## Mirror images -/

/-- The tree with left and right swapped. -/
def mirror : BinaryTree α → BinaryTree α
  | .nil => .nil
  | .node x l r => .node x (mirror r) (mirror l)

@[simp] theorem mirror_mirror (t : BinaryTree α) : mirror (mirror t) = t := by
  induction t with
  | nil => rfl
  | node x l r left right => simp [mirror, left, right]

@[simp] theorem inorder_mirror (t : BinaryTree α) : inorder (mirror t) = (inorder t).reverse := by
  induction t with
  | nil => rfl
  | node x l r left right => simp [mirror, left, right]

theorem numNodes_mirror (t : BinaryTree α) : (mirror t).numNodes = t.numNodes := by
  induction t with
  | nil => rfl
  | node x l r left right =>
    simp only [mirror, BinaryTree.numNodes, left, right]
    omega

/-- A frame seen in the mirror. -/
def Frame.mirror : Frame α → Frame α
  | .left p s => .right (TreeZipper.mirror s) p
  | .right s p => .left p (TreeZipper.mirror s)

@[simp] theorem Frame.mirror_mirror (frame : Frame α) : frame.mirror.mirror = frame := by
  cases frame <;> simp [Frame.mirror]

theorem pathAfter_mirror (path : List (Frame α)) :
    pathAfter (path.map Frame.mirror) = (pathBefore path).reverse := by
  induction path with
  | nil => rfl
  | cons frame path ih =>
    cases frame with
    | left p s => simp [Frame.mirror, pathBefore, pathAfter, ih]
    | right s p => simp [Frame.mirror, pathBefore, pathAfter, ih]

/-- The same pointer into the mirror image. -/
def Cursor.mirror (z : Cursor α) : Cursor α :=
  ⟨z.node, TreeZipper.mirror z.right, TreeZipper.mirror z.left, z.path.map Frame.mirror⟩

namespace Cursor

@[simp] theorem mirror_mirror (z : Cursor α) : z.mirror.mirror = z := by
  simp [Cursor.mirror, List.map_map, Function.comp_def]

@[simp] theorem mirror_node (z : Cursor α) : z.mirror.node = z.node := rfl

theorem after_mirror (z : Cursor α) : z.mirror.after = z.before.reverse := by
  simp [Cursor.mirror, before, after, pathAfter_mirror]

end Cursor

/-! ## Renaming nodes -/

section Map

variable {β : Type _} (f : α → β)

/-- A frame with its nodes renamed. -/
def Frame.map : Frame α → Frame β
  | .left p s => .left (f p) (s.map f)
  | .right s p => .right (s.map f) (f p)

theorem plug_map (t : BinaryTree α) (path : List (Frame α)) :
    plug (t.map f) (path.map (Frame.map f)) = (plug t path).map f := by
  induction path generalizing t with
  | nil => rfl
  | cons frame path ih =>
    cases frame with
    | left p s => exact ih (.node p t s)
    | right s p => exact ih (.node p s t)

theorem pathBefore_map (path : List (Frame α)) :
    pathBefore (path.map (Frame.map f)) = (pathBefore path).map f := by
  induction path with
  | nil => rfl
  | cons frame path ih =>
    cases frame with
    | left p s => simp [Frame.map, pathBefore, ih]
    | right s p => simp [Frame.map, pathBefore, ih, inorder_map]

theorem pathAfter_map (path : List (Frame α)) :
    pathAfter (path.map (Frame.map f)) = (pathAfter path).map f := by
  induction path with
  | nil => rfl
  | cons frame path ih =>
    cases frame with
    | left p s => simp [Frame.map, pathAfter, ih, inorder_map]
    | right s p => simp [Frame.map, pathAfter, ih]

/-- The same pointer into the tree with its nodes renamed. -/
def Cursor.map (z : Cursor α) : Cursor β :=
  ⟨f z.node, z.left.map f, z.right.map f, z.path.map (Frame.map f)⟩

namespace Cursor

@[simp] theorem map_node (z : Cursor α) : (z.map f).node = f z.node := rfl

@[simp] theorem map_left (z : Cursor α) : (z.map f).left = z.left.map f := rfl

theorem tree_map (z : Cursor α) : (z.map f).tree = z.tree.map f := by
  rw [tree, tree, ← plug_map]
  rfl

theorem before_map (z : Cursor α) : (z.map f).before = z.before.map f := by
  simp [Cursor.map, before, pathBefore_map, inorder_map]

theorem after_map (z : Cursor α) : (z.map f).after = z.after.map f := by
  simp [Cursor.map, after, pathAfter_map, inorder_map]

end Cursor

end Map

/-! ## The position of a node -/

/-- The cursor at the first node `x` met in preorder below the frames `path`:
the position the links of a node pointer give it. -/
def locate [DecidableEq α] (x : α) : BinaryTree α → List (Frame α) → Option (Cursor α)
  | .nil, _ => none
  | .node v l r, path =>
    if v = x then some ⟨v, l, r, path⟩
    else (locate x l (.left v r :: path)).or (locate x r (.right l v :: path))

section Locate

variable [DecidableEq α] {x : α}

theorem locate_spec {t : BinaryTree α} {path : List (Frame α)} {z : Cursor α}
    (found : locate x t path = some z) : z.node = x ∧ z.tree = plug t path := by
  induction t generalizing path with
  | nil => cases found
  | node v l r left right =>
    rw [locate] at found
    split_ifs at found with here
    · cases found
      exact ⟨here, rfl⟩
    · -- found in the left subtree, or else in the right one
      rcases Option.or_eq_some_iff.mp found with inLeft | ⟨-, inRight⟩
      · exact left inLeft
      · exact right inRight

theorem locate_isSome {t : BinaryTree α} (member : x ∈ inorder t) (path : List (Frame α)) :
    (locate x t path).isSome := by
  induction t generalizing path with
  | nil => cases member
  | node v l r left right =>
    rw [locate]
    split_ifs with here
    · rfl
    · simp only [inorder_node, List.mem_append, List.mem_cons] at member
      rcases member with inLeft | same | inRight
      · simp [left inLeft]
      · exact absurd same.symm here
      · simp [right inRight]

end Locate

end TreeZipper
