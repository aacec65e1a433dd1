import Mathlib
import Gramine.Common.AvlTree.Rebalance

/-!
# The order of the nodes over any history of calls

`avl_tree.h` asks that `cmp` be a total order `<=` on nodes and promises that
of two nodes that compare equal the newer is on the left. Nodes that compare
equal are distinct nodes all the same, so which one is newer is a fact about
the history of calls that built the tree, not about the tree.

A history here is a list of insertions and deletions made as the header's
caller makes them. Every tree a history reaches is a search tree, and of two
nodes that compare equal the one inserted later comes first in order
(`run_holds`): insertion puts the new node in front of every node it is `<=`
to, and deletion and rebalancing only drop a node from the order or keep it.
-/

namespace Gramine.Common

open SearchTree TreeZipper

variable {α : Type _} [DecidableEq α]

namespace AvlTree

/-- A call on the tree. -/
inductive Op (α : Type _) where
  | insert (node : α)
  | delete (node : α)
  deriving DecidableEq, Repr

/-- The empty tree, `{ .root = NULL }`. -/
def empty : AvlTree α := ⟨.nil, fun _ => 0⟩

/-- One call as the caller of `avl_tree.h` makes it: a node is inserted when it
is in no tree, and deleted from the tree it is in, at the place its links give
it. A call against that contract ends the history. -/
def step (cmp : α → α → Bool) (tree : AvlTree α) : Op α → Option (AvlTree α)
  | .insert node => if node ∈ inorder tree.root then none else avlTreeInsert cmp tree node
  | .delete node => (locate node tree.root []).bind (avlTreeDelete tree.balance)

/-- The calls of a history one after another. -/
def run (cmp : α → α → Bool) (tree : AvlTree α) (ops : List (Op α)) : Option (AvlTree α) :=
  ops.foldlM (step cmp) tree

/-- When `node` was last inserted: the number of calls of the history before
that insertion. -/
def insertedAt (ops : List (Op α)) (node : α) : Nat :=
  ops.zipIdx.foldl (fun last (op, i) => if op = .insert node then i else last) 0

theorem insertedAt_append (ops : List (Op α)) (op : Op α) (node : α) :
    insertedAt (ops ++ [op]) node = if op = .insert node then ops.length else insertedAt ops node := by
  simp [insertedAt, List.zipIdx_append]

theorem run_cons (cmp : α → α → Bool) (tree : AvlTree α) (op : Op α) (ops : List (Op α)) :
    run cmp tree (op :: ops) = (step cmp tree op).bind fun tree => run cmp tree ops :=
  rfl

end AvlTree

/-! ## The invariant over histories -/

namespace AvlTree

omit [DecidableEq α] in
theorem pairwise_insert_middle {R : α → α → Prop} {l₁ l₂ : List α} {x : α} (pairwise : (l₁ ++ l₂).Pairwise R)
    (before : ∀ a ∈ l₁, R a x) (after : ∀ b ∈ l₂, R x b) : (l₁ ++ x :: l₂).Pairwise R := by
  obtain ⟨first, second, across⟩ := List.pairwise_append.mp pairwise
  refine List.pairwise_append.mpr ⟨first, List.pairwise_cons.mpr ⟨after, second⟩, fun a member b => ?_⟩
  rintro (_ | ⟨_, later⟩)
  · exact before a member
  · exact across a member b later

section Holds

variable {cmp : α → α → Bool} {ops : List (Op α)} {tree tree' : AvlTree α}

/-- What every tree a history reaches keeps: the search-tree invariant, every
node inserted before the end of the history, and of two nodes that compare
equal the one inserted later first. -/
structure Holds (cmp : α → α → Bool) (ops : List (Op α)) (tree : AvlTree α) : Prop where
  ordered : Ordered cmp tree.root
  inserted : ∀ node ∈ inorder tree.root, insertedAt ops node < ops.length
  newerFirst : (inorder tree.root).Pairwise fun a b => cmp b a = true → insertedAt ops b < insertedAt ops a

theorem holds_empty : Holds cmp [] empty :=
  ⟨⟨.nil, .nil⟩, fun _ member => absurd member List.not_mem_nil, .nil⟩

/-- Deletion drops the node from the order and leaves every other node's
insertion where it was. -/
theorem Holds.delete (holds : Holds cmp ops tree) {node : α}
    (deleted : step cmp tree (.delete node) = some tree') : Holds cmp (ops ++ [.delete node]) tree' := by
  obtain ⟨z, located, removed⟩ := Option.bind_eq_some_iff.mp deleted
  obtain ⟨rfl, position⟩ := locate_spec located
  have whole : inorder tree.root = z.before ++ z.node :: z.after := by
    rw [← Cursor.inorder_tree, position]
    rfl
  have order := avlTreeDelete_inorder (by rw [position]; exact holds.ordered.nodup) removed
  have dropped : (inorder tree'.root).Sublist (inorder tree.root) := by
    rw [order, whole]
    exact (List.sublist_cons_self _ _).append_left _
  have stamps : insertedAt (ops ++ [.delete z.node]) = insertedAt ops := by
    funext b
    simp [insertedAt_append]
  refine ⟨⟨holds.ordered.nodup.sublist dropped, holds.ordered.sorted.sublist dropped⟩, fun b member => ?_, ?_⟩
  · have := holds.inserted b (dropped.subset member)
    rw [stamps, List.length_append, List.length_singleton]
    omega
  · rw [stamps]
    exact holds.newerFirst.sublist dropped

variable (total : ∀ a b, cmp a b = true ∨ cmp b a = true)
  (trans : ∀ a b c, cmp a b = true → cmp b c = true → cmp a c = true)
include total trans

/-- Insertion puts the new node in front of the nodes it is `<=` to, so in
front of those that compare equal to it, all of them older. -/
theorem Holds.insert (holds : Holds cmp ops tree) {node : α} (fresh : node ∉ inorder tree.root)
    (inserted : avlTreeInsert cmp tree node = some tree') : Holds cmp (ops ++ [.insert node]) tree' := by
  have : Std.Total fun a b => cmp a b = true := ⟨total⟩
  have : IsTrans α fun a b => cmp a b = true := ⟨trans⟩
  have order := avlTreeInsert_inorder cmp inserted
  rw [inorder_insert cmp node (Rising.of_sorted trans holds.ordered.sorted node)] at order
  have older : ∀ b ∈ inorder tree.root, insertedAt (ops ++ [.insert node]) b = insertedAt ops b := by
    intro b member
    rw [insertedAt_append, if_neg]
    rintro ⟨⟩
    exact fresh member
  have newest : insertedAt (ops ++ [.insert node]) node = ops.length := by
    rw [insertedAt_append, if_pos rfl]
  refine ⟨⟨?_, ?_⟩, fun b member => ?_, ?_⟩
  · rw [order, (List.perm_orderedInsert _ _ _).nodup_iff]
    exact List.nodup_cons.mpr ⟨fresh, holds.ordered.nodup⟩
  · rw [order]
    exact holds.ordered.sorted.orderedInsert _ _
  · rw [order, List.mem_orderedInsert] at member
    rcases member with rfl | member
    · rw [newest]
      simp
    · have := holds.inserted b member
      rw [older b member, List.length_append, List.length_singleton]
      omega
  · -- the old pairs keep their stamps; the new node is the newest, and
    -- every node in front of it fails `cmp node`
    rw [order, List.orderedInsert_eq_take_drop]
    have split := List.takeWhile_append_dropWhile (p := fun b => ¬ cmp node b = true)
      (l := inorder tree.root)
    have kept := holds.newerFirst
    rw [← split] at kept older
    refine pairwise_insert_middle (kept.imp_of_mem fun {a b} memberA memberB newer equal => ?_)
      (fun a member equal => ?_) (fun b member _ => ?_)
    · rw [older a memberA, older b memberB]
      exact newer equal
    · have fails : ¬ cmp node a = true := by simpa using List.mem_takeWhile_imp member
      exact absurd equal fails
    · have := holds.inserted b (split ▸ List.mem_append_right _ member)
      rw [older b (List.mem_append_right _ member), newest]
      exact this

/-- One call keeps the invariant. -/
theorem Holds.step (holds : Holds cmp ops tree) {op : Op α} (stepped : step cmp tree op = some tree') :
    Holds cmp (ops ++ [op]) tree' := by
  cases op with
  | insert node =>
    rw [AvlTree.step] at stepped
    split_ifs at stepped with present
    exact holds.insert total trans present stepped
  | delete node => exact holds.delete stepped

/-- A history keeps the invariant, from any tree that keeps it. The induction
is on the history. -/
theorem Holds.run {pre ops : List (Op α)} (holds : Holds cmp pre tree)
    (ran : AvlTree.run cmp tree ops = some tree') : Holds cmp (pre ++ ops) tree' := by
  induction ops generalizing pre tree with
  | nil =>
    cases ran
    simpa using holds
  | cons op ops ih =>
    rw [run_cons] at ran
    obtain ⟨mid, stepped, rest⟩ := Option.bind_eq_some_iff.mp ran
    simpa using ih (holds.step total trans stepped) rest

/-- Every tree a history reaches from the empty tree keeps the invariant. -/
theorem run_holds (ran : run cmp empty ops = some tree) : Holds cmp ops tree := by
  simpa using holds_empty.run total trans ran

end Holds

end AvlTree

/-! ## Iteration, lookups and the order of equal nodes -/

theorem avlTree_iteration_order {β : Type _} (cmp : α → α → Bool) (total : ∀ a b, cmp a b = true ∨ cmp b a = true)
    (trans : ∀ a b c, cmp a b = true → cmp b c = true → cmp a c = true) :
    (∀ root : BinaryTree α, Ordered cmp root →
      (∀ fuel, root.numNodes ≤ fuel →
        visitNext fuel (avlTreeFirst root) = inorder root ∧
          (∀ node ∈ inorder root, (visitNext fuel (avlTreeFirst root)).count node = 1) ∧
          (visitNext fuel (avlTreeFirst root)).Pairwise (fun a b => cmp a b = true) ∧
          visitPrev fuel (avlTreeLast root) = (visitNext fuel (avlTreeFirst root)).reverse) ∧
      (∀ (cmpArg : β) (cmpFn : β → α → Bool), (∃ a, ∀ b, cmpFn cmpArg b = cmp a b) →
        avlTreeLowerBoundFn root cmpArg cmpFn = (inorder root).find? (cmpFn cmpArg)) ∧
      (∀ node, ((∃ z, avlTreeFind cmp root node = some z) ↔
          ∃ z ∈ inorder root, cmp node z = true ∧ cmp z node = true) ∧
        ∀ z, avlTreeFind cmp root node = some z → z ∈ inorder root ∧ cmp node z = true ∧ cmp z node = true)) ∧
    (∀ ops tree, AvlTree.run cmp AvlTree.empty ops = some tree →
      Ordered cmp tree.root ∧
        (inorder tree.root).Pairwise fun a b =>
          cmp b a = true → AvlTree.insertedAt ops b < AvlTree.insertedAt ops a) := by
  refine ⟨fun root ordered => ⟨fun fuel enough => ?_, ?_, fun node => ?_⟩, fun ops tree ran => ?_⟩
  · -- the walk visits the nodes in order, and they are distinct and sorted
    rw [visitNext_first root enough, visitPrev_last root enough]
    exact ⟨rfl, fun node member => List.count_eq_one_of_mem ordered.nodup member, ordered.sorted, rfl⟩
  · exact fun cmpArg cmpFn compatible => avlTreeLowerBoundFn_eq_find? trans ordered cmpArg cmpFn compatible
  · obtain ⟨found, complete⟩ := avlTreeFind_spec trans ordered node
    refine ⟨⟨fun ⟨z, is⟩ => ⟨z, found z is⟩, fun exists_ => Option.isSome_iff_exists.mp (complete exists_)⟩, found⟩
  · obtain ⟨ordered, -, newerFirst⟩ := AvlTree.run_holds total trans ran
    exact ⟨ordered, newerFirst⟩

/-- Nodes that carry a key and a tag, compared by key only: nodes with the
same key compare equal. -/
def keyCmp (a b : Nat × Nat) : Bool := decide (a.1 ≤ b.1)

theorem avlTree_iteration_order_keyCmp :
    (∀ a b, keyCmp a b = true ∨ keyCmp b a = true) ∧
      (∀ a b c, keyCmp a b = true → keyCmp b c = true → keyCmp a c = true) ∧
      ∀ tree, AvlTree.run keyCmp AvlTree.empty [.insert (1, 0), .insert (1, 1)] = some tree →
        (inorder tree.root).Pairwise fun a b => keyCmp b a = true →
          AvlTree.insertedAt [.insert (1, 0), .insert (1, 1)] b < AvlTree.insertedAt [.insert (1, 0), .insert (1, 1)] a := by
  have total : ∀ a b, keyCmp a b = true ∨ keyCmp b a = true := by
    intro a b
    simp only [keyCmp, decide_eq_true_eq]
    omega
  have trans : ∀ a b c, keyCmp a b = true → keyCmp b c = true → keyCmp a c = true := by
    intro a b c
    simp only [keyCmp, decide_eq_true_eq]
    omega
  exact ⟨total, trans, fun tree ran => ((@avlTree_iteration_order (Nat × Nat) _ Nat keyCmp total trans).2 _ tree ran).2⟩

end Gramine.Common
