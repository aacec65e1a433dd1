import Mathlib

/-!
# Binary search trees walked by a comparison

An intrusive search tree in C (an AVL tree, say) is ordered by a comparison
`cmp a b` that the caller supplies, meant as `a ≤ b`. Insertion walks down
from the root and goes left at every node the new one compares `≤` to; a
lower-bound lookup walks down the same way and remembers the last node it
went left at; a lookup for an equal node stops at the first node that compares
`≤` both ways. Rebalancing rotates subtrees, which changes the tree's shape but
not the sequence of its nodes in order.

Here a tree is a `BinaryTree` and the walks are written over it. Nothing
forces the comparison to be an order: what each walk returns is stated
against the in-order sequence of the tree, under the condition that makes the
walk meaningful there. A test that is *rising* along the sequence (once true,
true for every later node) splits it into a false part and a true part;
insertion then lands between the two (`inorder_insert`), and the lower bound
is the first node of the true part (`lowerBound_eq_find?`). These hold for
every shape with the given sequence, so rotations can be left out.
-/

namespace SearchTree

variable {α : Type _}

/-- The nodes of a tree in order: the left subtree, the node, the right
subtree. -/
def inorder : BinaryTree α → List α
  | .nil => []
  | .node x l r => inorder l ++ x :: inorder r

@[simp] theorem inorder_nil : inorder (.nil : BinaryTree α) = [] := rfl

@[simp] theorem inorder_node (x : α) (l r : BinaryTree α) :
    inorder (.node x l r) = inorder l ++ x :: inorder r := rfl

/-- A test that, once true along the list, stays true. -/
def Rising (p : α → Bool) (l : List α) : Prop :=
  l.Pairwise fun a b => p a = true → p b = true

/-- A test that, once false along the list, stays false. -/
def Falling (p : α → Bool) (l : List α) : Prop :=
  l.Pairwise fun a b => p b = true → p a = true

/-! ## The walks -/

/-- Insertion: the new node goes left of every node `le x` holds of. -/
def insert (le : α → α → Bool) (x : α) : BinaryTree α → BinaryTree α
  | .nil => .node x .nil .nil
  | .node y l r => if le x y then .node y (insert le x l) r else .node y l (insert le x r)

/-- The lower bound for a test: the last node on the way down at which the
test held, going left there and right elsewhere. -/
def lowerBound (p : α → Bool) : BinaryTree α → Option α
  | .nil => none
  | .node y l r => if p y then (lowerBound p l).or (some y) else lowerBound p r

/-- The lookup for an equal node: `p` is the comparison of the argument with
a node, `q` that of a node with the argument. -/
def find (p q : α → Bool) : BinaryTree α → Option α
  | .nil => none
  | .node y l r => if p y then (if q y then some y else find p q l) else find p q r

/-- The nodes from `z` on, in order: where a walk that steps to each next
node goes, starting at `z`. -/
def suffixFrom [DecidableEq α] (t : BinaryTree α) : Option α → List α
  | none => []
  | some z => (inorder t).dropWhile (· ≠ z)

/-- Two trees, the nodes of the first before those of the second. -/
def glue : BinaryTree α → BinaryTree α → BinaryTree α
  | .nil, r => r
  | .node y l r', r => .node y l (glue r' r)

/-- Deletion of the node `x`: its first occurrence in order. -/
def eraseNode [DecidableEq α] (x : α) : BinaryTree α → BinaryTree α
  | .nil => .nil
  | .node y l r =>
    if x ∈ inorder l then .node y (eraseNode x l) r
    else if y = x then glue l r
    else .node y l (eraseNode x r)

/-! ## Rising and falling tests -/

section Tests

variable {p : α → Bool}

theorem Rising.append_iff {l₁ l₂ : List α} :
    Rising p (l₁ ++ l₂) ↔ Rising p l₁ ∧ Rising p l₂ ∧ ∀ a ∈ l₁, ∀ b ∈ l₂, p a = true → p b = true :=
  List.pairwise_append

theorem Rising.cons_iff {a : α} {l : List α} :
    Rising p (a :: l) ↔ (∀ b ∈ l, p a = true → p b = true) ∧ Rising p l :=
  List.pairwise_cons

theorem Falling.append_iff {l₁ l₂ : List α} :
    Falling p (l₁ ++ l₂) ↔ Falling p l₁ ∧ Falling p l₂ ∧ ∀ a ∈ l₁, ∀ b ∈ l₂, p b = true → p a = true :=
  List.pairwise_append

theorem Falling.cons_iff {a : α} {l : List α} :
    Falling p (a :: l) ↔ (∀ b ∈ l, p b = true → p a = true) ∧ Falling p l :=
  List.pairwise_cons

/-- Along a list a rising test holds of, a node it holds of has it hold of
every later node, and one it fails at has it fail at every earlier node. -/
theorem Rising.split {l₁ l₂ : List α} {y : α} (rising : Rising p (l₁ ++ y :: l₂)) :
    (p y = true → ∀ b ∈ l₂, p b = true) ∧ (p y = false → ∀ a ∈ l₁, p a = false) := by
  obtain ⟨-, right, across⟩ := Rising.append_iff.mp rising
  obtain ⟨after, -⟩ := Rising.cons_iff.mp right
  refine ⟨fun holds b member => after b member holds, fun fails a member => ?_⟩
  cases held : p a
  · rfl
  · rw [across a member y List.mem_cons_self held] at fails
    cases fails

theorem Falling.split {l₁ l₂ : List α} {y : α} (falling : Falling p (l₁ ++ y :: l₂)) :
    (p y = true → ∀ a ∈ l₁, p a = true) ∧ (p y = false → ∀ b ∈ l₂, p b = false) := by
  obtain ⟨-, right, across⟩ := Falling.append_iff.mp falling
  obtain ⟨after, -⟩ := Falling.cons_iff.mp right
  refine ⟨fun holds a member => across a member y List.mem_cons_self holds, fun fails b member => ?_⟩
  cases held : p b
  · rfl
  · rw [after b member held] at fails
    cases fails

/-- Along a list sorted by a transitive `le`, the test `le x` rises. -/
theorem Rising.of_sorted {le : α → α → Bool} (trans : ∀ a b c, le a b = true → le b c = true → le a c = true)
    {l : List α} (sorted : l.Pairwise fun a b => le a b = true) (x : α) : Rising (le x) l :=
  sorted.imp fun {a b} below holds => trans x a b holds below

/-- Along a list sorted by a transitive `le`, the test `le · x` falls. -/
theorem Falling.of_sorted {le : α → α → Bool} (trans : ∀ a b c, le a b = true → le b c = true → le a c = true)
    {l : List α} (sorted : l.Pairwise fun a b => le a b = true) (x : α) : Falling (fun y => le y x) l :=
  sorted.imp fun {a b} below holds => trans a b x below holds

/-- A test that fails along one part of a list and holds along the rest
rises. -/
theorem Rising.of_between {l₁ l₂ : List α} (fails : ∀ a ∈ l₁, p a = false) (passes : ∀ b ∈ l₂, p b = true) :
    Rising p (l₁ ++ l₂) := by
  refine Rising.append_iff.mpr ⟨?_, ?_, fun _ _ b member _ => passes b member⟩
  · exact List.Pairwise.imp_of_mem (fun {a _} member _ _ holds => by simp [fails a member] at holds)
      (List.pairwise_of_forall fun _ _ => trivial)
  · exact List.Pairwise.imp_of_mem (fun {_ b} _ member _ _ => passes b member)
      (List.pairwise_of_forall fun _ _ => trivial)

end Tests

/-! ## Insertion -/

section Insert

variable (le : α → α → Bool)

theorem orderedInsert_append_of_not {x : α} :
    ∀ {l₁ : List α} (l₂ : List α), (∀ a ∈ l₁, le x a = false) →
      (l₁ ++ l₂).orderedInsert (fun a b => le a b = true) x = l₁ ++ l₂.orderedInsert (fun a b => le a b = true) x
  | [], _, _ => rfl
  | a :: l₁, l₂, before => by
    have notHere : ¬ le x a = true := by simp [before a List.mem_cons_self]
    rw [List.cons_append, List.orderedInsert_cons, if_neg notHere,
      orderedInsert_append_of_not l₂ fun b member => before b (List.mem_cons_of_mem a member)]
    rfl

theorem orderedInsert_append_cons_of {x y : α} (l₂ : List α) (here : le x y = true) :
    ∀ l₁ : List α, (l₁ ++ y :: l₂).orderedInsert (fun a b => le a b = true) x =
      l₁.orderedInsert (fun a b => le a b = true) x ++ y :: l₂
  | [] => by rw [List.nil_append, List.orderedInsert_cons, if_pos here]; rfl
  | a :: l₁ => by
    rw [List.cons_append, List.orderedInsert_cons, List.orderedInsert_cons]
    split_ifs
    · rfl
    · rw [orderedInsert_append_cons_of l₂ here l₁]
      rfl

theorem orderedInsert_of_forall {x : α} : ∀ {l : List α}, (∀ b ∈ l, le x b = true) →
    l.orderedInsert (fun a b => le a b = true) x = x :: l
  | [], _ => rfl
  | b :: l, passes => by rw [List.orderedInsert_cons, if_pos (passes b List.mem_cons_self)]

/-- Insertion puts the new node in front of the first node `le x` holds of,
when that test rises along the nodes. -/
theorem inorder_insert (x : α) :
    ∀ {t : BinaryTree α}, Rising (le x) (inorder t) →
      inorder (insert le x t) = (inorder t).orderedInsert (fun a b => le a b = true) x
  | .nil, _ => rfl
  | .node y l r, rising => by
    obtain ⟨-, before⟩ := Rising.split rising
    obtain ⟨leftRising, rightRising, -⟩ := Rising.append_iff.mp rising
    obtain ⟨-, rightRising⟩ := Rising.cons_iff.mp rightRising
    cases here : le x y
    · -- every node left of `y` fails the test as well: the walk goes right
      simp only [insert, here, Bool.false_eq_true, if_false, inorder_node]
      rw [orderedInsert_append_of_not le _ (before here), List.orderedInsert_cons, if_neg (by simp [here]),
        inorder_insert x rightRising]
    · -- the new node ends in front of `y` at the latest
      simp only [insert, here, if_true, inorder_node]
      rw [inorder_insert x leftRising, orderedInsert_append_cons_of le _ here]

/-- Where the test `le x` fails along the nodes before a point and holds
along those after it, insertion puts the new node at that point. -/
theorem inorder_insert_between {x : α} {t : BinaryTree α} {l₁ l₂ : List α} (split : inorder t = l₁ ++ l₂)
    (fails : ∀ a ∈ l₁, le x a = false) (passes : ∀ b ∈ l₂, le x b = true) :
    inorder (insert le x t) = l₁ ++ x :: l₂ := by
  rw [inorder_insert le x (split ▸ Rising.of_between fails passes), split,
    orderedInsert_append_of_not le _ fails, orderedInsert_of_forall le passes]

end Insert

/-! ## Lookups -/

section Lookup

variable {p q : α → Bool}

/-- The lower bound for a rising test is the first node in order it holds of. -/
theorem lowerBound_eq_find? : ∀ {t : BinaryTree α}, Rising p (inorder t) → lowerBound p t = (inorder t).find? p
  | .nil, _ => rfl
  | .node y l r, rising => by
    obtain ⟨-, before⟩ := Rising.split rising
    obtain ⟨leftRising, rightRising, -⟩ := Rising.append_iff.mp rising
    obtain ⟨-, rightRising⟩ := Rising.cons_iff.mp rightRising
    have noneLeft : ∀ fails : p y = false, (inorder l).find? p = none := fun fails =>
      List.find?_eq_none.mpr fun a member => by simp [before fails a member]
    cases here : p y
    · -- nothing left of `y` passes: the walk goes right
      simp only [lowerBound, here, Bool.false_eq_true, if_false, inorder_node]
      rw [lowerBound_eq_find? rightRising, List.find?_append, noneLeft here, List.find?_cons, here]
      rfl
    · simp only [lowerBound, here, if_true, inorder_node]
      rw [lowerBound_eq_find? leftRising, List.find?_append, List.find?_cons, here]

/-- Where the test fails along the nodes before a point and holds along those
after it, the lower bound is the node at that point. -/
theorem lowerBound_between {t : BinaryTree α} {l₁ l₂ : List α} (split : inorder t = l₁ ++ l₂)
    (fails : ∀ a ∈ l₁, p a = false) (passes : ∀ b ∈ l₂, p b = true) : lowerBound p t = l₂.head? := by
  rw [lowerBound_eq_find? (split ▸ Rising.of_between fails passes), split, List.find?_append,
    List.find?_eq_none.mpr fun a member => by simp [fails a member]]
  cases l₂ with
  | nil => rfl
  | cons b l₂ => simp [passes b List.mem_cons_self]

/-- What the lookup for an equal node returns is a node both comparisons hold
of. -/
theorem find_spec : ∀ {t : BinaryTree α} {z : α}, find p q t = some z → z ∈ inorder t ∧ p z = true ∧ q z = true
  | .nil, _, found => by cases found
  | .node y l r, z, found => by
    simp only [find] at found
    split_ifs at found with passes equal
    · cases found
      exact ⟨by simp, passes, equal⟩
    · obtain ⟨member, spec⟩ := find_spec found
      exact ⟨by simp [member], spec⟩
    · obtain ⟨member, spec⟩ := find_spec found
      exact ⟨by simp [member], spec⟩

/-- With `p` rising and `q` falling along the nodes, the lookup finds a node
both hold of whenever there is one. -/
theorem find_isSome : ∀ {t : BinaryTree α}, Rising p (inorder t) → Falling q (inorder t) →
    (∃ z ∈ inorder t, p z = true ∧ q z = true) → (find p q t).isSome
  | .nil, _, _, ⟨_, member, _⟩ => absurd member List.not_mem_nil
  | .node y l r, rising, falling, ⟨z, member, passes, equal⟩ => by
    obtain ⟨-, before⟩ := Rising.split rising
    obtain ⟨-, after⟩ := Falling.split falling
    obtain ⟨leftRising, rightRising, -⟩ := Rising.append_iff.mp rising
    obtain ⟨-, rightRising⟩ := Rising.cons_iff.mp rightRising
    obtain ⟨leftFalling, rightFalling, -⟩ := Falling.append_iff.mp falling
    obtain ⟨-, rightFalling⟩ := Falling.cons_iff.mp rightFalling
    simp only [inorder_node, List.mem_append, List.mem_cons] at member
    simp only [find]
    split_ifs with here equalHere
    · rfl
    · -- `q` fails at `y` and so right of it: the node is on the left
      have left : z ∈ inorder l := by
        rcases member with left | rfl | right
        · exact left
        · exact absurd equal equalHere
        · have := after (by simpa using equalHere) z right
          simp [this] at equal
      exact find_isSome leftRising leftFalling ⟨z, left, passes, equal⟩
    · -- `p` fails at `y` and so left of it: the node is on the right
      have right : z ∈ inorder r := by
        rcases member with left | rfl | right
        · have := before (by simpa using here) z left
          simp [this] at passes
        · exact absurd passes here
        · exact right
      exact find_isSome rightRising rightFalling ⟨z, right, passes, equal⟩

end Lookup

/-! ## Changing the nodes -/

theorem inorder_glue : ∀ l r : BinaryTree α, inorder (glue l r) = inorder l ++ inorder r
  | .nil, _ => rfl
  | .node y l r', r => by simp [glue, inorder_glue r' r]

/-- Deletion removes the node from the sequence. -/
theorem inorder_eraseNode [DecidableEq α] (x : α) : ∀ t : BinaryTree α, inorder (eraseNode x t) = (inorder t).erase x
  | .nil => rfl
  | .node y l r => by
    simp only [eraseNode, inorder_node]
    split_ifs with left here
    · rw [inorder_node, inorder_eraseNode x l, List.erase_append_left _ left]
    · rw [inorder_glue, List.erase_append_right _ left, here, List.erase_cons_head]
    · rw [inorder_node, inorder_eraseNode x r, List.erase_append_right _ left,
        List.erase_cons_tail (by simpa using here)]

/-- A change made to nodes where they stand. -/
theorem inorder_map {β : Type _} (f : α → β) : ∀ t : BinaryTree α, inorder (t.map f) = (inorder t).map f
  | .nil => rfl
  | .node y l r => by simp [BinaryTree.map, inorder_map f l, inorder_map f r]

end SearchTree
