import Mathlib

/-!
# Ascending lists of disjoint intervals

A value `a : α` stands for the half-open interval `[lo a, hi a)` of natural
numbers. A list of such values is *ascending* when every interval ends at or
before the start of every later one: the list is then sorted by address and no
two of its intervals overlap. This is how an ordered map of address ranges
looks when it is walked in order.

An ascending list defines a partial map on points: a point is sent to what the
interval containing it says about it. Since at most one interval contains a
point, that map depends only on which intervals the list holds
(`lookup_eq_some_iff`); `lookup_congr` turns a statement about the map into
one about members. New intervals go in by `List.orderedInsert` on the right
ends, which is where a binary search tree ordered by right ends places them.
-/

namespace IntervalList

variable {α β : Type _} (lo hi : α → Nat)

/-- Every interval ends at or before the start of every later one. -/
def Ascending (l : List α) : Prop :=
  l.Pairwise fun a b => hi a ≤ lo b

/-- The interval of `a` contains the point `p`. -/
def Contains (a : α) (p : Nat) : Prop :=
  lo a ≤ p ∧ p < hi a

instance (a : α) (p : Nat) : Decidable (Contains lo hi a p) :=
  inferInstanceAs (Decidable (_ ∧ _))

/-- Two intervals share no point. -/
def Apart (a b : α) : Prop :=
  hi a ≤ lo b ∨ hi b ≤ lo a

/-- The sum of the lengths of the intervals. -/
def totalLength (l : List α) : Nat :=
  (l.map fun a => hi a - lo a).sum

/-- What the interval containing `p` says about `p`, if an interval contains it. -/
def lookup (f : α → Nat → β) (l : List α) (p : Nat) : Option β :=
  (l.find? fun a => decide (Contains lo hi a p)).map fun a => f a p

/-- Insertion by right end. -/
def insertByHi [DecidableRel fun a b : α => hi a ≤ hi b] (x : α) (l : List α) : List α :=
  l.orderedInsert (fun a b => hi a ≤ hi b) x

attribute [grind] Ascending Contains totalLength lookup insertByHi

variable {lo hi}

@[simp] theorem totalLength_nil : totalLength lo hi ([] : List α) = 0 := rfl

@[simp] theorem totalLength_cons (a : α) (l : List α) :
    totalLength lo hi (a :: l) = (hi a - lo a) + totalLength lo hi l := by
  simp [totalLength]

@[simp] theorem totalLength_append (l₁ l₂ : List α) :
    totalLength lo hi (l₁ ++ l₂) = totalLength lo hi l₁ + totalLength lo hi l₂ := by
  simp [totalLength]

theorem totalLength_perm {l₁ l₂ : List α} (h : l₁.Perm l₂) :
    totalLength lo hi l₁ = totalLength lo hi l₂ :=
  (h.map _).sum_nat

theorem Ascending.nil : Ascending lo hi ([] : List α) := List.Pairwise.nil

theorem ascending_cons {a : α} {l : List α} :
    Ascending lo hi (a :: l) ↔ (∀ b ∈ l, hi a ≤ lo b) ∧ Ascending lo hi l :=
  List.pairwise_cons

theorem ascending_append {l₁ l₂ : List α} :
    Ascending lo hi (l₁ ++ l₂) ↔
      Ascending lo hi l₁ ∧ Ascending lo hi l₂ ∧ ∀ a ∈ l₁, ∀ b ∈ l₂, hi a ≤ lo b :=
  List.pairwise_append

theorem Ascending.sublist {l₁ l₂ : List α} (h : Ascending lo hi l₂) (sub : l₁.Sublist l₂) :
    Ascending lo hi l₁ :=
  List.Pairwise.sublist sub h

/-- Replacing a stretch of an ascending list by an ascending list of pieces of
its members keeps the list ascending. -/
theorem Ascending.replace {l₁ m m' l₂ : List α} (h : Ascending lo hi (l₁ ++ m ++ l₂))
    (pieces : Ascending lo hi m') (inside : ∀ a ∈ m', ∃ b ∈ m, lo b ≤ lo a ∧ hi a ≤ hi b) :
    Ascending lo hi (l₁ ++ m' ++ l₂) := by
  obtain ⟨h₁m, h₂, cross₂⟩ := ascending_append.mp h
  obtain ⟨h₁, -, cross₁⟩ := ascending_append.mp h₁m
  refine ascending_append.mpr ⟨ascending_append.mpr ⟨h₁, pieces, ?_⟩, h₂, ?_⟩
  · intro a ha b hb
    obtain ⟨c, hc, loLe, -⟩ := inside b hb
    exact (cross₁ a ha c hc).trans loLe
  · intro a ha b hb
    rcases List.mem_append.mp ha with ha | ha
    · exact cross₂ a (List.mem_append_left _ ha) b hb
    · obtain ⟨c, hc, -, hiLe⟩ := inside a ha
      exact hiLe.trans (cross₂ c (List.mem_append_right _ hc) b hb)

/-- A map that leaves every interval where it is keeps the list ascending. -/
theorem Ascending.map {l : List α} (h : Ascending lo hi l) {f : α → α}
    (keepsLo : ∀ a, lo (f a) = lo a) (keepsHi : ∀ a, hi (f a) = hi a) :
    Ascending lo hi (l.map f) :=
  List.pairwise_map.mpr (List.Pairwise.imp (fun ab => by rwa [keepsHi, keepsLo]) h)

theorem totalLength_map {f : α → α} (keepsLo : ∀ a, lo (f a) = lo a)
    (keepsHi : ∀ a, hi (f a) = hi a) (l : List α) :
    totalLength lo hi (l.map f) = totalLength lo hi l := by
  simp [totalLength, Function.comp_def, keepsLo, keepsHi]

/-- In an ascending list, a member that passes a test passed by every interval
lying before a passing one is among the leading members that pass it. -/
theorem Ascending.mem_takeWhile {l : List α} (h : Ascending lo hi l) {P : α → Bool}
    (closed : ∀ a ∈ l, ∀ b ∈ l, hi a ≤ lo b → P b = true → P a = true) {b : α}
    (member : b ∈ l) (holds : P b = true) : b ∈ l.takeWhile P := by
  induction l with
  | nil => simp at member
  | cons a l ih =>
    obtain ⟨first, rest⟩ := ascending_cons.mp h
    rcases List.mem_cons.mp member with rfl | later
    · simp [holds]
    · have passes : P a = true :=
        closed a List.mem_cons_self b member (first b later) holds
      simp only [List.takeWhile_cons, passes]
      refine List.mem_cons_of_mem a (ih rest (fun c hc d hd => ?_) later)
      exact closed c (List.mem_cons_of_mem a hc) d (List.mem_cons_of_mem a hd)

theorem Contains.nonempty {a : α} {p : Nat} (h : Contains lo hi a p) : lo a < hi a :=
  Nat.lt_of_le_of_lt h.1 h.2

/-- At most one interval of an ascending list contains a point. -/
theorem Ascending.eq_of_contains {l : List α} (h : Ascending lo hi l) {a b : α} {p : Nat}
    (ha : a ∈ l) (hb : b ∈ l) (pa : Contains lo hi a p) (pb : Contains lo hi b p) : a = b := by
  induction l with
  | nil => simp at ha
  | cons c l ih =>
    obtain ⟨first, rest⟩ := ascending_cons.mp h
    rcases List.mem_cons.mp ha with rfl | aLater <;>
      rcases List.mem_cons.mp hb with rfl | bLater
    · rfl
    · -- `a` comes first, so it ends before `b` starts; both contain `p`
      have := first b bLater
      exact absurd (Nat.lt_of_lt_of_le pa.2 this) (Nat.not_lt.mpr pb.1)
    · have := first a aLater
      exact absurd (Nat.lt_of_lt_of_le pb.2 this) (Nat.not_lt.mpr pa.1)
    · exact ih rest aLater bLater

/-- In an ascending list the interval found for a point is the one containing it. -/
theorem Ascending.find?_eq_some_iff {l : List α} (h : Ascending lo hi l) {a : α} {p : Nat} :
    l.find? (fun b => decide (Contains lo hi b p)) = some a ↔ a ∈ l ∧ Contains lo hi a p := by
  constructor
  · intro found
    exact ⟨List.mem_of_find?_eq_some found, by simpa using List.find?_some found⟩
  · rintro ⟨member, contains⟩
    obtain ⟨b, found⟩ : ∃ b, l.find? (fun b => decide (Contains lo hi b p)) = some b :=
      Option.isSome_iff_exists.mp (List.find?_isSome.mpr ⟨a, member, decide_eq_true contains⟩)
    have hb : b ∈ l ∧ Contains lo hi b p :=
      ⟨List.mem_of_find?_eq_some found, by simpa using List.find?_some found⟩
    rw [found, h.eq_of_contains hb.1 member hb.2 contains]

/-- The map of an ascending list sends `p` to `y` exactly when some member
contains `p` and says `y` about it. -/
theorem Ascending.lookup_eq_some_iff {l : List α} (h : Ascending lo hi l) {f : α → Nat → β}
    {p : Nat} {y : β} :
    lookup lo hi f l p = some y ↔ ∃ a ∈ l, Contains lo hi a p ∧ f a p = y := by
  simp only [lookup, Option.map_eq_some_iff, h.find?_eq_some_iff, and_assoc]

/-- Two ascending lists define the same map at `p` when their members
containing `p` say the same about it. -/
theorem lookup_congr {l₁ l₂ : List α} (h₁ : Ascending lo hi l₁) (h₂ : Ascending lo hi l₂)
    {f : α → Nat → β} {p : Nat}
    (same : ∀ y, (∃ a ∈ l₁, Contains lo hi a p ∧ f a p = y) ↔
      (∃ a ∈ l₂, Contains lo hi a p ∧ f a p = y)) :
    lookup lo hi f l₁ p = lookup lo hi f l₂ p := by
  apply Option.ext
  intro y
  rw [h₁.lookup_eq_some_iff, h₂.lookup_eq_some_iff, same]

theorem lookup_eq_none_iff {l : List α} {f : α → Nat → β} {p : Nat} :
    lookup lo hi f l p = none ↔ ∀ a ∈ l, ¬ Contains lo hi a p := by
  simp [lookup]

theorem lookup_nil (f : α → Nat → β) (p : Nat) : lookup lo hi f [] p = none := rfl

theorem lookup_cons (f : α → Nat → β) (a : α) (l : List α) (p : Nat) :
    lookup lo hi f (a :: l) p = if Contains lo hi a p then some (f a p) else lookup lo hi f l p := by
  unfold lookup
  rw [List.find?_cons]
  by_cases contains : Contains lo hi a p <;> simp [contains]

theorem lookup_append (f : α → Nat → β) (l₁ l₂ : List α) (p : Nat) :
    lookup lo hi f (l₁ ++ l₂) p = (lookup lo hi f l₁ p).or (lookup lo hi f l₂ p) := by
  simp only [lookup, List.find?_append]
  cases l₁.find? fun b => decide (Contains lo hi b p) <;> rfl

/-- Replacing a stretch `m` of an ascending list by pieces of its intervals
changes the map only at the points of `m`, where it becomes the map of the
pieces. -/
theorem Ascending.lookup_replace {l₁ m m' l₂ : List α} (h : Ascending lo hi (l₁ ++ m ++ l₂))
    (inside : ∀ a ∈ m', ∃ b ∈ m, lo b ≤ lo a ∧ hi a ≤ hi b) (f : α → Nat → β) (p : Nat) :
    lookup lo hi f (l₁ ++ m' ++ l₂) p =
      if ∃ b ∈ m, Contains lo hi b p then lookup lo hi f m' p else lookup lo hi f (l₁ ++ m ++ l₂) p := by
  obtain ⟨h₁m, -, cross₂⟩ := ascending_append.mp h
  obtain ⟨-, -, cross₁⟩ := ascending_append.mp h₁m
  simp only [lookup_append]
  split_ifs with within
  · -- the intervals around the stretch end before `p` or start after it
    obtain ⟨b, member, contains⟩ := within
    have before : lookup lo hi f l₁ p = none := lookup_eq_none_iff.mpr fun a ha ca =>
      absurd (Nat.lt_of_lt_of_le ca.2 (cross₁ a ha b member)) (Nat.not_lt.mpr contains.1)
    have after : lookup lo hi f l₂ p = none := lookup_eq_none_iff.mpr fun a ha ca =>
      absurd (Nat.lt_of_lt_of_le contains.2 (cross₂ b (List.mem_append_right _ member) a ha))
        (Nat.not_lt.mpr ca.1)
    rw [before, after, Option.none_or, Option.or_none]
  · -- neither the stretch nor its pieces contain `p`
    have pieces : lookup lo hi f m' p = none := lookup_eq_none_iff.mpr fun a ha ca => by
      obtain ⟨b, member, loLe, hiLe⟩ := inside a ha
      exact within ⟨b, member, loLe.trans ca.1, Nat.lt_of_lt_of_le ca.2 hiLe⟩
    have stretch : lookup lo hi f m p = none :=
      lookup_eq_none_iff.mpr fun b member cb => within ⟨b, member, cb⟩
    rw [pieces, stretch]

/-- The map of an ascending list is `g` of the map of another at `p` when each
member of the first that contains `p` says `g` of what a member of the second
containing `p` says, and each member of the second that contains `p` has a
member of the first that contains it too. -/
theorem lookup_eq_map_of_covers {l₁ l₂ : List α} (h₁ : Ascending lo hi l₁)
    (h₂ : Ascending lo hi l₂) {f : α → Nat → β} {g : β → β} {p : Nat}
    (forth : ∀ a ∈ l₁, Contains lo hi a p → ∃ b ∈ l₂, Contains lo hi b p ∧ f a p = g (f b p))
    (back : ∀ b ∈ l₂, Contains lo hi b p → ∃ a ∈ l₁, Contains lo hi a p) :
    lookup lo hi f l₁ p = (lookup lo hi f l₂ p).map g := by
  cases found : lookup lo hi f l₂ p with
  | none =>
    -- nothing of the second contains `p`, so nothing of the first does
    refine lookup_eq_none_iff.mpr fun a member contains => ?_
    obtain ⟨b, bMember, bContains, -⟩ := forth a member contains
    exact lookup_eq_none_iff.mp found b bMember bContains
  | some y =>
    obtain ⟨b, bMember, bContains, rfl⟩ := h₂.lookup_eq_some_iff.mp found
    obtain ⟨a, aMember, aContains⟩ := back b bMember bContains
    obtain ⟨b', b'Member, b'Contains, same⟩ := forth a aMember aContains
    -- only one member of the second contains `p`
    obtain rfl : b' = b := h₂.eq_of_contains b'Member bMember b'Contains bContains
    exact h₁.lookup_eq_some_iff.mpr ⟨a, aMember, aContains, same⟩

theorem lookup_eq_of_covers {l₁ l₂ : List α} (h₁ : Ascending lo hi l₁) (h₂ : Ascending lo hi l₂)
    {f : α → Nat → β} {p : Nat}
    (forth : ∀ a ∈ l₁, Contains lo hi a p → ∃ b ∈ l₂, Contains lo hi b p ∧ f a p = f b p)
    (back : ∀ b ∈ l₂, Contains lo hi b p → ∃ a ∈ l₁, Contains lo hi a p) :
    lookup lo hi f l₁ p = lookup lo hi f l₂ p := by
  simpa using (lookup_eq_map_of_covers h₁ h₂ forth back :
    lookup lo hi f l₁ p = (lookup lo hi f l₂ p).map id)

/-! ## Covering a range

A walk over an ascending list that checks a range `[b, e)` is covered takes
the interval holding `b`, and then needs the rest of the range from that
interval's end on; `covers_cons_iff` is that step. The intervals are read
with the `lo` and `hi` of the coverage, which may end below the ones that
order the list (a mapping's valid part ends within the mapping). -/

section Covers

variable (lo hi)

/-- Every point of `[b, e)` lies in an interval of the list. -/
def Covers (l : List α) (b e : Nat) : Prop :=
  ∀ p, b ≤ p → p < e → ∃ a ∈ l, Contains lo hi a p

attribute [grind] Covers

variable {lo hi}

theorem covers_of_le {l : List α} {b e : Nat} (empty : e ≤ b) : Covers lo hi l b e :=
  fun _ above below => absurd (Nat.lt_of_lt_of_le below empty) (Nat.not_lt.mpr above)

/-- A range whose first point lies in no interval is not covered. -/
theorem not_covers_of_first {l : List α} {b e : Nat} (nonempty : b < e)
    (first : ∀ a ∈ l, ¬ Contains lo hi a b) : ¬ Covers lo hi l b e := by
  intro covers
  obtain ⟨a, member, contains⟩ := covers b le_rfl nonempty
  exact first a member contains

/-- A non-empty range below every interval is not covered. -/
theorem not_covers_of_lt_lo {l : List α} {b e : Nat} (nonempty : b < e)
    (below : ∀ a ∈ l, b < lo a) : ¬ Covers lo hi l b e :=
  not_covers_of_first nonempty fun a member contains =>
    absurd contains.1 (Nat.not_le.mpr (below a member))

theorem covers_nil_iff {b e : Nat} : Covers lo hi ([] : List α) b e ↔ e ≤ b := by
  constructor
  · intro covers
    by_contra nonempty
    exact not_covers_of_lt_lo (Nat.lt_of_not_le nonempty) (by simp) covers
  · exact covers_of_le

/-- The range from a point of the first interval on is covered when the first
interval reaches its end, or when it holds the first point and the rest cover
the range from its end on. -/
theorem covers_cons_iff {a : α} {l : List α} {b e : Nat} (start : lo a ≤ b) (nonempty : b < e)
    (later : ∀ c ∈ l, b < lo c) :
    Covers lo hi (a :: l) b e ↔ e ≤ hi a ∨ b < hi a ∧ Covers lo hi l (hi a) e := by
  constructor
  · intro covers
    by_cases reaches : e ≤ hi a
    · exact .inl reaches
    -- `b` lies in `a`, since every later interval starts above it
    have inFirst : b < hi a := by
      obtain ⟨c, member, contains⟩ := covers b le_rfl nonempty
      rcases List.mem_cons.mp member with rfl | member
      · exact contains.2
      · exact absurd contains.1 (Nat.not_le.mpr (later c member))
    refine .inr ⟨inFirst, ?_⟩
    · intro p above below
      obtain ⟨c, member, contains⟩ := covers p (by omega) below
      rcases List.mem_cons.mp member with rfl | member
      · exact absurd contains.2 (Nat.not_lt.mpr above)
      · exact ⟨c, member, contains⟩
  · intro reaches p above below
    by_cases inFirst : p < hi a
    · exact ⟨a, List.mem_cons_self, by omega, inFirst⟩
    rcases reaches with reaches | ⟨-, rest⟩
    · omega
    · obtain ⟨c, member, contains⟩ := rest p (by omega) below
      exact ⟨c, List.mem_cons_of_mem a member, contains⟩

/-- Intervals that end by `b` do not help to cover a range from `b` on. -/
theorem covers_append_left_iff {l₁ l₂ : List α} {b e : Nat} (before : ∀ a ∈ l₁, hi a ≤ b) :
    Covers lo hi (l₁ ++ l₂) b e ↔ Covers lo hi l₂ b e := by
  constructor
  · intro covers p above below
    obtain ⟨a, member, contains⟩ := covers p above below
    rcases List.mem_append.mp member with member | member
    · exact absurd contains.2 (Nat.not_lt.mpr ((before a member).trans above))
    · exact ⟨a, member, contains⟩
  · intro covers p above below
    obtain ⟨a, member, contains⟩ := covers p above below
    exact ⟨a, List.mem_append_right l₁ member, contains⟩

theorem Covers.mono {l : List α} {b e b' e' : Nat} (covers : Covers lo hi l b e)
    (lower : b ≤ b') (upper : e' ≤ e) : Covers lo hi l b' e' :=
  fun p above below => covers p (lower.trans above) (Nat.lt_of_lt_of_le below upper)

end Covers

section Insert

variable [DecidableRel fun a b : α => hi a ≤ hi b]

theorem insertByHi_perm (x : α) (l : List α) : (insertByHi hi x l).Perm (x :: l) :=
  List.perm_orderedInsert _ x l

@[simp] theorem mem_insertByHi {x a : α} {l : List α} :
    a ∈ insertByHi hi x l ↔ a = x ∨ a ∈ l :=
  List.mem_orderedInsert _

theorem totalLength_insertByHi (x : α) (l : List α) :
    totalLength lo hi (insertByHi hi x l) = (hi x - lo x) + totalLength lo hi l := by
  rw [totalLength_perm (insertByHi_perm x l), totalLength_cons]

/-- A non-empty interval apart from every member keeps an ascending list of
non-empty intervals ascending when it goes in by its right end. -/
theorem Ascending.insertByHi {l : List α} (h : Ascending lo hi l)
    (members : ∀ a ∈ l, lo a < hi a) {x : α} (nonempty : lo x < hi x)
    (apart : ∀ a ∈ l, Apart lo hi a x) :
    Ascending lo hi (insertByHi hi x l) := by
  induction l with
  | nil => simp [IntervalList.insertByHi, Ascending]
  | cons b l ih =>
    obtain ⟨first, rest⟩ := ascending_cons.mp h
    have bNonempty := members b List.mem_cons_self
    simp only [IntervalList.insertByHi, List.orderedInsert_cons]
    split_ifs with before
    · -- `x` ends no later than `b`, so it lies wholly before `b` and all that follows
      have xb : hi x ≤ lo b := by
        rcases apart b List.mem_cons_self with hb | hb
        · omega
        · exact hb
      refine ascending_cons.mpr ⟨?_, h⟩
      intro a ha
      rcases List.mem_cons.mp ha with rfl | later
      · exact xb
      · have := first a later
        omega
    · -- `b` ends before `x` does, so `b` lies wholly before `x`
      have bx : hi b ≤ lo x := by
        rcases apart b List.mem_cons_self with hb | hb
        · exact hb
        · omega
      refine ascending_cons.mpr ⟨?_, ih rest (fun a ha => members a (List.mem_cons_of_mem b ha))
        (fun a ha => apart a (List.mem_cons_of_mem b ha))⟩
      intro a ha
      rcases (List.mem_orderedInsert _).mp ha with rfl | later
      · exact bx
      · exact first a later

/-- The map after an insertion is the inserted interval's on its points, and
the list's elsewhere. -/
theorem Ascending.lookup_insertByHi {l : List α} (h : Ascending lo hi l)
    (members : ∀ a ∈ l, lo a < hi a) {x : α} (nonempty : lo x < hi x)
    (apart : ∀ a ∈ l, Apart lo hi a x) {f : α → Nat → β} {p : Nat} :
    lookup lo hi f (IntervalList.insertByHi hi x l) p =
      if Contains lo hi x p then some (f x p) else lookup lo hi f l p := by
  have inserted := h.insertByHi members nonempty apart
  split_ifs with contains
  · exact inserted.lookup_eq_some_iff.mpr ⟨x, mem_insertByHi.mpr (.inl rfl), contains, rfl⟩
  · refine lookup_eq_of_covers inserted h (fun a member aContains => ?_)
      (fun b member bContains => ⟨b, mem_insertByHi.mpr (.inr member), bContains⟩)
    rcases mem_insertByHi.mp member with rfl | member
    · exact absurd aContains contains
    · exact ⟨a, member, aContains, rfl⟩

/-- Inserting by right end after intervals that end earlier. -/
theorem insertByHi_append_of_lt {x : α} {l₁ l₂ : List α} (before : ∀ a ∈ l₁, hi a < hi x) :
    insertByHi hi x (l₁ ++ l₂) = l₁ ++ insertByHi hi x l₂ := by
  induction l₁ with
  | nil => rfl
  | cons a l₁ ih =>
    have later : ¬ hi x ≤ hi a := Nat.not_le.mpr (before a List.mem_cons_self)
    simp only [IntervalList.insertByHi, List.cons_append, List.orderedInsert_cons, later,
      if_false] at ih ⊢
    rw [ih fun b hb => before b (List.mem_cons_of_mem a hb)]

theorem insertByHi_cons_of_le {x a : α} {l : List α} (before : hi x ≤ hi a) :
    insertByHi hi x (a :: l) = x :: a :: l := by
  simp [IntervalList.insertByHi, before]

end Insert

end IntervalList
