import Mathlib

/-!
# Sorting a range of an array in place

An array of `n` elements is a function on `Fin n`. A sort that works in place
on the range `[low, high]` may only move the elements of that range among
themselves: the array it leaves is the old one composed with a permutation of
the indices that fixes every index outside the range. It must also leave the
range sorted by a key.

This module states both and gives what a divide-and-conquer sort needs:
permutations within a range compose, widen with the range, leave the rest of
the array alone and keep whatever holds of every element in the range; and
two sorted halves, one below a pivot and one above it, join into a sorted
range.
-/

namespace SortedRange

variable {α β : Type} {n : Nat}

/-- Index `k` lies in the range `[low, high]`. -/
def Within (low high : Nat) (k : Fin n) : Prop := low ≤ k.val ∧ k.val ≤ high

/-- `after` is `before` with only the elements of `[low, high]` moved among
themselves. -/
def PermutedWithin (low high : Nat) (before after : Fin n → α) : Prop :=
  ∃ σ : Equiv.Perm (Fin n), (∀ k, ¬ Within low high k → σ k = k) ∧ ∀ k, after k = before (σ k)

/-- The keys of `data` do not decrease along `[low, high]`. -/
def SortedWithin [Preorder β] (key : α → β) (low high : Nat) (data : Fin n → α) : Prop :=
  ∀ a b : Fin n, low ≤ a.val → a ≤ b → b.val ≤ high → key (data a) ≤ key (data b)

variable {low high : Nat}

/-- A permutation that fixes every index outside the range maps the range into
itself: an index it sent outside would be fixed, and so would its preimage. -/
theorem within_of_fixes {σ : Equiv.Perm (Fin n)} (fixes : ∀ k, ¬ Within low high k → σ k = k)
    {k : Fin n} (inside : Within low high k) : Within low high (σ k) := by
  by_contra outside
  have same : σ k = k := σ.injective (fixes _ outside)
  rw [same] at outside
  exact outside inside

namespace PermutedWithin

variable {before middle after : Fin n → α}

theorem refl (data : Fin n → α) : PermutedWithin low high data data :=
  ⟨Equiv.refl _, fun _ _ => rfl, fun _ => rfl⟩

theorem trans (first : PermutedWithin low high before middle)
    (second : PermutedWithin low high middle after) : PermutedWithin low high before after := by
  obtain ⟨σ, σ_fixes, σ_moves⟩ := first
  obtain ⟨τ, τ_fixes, τ_moves⟩ := second
  refine ⟨τ.trans σ, fun k outside => ?_, fun k => ?_⟩
  · rw [Equiv.trans_apply, τ_fixes k outside, σ_fixes k outside]
  · rw [τ_moves, σ_moves, Equiv.trans_apply]

/-- Exchanging two elements of the range. -/
theorem swap {i j : Fin n} (i_within : Within low high i) (j_within : Within low high j)
    (data : Fin n → α) : PermutedWithin low high data (data ∘ Equiv.swap i j) := by
  refine ⟨Equiv.swap i j, fun k outside => ?_, fun _ => rfl⟩
  apply Equiv.swap_apply_of_ne_of_ne
  · rintro rfl
    exact outside i_within
  · rintro rfl
    exact outside j_within

theorem widen {low' high' : Nat} (lower : low' ≤ low) (upper : high ≤ high')
    (moved : PermutedWithin low high before after) : PermutedWithin low' high' before after := by
  obtain ⟨σ, fixes, moves⟩ := moved
  refine ⟨σ, fun k outside => fixes k ?_, moves⟩
  rintro ⟨above, below⟩
  exact outside ⟨Nat.le_trans lower above, Nat.le_trans below upper⟩

/-- The elements outside the range stay where they were. -/
theorem eq_of_not_within (moved : PermutedWithin low high before after) {k : Fin n}
    (outside : ¬ Within low high k) : after k = before k := by
  obtain ⟨σ, fixes, moves⟩ := moved
  rw [moves, fixes k outside]

/-- What holds of every element of the range still holds once they are moved. -/
theorem forall_within (moved : PermutedWithin low high before after) (p : α → Prop)
    (all : ∀ k, Within low high k → p (before k)) : ∀ k, Within low high k → p (after k) := by
  obtain ⟨σ, fixes, moves⟩ := moved
  intro k inside
  rw [moves]
  exact all _ (within_of_fixes fixes inside)

end PermutedWithin

namespace SortedWithin

variable [Preorder β] {key : α → β} {data data' : Fin n → α}

/-- A range of at most one element is sorted. -/
theorem of_le (short : high ≤ low) : SortedWithin key low high data := by
  intro a b low_a a_b b_high
  have same : a = b := Fin.ext (by omega)
  rw [same]

/-- Two adjacent elements in order are a sorted range. -/
theorem pair (lowNode highNode : Fin n) (at_low : lowNode.val = low)
    (at_high : highNode.val = high) (adjacent : high = low + 1)
    (ordered : key (data lowNode) ≤ key (data highNode)) : SortedWithin key low high data := by
  intro a b low_a a_b b_high
  rcases Nat.lt_or_ge a.val b.val with before | same
  · have a_low : a = lowNode := Fin.ext (by omega)
    have b_high : b = highNode := Fin.ext (by omega)
    rw [a_low, b_high]
    exact ordered
  · have same : a = b := Fin.ext (Nat.le_antisymm a_b same)
    rw [same]

/-- Sortedness of a range only reads the elements in it. -/
theorem congr (sorted : SortedWithin key low high data)
    (agree : ∀ k, Within low high k → data' k = data k) : SortedWithin key low high data' := by
  intro a b low_a a_b b_high
  rw [agree a ⟨low_a, Nat.le_trans a_b b_high⟩, agree b ⟨Nat.le_trans low_a a_b, b_high⟩]
  exact sorted a b low_a a_b b_high

/-- A sorted range `[low, mid]` below a pivot and a sorted range
`[mid + 1, high]` above it make a sorted range `[low, high]`. -/
theorem join {mid : Nat} {pivot : β} (left : SortedWithin key low mid data)
    (right : SortedWithin key (mid + 1) high data)
    (small : ∀ k, Within low mid k → key (data k) ≤ pivot)
    (large : ∀ k, Within (mid + 1) high k → pivot ≤ key (data k)) :
    SortedWithin key low high data := by
  intro a b low_a a_b b_high
  rcases Nat.lt_or_ge mid a.val with a_right | a_left
  · exact right a b a_right a_b b_high
  · rcases Nat.lt_or_ge mid b.val with b_right | b_left
    · exact le_trans (small a ⟨low_a, a_left⟩) (large b ⟨b_right, b_high⟩)
    · exact left a b low_a a_b b_left

end SortedWithin

end SortedRange
