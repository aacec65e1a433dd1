import Mathlib

/-!
# Grouped numbering

Slots numbered from `0` are cut into groups of `n + 1`: the first slot of each
group holds a header and the other `n` hold items. Item `d` belongs to group
`d / n`; header `k` opens group `k`. This is the layout of any file that puts
an index block before every `n` data blocks.

The two numberings are injective, they never meet, and together they cover
every slot, so slots, headers and items are in bijection as the layout
promises.
-/

namespace GroupedLayout

variable (n : Nat)

/-- The slot of item `d`: the `d` items and `d / n + 1` headers before it. -/
def itemSlot (d : Nat) : Nat := d + d / n + 1

/-- The slot of header `k`: the `k` whole groups before it. -/
def headerSlot (k : Nat) : Nat := k * (n + 1)

variable {n}

/-- Item `d` is item `d % n` after the header of its group. -/
theorem itemSlot_eq_headerSlot (d : Nat) :
    itemSlot n d = headerSlot n (d / n) + d % n + 1 := by
  have split := Nat.div_add_mod d n
  unfold itemSlot headerSlot
  rw [Nat.mul_succ, Nat.mul_comm]
  omega

theorem headerSlot_lt_itemSlot (d : Nat) : headerSlot n (d / n) < itemSlot n d := by
  rw [itemSlot_eq_headerSlot]
  omega

theorem itemSlot_le_headerSlot_add (positive : 0 < n) (d : Nat) :
    itemSlot n d ≤ headerSlot n (d / n) + n := by
  have remainder := Nat.mod_lt d positive
  rw [itemSlot_eq_headerSlot]
  omega

theorem headerSlot_succ (k : Nat) : headerSlot n (k + 1) = headerSlot n k + (n + 1) := by
  unfold headerSlot
  rw [Nat.succ_mul]

theorem itemSlot_strictMono : StrictMono (itemSlot n) := by
  intro d d' before
  have groups : d / n ≤ d' / n := Nat.div_le_div_right before.le
  unfold itemSlot
  omega

theorem itemSlot_injective : Function.Injective (itemSlot n) :=
  itemSlot_strictMono.injective

/-- No item sits in a header's slot: a header before the item's group ends
before its header, and one after it starts after the group's last slot. -/
theorem itemSlot_ne_headerSlot (positive : 0 < n) (d k : Nat) :
    itemSlot n d ≠ headerSlot n k := by
  intro same
  have inside := itemSlot_le_headerSlot_add positive d
  have after := headerSlot_lt_itemSlot (n := n) d
  rcases Nat.lt_or_ge k (d / n + 1) with earlier | later
  · have : headerSlot n k ≤ headerSlot n (d / n) :=
      Nat.mul_le_mul_right _ (Nat.le_of_lt_succ earlier)
    omega
  · have : headerSlot n (d / n + 1) ≤ headerSlot n k := Nat.mul_le_mul_right _ later
    rw [headerSlot_succ] at this
    omega

/-- Every slot holds a header or an item. -/
theorem headerSlot_or_itemSlot (s : Nat) :
    (∃ k, s = headerSlot n k) ∨ ∃ d, s = itemSlot n d := by
  have split := Nat.div_add_mod s (n + 1)
  rcases Nat.eq_zero_or_pos (s % (n + 1)) with first | later
  · left
    refine ⟨s / (n + 1), ?_⟩
    unfold headerSlot
    rw [Nat.mul_comm]
    omega
  · right
    -- the slot is item `s % (n + 1) - 1` of group `s / (n + 1)`
    have below : s % (n + 1) - 1 < n := by
      have : s % (n + 1) < n + 1 := Nat.mod_lt s (Nat.succ_pos n)
      omega
    refine ⟨n * (s / (n + 1)) + (s % (n + 1) - 1), ?_⟩
    have group : (n * (s / (n + 1)) + (s % (n + 1) - 1)) / n = s / (n + 1) := by
      rw [Nat.mul_add_div (by omega), Nat.div_eq_of_lt below, Nat.add_zero]
    rw [itemSlot, group]
    rw [Nat.add_mul, Nat.one_mul] at split
    omega

end GroupedLayout
