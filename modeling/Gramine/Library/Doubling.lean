import Mathlib

/-!
# Growing a size by doubling

A buffer or a table that must hold `target` elements doubles its size until it
does, and gives up when a doubling overflows an unsigned integer of `width`
bits (`__builtin_mul_overflow`). The result holds `target`, is no smaller than
the start, and fits the integer.
-/

namespace Doubling

/-- Double `size` until it reaches `target`; `none` when a doubling overflows
`width` bits. -/
def grow (width size target : Nat) (positive : 0 < size) : Option Nat :=
  if size < target then
    if 2 ^ width ≤ size * 2 then none
    else grow width (size * 2) target (by omega)
  else some size
termination_by target - size

attribute [grind] grow

theorem grow_of_le {width size target : Nat} (positive : 0 < size) (holds : target ≤ size) :
    grow width size target positive = some size := by
  rw [grow, if_neg (by omega)]

/-- The size the loop ends at holds `target` and is no smaller than where it
started; it fits `width` bits when the start does. -/
theorem grow_spec {width size target result : Nat} {positive : 0 < size}
    (h : grow width size target positive = some result) :
    target ≤ result ∧ size ≤ result ∧ (size < 2 ^ width → result < 2 ^ width) := by
  induction size, positive using grow.induct width target with
  | case1 size positive below overflow =>
    rw [grow, if_pos below, if_pos overflow] at h
    cases h
  | case2 size positive below fits ih =>
    rw [grow, if_pos below, if_neg fits] at h
    have := ih h
    omega
  | case3 size positive holds =>
    rw [grow, if_neg holds] at h
    cases h
    omega

end Doubling
