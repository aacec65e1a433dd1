import Mathlib

/-!
# Tags in the low bits of aligned words

A pointer aligned to `m + 1`, for a mask `m` of low bits, has the bits of `m`
clear, so a tag whose bits all lie in `m` can be kept there: `p ||| t`.
Masking with `~~~m` gives the pointer back and masking with `m` gives the tag.
The lemmas below say so for any mask, bit by bit.
-/

namespace TaggedWord

variable {p t m : UInt64}

/-- Two words with the same bits are equal. -/
theorem eq_of_bits {a b : UInt64} (bits : ∀ i (inside : i < 64), a.toBitVec[i] = b.toBitVec[i]) :
    a = b := by
  apply UInt64.toBitVec_inj.mp
  ext i inside
  exact bits i inside

/-- Bit `i` of two words whose `&&&` is zero is set in at most one of them. -/
theorem bit_of_and_eq_zero {a b : UInt64} (clear : a &&& b = 0) (i : Nat) (inside : i < 64) :
    (a.toBitVec[i] && b.toBitVec[i]) = false := by
  have bit := congrArg (fun w : UInt64 => w.toBitVec[i]) clear
  simpa only [UInt64.toBitVec_and, BitVec.getElem_and, UInt64.toBitVec_zero,
    BitVec.getElem_zero] using bit

/-- The pointer part of a tagged word. -/
theorem or_and_not (aligned : p &&& m = 0) (small : t &&& ~~~m = 0) : (p ||| t) &&& ~~~m = p := by
  apply eq_of_bits
  intro i inside
  have p_bit := bit_of_and_eq_zero aligned i inside
  have t_bit := bit_of_and_eq_zero small i inside
  simp only [UInt64.toBitVec_and, UInt64.toBitVec_or, UInt64.toBitVec_not, BitVec.getElem_and,
    BitVec.getElem_or, BitVec.getElem_not] at t_bit ⊢
  cases p_i : p.toBitVec[i] <;> cases t_i : t.toBitVec[i] <;> cases m_i : m.toBitVec[i] <;>
    simp_all

/-- The tag part of a tagged word. -/
theorem or_and (aligned : p &&& m = 0) (small : t &&& ~~~m = 0) : (p ||| t) &&& m = t := by
  apply eq_of_bits
  intro i inside
  have p_bit := bit_of_and_eq_zero aligned i inside
  have t_bit := bit_of_and_eq_zero small i inside
  simp only [UInt64.toBitVec_and, UInt64.toBitVec_or, UInt64.toBitVec_not, BitVec.getElem_and,
    BitVec.getElem_or, BitVec.getElem_not] at t_bit ⊢
  cases p_i : p.toBitVec[i] <;> cases t_i : t.toBitVec[i] <;> cases m_i : m.toBitVec[i] <;>
    simp_all

end TaggedWord
