import Mathlib
/-!
# Bits of a mask

Flag words are sixteen-bit masks combined with `|||` and `&&&`. `Within a b`
says every bit of `a` is a bit of `b`, the relation C code tests as
`(a | b) == b`. The lemmas below say how it passes through the operations that
build flag words, so that a bound on a word built from several pieces follows
from a bound on each piece.
-/

namespace BitMask

/-- Every bit of `a` is a bit of `b`. -/
def Within (a b : UInt16) : Prop :=
  a ||| b = b

instance (a b : UInt16) : Decidable (Within a b) :=
  inferInstanceAs (Decidable (a ||| b = b))

variable {a b c m : UInt16}

@[simp] theorem within_refl (a : UInt16) : Within a a :=
  UInt16.or_self

@[simp] theorem within_zero (a : UInt16) : Within 0 a :=
  UInt16.zero_or

theorem Within.trans (first : Within a b) (second : Within b c) : Within a c := by
  unfold Within at *
  rw [← second, ← UInt16.or_assoc, first]

theorem within_or (left : Within a c) (right : Within b c) : Within (a ||| b) c := by
  unfold Within at *
  rw [UInt16.or_assoc, right, left]

theorem within_or_left (a b : UInt16) : Within a (a ||| b) := by
  unfold Within
  rw [← UInt16.or_assoc, UInt16.or_self]

theorem within_or_right (a b : UInt16) : Within b (a ||| b) := by
  rw [UInt16.or_comm]
  exact within_or_left b a

theorem within_and_left (a m : UInt16) : Within (a &&& m) a := by
  apply UInt16.toBitVec_inj.1
  ext i
  simp +contextual

/-- A piece that is there only when a condition holds. -/
theorem within_ite {p : Prop} [Decidable p] (piece : Within a b) : Within (if p then a else 0) b := by
  split
  · exact piece
  · exact within_zero b

/-! ## Thirty-two-bit words

The same relation for `uint32_t` masks, such as epoll's event words. -/

/-- Every bit of `a` is a bit of `b`, for thirty-two-bit words. -/
def Within32 (a b : UInt32) : Prop :=
  a ||| b = b

instance (a b : UInt32) : Decidable (Within32 a b) :=
  inferInstanceAs (Decidable (a ||| b = b))

section Within32

variable {a b c : UInt32}

@[simp] theorem within32_refl (a : UInt32) : Within32 a a :=
  UInt32.or_self

@[simp] theorem within32_zero (a : UInt32) : Within32 0 a :=
  UInt32.zero_or

theorem Within32.trans (first : Within32 a b) (second : Within32 b c) : Within32 a c := by
  unfold Within32 at *
  rw [← second, ← UInt32.or_assoc, first]

theorem within32_or (left : Within32 a c) (right : Within32 b c) : Within32 (a ||| b) c := by
  unfold Within32 at *
  rw [UInt32.or_assoc, right, left]

theorem within32_or_left (a b : UInt32) : Within32 a (a ||| b) := by
  unfold Within32
  rw [← UInt32.or_assoc, UInt32.or_self]

theorem within32_or_right (a b : UInt32) : Within32 b (a ||| b) := by
  rw [UInt32.or_comm]
  exact within32_or_left b a

theorem within32_and_left (a m : UInt32) : Within32 (a &&& m) a := by
  apply UInt32.toBitVec_inj.1
  ext i
  simp +contextual

theorem within32_and_right (a m : UInt32) : Within32 (a &&& m) m := by
  rw [UInt32.and_comm]
  exact within32_and_left m a

theorem within32_ite {p : Prop} [Decidable p] (piece : Within32 a b) : Within32 (if p then a else 0) b := by
  split
  · exact piece
  · exact within32_zero b

/-- A word within `b` shares no bit with a mask that `b` misses. -/
theorem Within32.and_eq_zero {m : UInt32} (within : Within32 a b) (missing : b &&& m = 0) : a &&& m = 0 := by
  unfold Within32 at within
  apply UInt32.toBitVec_inj.1
  have bits := congrArg UInt32.toBitVec within
  have missingBits := congrArg UInt32.toBitVec missing
  ext i
  have atI := congrArg (fun v => v.getLsbD i) bits
  have missingAtI := congrArg (fun v => v.getLsbD i) missingBits
  simp only [UInt32.toBitVec_or, UInt32.toBitVec_and, BitVec.getLsbD_or, BitVec.getLsbD_and,
    UInt32.toBitVec_zero, BitVec.getLsbD_zero] at atI missingAtI ⊢
  cases ha : a.toBitVec.getLsbD i <;> cases hb : b.toBitVec.getLsbD i <;> simp_all

/-- Two words that miss a mask miss it together. -/
theorem or_and_eq_zero {m : UInt32} (left : a &&& m = 0) (right : b &&& m = 0) : (a ||| b) &&& m = 0 := by
  rw [UInt32.eq_iff_toBitVec_eq] at left right ⊢
  rw [UInt32.toBitVec_and, UInt32.toBitVec_or, BitVec.and_or_distrib_right, ← UInt32.toBitVec_and,
    ← UInt32.toBitVec_and, left, right]
  rfl

/-- Bits a mask misses change nothing of what a word has of the mask. -/
theorem or_and_of_and_eq_zero {m : UInt32} (missing : b &&& m = 0) : (a ||| b) &&& m = a &&& m := by
  rw [UInt32.eq_iff_toBitVec_eq] at missing ⊢
  rw [UInt32.toBitVec_and, UInt32.toBitVec_or, BitVec.and_or_distrib_right, ← UInt32.toBitVec_and,
    ← UInt32.toBitVec_and, missing]
  exact BitVec.or_zero

/-- A word joined with `b` has all of `b`. -/
theorem or_and_cancel_right (a b : UInt32) : (a ||| b) &&& b = b := by
  apply UInt32.toBitVec_inj.1
  ext i
  simp only [UInt32.toBitVec_and, UInt32.toBitVec_or, BitVec.getElem_and, BitVec.getElem_or]
  cases a.toBitVec[i] <;> cases b.toBitVec[i] <;> rfl

end Within32

end BitMask
