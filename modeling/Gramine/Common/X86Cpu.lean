import Mathlib

/-!
# x86-64 instruction prefix scans

`common/src/arch/x86_64/cpu.c` inspects the bytes of a faulting instruction
before the SGX PAL decides how a `#UD` is reported. The instruction is modelled
as the byte function `rip[idx]`; both scans read at most `INSTR_SIZE_MAX` bytes,
so their loops are written with the remaining length as fuel.
-/

namespace Gramine.Common.Cpu

/-- The bytes of an instruction stream starting at `rip`. -/
abbrev InstrBytes := Nat → UInt8

/-- x86-64 instructions are at most 15 bytes long. -/
def INSTR_SIZE_MAX : Nat := 15

/-- `is_x86_instr_legacy_prefix`: the four groups of legacy prefixes. -/
def isX86InstrLegacyPrefix (op : UInt8) : Bool :=
  op == 0xf0 || op == 0xf2 || op == 0xf3 ||
  op == 0x2e || op == 0x36 || op == 0x3e || op == 0x26 || op == 0x64 || op == 0x65 ||
  op == 0x66 ||
  op == 0x67

/-- `is_x86_instr_rex_prefix`: the bytes `0x40`..`0x4f`. -/
def isX86InstrRexPrefix (op : UInt8) : Bool := 0x40 ≤ op && op ≤ 0x4f

/-- The loop of `has_lock_prefix` at index `idx`, with `fuel` iterations left
before `idx` reaches `INSTR_SIZE_MAX`. -/
def hasLockPrefixFrom (rip : InstrBytes) : Nat → Nat → Bool
  | 0, _ => false
  | fuel + 1, idx =>
      if isX86InstrLegacyPrefix (rip idx) then
        if rip idx == 0xf0 then true else hasLockPrefixFrom rip fuel (idx + 1)
      else false

/-- `has_lock_prefix`: a LOCK byte among the leading legacy prefixes. -/
def hasLockPrefix (rip : InstrBytes) : Bool := hasLockPrefixFrom rip INSTR_SIZE_MAX 0

/-- The first loop of `is_in_out`: the index after the leading legacy prefixes. -/
def skipLegacyPrefixes (rip : InstrBytes) : Nat → Nat → Nat
  | 0, idx => idx
  | fuel + 1, idx =>
      if isX86InstrLegacyPrefix (rip idx) then skipLegacyPrefixes rip fuel (idx + 1) else idx

/-- The opcodes of `INS`, `OUTS`, `IN` and `OUT` in the `switch` of `is_in_out`. -/
def isInOutOpcode (op : UInt8) : Bool :=
  op == 0x6c || op == 0x6d || op == 0x6e || op == 0x6f ||
  op == 0xe4 || op == 0xe5 || op == 0xe6 || op == 0xe7 ||
  op == 0xec || op == 0xed || op == 0xee || op == 0xef

/-- `is_in_out`: skip legacy prefixes and an optional REX prefix, then test the
opcode, giving up when the prefixes fill the maximal instruction length. -/
def isInOut (rip : InstrBytes) : Bool :=
  let idx := skipLegacyPrefixes rip INSTR_SIZE_MAX 0
  if idx = INSTR_SIZE_MAX then false
  else
    let idx := if isX86InstrRexPrefix (rip idx) then idx + 1 else idx
    if idx = INSTR_SIZE_MAX then false else isInOutOpcode (rip idx)

attribute [grind] skipLegacyPrefixes

/-- The skip loop advances exactly by its remaining fuel or stops at a
non-prefix byte. -/
theorem skipLegacyPrefixes_le (rip : InstrBytes) (fuel idx : Nat) :
    idx ≤ skipLegacyPrefixes rip fuel idx ∧ skipLegacyPrefixes rip fuel idx ≤ idx + fuel := by
  induction fuel generalizing idx with
  | zero => simp [skipLegacyPrefixes]
  | succ fuel inductionHypothesis =>
      unfold skipLegacyPrefixes
      split
      · have bounds := inductionHypothesis (idx + 1)
        omega
      · omega

/-- Every byte the skip loop passed over is a legacy prefix. -/
theorem legacyPrefix_of_lt_skip (rip : InstrBytes) (fuel idx i : Nat)
    (lower : idx ≤ i) (upper : i < skipLegacyPrefixes rip fuel idx) :
    isX86InstrLegacyPrefix (rip i) = true := by
  induction fuel generalizing idx with
  | zero => simp [skipLegacyPrefixes] at upper; omega
  | succ fuel inductionHypothesis =>
      unfold skipLegacyPrefixes at upper
      split at upper
      · rename_i isPrefix
        rcases Nat.eq_or_lt_of_le lower with same | later
        · subst same
          exact isPrefix
        · exact inductionHypothesis (idx + 1) later upper
      · omega

/-- The LOCK scan and the prefix skip read the same prefix run: a LOCK byte is
found exactly when one occurs before the skip loop stops. -/
theorem hasLockPrefixFrom_iff (rip : InstrBytes) (fuel idx : Nat) :
    hasLockPrefixFrom rip fuel idx = true ↔
      ∃ i, idx ≤ i ∧ i < skipLegacyPrefixes rip fuel idx ∧ rip i = 0xf0 := by
  induction fuel generalizing idx with
  | zero => simp [hasLockPrefixFrom, skipLegacyPrefixes]; omega
  | succ fuel inductionHypothesis =>
      unfold hasLockPrefixFrom skipLegacyPrefixes
      by_cases isPrefix : isX86InstrLegacyPrefix (rip idx) = true
      · simp only [isPrefix, if_true]
        by_cases isLock : rip idx = 0xf0
        · simp only [isLock, beq_self_eq_true, if_true, true_iff]
          have bounds := skipLegacyPrefixes_le rip fuel (idx + 1)
          exact ⟨idx, le_refl idx, by omega, isLock⟩
        · have notLock : (rip idx == 0xf0) = false := by simpa using isLock
          simp only [notLock, Bool.false_eq_true, if_false]
          rw [inductionHypothesis (idx + 1)]
          constructor
          · rintro ⟨i, lower, upper, lock⟩
            exact ⟨i, by omega, upper, lock⟩
          · rintro ⟨i, lower, upper, lock⟩
            rcases Nat.eq_or_lt_of_le lower with same | later
            · subst same
              exact absurd lock isLock
            · exact ⟨i, later, upper, lock⟩
      · simp only [isPrefix, Bool.false_eq_true, if_false]
        simp only [false_iff, not_exists, not_and]
        intro i lower upper
        omega

/-- `has_lock_prefix` holds exactly when a LOCK byte is among the legacy
prefixes that `is_in_out` skips. -/
theorem hasLockPrefix_iff (rip : InstrBytes) :
    hasLockPrefix rip = true ↔
      ∃ i, i < skipLegacyPrefixes rip INSTR_SIZE_MAX 0 ∧ rip i = 0xf0 := by
  rw [hasLockPrefix, hasLockPrefixFrom_iff]
  simp

end Gramine.Common.Cpu
