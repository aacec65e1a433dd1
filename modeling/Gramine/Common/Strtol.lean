import Mathlib
import Gramine.Common.Errno
/-!
# strtol

`strtol` of `atoi.c` reads a number in three steps. `begin_number` skips
spaces and tabs, takes a sign and a base prefix (`0x` for bases 0 and 16, `0`
for base 0). A loop then reads digits, returning at once if the value
overflows a `long`. Last, `*out_end` is set to the end of the digits, or to
`str` when there were none. A string is held as the characters before its
NUL, and a position in it as the rest of the string from there; `charAt`
reads the NUL past the end.

`isoStrtol` is the reference the C standard gives, for strings whose leading
white space is spaces and tabs. A base prefix counts only when a digit of the
base follows it, the value is clamped to the range of `long`, and the end is
always set.
-/

namespace Gramine.Common

def LONG_MAX : Int := 2 ^ 63 - 1
def LONG_MIN : Int := -2 ^ 63

/-- A value a `long` holds. -/
def InLong (value : Int) : Prop :=
  LONG_MIN ≤ value ∧ value ≤ LONG_MAX

instance (value : Int) : Decidable (InLong value) :=
  inferInstanceAs (Decidable (LONG_MIN ≤ value ∧ value ≤ LONG_MAX))

/-- `*s`: the character at a position, NUL at the end of the string. -/
def charAt : List Char → Char
  | [] => '\x00'
  | c :: _ => c

/-- The value of an ASCII letter or digit as a digit of any base. -/
def digitValue (c : Char) : Option Nat :=
  if '0' ≤ c ∧ c ≤ '9' then some (c.toNat - '0'.toNat)
  else if 'a' ≤ c ∧ c ≤ 'z' then some (c.toNat - 'a'.toNat + 10)
  else if 'A' ≤ c ∧ c ≤ 'Z' then some (c.toNat - 'A'.toNat + 10)
  else none

/-- `parse_digit(c, base)`: the digit's value, or -1. -/
def parseDigit (c : Char) (base : Int) : Int :=
  match digitValue c with
  | none => -1
  | some digit => if base ≤ digit then -1 else digit

/-- The sign step of `begin_number`. -/
def takeSign : List Char → List Char × Int
  | '+' :: s => (s, 1)
  | '-' :: s => (s, -1)
  | s => (s, 1)

/-- `begin_number(str, base, ...)`: where the digits start, the base and the
sign. -/
def beginNumber (str : List Char) (base : Int) : List Char × Int × Int :=
  let (s, sign) := takeSign (str.dropWhile fun c => c == ' ' || c == '\t')
  if (base = 0 ∨ base = 16) ∧ charAt s = '0' ∧ charAt (s.drop 1) = 'x' then (s.drop 2, 16, sign)
  else if base = 0 ∧ charAt s = '0' then (s.drop 1, 8, sign)
  else if base = 0 then (s, 10, sign)
  else (s, base, sign)

/-- The digit loop of `strtol` from `value`: the value, where it stopped, and
whether it read no digit; `none` when the value overflows, where `strtol`
returns at once. -/
def strtolDigits (base sign : Int) : List Char → Int → Bool → Option (Int × List Char × Bool)
  | [], value, nothingParsed => some (value, [], nothingParsed)
  | c :: s, value, nothingParsed =>
    let digit := parseDigit c base
    if digit = -1 then some (value, c :: s, nothingParsed)
    else if ¬InLong (value * base) then none
    else if ¬InLong (value * base + digit * sign) then none
    else strtolDigits base sign s (value * base + digit * sign) false

/-- `strtol(str, &end, base)`: the value, and what it stores in `end` (`none`
when it returns on an overflow without storing). -/
def strtol (str : List Char) (base : Int) : Int × Option (List Char) :=
  match beginNumber str base with
  | (s, base', sign) =>
    match strtolDigits base' sign s 0 true with
    | none => (if sign > 0 then LONG_MAX else LONG_MIN, none)
    | some (value, s, nothingParsed) =>
      -- "+0" in base 0: the only digit was taken for the octal prefix
      if nothingParsed ∧ base = 0 ∧ base' = 8 then (0, some s)
      else (value, some (if nothingParsed then str else s))

/-- `strtoll`, the same function on LP64. -/
def strtoll (str : List Char) (base : Int) : Int × Option (List Char) :=
  strtol str base

/-- The value of a run of digits in `base`, read on from `value`. -/
def digitsValue (base value : Int) : List Char → Int
  | [] => value
  | c :: cs => digitsValue base (value * base + parseDigit c base) cs

/-- A value clamped to the range of `long`. -/
def clampLong (value : Int) : Int :=
  if value < LONG_MIN then LONG_MIN else if LONG_MAX < value then LONG_MAX else value

/-- The C standard's `strtol` for strings whose leading white space is spaces
and tabs: the value of the longest subject sequence, clamped, and the rest of
the string after it (`str` when there is none). -/
def isoStrtol (str : List Char) (base : Int) : Int × List Char :=
  let (s, sign) := takeSign (str.dropWhile fun c => c == ' ' || c == '\t')
  -- a prefix belongs to the subject only when a digit of the base follows it
  let (s, base) :=
    if (base = 0 ∨ base = 16) ∧ charAt s = '0' ∧ (charAt (s.drop 1) = 'x' ∨ charAt (s.drop 1) = 'X') ∧
        parseDigit (charAt (s.drop 2)) 16 ≠ -1 then (s.drop 2, 16)
    else if base = 0 ∧ charAt s = '0' then (s, 8)
    else if base = 0 then (s, 10)
    else (s, base)
  let digits := s.takeWhile fun c => parseDigit c base ≠ -1
  if digits = [] then (0, str)
  else (clampLong (sign * digitsValue base 0 digits), s.drop digits.length)

attribute [grind] charAt digitValue parseDigit takeSign beginNumber strtolDigits strtol strtoll digitsValue
  clampLong isoStrtol

/-- On a base prefix with no digit after it, and on an overflow, `strtol`
leaves `end` where the standard does not: at `str` for "0x" instead of after
its '0', and not at all after an overflow; and it does not take "0X" for a
prefix. -/
theorem strtol_end_differs_from_iso :
    (strtol ['0', 'x'] 16).2 = some ['0', 'x'] ∧ (isoStrtol ['0', 'x'] 16).2 = ['x'] ∧
      (strtol ['0', 'X', '1', 'A'] 16).1 = 0 ∧ (isoStrtol ['0', 'X', '1', 'A'] 16).1 = 26 ∧
      (strtol (List.replicate 20 '9') 10).2 = none ∧
      (isoStrtol (List.replicate 20 '9') 10) = (LONG_MAX, []) := by
  decide

/-! ## Runs of digits -/

section Digits

variable {base : Int}

theorem parseDigit_nonneg {c : Char} (digit : parseDigit c base ≠ -1) : 0 ≤ parseDigit c base := by
  cases known : digitValue c with
  | none => simp [parseDigit, known] at digit
  | some d =>
    simp only [parseDigit, known] at digit ⊢
    by_cases big : base ≤ (d : Int)
    · simp [big] at digit
    · rw [if_neg big]
      omega

/-- Reading digits on never lowers a nonnegative value. -/
theorem le_digitsValue (pos : 1 ≤ base) :
    ∀ {cs : List Char} {value : Int}, 0 ≤ value → (∀ c ∈ cs, parseDigit c base ≠ -1) →
      value ≤ digitsValue base value cs
  | [], _, _, _ => le_refl _
  | c :: cs, value, nonneg, digits => by
    have digit := parseDigit_nonneg (digits c List.mem_cons_self)
    have grown : value ≤ value * base + parseDigit c base := by nlinarith
    exact grown.trans (le_digitsValue pos (by omega) fun c' mem => digits c' (List.mem_cons_of_mem _ mem))

/-- The digit loop on a run of digits followed by a non-digit reads the whole
run, unless the run's value overflows a `long`. -/
theorem strtolDigits_run (pos : 1 ≤ base) :
    ∀ {cs rest : List Char} {value : Int} {nothingParsed : Bool}, 0 ≤ value → value ≤ LONG_MAX →
      (∀ c ∈ cs, parseDigit c base ≠ -1) → parseDigit (charAt rest) base = -1 →
      strtolDigits base 1 (cs ++ rest) value nothingParsed =
        if digitsValue base value cs ≤ LONG_MAX then
          some (digitsValue base value cs, rest, nothingParsed && cs.isEmpty)
        else none
  | [], rest, value, nothingParsed, _, fits, _, stop => by
    cases rest with
    | nil => simp [strtolDigits, digitsValue, fits]
    | cons c rest => simp [strtolDigits, digitsValue, fits, show parseDigit c base = -1 from stop]
  | c :: cs, rest, value, nothingParsed, nonneg, _, digits, stop => by
    have isDigit := digits c List.mem_cons_self
    have digit := parseDigit_nonneg isDigit
    have rest_digits : ∀ c' ∈ cs, parseDigit c' base ≠ -1 := fun c' mem => digits c' (List.mem_cons_of_mem _ mem)
    -- the value after this digit bounds every value before it
    have after : value * base + parseDigit c base ≤ digitsValue base (value * base + parseDigit c base) cs :=
      le_digitsValue pos (by nlinarith) rest_digits
    have product : 0 ≤ value * base := by nlinarith
    rw [show digitsValue base value (c :: cs) = digitsValue base (value * base + parseDigit c base) cs from rfl]
    simp only [List.cons_append, strtolDigits, if_neg isDigit, mul_one]
    by_cases fits : digitsValue base (value * base + parseDigit c base) cs ≤ LONG_MAX
    · have productFits : InLong (value * base) := ⟨by unfold LONG_MIN; omega, by omega⟩
      have sumFits : InLong (value * base + parseDigit c base) := ⟨by unfold LONG_MIN; omega, by omega⟩
      rw [if_neg (not_not.mpr productFits), if_neg (not_not.mpr sumFits),
        strtolDigits_run pos (by omega) sumFits.2 rest_digits stop, if_pos fits, if_pos fits]
      simp
    · rw [if_neg fits]
      by_cases productFits : InLong (value * base)
      · rw [if_neg (not_not.mpr productFits)]
        by_cases sumFits : InLong (value * base + parseDigit c base)
        · rw [if_neg (not_not.mpr sumFits), strtolDigits_run pos (by omega) sumFits.2 rest_digits stop, if_neg fits]
        · rw [if_pos sumFits]
      · rw [if_pos productFits]

/-- `strtol` in base 10 on a run of decimal digits followed by a non-digit:
the run's value and the rest of the string, or `LONG_MAX` with `end` unset
when the value overflows. -/
theorem strtol_decimal_run {ds rest : List Char} (nonempty : ds ≠ [])
    (digits : ∀ c ∈ ds, parseDigit c 10 ≠ -1) (stop : parseDigit (charAt rest) 10 = -1) :
    strtol (ds ++ rest) 10 =
      if digitsValue 10 0 ds ≤ LONG_MAX then (digitsValue 10 0 ds, some rest) else (LONG_MAX, none) := by
  obtain ⟨c, cs, rfl⟩ := List.exists_cons_of_ne_nil nonempty
  have first := digits c List.mem_cons_self
  -- a digit is neither white space nor a sign, so `begin_number` keeps the string
  have notBlank : ¬(c == ' ' || c == '\t') = true := by
    rintro blank
    simp only [Bool.or_eq_true, beq_iff_eq] at blank
    rcases blank with rfl | rfl <;> exact first (by decide)
  have notPlus : c ≠ '+' := by
    rintro rfl
    exact first (by decide)
  have notMinus : c ≠ '-' := by
    rintro rfl
    exact first (by decide)
  have unsigned : takeSign (c :: (cs ++ rest)) = (c :: (cs ++ rest), 1) := by
    unfold takeSign
    split <;> simp_all
  have begun : beginNumber (c :: cs ++ rest) 10 = (c :: cs ++ rest, 10, 1) := by
    simp [beginNumber, notBlank, unsigned]
  unfold strtol
  rw [begun]
  dsimp only
  rw [strtolDigits_run (by norm_num) (le_refl _) (by unfold LONG_MAX; norm_num) digits stop]
  by_cases fits : digitsValue 10 0 (c :: cs) ≤ LONG_MAX
  · simp [fits]
  · simp [fits]

end Digits

end Gramine.Common
