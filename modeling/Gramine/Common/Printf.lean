import Gramine.Common.Strtol
/-!
# vsnprintf

`vprintf_core` of `printf.c` walks the format: the text up to each `%` is
passed to the write callback as it stands; a conversion specification is then
read in stages (flags, a width, a precision, a length modifier, the conversion
specifier), its text is built, and the padding to the width is written before
or after it. An integer conversion builds its text right to left in a backing
store filled with `'0'`: the digits, the zeros up to the precision (the
store's own filling), then the `#` prefix and the sign. The padding goes
around that finished text.

`vsnprintf` passes `snprintf_callback`, which copies into the buffer what still
fits before its last byte, and returns the length of the whole output.

The model lists the chunks that `vprintf_core` passes to the callback; the
callback of `vsnprintf` never fails. An argument of the `va_list` is an
integer, read at the width of the type `va_arg` names, or a string (the
characters before its NUL, `none` for NULL). The backing store of a precision
past `0x7d` comes from `malloc`, which is taken to succeed. A format ending in
a lone `%` makes `vprintf_core` read past the NUL; the model stops there.

`isoIntegerConversion` is what C11 7.21.6.1 prints for an integer
conversion, written from the standard's text.
-/

namespace Gramine.Common

/-- `INT_MAX`. -/
def INT_MAX : Nat := 2 ^ 31 - 1

/-- `enum length_modifier`. -/
inductive LengthModifier where
  | none
  | hh
  | h
  | l
  | ll
  | z
  deriving DecidableEq, Repr

/-- The width of the type `va_arg` reads under a length modifier: `char`,
`short`, `long`, `long long`, `size_t` and `int`, or their unsigned kin. -/
def LengthModifier.bits : LengthModifier → Nat
  | .hh => 8
  | .h => 16
  | .l => 64
  | .ll => 64
  | .z => 64
  | .none => 32

/-- An argument in the `va_list`: an integer, or a string pointer given by
the characters before its NUL (`none` for NULL). -/
inductive VaArg where
  | int (value : Int)
  | str (value : Option (List Char))
  deriving DecidableEq, Repr

/-- `va_arg(ap, T)` for an integer type `T`, before the conversion to `T`. -/
def vaArgInt : List VaArg → Int × List VaArg
  | .int value :: rest => (value, rest)
  | _ :: rest => (0, rest)
  | [] => (0, [])

/-- `va_arg(ap, const char*)`. -/
def vaArgStr : List VaArg → Option (List Char) × List VaArg
  | .str value :: rest => (value, rest)
  | _ :: rest => (none, rest)
  | [] => (none, [])

/-- An integer converted to an unsigned type of `bits` bits. -/
def toUnsigned (bits : Nat) (value : Int) : Nat :=
  (value % 2 ^ bits).toNat

/-- An integer converted to a signed type of `bits` bits (two's complement). -/
def toSigned (bits : Nat) (value : Int) : Int :=
  value.bmod (2 ^ bits)

/-- The flags of a conversion specification. -/
structure PrintfFlags where
  useAlternativeForm : Bool := false
  zeroPad : Bool := false
  padRight : Bool := false
  signedPositiveBlank : Bool := false
  forceSign : Bool := false
  deriving DecidableEq, Repr

/-- The flag loop of `vprintf_core`, up to the first character that is not a
flag. -/
def parseFlags : List Char → PrintfFlags → List Char × PrintfFlags
  | '#' :: fmt, flags => parseFlags fmt { flags with useAlternativeForm := true }
  | '0' :: fmt, flags => parseFlags fmt { flags with zeroPad := true }
  | '-' :: fmt, flags => parseFlags fmt { flags with padRight := true }
  | ' ' :: fmt, flags => parseFlags fmt { flags with signedPositiveBlank := true }
  | '+' :: fmt, flags => parseFlags fmt { flags with forceSign := true }
  | fmt, flags => (fmt, flags)

/-- Whether a character is a decimal digit, as `'0' <= *fmt && *fmt <= '9'`. -/
def isDecimalDigit (c : Char) : Bool :=
  '0' ≤ c && c ≤ '9'

/-- The field width: `*` takes an `int` argument and keeps it only when it is
not negative; digits are read by `strtol`, which leaves the format where it
was when the number overflows. -/
def parseWidth (fmt : List Char) (args : List VaArg) : Nat × List Char × List VaArg :=
  if charAt fmt = '*' then
    let (x, args) := vaArgInt args
    let x := toSigned 32 x
    (if x ≥ 0 then x.toNat else 0, fmt.drop 1, args)
  else if isDecimalDigit (charAt fmt) then
    let (width, fmtEnd) := strtol fmt 10
    (width.toNat, fmtEnd.getD fmt, args)
  else (0, fmt, args)

/-- The precision, 1 unless a `.` gives one, and whether it was given: a
negative `*` precision, and a `.` with nothing after it, leave it unset. -/
def parsePrecision (fmt : List Char) (args : List VaArg) : Nat × Bool × List Char × List VaArg :=
  if charAt fmt = '.' then
    let fmt := fmt.drop 1
    if charAt fmt = '*' then
      let (x, args) := vaArgInt args
      let x := toSigned 32 x
      if x ≥ 0 then (x.toNat, true, fmt.drop 1, args) else (1, false, fmt.drop 1, args)
    else if isDecimalDigit (charAt fmt) then
      let (precision, fmtEnd) := strtol fmt 10
      (precision.toNat, true, fmtEnd.getD fmt, args)
    else (1, false, fmt, args)
  else (1, false, fmt, args)

/-- The switch on the length modifier. -/
def parseLengthModifier : List Char → LengthModifier × List Char
  | 'l' :: 'l' :: fmt => (.ll, fmt)
  | 'l' :: fmt => (.l, fmt)
  | 'h' :: 'h' :: fmt => (.hh, fmt)
  | 'h' :: fmt => (.h, fmt)
  | 'z' :: fmt => (.z, fmt)
  | fmt => (.none, fmt)

/-- The switch on the conversion specifier for the integer conversions: the
magnitude of the value, whether it is negative, and the arguments after it;
`none` for the other conversions, which read no integer here. -/
def integerArgument (specifier : Char) (modifier : LengthModifier) (args : List VaArg) :
    Option (Nat × Bool × List VaArg) :=
  let (value, rest) := vaArgInt args
  if specifier = 'p' then some (toUnsigned 64 value, false, rest)
  else if specifier = 'x' ∨ specifier = 'o' ∨ specifier = 'u' then
    some (toUnsigned modifier.bits value, false, rest)
  else if specifier = 'i' ∨ specifier = 'd' then
    let x := toSigned modifier.bits value
    -- `__builtin_sub_overflow(0, x, &val)` is the magnitude, also of the most negative value
    some (x.natAbs, x < 0, rest)
  else none

/-- `to_digit`. -/
def toDigit (val : Nat) : Char :=
  if val < 10 then Char.ofNat ('0'.toNat + val) else Char.ofNat ('a'.toNat + val - 10)

/-- The loop `while (val)` that writes the digits of `val` in `base` before
`acc`, the least significant last; nothing for 0. The fuel counts the
iterations left. -/
def digitLoop (base : Nat) : Nat → Nat → List Char → List Char
  | 0, _, acc => acc
  | fuel + 1, val, acc =>
    if val = 0 then acc else digitLoop base fuel (val / base) (toDigit (val % base) :: acc)

/-- The base of an integer conversion specifier. -/
def specifierBase (specifier : Char) : Nat :=
  if specifier = 'x' then 16 else if specifier = 'o' then 8 else 10

/-- The text an integer conversion leaves in the backing store: the digits,
the store's zeros up to the precision, the `#` prefix, then the sign. -/
def integerText (specifier : Char) (flags : PrintfFlags) (precision val : Nat) (negative : Bool) :
    List Char :=
  let digits := digitLoop (specifierBase specifier) val val []
  let digits :=
    if digits.length < precision then List.replicate (precision - digits.length) '0' ++ digits
    else digits
  let digits :=
    if flags.useAlternativeForm then
      if specifier = 'x' ∧ val ≠ 0 then '0' :: 'x' :: digits
      else if specifier = 'o' then
        -- an octal zero is added unless the text already starts with one
        match digits with
        | '0' :: _ => digits
        | _ => '0' :: digits
      else digits
    else digits
  if negative then '-' :: digits
  else if specifier = 'd' ∨ specifier = 'i' then
    if flags.forceSign then '+' :: digits
    else if flags.signedPositiveBlank then ' ' :: digits
    else digits
  else digits

/-- `printf_padding`: `size` copies of `padChar`, in chunks of at most
`0x100`. The fuel counts the chunks left. -/
def printfPadding (padChar : Char) : Nat → Nat → List (List Char)
  | 0, _ => []
  | fuel + 1, size =>
    if size = 0 then []
    else List.replicate (min size 0x100) padChar :: printfPadding padChar fuel (size - min size 0x100)

/-- One conversion specification, from the character after its `%`: the
chunks it writes, then the format and the arguments after it. -/
def printfConversion (afterPercent : List Char) (args : List VaArg) :
    List (List Char) × List Char × List VaArg :=
  let (fmt, flags) := parseFlags afterPercent {}
  let (width, fmt, args) := parseWidth fmt args
  let (precision, precisionSeen, fmt, args) := parsePrecision fmt args
  let (modifier, fmt) := parseLengthModifier fmt
  let specifier := charAt fmt
  let fmt := fmt.drop 1
  let (text, integerConversion, padRight, args) :=
    match integerArgument specifier modifier args with
    | some (val, negative, args) =>
      -- `%p` prints as `%#x` of the pointer
      let flags := { flags with useAlternativeForm := flags.useAlternativeForm || specifier = 'p' }
      let specifier := if specifier = 'p' then 'x' else specifier
      (integerText specifier flags precision val negative, true, flags.padRight, args)
    | none =>
      if specifier = 's' then
        let (str, args) := vaArgStr args
        let str := str.getD "(null)".toList
        ((if precisionSeen then str.take precision else str), false, flags.padRight, args)
      else if specifier = 'c' then
        let (x, args) := vaArgInt args
        ([Char.ofNat (toUnsigned 8 x)], false, flags.padRight, args)
      else
        -- `%%` prints one `%`; an unknown specification is printed as it stands
        let consumed := afterPercent.length - fmt.length
        let text := if specifier = '%' ∧ consumed = 1 then ['%'] else '%' :: afterPercent.take consumed
        (text, false, false, args)
  let paddingSize := width - text.length
  let padChar := if flags.zeroPad && integerConversion && !precisionSeen then '0' else ' '
  let before := if !padRight && paddingSize ≠ 0 then printfPadding padChar paddingSize paddingSize else []
  let after := if padRight && paddingSize ≠ 0 then printfPadding padChar paddingSize paddingSize else []
  (before ++ [text] ++ after, fmt, args)

/-- The loop of `vprintf_core`: the text before the next `%`, the conversion,
and on; the rest of the format once no `%` is left. The fuel counts the
conversions left. -/
def vprintfLoop : Nat → List Char → List VaArg → List (List Char)
  | 0, fmt, _ => [fmt]
  | fuel + 1, fmt, args =>
    match fmt.dropWhile (· ≠ '%') with
    | [] => [fmt]
    | _ :: afterPercent =>
      let (chunks, rest, args) := printfConversion afterPercent args
      fmt.takeWhile (· ≠ '%') :: chunks ++ vprintfLoop fuel rest args

/-- `vprintf_core`: the chunks passed to the write callback, in order. Each
conversion takes at least its `%`, so the format's length bounds them. -/
def vprintfCore (fmt : List Char) (args : List VaArg) : List (List Char) :=
  vprintfLoop (fmt.length + 1) fmt args

/-- `struct snprintf_arg`: the room for text (the buffer's last byte is kept
for the NUL) and the bytes copied so far, whose length is `pos`. -/
structure SnprintfArg where
  size : Nat
  buf : List Char

/-- `snprintf_callback`: copy what still fits. -/
def snprintfCallback (arg : SnprintfArg) (chunk : List Char) : SnprintfArg :=
  if arg.buf.length < arg.size then { arg with buf := arg.buf ++ chunk.take (arg.size - arg.buf.length) }
  else arg

/-- `vsnprintf(buf, buf_size, fmt, ap)`: the bytes written to `buf` (its
NUL included) and the return value. -/
def vsnprintf (bufSize : Nat) (fmt : List Char) (args : List VaArg) : List Char × Int :=
  let chunks := vprintfCore fmt args
  let arg := chunks.foldl snprintfCallback { size := if bufSize ≠ 0 then bufSize - 1 else 0, buf := [] }
  let len := (chunks.map List.length).sum
  (if bufSize ≠ 0 then arg.buf ++ ['\x00'] else [], if len > INT_MAX then -EOVERFLOW else len)

/-- `snprintf`, the same function with its arguments in place. -/
def snprintf (bufSize : Nat) (fmt : List Char) (args : List VaArg) : List Char × Int :=
  vsnprintf bufSize fmt args

/-! ## The standard's output -/

/-- What C11 7.21.6.1 prints for the integer conversions `d`, `i`, `u`, `x`
and `o` of `value`, with the flags, a width (a negative `*` width is the `-`
flag and its magnitude) and a precision (`none` when there is none, `some 0`
for a lone `.`). -/
def isoIntegerConversion (flags : PrintfFlags) (width : Int) (precision : Option Nat) (specifier : Char)
    (value : Int) : List Char :=
  let magnitude := value.natAbs
  -- a zero value with a precision of zero is no characters
  let digits :=
    if precision = some 0 ∧ magnitude = 0 then [] else Nat.toDigits (specifierBase specifier) magnitude
  let digits := List.replicate (precision.getD 1 - digits.length) '0' ++ digits
  -- `#` with `o` raises the precision so that the first digit is a zero
  let digits :=
    if flags.useAlternativeForm ∧ specifier = 'o' ∧ digits.head? ≠ some '0' then '0' :: digits else digits
  let sign :=
    if value < 0 then ['-']
    else if (specifier = 'd' ∨ specifier = 'i') ∧ flags.forceSign then ['+']
    else if (specifier = 'd' ∨ specifier = 'i') ∧ flags.signedPositiveBlank then [' ']
    else []
  let base := if flags.useAlternativeForm ∧ specifier = 'x' ∧ magnitude ≠ 0 then ['0', 'x'] else []
  let padding := width.natAbs - (sign.length + base.length + digits.length)
  if flags.padRight ∨ width < 0 then sign ++ base ++ digits ++ List.replicate padding ' '
  -- the `0` flag pads after the sign and the base, and is ignored under `-` or with a precision
  else if flags.zeroPad ∧ precision = none then sign ++ base ++ List.replicate padding '0' ++ digits
  else List.replicate padding ' ' ++ sign ++ base ++ digits

attribute [grind] vaArgInt vaArgStr parseFlags parseWidth parsePrecision parseLengthModifier
  integerArgument digitLoop integerText printfPadding snprintfCallback

/-- Zero padding goes before the sign, and is not dropped under `-`: `%05d`
of -42 prints `00-42` where the standard prints `-0042`, and `%-05d` of 42
prints `42000` where it prints `42   `. -/
theorem vsnprintf_zero_pads_before_sign :
    vsnprintf 16 "%05d".toList [.int (-42)] = ("00-42".toList ++ ['\x00'], 5) ∧
      isoIntegerConversion { zeroPad := true } 5 none 'd' (-42) = "-0042".toList ∧
      vsnprintf 16 "%-05d".toList [.int 42] = ("42000".toList ++ ['\x00'], 5) ∧
      isoIntegerConversion { zeroPad := true, padRight := true } 5 none 'd' 42 = "42   ".toList := by
  decide

/-! ## The callback of vsnprintf -/

section Snprintf

/-- Cutting a list to `n` and then what follows to `n` again is cutting the
whole to `n`. -/
theorem take_append_take {α : Type} (xs ys : List α) (n : Nat) :
    (xs.take n ++ ys).take n = (xs ++ ys).take n := by
  by_cases short : xs.length ≤ n
  · rw [List.take_of_length_le short]
  · have cut : (xs.take n).length = n := by simp; omega
    rw [List.take_append_of_le_length (by omega), List.take_of_length_le (by omega),
      List.take_append_of_le_length (by omega)]

/-- One call of `snprintf_callback`: the buffer holds the prefix of
everything passed to it that fits. -/
theorem snprintfCallback_take {arg : SnprintfArg} (fits : arg.buf.length ≤ arg.size) (chunk : List Char) :
    snprintfCallback arg chunk = { arg with buf := (arg.buf ++ chunk).take arg.size } := by
  unfold snprintfCallback
  split
  · rw [List.take_append, List.take_of_length_le fits]
  · rw [List.take_append_of_le_length (by omega), List.take_of_length_le fits]

/-- A run of `snprintf_callback` over the chunks of an output. -/
theorem foldl_snprintfCallback (chunks : List (List Char)) {arg : SnprintfArg}
    (fits : arg.buf.length ≤ arg.size) :
    chunks.foldl snprintfCallback arg = { arg with buf := (arg.buf ++ chunks.flatten).take arg.size } := by
  induction chunks generalizing arg with
  | nil => simp [List.take_of_length_le fits]
  | cons chunk chunks ih =>
    have cut : ((arg.buf ++ chunk).take arg.size).length ≤ arg.size := by simp
    rw [List.foldl_cons, snprintfCallback_take fits, ih cut]
    simp only [take_append_take, List.flatten_cons, List.append_assoc]

/-- `vsnprintf` writes the first `buf_size - 1` bytes of the output and a
NUL, and returns the length of the whole output, or `-EOVERFLOW` past
`INT_MAX`. -/
theorem vsnprintf_eq (bufSize : Nat) (fmt : List Char) (args : List VaArg) :
    vsnprintf bufSize fmt args =
      ((if bufSize ≠ 0 then (vprintfCore fmt args).flatten.take (bufSize - 1) ++ ['\x00'] else []),
        if (vprintfCore fmt args).flatten.length > INT_MAX then -EOVERFLOW
        else ((vprintfCore fmt args).flatten.length : Int)) := by
  unfold vsnprintf
  dsimp only
  rw [foldl_snprintfCallback _ (by simp), List.length_flatten]
  by_cases empty : bufSize = 0
  · simp [empty]
  · simp [empty]

end Snprintf

/-! ## Digits -/

section Digits

theorem toDigit_eq_digitChar : ∀ val, val < 16 → toDigit val = Nat.digitChar val := by
  decide

@[simp] theorem digitLoop_zero (base fuel : Nat) (acc : List Char) : digitLoop base fuel 0 acc = acc := by
  cases fuel <;> simp [digitLoop]

variable {base : Nat}

/-- The digit loop writes `Nat.toDigits` when its fuel is at least the value:
each iteration divides the value by the base. -/
theorem digitLoop_eq (two : 2 ≤ base) (small : base ≤ 16) :
    ∀ {fuel val : Nat} (acc : List Char), 0 < val → val ≤ fuel →
      digitLoop base fuel val acc = Nat.toDigits base val ++ acc
  | 0, _, _, pos, bound => absurd bound (by omega)
  | fuel + 1, val, acc, pos, bound => by
    have digit : toDigit (val % base) = Nat.digitChar (val % base) :=
      toDigit_eq_digitChar _ (by have := Nat.mod_lt val (by omega : base > 0); omega)
    rw [digitLoop, if_neg (by omega), digit]
    by_cases last : val < base
    -- the last digit: the quotient is zero and the loop stops
    · rw [Nat.div_eq_of_lt last, digitLoop_zero, Nat.mod_eq_of_lt last, Nat.toDigits_of_lt_base last]
      rfl
    · have shrinks : val / base < val := Nat.div_lt_self pos (by omega)
      have rest : digitLoop base fuel (val / base) (Nat.digitChar (val % base) :: acc) =
          Nat.toDigits base (val / base) ++ Nat.digitChar (val % base) :: acc :=
        digitLoop_eq two small _ (Nat.div_pos (by omega) (by omega)) (by omega)
      rw [rest, Nat.toDigits_of_base_le (n := val) (by omega) (by omega)]
      simp

/-- `digitLoop` as `vprintf_core` runs it. -/
theorem digitLoop_self (two : 2 ≤ base) (small : base ≤ 16) (val : Nat) :
    digitLoop base val val [] = if val = 0 then [] else Nat.toDigits base val := by
  split
  · subst val
    rfl
  · rw [digitLoop_eq two small [] (by omega) (le_refl val), List.append_nil]

theorem specifierBase_bounds (specifier : Char) : 2 ≤ specifierBase specifier ∧ specifierBase specifier ≤ 16 := by
  unfold specifierBase
  split_ifs <;> omega

/-- An unsigned conversion without `#` and with the default precision prints
the value's digits. -/
theorem integerText_unsigned {specifier : Char} (unsigned : specifier ≠ 'd' ∧ specifier ≠ 'i')
    {flags : PrintfFlags} (plain : flags.useAlternativeForm = false) (val : Nat) :
    integerText specifier flags 1 val false = Nat.toDigits (specifierBase specifier) val := by
  obtain ⟨two, small⟩ := specifierBase_bounds specifier
  have signless : ¬(specifier = 'd' ∨ specifier = 'i') := fun signed => signed.elim unsigned.1 unsigned.2
  simp only [integerText, digitLoop_self two small, signless, plain, if_false, Bool.false_eq_true]
  by_cases zero : val = 0
  · subst zero
    simp [Nat.toDigits_zero]
  · have long := Nat.length_toDigits_pos (b := specifierBase specifier) (n := val)
    simp [zero, show ¬(Nat.toDigits (specifierBase specifier) val).length < 1 by omega]

/-- Padding of at most `0x100` bytes is one chunk. -/
theorem printfPadding_single (padChar : Char) {size : Nat} (pos : 0 < size) (small : size ≤ 0x100) :
    printfPadding padChar size size = [List.replicate size padChar] := by
  obtain ⟨fuel, rfl⟩ : ∃ fuel, size = fuel + 1 := ⟨size - 1, by omega⟩
  have whole : min (fuel + 1) 0x100 = fuel + 1 := by omega
  cases fuel <;> simp [printfPadding, whole]

end Digits

/-! ## The conversions of fixed formats -/

section Conversions

/-- A number of the type's range is read as itself. -/
theorem toUnsigned_natCast {bits n : Nat} (small : n < 2 ^ bits) : toUnsigned bits n = n := by
  unfold toUnsigned
  rw [Int.emod_eq_of_lt (by omega) (by exact_mod_cast small)]
  rfl

variable (rest : List Char) (args : List VaArg)

/-- `%s` of a string: the string. -/
theorem printfConversion_s (str : List Char) :
    printfConversion ('s' :: rest) (.str (some str) :: args) = ([str], rest, args) := by
  simp [printfConversion, parseFlags, parseWidth, parsePrecision, parseLengthModifier, integerArgument,
    charAt, isDecimalDigit, vaArgStr]

/-- `%zu` of a number: its decimal digits as a `size_t`. -/
theorem printfConversion_zu (n : Int) :
    printfConversion ('z' :: 'u' :: rest) (.int n :: args) =
      ([Nat.toDigits 10 (toUnsigned 64 n)], rest, args) := by
  have text : integerText 'u' {} 1 (toUnsigned 64 n) false = Nat.toDigits 10 (toUnsigned 64 n) :=
    integerText_unsigned (by decide) rfl _
  simp [printfConversion, parseFlags, parseWidth, parsePrecision, parseLengthModifier, integerArgument,
    charAt, isDecimalDigit, vaArgInt, LengthModifier.bits, text]

/-- `%x` of a number: its hexadecimal digits as an `unsigned int`. -/
theorem printfConversion_x (n : Int) :
    printfConversion ('x' :: rest) (.int n :: args) =
      ([Nat.toDigits 16 (toUnsigned 32 n)], rest, args) := by
  have text : integerText 'x' {} 1 (toUnsigned 32 n) false = Nat.toDigits 16 (toUnsigned 32 n) :=
    integerText_unsigned (by decide) rfl _
  simp [printfConversion, parseFlags, parseWidth, parsePrecision, parseLengthModifier, integerArgument,
    charAt, isDecimalDigit, vaArgInt, LengthModifier.bits, text]

/-- `%c` of a number: the character of its low byte. -/
theorem printfConversion_c (n : Int) :
    printfConversion ('c' :: rest) (.int n :: args) = ([[Char.ofNat (toUnsigned 8 n)]], rest, args) := by
  simp [printfConversion, parseFlags, parseWidth, parsePrecision, parseLengthModifier, integerArgument,
    charAt, isDecimalDigit, vaArgInt]

end Conversions

/-- What a caller sees of `snprintf` when it fails on a negative return and on
one at least the size: `-EOVERFLOW`, a return past the size, or the whole
output before the NUL. -/
theorem snprintf_checked {n : Nat} {fmt : List Char} {args : List VaArg} {written : List Char} {ret : Int}
    (call : snprintf n fmt args = (written, ret)) :
    ret = -EOVERFLOW ∨ (0 ≤ ret ∧ n ≤ ret.toNat) ∨
      (0 ≤ ret ∧ ret.toNat < n ∧ written.take ret.toNat = (vprintfCore fmt args).flatten) := by
  rw [snprintf, vsnprintf_eq, Prod.mk.injEq] at call
  obtain ⟨rfl, rfl⟩ := call
  by_cases huge : (vprintfCore fmt args).flatten.length > INT_MAX
  · exact .inl (if_pos huge)
  rw [if_neg huge, Int.toNat_natCast]
  by_cases long : n ≤ (vprintfCore fmt args).flatten.length
  · exact .inr (.inl ⟨by omega, long⟩)
  -- the whole output is in the buffer, before its NUL
  · have room : n ≠ 0 := by omega
    refine .inr (.inr ⟨by omega, by omega, ?_⟩)
    rw [if_pos room, List.take_of_length_le (by omega : (vprintfCore fmt args).flatten.length ≤ n - 1),
      List.take_append_of_le_length (le_refl _), List.take_length]

end Gramine.Common
