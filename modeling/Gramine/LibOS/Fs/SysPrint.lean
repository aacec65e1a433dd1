import Gramine.Common.Printf
/-!
# The CPU-set encoders of sysfs

`sys_print_as_ranges` and `sys_print_as_bitmask` of `fs/sys/fs.c` print a set
of indices below `count`, given by `is_present`, into a buffer of `buf_size`
bytes, the way Linux prints CPU lists and masks: as ranges `0-3,5,7-8` and as
comma-separated 32-bit hexadecimal words. Both print piece by piece with
`snprintf` at `buf + buf_pos` and fail with `-EOVERFLOW` as soon as a piece
does not fit.

The buffer is modelled by the bytes written in it from its start; a run that
fails leaves the buffer to the caller's bin, so only the return value of a
failure is kept. `is_present` is a pure predicate here: every caller's is one.

What is proved: each encoder fails with `-EOVERFLOW` or writes, within the
buffer, the text that the set determines: the maximal runs of present
indices in increasing order, and the words whose bits are the present
indices.
-/

namespace Gramine.LibOS.Fs

open Gramine.Common

variable {bufSize count : Nat} {isPresent : Nat → Bool}

/-- The loops `while (i < count && cond(i)) i++` of `sys_print_as_ranges`,
with `left` the indices from `i` to `count`. -/
def scanWhile (cond : Nat → Bool) : Nat → Nat → Nat
  | i, 0 => i
  | i, left + 1 => if cond i then scanWhile cond (i + 1) left else i

/-- The loop of `sys_print_as_ranges` from index `i`, with the bytes written
before `buf_pos` and the separator `sep`. Each range takes at least one index,
so `count` bounds the fuel it needs. -/
def printRangesLoop (bufSize count : Nat) (isPresent : Nat → Bool) :
    Nat → Nat → List Char → List Char → Except Int (List Char)
  | 0, _, buf, _ => .ok buf
  | fuel + 1, i, buf, sep =>
    if i < count then
      let rangeStart := scanWhile (fun j => !isPresent j) i (count - i)
      let rangeEnd := scanWhile isPresent rangeStart (count - rangeStart)
      if rangeStart = rangeEnd then .ok buf
      else
        let (written, ret) :=
          if rangeStart + 1 = rangeEnd then
            snprintf (bufSize - buf.length) "%s%zu".toList [.str (some sep), .int rangeStart]
          else
            snprintf (bufSize - buf.length) "%s%zu-%zu".toList
              [.str (some sep), .int rangeStart, .int (rangeEnd - 1)]
        if ret < 0 then .error ret
        else if bufSize - buf.length ≤ ret.toNat then .error (-EOVERFLOW)
        else printRangesLoop bufSize count isPresent fuel rangeEnd (buf ++ written.take ret.toNat) [',']
    else .ok buf

/-- `sys_print_as_ranges(buf, buf_size, count, is_present, arg)`: the bytes of
`buf` up to its NUL, or the error. -/
def sysPrintAsRanges (bufSize count : Nat) (isPresent : Nat → Bool) : Except Int (List Char) :=
  match printRangesLoop bufSize count isPresent count 0 [] [] with
  | .error ret => .error ret
  | .ok buf => if buf.length + 2 > bufSize then .error (-EOVERFLOW) else .ok (buf ++ ['\n', '\x00'])

/-- One iteration of the loop of `sys_print_as_bitmask` at `pos`: the bit of
`pos` goes into `word` (a `uint32_t`: only bits below 32 are set), and at the
bottom of a 32-bit word the word is printed and cleared. -/
def bitmaskStep (bufSize count : Nat) (isPresent : Nat → Bool) (pos : Nat) (buf : List Char) (word : Nat) :
    Except Int (List Char × Nat) :=
  let word := if isPresent pos then word ||| 1 <<< (pos % 32) else word
  if pos % 32 = 0 then
    let (written, ret) :=
      if count ≤ 32 then snprintf bufSize "%x\n".toList [.int word]
      else snprintf (bufSize - buf.length) "%08x%c".toList [.int word, .int (if pos ≠ 0 then ',' else '\n').toNat]
    if ret < 0 then .error ret
    else if bufSize - buf.length ≤ ret.toNat then .error (-EOVERFLOW)
    -- a small bitmask is written at `buf` itself, where `buf_pos` is still 0
    else .ok ((if count ≤ 32 then [] else buf) ++ written.take ret.toNat, 0)
  else .ok (buf, word)

/-- The loop of `sys_print_as_bitmask`, from `pos` down to 0. -/
def printBitmaskLoop (bufSize count : Nat) (isPresent : Nat → Bool) : Nat → List Char → Nat → Except Int (List Char)
  | pos, buf, word =>
    match bitmaskStep bufSize count isPresent pos buf word with
    | .error ret => .error ret
    | .ok (buf, word) =>
      match pos with
      | 0 => .ok buf
      | pos + 1 => printBitmaskLoop bufSize count isPresent pos buf word

/-- `sys_print_as_bitmask(buf, buf_size, count, is_present, arg)`: the bytes of
`buf` up to its NUL, or the error. -/
def sysPrintAsBitmask (bufSize count : Nat) (isPresent : Nat → Bool) : Except Int (List Char) :=
  if count = 0 then
    -- `strcpy_static(buf, "0\n", buf_size)`
    if 3 > bufSize then .error (-EOVERFLOW) else .ok ['0', '\n', '\x00']
  else
    match printBitmaskLoop bufSize count isPresent (count - 1) [] 0 with
    | .error ret => .error ret
    | .ok buf => .ok (buf ++ ['\x00'])

/-! ## What the encoders print -/

/-- An index of the set: below `count` and present. -/
def Present (count : Nat) (isPresent : Nat → Bool) (i : Nat) : Prop :=
  i < count ∧ isPresent i = true

/-- A range as `sys_print_as_ranges` prints it: `a`, or `a-b`. -/
def rangeText (range : Nat × Nat) : List Char :=
  if range.1 = range.2 then Nat.toDigits 10 range.1 else Nat.toDigits 10 range.1 ++ '-' :: Nat.toDigits 10 range.2

/-- Ranges after a separator: the first after `sep`, the others after a comma. -/
def joinRanges (sep : List Char) : List (Nat × Nat) → List Char
  | [] => []
  | range :: ranges => sep ++ rangeText range ++ joinRanges [','] ranges

/-- `ranges` are the maximal runs of the set from `start` on, in increasing
order and apart from each other. -/
structure RunsFrom (count : Nat) (isPresent : Nat → Bool) (start : Nat) (ranges : List (Nat × Nat)) : Prop where
  bounds : ∀ r ∈ ranges, start ≤ r.1 ∧ r.1 ≤ r.2
  increasing : ranges.Pairwise fun r r' => r.2 + 1 < r'.1
  cover : ∀ i, start ≤ i → (Present count isPresent i ↔ ∃ r ∈ ranges, r.1 ≤ i ∧ i ≤ r.2)
  maximal : ∀ r ∈ ranges,
    ¬Present count isPresent (r.2 + 1) ∧ (start < r.1 → ¬Present count isPresent (r.1 - 1))

/-- A 32-bit word in eight hexadecimal digits, as `%08x` prints it. -/
def hex8 (word : Nat) : List Char :=
  List.replicate (8 - (Nat.toDigits 16 word).length) '0' ++ Nat.toDigits 16 word

/-- Words as `sys_print_as_bitmask` prints them past 32 indices: eight digits
each, separated by commas, and a newline. -/
def wordsText (words : List Nat) : List Char :=
  [','].intercalate (words.map hex8) ++ ['\n']

/-- Word `k` of the mask: bit `j` is set when index `32 k + j` is in the set. -/
def MaskWord (count : Nat) (isPresent : Nat → Bool) (k word : Nat) : Prop :=
  ∀ j, word.testBit j = true ↔ j < 32 ∧ Present count isPresent (32 * k + j)

/-- The words of the mask from word `top` down to word 0, most significant
first. -/
structure MaskWords (count : Nat) (isPresent : Nat → Bool) (top : Nat) (words : List Nat) : Prop where
  length : words.length = top + 1
  word : ∀ k, k < words.length → MaskWord count isPresent (top - k) (words.getD k 0)

/-- What `sys_print_as_ranges` may return: `-EOVERFLOW`, or within the buffer
the maximal runs of the set in increasing order, a newline and the NUL. -/
def RangesPrinted (bufSize count : Nat) (isPresent : Nat → Bool) (result : Except Int (List Char)) : Prop :=
  result = .error (-EOVERFLOW) ∨
    ∃ ranges, RunsFrom count isPresent 0 ranges ∧ (joinRanges [] ranges).length + 2 ≤ bufSize ∧
      result = .ok (joinRanges [] ranges ++ ['\n', '\x00'])

/-- What `sys_print_as_bitmask` may return: `-EOVERFLOW`, or within the buffer
the 32-bit words of the set, most significant first, whose bit `i % 32` of
word `i / 32` from the end is set exactly for the indices of the set; one word
without leading zeros up to 32 indices, eight digits a word past that. -/
def BitmaskPrinted (bufSize count : Nat) (isPresent : Nat → Bool) (result : Except Int (List Char)) : Prop :=
  result = .error (-EOVERFLOW) ∨
    ∃ words text, words.length = max 1 ((count + 31) / 32) ∧ (∀ w ∈ words, w < 2 ^ 32) ∧
      (∀ i, Present count isPresent i ↔
        i / 32 < words.length ∧ (words.getD (words.length - 1 - i / 32) 0).testBit (i % 32) = true) ∧
      text = (if count ≤ 32 then Nat.toDigits 16 (words.getD 0 0) ++ ['\n'] else wordsText words) ∧
      text.length + 1 ≤ bufSize ∧ result = .ok (text ++ ['\x00'])

/-! ## The formats -/

section Formats

theorem vprintfCore_single (sep : List Char) {start : Nat} (small : start < 2 ^ 64) :
    (vprintfCore "%s%zu".toList [.str (some sep), .int start]).flatten = sep ++ Nat.toDigits 10 start := by
  rw [show "%s%zu".toList = ['%', 's', '%', 'z', 'u'] from rfl]
  simp [vprintfCore, vprintfLoop, printfConversion_s, printfConversion_zu, toUnsigned_natCast small]

theorem vprintfCore_range (sep : List Char) {first last : Nat} (smallFirst : first < 2 ^ 64)
    (smallLast : last < 2 ^ 64) :
    (vprintfCore "%s%zu-%zu".toList [.str (some sep), .int first, .int last]).flatten =
      sep ++ Nat.toDigits 10 first ++ '-' :: Nat.toDigits 10 last := by
  rw [show "%s%zu-%zu".toList = ['%', 's', '%', 'z', 'u', '-', '%', 'z', 'u'] from rfl]
  simp [vprintfCore, vprintfLoop, printfConversion_s, printfConversion_zu, toUnsigned_natCast smallFirst,
    toUnsigned_natCast smallLast]

/-- The text of either format of `sys_print_as_ranges` for the run `[s, e)`. -/
theorem vprintfCore_run (sep : List Char) {s e : Nat} (nonempty : s < e) (small : e ≤ 2 ^ 64) :
    (vprintfCore (if s + 1 = e then "%s%zu".toList else "%s%zu-%zu".toList)
      (if s + 1 = e then [.str (some sep), .int s] else [.str (some sep), .int s, .int (e - 1)])).flatten =
      sep ++ rangeText (s, e - 1) := by
  by_cases single : s + 1 = e
  · rw [if_pos single, if_pos single, vprintfCore_single sep (by omega), rangeText, if_pos (by simp; omega)]
  · rw [if_neg single, if_neg single, show (e : Int) - 1 = ((e - 1 : Nat) : Int) by omega,
      vprintfCore_range sep (by omega) (by omega), rangeText, if_neg (by simp; omega), List.append_assoc]

theorem vprintfCore_hex_line {word : Nat} (small : word < 2 ^ 32) :
    (vprintfCore "%x\n".toList [.int word]).flatten = Nat.toDigits 16 word ++ ['\n'] := by
  rw [show "%x\n".toList = ['%', 'x', '\n'] from rfl]
  simp +decide only [vprintfCore, vprintfLoop, List.length_cons, List.length_nil, List.dropWhile_cons,
    List.dropWhile_nil, List.takeWhile_cons, List.takeWhile_nil, printfConversion_x, toUnsigned_natCast small, ne_eq,
    if_false, if_true, List.flatten_cons, List.flatten_nil, List.nil_append, List.append_nil, List.cons_append]

theorem strtol_eight (rest : List Char) : strtol ('8' :: 'x' :: rest) 10 = (8, some ('x' :: rest)) := by
  have digit : ∀ c ∈ ['8'], parseDigit c 10 ≠ -1 := by
    intro c member
    rw [List.mem_singleton.mp member]
    decide
  have run := @strtol_decimal_run ['8'] ('x' :: rest) (by simp) digit
    (by show parseDigit 'x' 10 = -1; decide)
  have value : digitsValue 10 0 ['8'] = 8 := rfl
  have fits : (8 : Int) ≤ LONG_MAX := by
    unfold LONG_MAX
    norm_num
  rw [value, if_pos fits] at run
  exact run

/-- `%08x`: the zeros up to eight digits are one chunk of padding. -/
theorem printfConversion_08x {n : Nat} (small : n < 2 ^ 32) (rest : List Char) (args : List VaArg) :
    (printfConversion ('0' :: '8' :: 'x' :: rest) (.int n :: args)).1.flatten = hex8 n ∧
      (printfConversion ('0' :: '8' :: 'x' :: rest) (.int n :: args)).2 = (rest, args) := by
  have text : integerText 'x' { zeroPad := true } 1 n false = Nat.toDigits 16 n :=
    integerText_unsigned (by decide) rfl _
  have padding : ∀ k, k ≤ 8 →
      (if k = 0 then [] else printfPadding '0' k k) = if k = 0 then [] else [List.replicate k '0'] := by
    intro k few
    split
    · rfl
    · exact printfPadding_single '0' (by omega) (by omega)
  simp [printfConversion, parseFlags, parseWidth, parsePrecision, parseLengthModifier, integerArgument,
    charAt, isDecimalDigit, vaArgInt, LengthModifier.bits, toUnsigned_natCast small, text, strtol_eight,
    padding, hex8]
  split <;> simp_all

theorem vprintfCore_hex8 {word : Nat} (small : word < 2 ^ 32) {c : Char} (byte : c.toNat < 2 ^ 8) :
    (vprintfCore "%08x%c".toList [.int word, .int c.toNat]).flatten = hex8 word ++ [c] := by
  rw [show "%08x%c".toList = ['%', '0', '8', 'x', '%', 'c'] from rfl]
  obtain ⟨text, after⟩ := printfConversion_08x small ['%', 'c'] [.int c.toNat]
  simp [vprintfCore, vprintfLoop, after, text, printfConversion_c, toUnsigned_natCast byte, Char.ofNat_toNat]

end Formats

/-! ## sys_print_as_ranges -/

section Ranges

/-- The scan stops at the first index from `i` where `cond` fails, or after
`left` indices. -/
theorem scanWhile_spec (cond : Nat → Bool) : ∀ (left i : Nat),
    i ≤ scanWhile cond i left ∧ scanWhile cond i left ≤ i + left ∧
      (∀ k, i ≤ k → k < scanWhile cond i left → cond k = true) ∧
      (scanWhile cond i left < i + left → cond (scanWhile cond i left) = false)
  | 0, i => by
    simp only [scanWhile]
    exact ⟨le_refl i, by omega, fun k above below => absurd below (by omega), fun short => absurd short (by omega)⟩
  | left + 1, i => by
    by_cases holds : cond i
    · obtain ⟨lo, hi, passed, stop⟩ := scanWhile_spec cond left (i + 1)
      rw [scanWhile, if_pos holds]
      refine ⟨by omega, by omega, fun k above below => ?_, fun short => stop (by omega)⟩
      by_cases here : k = i
      · exact here ▸ holds
      · exact passed k (by omega) below
    · rw [scanWhile, if_neg holds]
      exact ⟨le_refl i, by omega, fun k above below => absurd below (by omega), fun _ => by simpa using holds⟩

theorem RunsFrom.nil {start : Nat} (none : ∀ k, start ≤ k → ¬Present count isPresent k) :
    RunsFrom count isPresent start [] where
  bounds := by simp
  increasing := List.Pairwise.nil
  cover i above := by simpa using none i above
  maximal := by simp

/-- The runs after an index outside the set start past it. -/
theorem RunsFrom.start_lt {start : Nat} {ranges : List (Nat × Nat)} (runs : RunsFrom count isPresent start ranges)
    (outside : ¬Present count isPresent start) : ∀ r ∈ ranges, start < r.1 := by
  intro r mem
  have lower := (runs.bounds r mem).1
  have inSet := (runs.cover r.1 lower).2 ⟨r, mem, le_refl _, (runs.bounds r mem).2⟩
  rcases Nat.lt_or_eq_of_le lower with below | same
  · exact below
  · exact absurd (same ▸ inSet) outside

/-- A run `[s, e)` found from `i`, in front of the runs from `e`. -/
theorem RunsFrom.cons {i s e : Nat} {ranges : List (Nat × Nat)} (lo : i ≤ s) (nonempty : s < e)
    (absent : ∀ k, i ≤ k → k < s → isPresent k = false) (present : ∀ k, s ≤ k → k < e → Present count isPresent k)
    (stop : ¬Present count isPresent e) (rest : RunsFrom count isPresent e ranges) :
    RunsFrom count isPresent i ((s, e - 1) :: ranges) := by
  have later := rest.start_lt stop
  have before : ∀ k, i ≤ k → k < s → ¬Present count isPresent k := fun k above below inSet => by
    simp [Present, absent k above below] at inSet
  constructor
  · intro r mem
    rcases List.mem_cons.1 mem with rfl | mem
    · exact ⟨lo, by simp; omega⟩
    · exact ⟨by have := later r mem; omega, (rest.bounds r mem).2⟩
  · exact List.Pairwise.cons (fun r mem => by have := later r mem; simp; omega) rest.increasing
  · intro k above
    constructor
    · intro inSet
      by_cases low : k < s
      · exact absurd inSet (before k above low)
      by_cases mid : k < e
      · exact ⟨(s, e - 1), List.mem_cons_self, by simp; omega, by simp; omega⟩
      · obtain ⟨r, mem, within⟩ := (rest.cover k (by omega)).1 inSet
        exact ⟨r, List.mem_cons_of_mem _ mem, within⟩
    · rintro ⟨r, mem, first, last⟩
      rcases List.mem_cons.1 mem with rfl | mem
      · exact present k first (by simp at last; omega)
      · exact (rest.cover k (by have := later r mem; omega)).2 ⟨r, mem, first, last⟩
  · intro r mem
    rcases List.mem_cons.1 mem with rfl | mem
    · exact ⟨by simpa [show e - 1 + 1 = e by omega] using stop, fun inside => before _ (by simp; omega) (by simp; omega)⟩
    · exact ⟨(rest.maximal r mem).1, fun _ => (rest.maximal r mem).2 (later r mem)⟩

/-- The loop of `sys_print_as_ranges` from `i` fails with `-EOVERFLOW` or
appends the maximal runs from `i`, each after its separator. -/
theorem printRangesLoop_spec (small : count < 2 ^ 64) :
    ∀ {fuel i : Nat} {buf sep : List Char}, count - i ≤ fuel →
      printRangesLoop bufSize count isPresent fuel i buf sep = .error (-EOVERFLOW) ∨
      ∃ ranges, RunsFrom count isPresent i ranges ∧
        printRangesLoop bufSize count isPresent fuel i buf sep = .ok (buf ++ joinRanges sep ranges)
  | 0, i, buf, sep, enough =>
    .inr ⟨[], RunsFrom.nil fun k above inSet => by have := inSet.1; omega, by simp [printRangesLoop, joinRanges]⟩
  | fuel + 1, i, buf, sep, enough => by
    rw [printRangesLoop]
    by_cases below : i < count
    swap
    · rw [if_neg below]
      exact .inr ⟨[], RunsFrom.nil fun k above inSet => by have := inSet.1; omega, by simp [joinRanges]⟩
    rw [if_pos below]
    dsimp only
    obtain ⟨lo, hiS, absent, stopS⟩ := scanWhile_spec (fun j => !isPresent j) (count - i) i
    generalize scanWhile (fun j => !isPresent j) i (count - i) = s at lo hiS absent stopS ⊢
    obtain ⟨mid, hiE, present, stopE⟩ := scanWhile_spec isPresent (count - s) s
    generalize scanWhile isPresent s (count - s) = e at mid hiE present stopE ⊢
    -- the end of the run is outside the set
    have stop : ¬Present count isPresent e := fun inSet => by
      have := stopE (by have := inSet.1; omega)
      simp [Present, this] at inSet
    by_cases empty : s = e
    -- no index of the set is left
    · rw [if_pos empty]
      have atEnd : s = count := by
        by_contra short
        have first : isPresent s = true := by simpa using stopS (by omega)
        have := stopE (by omega)
        simp_all
      refine .inr ⟨[], RunsFrom.nil fun k above inSet => ?_, by simp [joinRanges]⟩
      have := inSet.1
      simp [Present, show isPresent k = false by simpa using absent k above (by omega)] at inSet
    rw [if_neg empty, ← apply_ite₂ (snprintf (bufSize - buf.length))]
    rcases call : snprintf (bufSize - buf.length) _ _ with ⟨written, ret⟩
    dsimp only
    rcases snprintf_checked call with rfl | ⟨nonneg, long⟩ | ⟨nonneg, short, taken⟩
    · exact .inl (by simp [EOVERFLOW])
    · exact .inl (by rw [if_neg (by omega), if_pos long])
    rw [if_neg (by omega), if_neg (by omega), taken, vprintfCore_run sep (by omega) (by omega)]
    have next : printRangesLoop bufSize count isPresent fuel e (buf ++ (sep ++ rangeText (s, e - 1))) [','] =
          .error (-EOVERFLOW) ∨
        ∃ ranges, RunsFrom count isPresent e ranges ∧
          printRangesLoop bufSize count isPresent fuel e (buf ++ (sep ++ rangeText (s, e - 1))) [','] =
            .ok (buf ++ (sep ++ rangeText (s, e - 1)) ++ joinRanges [','] ranges) :=
      printRangesLoop_spec small (by omega)
    rcases next with fail | ⟨ranges, runs, loop⟩
    · exact .inl fail
    · refine .inr ⟨(s, e - 1) :: ranges, RunsFrom.cons lo (by omega) (fun k above below => ?_)
        (fun k above below => ⟨by omega, present k above below⟩) stop runs, by simp [loop, joinRanges]⟩
      simpa using absent k above below

theorem sysPrintAsRanges_printed (small : count < 2 ^ 64) :
    RangesPrinted bufSize count isPresent (sysPrintAsRanges bufSize count isPresent) := by
  unfold sysPrintAsRanges
  have run : printRangesLoop bufSize count isPresent count 0 [] [] = .error (-EOVERFLOW) ∨
      ∃ ranges, RunsFrom count isPresent 0 ranges ∧
        printRangesLoop bufSize count isPresent count 0 [] [] = .ok ([] ++ joinRanges [] ranges) :=
    printRangesLoop_spec small (by omega)
  rcases run with fail | ⟨ranges, runs, loop⟩
  · rw [fail]
    exact .inl rfl
  · rw [loop, List.nil_append]
    by_cases long : (joinRanges [] ranges).length + 2 > bufSize
    · exact .inl (if_pos long)
    · exact .inr ⟨ranges, runs, by omega, if_neg long⟩

end Ranges

/-! ## sys_print_as_bitmask -/

section Bitmask

/-- What `word` holds on entry at `pos`: the bits of the indices of the set
above `pos` in its 32-bit word. -/
def PartialWord (count : Nat) (isPresent : Nat → Bool) (pos word : Nat) : Prop :=
  ∀ j, word.testBit j = true ↔ j < 32 ∧ pos % 32 < j ∧ Present count isPresent (pos - pos % 32 + j)

theorem MaskWord.lt {k word : Nat} (mask : MaskWord count isPresent k word) : word < 2 ^ 32 :=
  Nat.lt_pow_two_of_testBit word fun j high => by
    by_contra set
    have := ((mask j).1 (by simpa using set)).1
    omega

/-- Setting the bit of `pos` adds `pos` to the bits above it. -/
theorem testBit_setBit {pos word : Nat} (below : pos < count) (entry : PartialWord count isPresent pos word)
    (j : Nat) :
    (if isPresent pos then word ||| 1 <<< (pos % 32) else word).testBit j = true ↔
      j < 32 ∧ pos % 32 ≤ j ∧ Present count isPresent (pos - pos % 32 + j) := by
  have self : pos - pos % 32 + pos % 32 = pos := by omega
  rw [Nat.one_shiftLeft]
  by_cases here : j = pos % 32
  -- the bit of `pos` itself, clear on entry
  · subst here
    have clear := entry (pos % 32)
    split <;> simp_all [Nat.testBit_or, Present, Nat.mod_lt]
  · have other := entry j
    split <;> simp [Nat.testBit_or, other, Ne.symm here] <;> omega

/-- Inside a 32-bit word the step only sets the bit of `pos`. -/
theorem bitmaskStep_carry {pos : Nat} {buf : List Char} {word : Nat} (below : pos < count)
    (entry : PartialWord count isPresent pos word) (inner : pos % 32 ≠ 0) :
    ∃ word', PartialWord count isPresent (pos - 1) word' ∧
      bitmaskStep bufSize count isPresent pos buf word = .ok (buf, word') := by
  refine ⟨_, fun j => ?_, by rw [bitmaskStep, if_neg inner]⟩
  rw [testBit_setBit below entry j]
  have down : (pos - 1) % 32 + 1 = pos % 32 := by omega
  have base : pos - 1 - (pos - 1) % 32 = pos - pos % 32 := by omega
  rw [base]
  constructor <;> rintro ⟨small, above, inSet⟩ <;> exact ⟨small, by omega, inSet⟩

/-- At the bottom of a 32-bit word the step prints the whole word, or fails
with `-EOVERFLOW`. -/
theorem bitmaskStep_flush {pos : Nat} {buf : List Char} {word : Nat} (below : pos < count)
    (entry : PartialWord count isPresent pos word) (bottom : pos % 32 = 0) :
    bitmaskStep bufSize count isPresent pos buf word = .error (-EOVERFLOW) ∨
      ∃ word' text, MaskWord count isPresent (pos / 32) word' ∧
        text = (if count ≤ 32 then Nat.toDigits 16 word' ++ ['\n']
          else buf ++ hex8 word' ++ [if pos ≠ 0 then ',' else '\n']) ∧
        text.length < bufSize ∧ bitmaskStep bufSize count isPresent pos buf word = .ok (text, 0) := by
  have mask : MaskWord count isPresent (pos / 32)
      (if isPresent pos then word ||| 1 <<< (pos % 32) else word) := fun j => by
    rw [testBit_setBit below entry j, bottom, Nat.sub_zero, show 32 * (pos / 32) = pos by omega]
    simp
  have small := mask.lt
  unfold bitmaskStep
  generalize (if isPresent pos then word ||| 1 <<< (pos % 32) else word) = word' at mask small ⊢
  dsimp only
  rw [if_pos bottom]
  by_cases few : count ≤ 32
  · simp only [few, if_true, List.nil_append]
    rcases call : snprintf bufSize _ _ with ⟨written, ret⟩
    dsimp only
    rcases snprintf_checked call with rfl | ⟨nonneg, long⟩ | ⟨nonneg, short, taken⟩
    · exact .inl (by simp [EOVERFLOW])
    · exact .inl (by rw [if_neg (by omega), if_pos (by omega)])
    by_cases room : bufSize - buf.length ≤ ret.toNat
    · exact .inl (by rw [if_neg (by omega), if_pos room])
    rw [if_neg (by omega), if_neg room, taken, vprintfCore_hex_line small]
    refine .inr ⟨word', _, mask, rfl, ?_, rfl⟩
    rw [← vprintfCore_hex_line small, ← taken]
    simp only [List.length_take]
    omega
  · simp only [few, if_false]
    rcases call : snprintf (bufSize - buf.length) _ _ with ⟨written, ret⟩
    dsimp only
    rcases snprintf_checked call with rfl | ⟨nonneg, long⟩ | ⟨nonneg, short, taken⟩
    · exact .inl (by simp [EOVERFLOW])
    · exact .inl (by rw [if_neg (by omega), if_pos long])
    have byte : (if pos ≠ 0 then ',' else '\n').toNat < 2 ^ 8 := by split <;> decide
    rw [if_neg (by omega), if_neg (by omega), taken, vprintfCore_hex8 small byte]
    refine .inr ⟨word', _, mask, by rw [List.append_assoc], ?_, rfl⟩
    have printed := congrArg List.length taken
    rw [vprintfCore_hex8 small byte, List.length_take] at printed
    simp only [List.length_append] at printed ⊢
    omega

theorem MaskWords.cons {top word : Nat} {words : List Nat} (mask : MaskWord count isPresent (top + 1) word)
    (rest : MaskWords count isPresent top words) : MaskWords count isPresent (top + 1) (word :: words) where
  length := by simp [rest.length]
  word k below := by
    cases k with
    | zero => simpa using mask
    | succ k =>
      have := rest.word k (by simpa using below)
      simpa [show top + 1 - (k + 1) = top - k by omega] using this

theorem wordsText_cons (word : Nat) {words : List Nat} (more : words ≠ []) :
    wordsText (word :: words) = hex8 word ++ ',' :: wordsText words := by
  unfold wordsText
  rw [List.map_cons, List.intercalate_cons_of_ne_nil (by simpa using more)]
  simp

/-- The loop of `sys_print_as_bitmask` from `pos` down: `-EOVERFLOW`, or the
words from the one of `pos` down to word 0, printed within the buffer. -/
theorem printBitmaskLoop_spec : ∀ {pos : Nat} {buf : List Char} {word : Nat}, pos < count →
    PartialWord count isPresent pos word →
    printBitmaskLoop bufSize count isPresent pos buf word = .error (-EOVERFLOW) ∨
      ∃ words text, MaskWords count isPresent (pos / 32) words ∧
        text = (if count ≤ 32 then Nat.toDigits 16 (words.getD 0 0) ++ ['\n'] else buf ++ wordsText words) ∧
        text.length < bufSize ∧ printBitmaskLoop bufSize count isPresent pos buf word = .ok text
  | 0, buf, word, below, entry => by
    rw [printBitmaskLoop]
    rcases @bitmaskStep_flush bufSize count isPresent 0 buf word below entry rfl
      with fail | ⟨word', text, mask, printed, short, step⟩
    · rw [fail]
      exact .inl rfl
    · rw [step]
      refine .inr ⟨[word'], text, ⟨rfl, fun k below => ?_⟩, by simp [printed, wordsText], short, rfl⟩
      obtain rfl : k = 0 := by simpa using below
      simpa using mask
  | pos + 1, buf, word, below, entry => by
    rw [printBitmaskLoop]
    by_cases bottom : (pos + 1) % 32 = 0
    -- a word is printed, and the loop goes on with the next one below
    · rcases @bitmaskStep_flush bufSize count isPresent (pos + 1) buf word below entry bottom
        with fail | ⟨word', text, mask, printed, short, step⟩
      · rw [fail]
        exact .inl rfl
      have many : ¬count ≤ 32 := by omega
      rw [step]
      dsimp only
      have cleared : PartialWord count isPresent pos 0 := fun j => by
        simp only [Nat.zero_testBit, Bool.false_eq_true, false_iff]
        omega
      rcases @printBitmaskLoop_spec pos text 0 (by omega) cleared
        with fail | ⟨words, text', masks, printed', short', loop⟩
      · exact .inl fail
      refine .inr ⟨word' :: words, text', ?_, ?_, short', loop⟩
      · rw [show (pos + 1) / 32 = pos / 32 + 1 by omega] at mask ⊢
        exact masks.cons mask
      · have more : words ≠ [] := fun none => by simpa [none] using masks.length
        simp only [printed', printed, many, if_false, wordsText_cons word' more, List.append_assoc]
        simp
    -- inside a word only its bit changes
    · obtain ⟨word', entry', step⟩ := @bitmaskStep_carry bufSize count isPresent (pos + 1) buf word below entry bottom
      rw [step]
      dsimp only
      rw [show (pos + 1) / 32 = pos / 32 by omega]
      exact printBitmaskLoop_spec (by omega) entry'

theorem sysPrintAsBitmask_printed :
    BitmaskPrinted bufSize count isPresent (sysPrintAsBitmask bufSize count isPresent) := by
  unfold sysPrintAsBitmask
  by_cases empty : count = 0
  -- "0" for the empty mask
  · subst empty
    rw [if_pos rfl]
    by_cases short : 3 > bufSize
    · exact .inl (if_pos short)
    · refine .inr ⟨[0], ['0', '\n'], rfl, by simp, fun i => ?_, by simp, by simp; omega, if_neg short⟩
      simp [Present]
  rw [if_neg empty]
  have start : PartialWord count isPresent (count - 1) 0 := fun j => by
    simp only [Nat.zero_testBit, Bool.false_eq_true, false_iff, Present]
    omega
  have run : printBitmaskLoop bufSize count isPresent (count - 1) [] 0 = .error (-EOVERFLOW) ∨
      ∃ words text, MaskWords count isPresent ((count - 1) / 32) words ∧
        text = (if count ≤ 32 then Nat.toDigits 16 (words.getD 0 0) ++ ['\n'] else [] ++ wordsText words) ∧
        text.length < bufSize ∧ printBitmaskLoop bufSize count isPresent (count - 1) [] 0 = .ok text :=
    printBitmaskLoop_spec (by omega) start
  rcases run with fail | ⟨words, text, masks, printed, short, loop⟩
  · rw [fail]
    exact .inl rfl
  rw [loop]
  refine .inr ⟨words, text, by rw [masks.length]; omega, fun w mem => ?_, fun i => ?_, by simpa using printed,
    by omega, rfl⟩
  · obtain ⟨k, below, rfl⟩ := List.getElem_of_mem mem
    have := (masks.word k below).lt
    simpa [List.getD_eq_getElem?_getD, below] using this
  · have length := masks.length
    constructor
    · intro inSet
      have top : i / 32 ≤ (count - 1) / 32 := Nat.div_le_div_right (by have := inSet.1; omega)
      refine ⟨by omega, ?_⟩
      have mask := masks.word (words.length - 1 - i / 32) (by omega)
      rw [show (count - 1) / 32 - (words.length - 1 - i / 32) = i / 32 by omega] at mask
      exact (mask (i % 32)).2 ⟨Nat.mod_lt _ (by omega), by rwa [Nat.div_add_mod]⟩
    · rintro ⟨top, set⟩
      have mask := masks.word (words.length - 1 - i / 32) (by omega)
      rw [show (count - 1) / 32 - (words.length - 1 - i / 32) = i / 32 by omega] at mask
      have := ((mask (i % 32)).1 set).2
      rwa [Nat.div_add_mod] at this

end Bitmask

/-- Both CPU-set encoders of sysfs fail with `-EOVERFLOW` or print the set
exactly, within the buffer: `sys_print_as_ranges` as its maximal runs in
increasing order, `sys_print_as_bitmask` as the 32-bit words of its bits. -/
theorem sysfs_cpu_sets_printed (small : count < 2 ^ 64) :
    RangesPrinted bufSize count isPresent (sysPrintAsRanges bufSize count isPresent) ∧
      BitmaskPrinted bufSize count isPresent (sysPrintAsBitmask bufSize count isPresent) :=
  ⟨sysPrintAsRanges_printed small, sysPrintAsBitmask_printed⟩

/-- The encoders on the set of all of three CPUs, in an eight-byte buffer. -/
theorem sysfs_cpu_sets_printed_three_cpus :
    3 < 2 ^ 64 ∧ RangesPrinted 8 3 (fun _ => true) (sysPrintAsRanges 8 3 fun _ => true) ∧
      BitmaskPrinted 8 3 (fun _ => true) (sysPrintAsBitmask 8 3 fun _ => true) :=
  ⟨by decide, sysfs_cpu_sets_printed (by decide)⟩

end Gramine.LibOS.Fs
