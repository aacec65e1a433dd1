import Mathlib
import Gramine.Common.Strtol
/-!
# Address parsers of /etc/resolv.conf

`parse_ip_addr_ipv4` and `parse_ip_addr_ipv6` of `etc_host_info.c` read the
addresses of `nameserver` lines, which the host controls. Both read their
numbers with Gramine's `strtol` and check around it what `strtol` lets
through: leading white space and signs (by demanding a digit first),
leading zeros in IPv4 parts, and the `0x` prefix in IPv6 groups.

An address is read from a position of a NUL-terminated string, held as the
rest of the string from there; the new position the parser stores in `*pptr`
is returned beside the address. `addr` entries, `uint32_t` values below
`2^32` here, are held as naturals.
-/

namespace Gramine.Pal

open Gramine.Common

/-- `isdigit`. -/
def isDigit (c : Char) : Bool :=
  '0' ≤ c && c ≤ '9'

/-- `isxdigit`. -/
def isXDigit (c : Char) : Bool :=
  isDigit c || ('a' ≤ c && c ≤ 'f') || ('A' ≤ c && c ≤ 'F')

/-- `is_end_of_word`. -/
def isEndOfWord (c : Char) : Bool :=
  c == '\x00' || c == '\n' || c == ' ' || c == '\t'

def UINT32_MAX : Int := 2 ^ 32 - 1

/-- The loop of `parse_ip_addr_ipv4` with `left` iterations to go, at `ptr`,
with the parts read so far: `none` where it returns false, otherwise the
parts, `ptr` and `next` when the loop ends. -/
def ipv4Loop : Nat → List Char → List Nat → Option (List Nat × List Char × List Char)
  | 0, _, _ => none
  | left + 1, ptr, addr =>
    if !isDigit (charAt ptr) then none
    else
      match strtoll ptr 10 with
      | (octet, next) =>
        -- after an overflow `next` is not set: the comparison reads it, and
        -- either way the range check below fails on `LONG_MAX`
        if next = some ptr then none
        else if octet < 0 ∨ UINT32_MAX < octet then none
        else
          match next with
          | none => none
          | some next =>
            -- `strtoll` takes leading zeros, which a part may not have
            if ptr.length - next.length > 1 ∧ charAt ptr = '0' then none
            else if isEndOfWord (charAt next) then some (addr ++ [octet.toNat], ptr, next)
            else if charAt next ≠ '.' then none
            -- the fourth part ends in '.': `i` reaches 4 with `next` at the dot
            else if left = 0 then some (addr ++ [octet.toNat], next.drop 1, next)
            else ipv4Loop left (next.drop 1) (addr ++ [octet.toNat])

/-- The part of `parse_ip_addr_ipv4` after the loop: each part's range for
the number of parts, then the parts put together big-endian. -/
def ipv4Combine : List Nat → Option UInt32
  | [a] => some (UInt32.ofNat a)
  | [a, b] =>
    if a > 0xFF ∨ b > 0xFFFFFF then none
    else some (UInt32.ofNat a <<< 24 ||| UInt32.ofNat b)
  | [a, b, c] =>
    if a > 0xFF ∨ b > 0xFF ∨ c > 0xFFFF then none
    else some (UInt32.ofNat a <<< 24 ||| UInt32.ofNat b <<< 16 ||| UInt32.ofNat c)
  | [a, b, c, d] =>
    if a > 0xFF ∨ b > 0xFF ∨ c > 0xFF ∨ d > 0xFF then none
    else some (UInt32.ofNat a <<< 24 ||| UInt32.ofNat b <<< 16 ||| UInt32.ofNat c <<< 8 ||| UInt32.ofNat d)
  -- `assert(i < 4)`
  | _ => none

/-- `parse_ip_addr_ipv4(&ptr, &out_addr)`: the address and the new `ptr`, or
`none` for false. -/
def parseIpAddrIpv4 (str : List Char) : Option (UInt32 × List Char) :=
  match ipv4Loop 4 str [] with
  | none => none
  | some (addr, ptr, next) =>
    if !isEndOfWord (charAt next) then none
    else (ipv4Combine addr).map fun value => (value, ptr)

/-- The groups after `::` moved to the end of the eight: the in-place shift
of `parse_ip_addr_ipv6`, as the array it leaves. -/
def shiftAfterDoubleColon (addr : List Nat) (doubleColonPos partsSeen : Nat) : List Nat :=
  addr.take doubleColonPos ++ List.replicate (8 - partsSeen) 0 ++ (addr.take partsSeen).drop doubleColonPos

/-- The group loop of `parse_ip_addr_ipv6` with `left` iterations to go:
`none` where it returns false, otherwise the groups, where `::` was (if
anywhere) and `ptr` when the loop ends. -/
def ipv6Loop : Nat → List Char → List Nat → Option Nat → Option (List Nat × Option Nat × List Char)
  | 0, ptr, addr, doubleColonPos => some (addr, doubleColonPos, ptr)
  | left + 1, ptr, addr, doubleColonPos =>
    if isEndOfWord (charAt ptr) then some (addr, doubleColonPos, ptr)
    else if !isXDigit (charAt ptr) then none
    else
      match strtol ptr 16 with
      | (val, next) =>
        if val < 0 ∨ 0xFFFF < val then none
        else
          match next with
          -- `next` is set whenever `val` is in range
          | none => none
          | some next =>
            -- `strtol` skips a `0x` prefix, which a group may not have
            if ptr.length - next.length ≥ 2 ∧ !isXDigit (charAt (ptr.drop 1)) then none
            else
              let addr := addr ++ [val.toNat]
              if charAt next = ':' ∧ charAt (next.drop 1) = ':' then
                if doubleColonPos.isSome then none
                else ipv6Loop left (next.drop 2) addr (some addr.length)
              else if charAt next = ':' then ipv6Loop left (next.drop 1) addr doubleColonPos
              else some (addr, doubleColonPos, next)

/-- `parse_ip_addr_ipv6(&ptr, addr)`: the eight groups and the new `ptr`, or
`none` for false. -/
def parseIpAddrIpv6 (str : List Char) : Option (List Nat × List Char) :=
  let (ptr, doubleColonPos) : List Char × Option Nat :=
    if charAt str = ':' ∧ charAt (str.drop 1) = ':' then (str.drop 2, some 0) else (str, none)
  match ipv6Loop 8 ptr [] doubleColonPos with
  | none => none
  | some (addr, doubleColonPos, ptr') =>
    let partsSeen := addr.length
    -- `ptr[-1]`: the character before `ptr`, in the string the loop read
    let before := charAt (str.drop (str.length - ptr'.length - 1))
    if !isEndOfWord (charAt ptr') then none
    else if partsSeen > 0 ∧ !isXDigit before ∧ doubleColonPos ≠ some partsSeen then none
    else
      match doubleColonPos with
      | none => if partsSeen ≠ 8 then none else some (addr, ptr')
      | some pos =>
        if partsSeen = 8 then none
        else some (shiftAfterDoubleColon addr pos partsSeen, ptr')

attribute [grind] isDigit isXDigit isEndOfWord ipv4Loop ipv4Combine parseIpAddrIpv4 shiftAfterDoubleColon ipv6Loop
  parseIpAddrIpv6

/-- An IPv6 address with a five-digit group: the parser takes it, as
`strtol` reads any number of leading zeros. -/
theorem ipv6_accepts_five_digit_group :
    parseIpAddrIpv6 "0:0:0:0:0:0:0:00001".toList = some ([0, 0, 0, 0, 0, 0, 0, 1], []) := by
  decide

/-! ## IPv4 against inet_aton -/

/-- The value of a run of decimal digits. -/
def decimalValue (p : List Char) : Nat :=
  p.foldl (fun value c => 10 * value + (c.toNat - '0'.toNat)) 0

/-- A part of an address: decimal digits, with no leading zero unless it is
"0". -/
def DecimalPart (p : List Char) : Prop :=
  p ≠ [] ∧ (∀ c ∈ p, isDigit c = true) ∧ (charAt p = '0' → p.length = 1)

/-- The address `inet_aton` gives for the values of one to four parts: the
first k-1 at most 255, the last below `2^(8*(5-k))`, put together
big-endian. -/
def inetAtonValue : List Nat → Option UInt32
  | [a] => if a < 2 ^ 32 then some (UInt32.ofNat a) else none
  | [a, b] => if a ≤ 255 ∧ b < 2 ^ 24 then some (UInt32.ofNat a <<< 24 ||| UInt32.ofNat b) else none
  | [a, b, c] =>
    if a ≤ 255 ∧ b ≤ 255 ∧ c < 2 ^ 16 then some (UInt32.ofNat a <<< 24 ||| UInt32.ofNat b <<< 16 ||| UInt32.ofNat c)
    else none
  | [a, b, c, d] =>
    if a ≤ 255 ∧ b ≤ 255 ∧ c ≤ 255 ∧ d < 2 ^ 8 then
      some (UInt32.ofNat a <<< 24 ||| UInt32.ofNat b <<< 16 ||| UInt32.ofNat c <<< 8 ||| UInt32.ofNat d)
    else none
  | _ => none

section Ipv4

theorem char_le_iff {a b : Char} : a ≤ b ↔ a.toNat ≤ b.toNat := by
  rw [Char.le_def, UInt32.le_iff_toNat_le]
  rfl

/-- `parse_digit` in base 10 accepts exactly the decimal digits. -/
theorem parseDigit_ten (c : Char) :
    parseDigit c 10 = if isDigit c then ((c.toNat - '0'.toNat : Nat) : Int) else -1 := by
  have zero : '0' ≤ c ↔ 48 ≤ c.toNat := char_le_iff
  have nine : c ≤ '9' ↔ c.toNat ≤ 57 := char_le_iff
  have lowerA : 'a' ≤ c ↔ 97 ≤ c.toNat := char_le_iff
  have upperA : 'A' ≤ c ↔ 65 ≤ c.toNat := char_le_iff
  have literals : '0'.toNat = 48 ∧ 'a'.toNat = 97 ∧ 'A'.toNat = 65 := ⟨rfl, rfl, rfl⟩
  unfold parseDigit digitValue isDigit
  by_cases decimal : '0' ≤ c ∧ c ≤ '9'
  · have inRange : 48 ≤ c.toNat ∧ c.toNat ≤ 57 := ⟨zero.mp decimal.1, nine.mp decimal.2⟩
    rw [if_pos decimal]
    dsimp only
    rw [if_neg (by omega)]
    simp [decimal]
  · have notDecimal : (decide ('0' ≤ c) && decide (c ≤ '9')) = false := by simpa using decimal
    rw [if_neg decimal, notDecimal, if_neg Bool.false_ne_true]
    -- a letter's value is at least 10, too large for base 10
    split_ifs with lower upper
    · dsimp only
      rw [if_pos (by omega)]
    · dsimp only
      rw [if_pos (by omega)]
    · rfl

theorem parseDigit_ten_ne {c : Char} : parseDigit c 10 ≠ -1 ↔ isDigit c = true := by
  rw [parseDigit_ten]
  split <;> simp_all <;> omega

/-- The value `strtol` reads from decimal digits is their decimal value. -/
theorem digitsValue_decimal : ∀ {p : List Char} {value : Nat}, (∀ c ∈ p, isDigit c = true) →
    digitsValue 10 value p = (p.foldl (fun value c => 10 * value + (c.toNat - '0'.toNat)) value : Nat)
  | [], _, _ => rfl
  | c :: p, value, digits => by
    have digit := digits c List.mem_cons_self
    rw [digitsValue, parseDigit_ten, if_pos digit, List.foldl_cons]
    rw [show (value : Int) * 10 + ((c.toNat - '0'.toNat : Nat) : Int) = ((10 * value + (c.toNat - '0'.toNat) : Nat) : Int)
      by push_cast; omega]
    exact digitsValue_decimal fun c' mem => digits c' (List.mem_cons_of_mem _ mem)

/-- `strtoll` in base 10 at a digit reads the run of digits there. -/
theorem strtoll_at_digit {ptr : List Char} (digit : isDigit (charAt ptr) = true) :
    strtoll ptr 10 =
      if (decimalValue (ptr.takeWhile isDigit) : Int) ≤ LONG_MAX then
        (((decimalValue (ptr.takeWhile isDigit) : Nat) : Int), some (ptr.dropWhile isDigit))
      else (LONG_MAX, none) := by
  have run : ∀ c ∈ ptr.takeWhile isDigit, parseDigit c 10 ≠ -1 := fun c mem =>
    parseDigit_ten_ne.mpr (List.mem_takeWhile_imp mem)
  have nonempty : ptr.takeWhile isDigit ≠ [] := by
    cases ptr with
    | nil => simp [charAt, isDigit] at digit
    | cons c rest => simp [show isDigit c = true from digit]
  have stop : parseDigit (charAt (ptr.dropWhile isDigit)) 10 = -1 := by
    rw [parseDigit_ten]
    cases rest : ptr.dropWhile isDigit with
    | nil => rfl
    | cons c more =>
      have notDigit := List.head_dropWhile_not isDigit (l := ptr) (by simp [rest])
      simp only [rest, List.head_cons] at notDigit
      simp [charAt, notDigit]
  have value : digitsValue 10 0 (ptr.takeWhile isDigit) = decimalValue (ptr.takeWhile isDigit) :=
    digitsValue_decimal fun c mem => List.mem_takeWhile_imp mem
  unfold strtoll
  rw [← List.takeWhile_append_dropWhile (p := isDigit) (l := ptr), strtol_decimal_run nonempty run stop, value]
  simp only [List.takeWhile_append_dropWhile]

/-- The loop reads the run of digits at `ptr` as one part: what it makes of
the part and of the character after it. -/
theorem ipv4Loop_step {left : Nat} {ptr : List Char} {acc : List Nat} (digit : isDigit (charAt ptr) = true) :
    ipv4Loop (left + 1) ptr acc =
      if UINT32_MAX < decimalValue (ptr.takeWhile isDigit) then none
      else if (ptr.takeWhile isDigit).length > 1 ∧ charAt (ptr.takeWhile isDigit) = '0' then none
      else if isEndOfWord (charAt (ptr.dropWhile isDigit)) then
        some (acc ++ [decimalValue (ptr.takeWhile isDigit)], ptr, ptr.dropWhile isDigit)
      else if charAt (ptr.dropWhile isDigit) ≠ '.' then none
      else if left = 0 then
        some (acc ++ [decimalValue (ptr.takeWhile isDigit)], (ptr.dropWhile isDigit).drop 1, ptr.dropWhile isDigit)
      else ipv4Loop left ((ptr.dropWhile isDigit).drop 1) (acc ++ [decimalValue (ptr.takeWhile isDigit)]) := by
  have whole : ptr.takeWhile isDigit ++ ptr.dropWhile isDigit = ptr := List.takeWhile_append_dropWhile
  have nonempty : ptr.takeWhile isDigit ≠ [] := by
    cases ptr with
    | nil => simp [charAt, isDigit] at digit
    | cons c rest => simp [show isDigit c = true from digit]
  -- the part's length, and its first character, seen from `ptr`
  have shorter : ptr.length - (ptr.dropWhile isDigit).length = (ptr.takeWhile isDigit).length := by
    have := congrArg List.length whole
    rw [List.length_append] at this
    omega
  have moved : some (ptr.dropWhile isDigit) ≠ some ptr := by
    intro same
    have := congrArg List.length (Option.some.inj same)
    have := List.length_pos_of_ne_nil nonempty
    omega
  have first : charAt ptr = charAt (ptr.takeWhile isDigit) := by
    conv_lhs => rw [← whole]
    obtain ⟨c, cs, eq⟩ := List.exists_cons_of_ne_nil nonempty
    rw [eq]
    rfl
  rw [ipv4Loop.eq_2, if_neg (by simp [digit]), strtoll_at_digit digit]
  by_cases fits : ((decimalValue (ptr.takeWhile isDigit) : Nat) : Int) ≤ LONG_MAX
  · rw [if_pos fits]
    dsimp only
    rw [if_neg moved, shorter, ← first]
    by_cases range : UINT32_MAX < decimalValue (ptr.takeWhile isDigit)
    · rw [if_pos (Or.inr range), if_pos range]
    · rw [if_neg (by omega), if_neg range]
      simp only [Int.toNat_natCast]
  · -- an overflow: `LONG_MAX` is out of range
    rw [if_neg fits]
    dsimp only
    have big : UINT32_MAX < decimalValue (ptr.takeWhile isDigit) := by
      unfold UINT32_MAX
      unfold LONG_MAX at fits
      omega
    rw [if_neg (by simp), if_pos (Or.inr (by unfold UINT32_MAX LONG_MAX; norm_num)), if_pos big]

/-- The run of digits the loop reads is a part, once the range and
leading-zero checks have passed. -/
theorem decimalPart_takeWhile {ptr : List Char} (digit : isDigit (charAt ptr) = true)
    (range : ¬UINT32_MAX < decimalValue (ptr.takeWhile isDigit))
    (zero : ¬((ptr.takeWhile isDigit).length > 1 ∧ charAt (ptr.takeWhile isDigit) = '0')) :
    DecimalPart (ptr.takeWhile isDigit) ∧ decimalValue (ptr.takeWhile isDigit) < 2 ^ 32 := by
  have nonempty : ptr.takeWhile isDigit ≠ [] := by
    cases ptr with
    | nil => simp [charAt, isDigit] at digit
    | cons c rest => simp [show isDigit c = true from digit]
  have long := List.length_pos_of_ne_nil nonempty
  refine ⟨⟨nonempty, fun c mem => List.mem_takeWhile_imp mem, fun leading => ?_⟩, ?_⟩
  · have short : ¬(ptr.takeWhile isDigit).length > 1 := fun big => zero ⟨big, leading⟩
    omega
  unfold UINT32_MAX at range
  omega

theorem eq_cons_of_charAt {l : List Char} {c : Char} (at_ : charAt l = c) (notNul : c ≠ '\x00') :
    l = c :: l.drop 1 := by
  cases l with
  | nil => exact absurd at_.symm notNul
  | cons d rest =>
    cases at_
    rfl

/-- A loop that ends at the end of a word has read decimal parts, separated by
dots, up to there. -/
theorem ipv4Loop_some : ∀ {left : Nat} {ptr : List Char} {acc addr : List Nat} {ptr' next : List Char},
    ipv4Loop left ptr acc = some (addr, ptr', next) → isEndOfWord (charAt next) = true →
      ∃ parts : List (List Char), parts ≠ [] ∧ ptr = ['.'].intercalate parts ++ next ∧
        (∀ p ∈ parts, DecimalPart p ∧ decimalValue p < 2 ^ 32) ∧ addr = acc ++ parts.map decimalValue
  | 0, _, _, _, _, _, loop, _ => by cases loop
  | left + 1, ptr, acc, addr, ptr', next, loop, ended => by
    by_cases digit : isDigit (charAt ptr) = true
    swap
    · simp [ipv4Loop, digit] at loop
    rw [ipv4Loop_step digit] at loop
    have whole : ptr.takeWhile isDigit ++ ptr.dropWhile isDigit = ptr := List.takeWhile_append_dropWhile
    -- the branches that return false are closed by `split_ifs` itself
    split_ifs at loop with range zero wordEnd notDot last
    · -- the part ends the word
      cases loop
      exact ⟨[ptr.takeWhile isDigit], by simp, by simp [whole], by simpa using decimalPart_takeWhile digit range zero,
        rfl⟩
    · -- a fourth part followed by a dot: the loop ends at the dot, which ends no word
      cases loop
      rw [not_not.mp notDot] at ended
      cases ended
    · -- a part followed by a dot: the rest of the word is read on
      obtain ⟨parts, nonempty, rest, good, rfl⟩ := ipv4Loop_some loop ended
      refine ⟨ptr.takeWhile isDigit :: parts, List.cons_ne_nil _ _, ?_, ?_, by simp⟩
      · rw [List.intercalate_cons_of_ne_nil nonempty, List.append_assoc, List.append_assoc, ← rest]
        conv_lhs => rw [← whole, eq_cons_of_charAt (not_not.mp notDot) (by decide)]
        rfl
      · intro p mem
        rcases List.mem_cons.mp mem with rfl | later
        · exact decimalPart_takeWhile digit range zero
        · exact good p later

theorem isDigit_of_isEndOfWord {c : Char} (ended : isEndOfWord c = true) : isDigit c = false := by
  simp only [isEndOfWord, Bool.or_eq_true, beq_iff_eq] at ended
  rcases ended with ((rfl | rfl) | rfl) | rfl <;> decide

/-- At a character that is no digit, the digit run is empty. -/
theorem digits_of_stop {l : List Char} (stop : isDigit (charAt l) = false) :
    l.takeWhile isDigit = [] ∧ l.dropWhile isDigit = l := by
  cases l with
  | nil => exact ⟨rfl, rfl⟩
  | cons c rest =>
    have notDigit : isDigit c = false := stop
    simp [List.takeWhile_cons, List.dropWhile_cons, notDigit]

/-- On decimal parts separated by dots and followed by the end of a word, the
loop reads every part, if it has the iterations for them. -/
theorem ipv4Loop_parts : ∀ {parts : List (List Char)} {left : Nat} {rest : List Char} {acc : List Nat},
    parts ≠ [] → parts.length ≤ left → (∀ p ∈ parts, DecimalPart p ∧ decimalValue p < 2 ^ 32) →
      isEndOfWord (charAt rest) = true →
      ∃ ptr', ipv4Loop left (['.'].intercalate parts ++ rest) acc = some (acc ++ parts.map decimalValue, ptr', rest)
  | [], _, _, _, nonempty, _, _, _ => absurd rfl nonempty
  | _ :: _, 0, _, _, _, long, _, _ => by simp at long
  | p :: ps, left + 1, rest, acc, _, long, good, ended => by
    obtain ⟨⟨nonemptyP, digits, leading⟩, small⟩ := good p List.mem_cons_self
    -- what follows the part: the end of the word, or a dot and the next part
    have split : ['.'].intercalate (p :: ps) ++ rest = p ++ (if ps = [] then rest else '.' :: (['.'].intercalate ps ++ rest)) := by
      cases ps with
      | nil => simp
      | cons q qs => simp
    have stop : isDigit (charAt (if ps = [] then rest else '.' :: (['.'].intercalate ps ++ rest))) = false := by
      split
      · exact isDigit_of_isEndOfWord ended
      · rfl
    obtain ⟨noDigits, kept⟩ := digits_of_stop stop
    have digit : isDigit (charAt (p ++ (if ps = [] then rest else '.' :: (['.'].intercalate ps ++ rest)))) = true := by
      obtain ⟨c, cs, rfl⟩ := List.exists_cons_of_ne_nil nonemptyP
      exact digits c List.mem_cons_self
    have range : ¬UINT32_MAX < decimalValue p := by
      unfold UINT32_MAX
      omega
    have zero : ¬(p.length > 1 ∧ charAt p = '0') := fun ⟨big, first⟩ => by
      have := leading first
      omega
    rw [split, ipv4Loop_step digit, List.takeWhile_append_of_pos digits, List.dropWhile_append_of_pos digits, noDigits,
      List.append_nil, kept, if_neg range, if_neg zero]
    cases ps with
    | nil =>
      -- the last part: the word ends after it
      rw [if_pos rfl, if_pos ended]
      exact ⟨p ++ rest, by simp⟩
    | cons q qs =>
      -- a dot, and iterations left for the parts after it
      have more : left ≠ 0 := by
        simp only [List.length_cons] at long
        omega
      have dotNoEnd : ¬isEndOfWord (charAt ('.' :: (['.'].intercalate (q :: qs) ++ rest))) = true := by
        show ¬isEndOfWord '.' = true
        decide
      have dot : ¬charAt ('.' :: (['.'].intercalate (q :: qs) ++ rest)) ≠ '.' := not_not.mpr rfl
      rw [if_neg (List.cons_ne_nil q qs), if_neg dotNoEnd, if_neg dot, if_neg more]
      obtain ⟨ptr', loop⟩ := @ipv4Loop_parts (q :: qs) left rest (acc ++ [decimalValue p]) (List.cons_ne_nil q qs)
        (by simp only [List.length_cons] at long ⊢; omega) (fun p' mem => good p' (List.mem_cons_of_mem _ mem)) ended
      refine ⟨ptr', ?_⟩
      rw [show ('.' :: (['.'].intercalate (q :: qs) ++ rest)).drop 1 = ['.'].intercalate (q :: qs) ++ rest from rfl, loop]
      simp

/-- On parts below `2^32`, the checks and combination after the loop are
`inet_aton`'s. -/
theorem ipv4Combine_eq {values : List Nat} (bounded : ∀ v ∈ values, v < 2 ^ 32) :
    ipv4Combine values = inetAtonValue values := by
  match values, bounded with
  | [], _ => rfl
  | [a], bounded =>
    have small := bounded a (by simp)
    simp only [ipv4Combine, inetAtonValue, if_pos small]
  | [a, b], _ =>
    simp only [ipv4Combine, inetAtonValue]
    by_cases fits : a ≤ 255 ∧ b < 2 ^ 24
    · rw [if_neg (by omega), if_pos fits]
    · rw [if_pos (by omega), if_neg fits]
  | [a, b, c], _ =>
    simp only [ipv4Combine, inetAtonValue]
    by_cases fits : a ≤ 255 ∧ b ≤ 255 ∧ c < 2 ^ 16
    · rw [if_neg (by omega), if_pos fits]
    · rw [if_pos (by omega), if_neg fits]
  | [a, b, c, d], _ =>
    simp only [ipv4Combine, inetAtonValue]
    by_cases fits : a ≤ 255 ∧ b ≤ 255 ∧ c ≤ 255 ∧ d < 2 ^ 8
    · rw [if_neg (by omega), if_pos fits]
    · rw [if_pos (by omega), if_neg fits]
  | _ :: _ :: _ :: _ :: _ :: _, _ => rfl

/-- `inet_aton` takes one to four parts, each below `2^32`. -/
theorem inetAtonValue_some {values : List Nat} {addr : UInt32} (valued : inetAtonValue values = some addr) :
    values ≠ [] ∧ values.length ≤ 4 ∧ ∀ v ∈ values, v < 2 ^ 32 := by
  match values, valued with
  | [a], valued =>
    simp only [inetAtonValue] at valued
    split_ifs at valued with small
    exact ⟨by simp, by simp, by simpa using small⟩
  | [a, b], valued =>
    simp only [inetAtonValue] at valued
    split_ifs at valued with small
    refine ⟨by simp, by simp, ?_⟩
    simp only [List.mem_cons, List.not_mem_nil, or_false]
    rintro v (rfl | rfl) <;> omega
  | [a, b, c], valued =>
    simp only [inetAtonValue] at valued
    split_ifs at valued with small
    refine ⟨by simp, by simp, ?_⟩
    simp only [List.mem_cons, List.not_mem_nil, or_false]
    rintro v (rfl | rfl | rfl) <;> omega
  | [a, b, c, d], valued =>
    simp only [inetAtonValue] at valued
    split_ifs at valued with small
    refine ⟨by simp, by simp, ?_⟩
    simp only [List.mem_cons, List.not_mem_nil, or_false]
    rintro v (rfl | rfl | rfl | rfl) <;> omega

/-- `parse_ip_addr_ipv4` is `inet_aton` over decimal parts: it succeeds with an
address exactly when the string begins with one to four dot-separated decimal
parts, none with a leading zero unless it is "0", followed by the end of a
word, with the parts in their ranges; and the address is their big-endian
combination. -/
theorem parseIpAddrIpv4_iff_inetAton (s : List Char) (addr : UInt32) :
    (∃ ptr, parseIpAddrIpv4 s = some (addr, ptr)) ↔
      ∃ parts rest, s = ['.'].intercalate parts ++ rest ∧ (∀ p ∈ parts, DecimalPart p) ∧
        isEndOfWord (charAt rest) = true ∧ inetAtonValue (parts.map decimalValue) = some addr := by
  constructor
  · -- what the parser read: decimal parts up to the end of a word
    rintro ⟨ptr, parsed⟩
    unfold parseIpAddrIpv4 at parsed
    rcases loop : ipv4Loop 4 s [] with _ | ⟨values, ptr', next⟩
    · rw [loop] at parsed
      cases parsed
    rw [loop] at parsed
    dsimp only at parsed
    by_cases ended : isEndOfWord (charAt next) = true
    swap
    · simp [ended] at parsed
    rw [if_neg (by simp [ended])] at parsed
    obtain ⟨parts, -, rfl, good, rfl⟩ := ipv4Loop_some loop ended
    obtain ⟨value, combined, same⟩ := Option.map_eq_some_iff.mp parsed
    simp only [Prod.mk.injEq] at same
    obtain ⟨rfl, -⟩ := same
    have bounded : ∀ v ∈ [] ++ parts.map decimalValue, v < 2 ^ 32 := by
      simp only [List.nil_append, List.mem_map]
      rintro v ⟨p, mem, rfl⟩
      exact (good p mem).2
    rw [ipv4Combine_eq bounded, List.nil_append] at combined
    exact ⟨parts, next, rfl, fun p mem => (good p mem).1, ended, combined⟩
  · -- decimal parts up to the end of a word: the loop reads them all
    rintro ⟨parts, rest, rfl, decimal, ended, valued⟩
    obtain ⟨nonempty, few, bounded⟩ := inetAtonValue_some valued
    have good : ∀ p ∈ parts, DecimalPart p ∧ decimalValue p < 2 ^ 32 := fun p mem =>
      ⟨decimal p mem, bounded _ (List.mem_map_of_mem mem)⟩
    obtain ⟨ptr', loop⟩ := @ipv4Loop_parts parts 4 rest [] (by simpa using nonempty) (by simpa using few) good ended
    refine ⟨ptr', ?_⟩
    unfold parseIpAddrIpv4
    rw [loop]
    dsimp only
    rw [if_neg (by simp [ended]), List.nil_append, ipv4Combine_eq bounded, valued]
    rfl

end Ipv4

end Gramine.Pal
