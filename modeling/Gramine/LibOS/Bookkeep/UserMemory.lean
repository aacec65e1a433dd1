import Gramine.LibOS.Bookkeep.VmaUserRange

/-!
# Checking user pointers: `access_ok`, `is_user_memory_readable`, `is_user_string_readable`

A system call checks a pointer it got from the user before it reads through
it. `access_ok` refuses a range whose end wraps around the address space or
lies in its last page; `test_user_memory` adds that the range lies, end to
end, in the valid parts of mapped user VMAs with the right protection
(`is_in_adjacent_user_vmas`). `is_user_string_readable` does not know how long
the string is: it checks the chunk up to the next page boundary, looks for the
NUL in it with `strnlen`, and goes on a page at a time.

Pointers and sizes are `uintptr_t` and `size_t`, so `UInt64`. The reads of
`strnlen` go through `read`, which answers `none` for a read that faults; the
theorems take any `read` that returns the bytes of `mem` where the memory is
readable user memory, and anything (a fault included) elsewhere. The check
then never reads outside readable user memory, and it accepts exactly the
strings whose NUL's page ends below the last page, with every byte up to that
page end readable (`ReadableString`). That is not
`is_user_memory_readable(addr, strlen(addr) + 1)`: a string whose NUL lies in
the page just below the last one passes that check and is refused here.
-/

namespace Gramine.LibOS.Bookkeep

open IntervalList

variable {allocAlignment : Nat} {s : VmaState}

section Pages

/-- `PAGE_SIZE` on x86-64. -/
def PAGE_SIZE : UInt64 := (1 : UInt64) <<< 12

/-- `ALIGN_DOWN(val, alignment)` on a `uintptr_t`. -/
def alignDown (val alignment : UInt64) : UInt64 := val - val % alignment

/-- `ALIGN_UP(val, alignment)` on a `uintptr_t`; past the last aligned value it wraps to `0`. -/
def alignUp (val alignment : UInt64) : UInt64 := alignDown (val + alignment - 1) alignment

/-- `__range_not_ok` on x86-64: the end of the range wraps around, or lies in
the last page of the address space. -/
def rangeNotOk (addr size : UInt64) : Bool :=
  let addr := addr + size
  if addr < size then true
  else if addr &&& ~~~(PAGE_SIZE - 1) == ~~~(PAGE_SIZE - 1) then true
  else false

/-- `access_ok(addr, size)`. -/
def accessOk (addr size : UInt64) : Bool := !rangeNotOk addr size

/-- The end of the page that holds the byte at `x`. -/
def pageEnd (x : Nat) : Nat := (x / 4096 + 1) * 4096

attribute [grind] PAGE_SIZE alignDown alignUp pageEnd

theorem page_toNat : PAGE_SIZE.toNat = 4096 := by
  unfold PAGE_SIZE; decide

theorem toNat_and_pageMask (x : UInt64) :
    (x &&& ~~~(PAGE_SIZE - 1)).toNat = x.toNat / 4096 * 4096 := by
  have mask : (~~~(PAGE_SIZE - 1) : UInt64).toNat = 2 ^ 64 - 4096 := by unfold PAGE_SIZE; decide
  rw [UInt64.toNat_and, mask]
  have low : (x.toNat &&& 2 ^ 64 - 4096) % 2 ^ 12 = 0 := by
    rw [Nat.and_mod_two_pow]; simp
  have high : (x.toNat &&& 2 ^ 64 - 4096) / 2 ^ 12 = x.toNat / 2 ^ 12 := by
    rw [Nat.and_div_two_pow]
    have : (2 ^ 64 - 4096) / 2 ^ 12 = 2 ^ 52 - 1 := by decide
    rw [this, Nat.and_two_pow_sub_one_eq_mod]
    exact Nat.mod_eq_of_lt (by have := x.toNat_lt; omega)
  have := Nat.div_add_mod (x.toNat &&& 2 ^ 64 - 4096) (2 ^ 12)
  omega

theorem inLastPage_iff (x : UInt64) :
    (x &&& ~~~(PAGE_SIZE - 1) == ~~~(PAGE_SIZE - 1)) = true ↔ 2 ^ 64 - 4096 ≤ x.toNat := by
  have mask : (~~~(PAGE_SIZE - 1) : UInt64).toNat = 2 ^ 64 - 4096 := by unfold PAGE_SIZE; decide
  rw [beq_iff_eq, ← UInt64.toNat_inj, toNat_and_pageMask, mask]
  have := x.toNat_lt
  omega

/-- `access_ok` accepts exactly the ranges that end below the last page. -/
theorem accessOk_iff {addr size : UInt64} :
    accessOk addr size = true ↔ addr.toNat + size.toNat < 2 ^ 64 - 4096 := by
  have sum : (addr + size).toNat = (addr.toNat + size.toNat) % 2 ^ 64 := UInt64.toNat_add addr size
  unfold accessOk rangeNotOk
  by_cases wraps : addr + size < size
  · have wrapped : 2 ^ 64 ≤ addr.toNat + size.toNat := by
      rw [UInt64.lt_iff_toNat_lt, sum] at wraps
      by_contra fits
      rw [Nat.mod_eq_of_lt (by omega)] at wraps
      omega
    simp only [wraps, if_true, Bool.not_true, Bool.false_eq_true, false_iff]
    omega
  · have fits : addr.toNat + size.toNat < 2 ^ 64 := by
      rw [UInt64.lt_iff_toNat_lt, sum] at wraps
      by_contra wrapped
      have := addr.toNat_lt
      rw [Nat.mod_eq_sub_mod (by omega), Nat.mod_eq_of_lt (by omega)] at wraps
      omega
    have endNat : (addr + size).toNat = addr.toNat + size.toNat := by
      rw [sum, Nat.mod_eq_of_lt fits]
    rw [if_neg wraps]
    by_cases last : (addr + size &&& ~~~(PAGE_SIZE - 1) == ~~~(PAGE_SIZE - 1)) = true
    · have := (inLastPage_iff _).mp last
      simp only [last, if_true, Bool.not_true, Bool.false_eq_true, false_iff]
      omega
    · have := mt (inLastPage_iff _).mpr last
      simp only [last, Bool.false_eq_true, if_false, Bool.not_false, true_iff]
      omega

theorem pageEnd_above (x : Nat) : x < pageEnd x := by
  unfold pageEnd; omega

theorem pageEnd_mono {x y : Nat} (h : x ≤ y) : pageEnd x ≤ pageEnd y := by
  unfold pageEnd
  have := Nat.div_le_div_right (c := 4096) h
  omega

theorem pageEnd_eq_of_lt {x y : Nat} (low : x ≤ y) (high : y < pageEnd x) : pageEnd y = pageEnd x := by
  unfold pageEnd at *; omega

/-- `ALIGN_UP(p + 1, PAGE_SIZE)` is the end of `p`'s page, or `0` in the last page. -/
theorem toNat_alignUp_succ (p : UInt64) :
    (alignUp (p + 1) PAGE_SIZE).toNat = if p.toNat < 2 ^ 64 - 4096 then pageEnd p.toNat else 0 := by
  simp only [alignUp, alignDown, UInt64.toNat_sub, UInt64.toNat_add, UInt64.toNat_mod,
    UInt64.toNat_one, page_toNat, pageEnd]
  have := p.toNat_lt
  split <;> omega

theorem alignUp_succ_of_aligned {q : UInt64} (aligned : q.toNat % 4096 = 0)
    (below : q.toNat < 2 ^ 64 - 4096) : alignUp (q + 1) PAGE_SIZE = q + PAGE_SIZE := by
  apply UInt64.toNat_inj.mp
  rw [toNat_alignUp_succ, if_pos below, UInt64.toNat_add, page_toNat]
  unfold pageEnd
  omega

/-- The first chunk of `is_user_string_readable` ends at the end of the page. -/
theorem chunk_toNat {p : UInt64} (below : pageEnd p.toNat < 2 ^ 64 - 4096) :
    (alignUp (p + 1) PAGE_SIZE).toNat = pageEnd p.toNat := by
  have := pageEnd_above p.toNat
  rw [toNat_alignUp_succ, if_pos (by omega)]

theorem chunkLength_toNat {p : UInt64} (below : pageEnd p.toNat < 2 ^ 64 - 4096) :
    (alignUp (p + 1) PAGE_SIZE - p).toNat = pageEnd p.toNat - p.toNat := by
  have := pageEnd_above p.toNat
  rw [UInt64.toNat_sub_of_le _ _ (UInt64.le_iff_toNat_le.mpr (by rw [chunk_toNat below]; omega)),
    chunk_toNat below]

/-- `access_ok` passes the chunk from `p` to its page boundary exactly when
that page is below the last one; in the last page the boundary wraps to `0`. -/
theorem accessOk_chunk_iff {p : UInt64} :
    accessOk p (alignUp (p + 1) PAGE_SIZE - p) = true ↔ pageEnd p.toNat < 2 ^ 64 - 4096 := by
  rw [accessOk_iff, UInt64.toNat_sub, toNat_alignUp_succ]
  have := pageEnd_above p.toNat
  have := p.toNat_lt
  split
  · unfold pageEnd at *; omega
  · unfold pageEnd at *; omega

theorem toNat_add_ofNat {p : UInt64} {i : Nat} (fits : p.toNat + i < 2 ^ 64) :
    (p + UInt64.ofNat i).toNat = p.toNat + i := by
  rw [UInt64.toNat_add, UInt64.toNat_ofNat', Nat.mod_eq_of_lt (a := i) (by omega),
    Nat.mod_eq_of_lt fits]

theorem eq_add_ofNat_sub {p q : UInt64} (h : p.toNat ≤ q.toNat) :
    q = p + UInt64.ofNat (q.toNat - p.toNat) := by
  apply UInt64.toNat_inj.mp
  rw [UInt64.toNat_add, UInt64.toNat_ofNat']
  have := q.toNat_lt
  omega

theorem add_one_add_ofNat (str : UInt64) (i : Nat) :
    str + 1 + UInt64.ofNat i = str + UInt64.ofNat (i + 1) := by
  rw [UInt64.ofNat_add, UInt64.ofNat_one, UInt64.add_assoc, UInt64.add_comm 1]

end Pages

section Checks

/-- `test_user_memory(addr, size, writable)`. -/
def testUserMemory (addr size : UInt64) (writable : Bool) (s : VmaState) : Bool :=
  if !accessOk addr size then false
  else isInAdjacentUserVmas addr.toNat size.toNat (if writable then PROT_WRITE else PROT_READ) s

/-- `is_user_memory_readable(addr, size)`; `checkInvalidPtrs` is `g_check_invalid_ptrs`. -/
def isUserMemoryReadable (checkInvalidPtrs : Bool) (addr size : UInt64) (s : VmaState) : Bool :=
  if !checkInvalidPtrs then true else testUserMemory addr size false s

/-- `strnlen(str, maxlen)`: the bytes are read one at a time through `read`,
and a read that faults (`none`) ends the call. -/
def strnlen (read : UInt64 → Option UInt8) (str : UInt64) : Nat → Option Nat
  | 0 => some 0
  | maxlen + 1 =>
    match read str with
    | none => none
    | some c => if c = 0 then some 0 else (strnlen read (str + 1) maxlen).map (· + 1)

/-- The loop of `is_user_string_readable`, at the chunk `[addr, addr + len)`
that ends at `nextPageAddr`. -/
def userStringLoop (read : UInt64 → Option UInt8) (s : VmaState) (addr nextPageAddr len : UInt64) :
    Option Bool :=
  if !accessOk addr len then some false
  else if !isInAdjacentUserVmas addr.toNat len.toNat PROT_READ s then some false
  else match strnlen read addr len.toNat with
    | none => none
    | some n =>
      -- the string ended
      if n ≠ len.toNat then some true
      -- do not wrap around the address space
      else if nextPageAddr ≤ addr then some false
      else userStringLoop read s nextPageAddr (nextPageAddr + PAGE_SIZE) PAGE_SIZE
termination_by 2 ^ 64 - addr.toNat
decreasing_by
  rename_i noWrap
  have := UInt64.lt_iff_toNat_lt.mp (UInt64.not_le.mp noWrap)
  have := nextPageAddr.toNat_lt
  omega

/-- `is_user_string_readable(addr)`. The source asserts that the first
boundary differs from `addr`, which `ALIGN_UP(addr + 1)` always gives. -/
def isUserStringReadable (checkInvalidPtrs : Bool) (read : UInt64 → Option UInt8) (s : VmaState)
    (addr : UInt64) : Option Bool :=
  if !checkInvalidPtrs then some true
  else
    let nextPageAddr := alignUp (addr + 1) PAGE_SIZE
    userStringLoop read s addr nextPageAddr (nextPageAddr - addr)

attribute [grind] userStringLoop

end Checks

section Memory

/-- The byte at `x` is readable user memory: it lies in the valid part of a
mapped user VMA with `PROT_READ`. -/
def UserReadable (s : VmaState) (x : Nat) : Prop :=
  ∃ vma ∈ s.vmaTree, vma.begin ≤ x ∧ x < vma.validEnd ∧ IsUserMapping PROT_READ vma

instance (s : VmaState) (x : Nat) : Decidable (UserReadable s x) :=
  inferInstanceAs (Decidable (∃ vma ∈ s.vmaTree, _))

/-- Memory `mem` behind the user mappings, where every other read faults. -/
def readUser (s : VmaState) (mem : UInt64 → UInt8) (a : UInt64) : Option UInt8 :=
  if UserReadable s a.toNat then some (mem a) else none

/-- `read` returns the bytes of `mem` in readable user memory; elsewhere it may
fault or return anything. -/
def ReadsMemory (s : VmaState) (mem : UInt64 → UInt8) (read : UInt64 → Option UInt8) : Prop :=
  ∀ a, UserReadable s a.toNat → read a = some (mem a)

theorem readUser_readsMemory (s : VmaState) (mem : UInt64 → UInt8) :
    ReadsMemory s mem (readUser s mem) :=
  fun _ readable => if_pos readable

/-- What `is_user_string_readable` accepts: a NUL at `addr + n` and none
before it, the NUL's page ending below the last page of the address space, and
readable user memory from `addr` to that page end. -/
def ReadableString (s : VmaState) (mem : UInt64 → UInt8) (addr : UInt64) : Prop :=
  ∃ n : Nat, (∀ i < n, mem (addr + UInt64.ofNat i) ≠ 0) ∧ mem (addr + UInt64.ofNat n) = 0 ∧
    pageEnd (addr.toNat + n) < 2 ^ 64 - 4096 ∧
    ∀ x, addr.toNat ≤ x → x < pageEnd (addr.toNat + n) → UserReadable s x

theorem isInAdjacentUserVmas_read_iff (wf : s.WellFormed allocAlignment) {addr length : Nat} :
    isInAdjacentUserVmas addr length PROT_READ s = true ↔
      ∀ x, addr ≤ x → x < addr + length → UserReadable s x :=
  isInAdjacentUserVmas_iff wf

/-- `is_user_memory_readable` with the check enabled accepts exactly the ranges
below the last page whose bytes are all readable user memory. -/
theorem testUserMemory_read_iff (wf : s.WellFormed allocAlignment) {addr size : UInt64} :
    testUserMemory addr size false s = true ↔
      addr.toNat + size.toNat < 2 ^ 64 - 4096 ∧
        ∀ x, addr.toNat ≤ x → x < addr.toNat + size.toNat → UserReadable s x := by
  rw [← accessOk_iff, ← isInAdjacentUserVmas_read_iff wf]
  unfold testUserMemory
  cases accessOk addr size <;> simp

/-- Over readable bytes `strnlen` does not fault: it stops at the first NUL,
or at `len`. -/
theorem strnlen_of_readsMemory {mem : UInt64 → UInt8} {read : UInt64 → Option UInt8}
    (reads : ReadsMemory s mem read) (len : Nat) (str : UInt64)
    (readable : ∀ i < len, UserReadable s (str + UInt64.ofNat i).toNat) :
    ∃ k ≤ len, strnlen read str len = some k ∧
      (∀ i < k, mem (str + UInt64.ofNat i) ≠ 0) ∧ (k < len → mem (str + UInt64.ofNat k) = 0) := by
  induction len generalizing str with
  | zero => exact ⟨0, le_refl 0, rfl, by simp, by simp⟩
  | succ len ih =>
    have first : read str = some (mem str) := reads str (by simpa using readable 0 (by omega))
    by_cases nul : mem str = 0
    · exact ⟨0, by omega, by simp [strnlen, first, nul], by simp, fun _ => by simpa using nul⟩
    · have shifted : ∀ i < len, UserReadable s (str + 1 + UInt64.ofNat i).toNat := fun i below => by
        rw [add_one_add_ofNat]; exact readable (i + 1) (by omega)
      obtain ⟨k, atMost, found, before, stops⟩ := ih (str + 1) shifted
      refine ⟨k + 1, by omega, by simp [strnlen, first, nul, found], fun i below => ?_, fun below => ?_⟩
      · cases i with
        | zero => simpa using nul
        | succ i => rw [← add_one_add_ofNat]; exact before i (by omega)
      · rw [← add_one_add_ofNat]; exact stops (by omega)

variable {mem : UInt64 → UInt8} {p : UInt64}

/-- What a readable string asks of its first chunk: it ends below the last
page and is readable. -/
theorem ReadableString.chunk (h : ReadableString s mem p) :
    pageEnd p.toNat < 2 ^ 64 - 4096 ∧
      ∀ x, p.toNat ≤ x → x < pageEnd p.toNat → UserReadable s x := by
  obtain ⟨n, -, -, below, readable⟩ := h
  have mono : pageEnd p.toNat ≤ pageEnd (p.toNat + n) := pageEnd_mono (by omega)
  exact ⟨by omega, fun x low high => readable x low (by omega)⟩

theorem readableString_of_nul {k : Nat} (inside : p.toNat + k < pageEnd p.toNat)
    (before : ∀ i < k, mem (p + UInt64.ofNat i) ≠ 0) (nul : mem (p + UInt64.ofNat k) = 0)
    (below : pageEnd p.toNat < 2 ^ 64 - 4096)
    (readable : ∀ x, p.toNat ≤ x → x < pageEnd p.toNat → UserReadable s x) :
    ReadableString s mem p := by
  have samePage : pageEnd (p.toNat + k) = pageEnd p.toNat := pageEnd_eq_of_lt (by omega) inside
  exact ⟨k, before, nul, by rw [samePage]; exact below, by rw [samePage]; exact readable⟩

/-- Past a checked chunk with no NUL in it, a string from `p` is readable
exactly when the string from the page boundary `q` is. -/
theorem readableString_next_iff {q : UInt64} (next : q.toNat = pageEnd p.toNat)
    (nonzero : ∀ i < pageEnd p.toNat - p.toNat, mem (p + UInt64.ofNat i) ≠ 0)
    (readable : ∀ x, p.toNat ≤ x → x < pageEnd p.toNat → UserReadable s x) :
    ReadableString s mem p ↔ ReadableString s mem q := by
  have above := pageEnd_above p.toNat
  have shift : ∀ i, q + UInt64.ofNat i = p + UInt64.ofNat (pageEnd p.toNat - p.toNat + i) := by
    intro i
    rw [eq_add_ofNat_sub (p := p) (q := q) (by omega), next, UInt64.ofNat_add, UInt64.add_assoc]
  constructor
  · rintro ⟨n, before, nul, below, readable'⟩
    -- the NUL lies past the first chunk, whose bytes are not NUL
    have past : pageEnd p.toNat - p.toNat ≤ n := by
      by_contra inside
      exact nonzero n (by omega) nul
    have sameEnd : pageEnd p.toNat + (n - (pageEnd p.toNat - p.toNat)) = p.toNat + n := by omega
    refine ⟨n - (pageEnd p.toNat - p.toNat), fun i lt => ?_, ?_, ?_, fun x low high => ?_⟩
    · rw [shift]; exact before _ (by omega)
    · rw [shift, Nat.add_sub_cancel' past]; exact nul
    · rw [next, sameEnd]; exact below
    · rw [next, sameEnd] at high
      exact readable' x (by omega) high
  · rintro ⟨m, before, nul, below, readable'⟩
    have sameEnd : p.toNat + (pageEnd p.toNat - p.toNat + m) = pageEnd p.toNat + m := by omega
    refine ⟨pageEnd p.toNat - p.toNat + m, fun i lt => ?_, by rw [← shift]; exact nul, ?_,
      fun x low high => ?_⟩
    · by_cases first : i < pageEnd p.toNat - p.toNat
      · exact nonzero i first
      · have := before (i - (pageEnd p.toNat - p.toNat)) (by omega)
        rwa [shift, Nat.add_sub_cancel' (by omega)] at this
    · rw [next] at below; rwa [sameEnd]
    · by_cases first : x < pageEnd p.toNat
      · exact readable x low first
      · rw [sameEnd] at high
        exact readable' x (by omega) (by rw [next]; exact high)

/-- A chunk that fails `access_ok`, or is not all readable user memory, ends
the loop with "no" before anything is read. -/
theorem userStringLoop_refused (wf : s.WellFormed allocAlignment) {read : UInt64 → Option UInt8}
    (refused : ¬ (pageEnd p.toNat < 2 ^ 64 - 4096 ∧
      ∀ x, p.toNat ≤ x → x < pageEnd p.toNat → UserReadable s x)) :
    userStringLoop read s p (alignUp (p + 1) PAGE_SIZE) (alignUp (p + 1) PAGE_SIZE - p) =
      some false := by
  rw [userStringLoop]
  by_cases below : pageEnd p.toNat < 2 ^ 64 - 4096
  · have unreadable : isInAdjacentUserVmas p.toNat (alignUp (p + 1) PAGE_SIZE - p).toNat PROT_READ s =
        false := by
      rw [← Bool.not_eq_true, isInAdjacentUserVmas_read_iff wf, chunkLength_toNat below,
        Nat.add_sub_cancel' (pageEnd_above p.toNat).le]
      exact fun readable => refused ⟨below, readable⟩
    simp [accessOk_chunk_iff.mpr below, unreadable]
  · have refusedAccess : accessOk p (alignUp (p + 1) PAGE_SIZE - p) = false := by
      rw [← Bool.not_eq_true, accessOk_chunk_iff]; exact below
    simp [refusedAccess]

/-- A checked chunk: `strnlen` runs over it, and when it finds no NUL the loop
goes on at the page boundary, which does not wrap. -/
theorem userStringLoop_accepted (wf : s.WellFormed allocAlignment) {read : UInt64 → Option UInt8}
    (below : pageEnd p.toNat < 2 ^ 64 - 4096)
    (readable : ∀ x, p.toNat ≤ x → x < pageEnd p.toNat → UserReadable s x) :
    userStringLoop read s p (alignUp (p + 1) PAGE_SIZE) (alignUp (p + 1) PAGE_SIZE - p) =
      (strnlen read p (pageEnd p.toNat - p.toNat)).bind fun n =>
        if n ≠ pageEnd p.toNat - p.toNat then some true
        else userStringLoop read s (alignUp (p + 1) PAGE_SIZE)
          (alignUp (alignUp (p + 1) PAGE_SIZE + 1) PAGE_SIZE)
          (alignUp (alignUp (p + 1) PAGE_SIZE + 1) PAGE_SIZE - alignUp (p + 1) PAGE_SIZE) := by
  have chunkEnd := chunk_toNat below
  have above := pageEnd_above p.toNat
  have accepted : isInAdjacentUserVmas p.toNat (alignUp (p + 1) PAGE_SIZE - p).toNat PROT_READ s =
      true := by
    rw [isInAdjacentUserVmas_read_iff wf, chunkLength_toNat below, Nat.add_sub_cancel' above.le]
    exact readable
  have noWrap : ¬ alignUp (p + 1) PAGE_SIZE ≤ p := by
    rw [UInt64.le_iff_toNat_le, chunkEnd]; omega
  -- the next chunk is the whole page from the boundary
  have aligned : alignUp (alignUp (p + 1) PAGE_SIZE + 1) PAGE_SIZE =
      alignUp (p + 1) PAGE_SIZE + PAGE_SIZE :=
    alignUp_succ_of_aligned (by rw [chunkEnd]; unfold pageEnd; omega) (by rw [chunkEnd]; exact below)
  rw [userStringLoop, if_neg (by simp [accessOk_chunk_iff.mpr below]), if_neg (by simp [accepted]),
    chunkLength_toNat below, aligned, UInt64.add_comm _ PAGE_SIZE, UInt64.add_sub_cancel]
  cases strnlen read p (pageEnd p.toNat - p.toNat) with
  | none => rfl
  | some n => simp only [Option.bind_some, if_neg noWrap, UInt64.add_comm PAGE_SIZE]

/-- The loop, from a chunk that ends at its page boundary, never faults and
answers whether the string there is readable. The induction is on the
distance to the top of the address space, which every page shortens. -/
theorem userStringLoop_spec (wf : s.WellFormed allocAlignment) {read : UInt64 → Option UInt8}
    (reads : ReadsMemory s mem read) (p : UInt64) :
    ∃ b, userStringLoop read s p (alignUp (p + 1) PAGE_SIZE)
        (alignUp (p + 1) PAGE_SIZE - p) = some b ∧ (b = true ↔ ReadableString s mem p) := by
  induction p using (measure fun p : UInt64 => 2 ^ 64 - p.toNat).wf.induction with
  | h p ih =>
  by_cases checked : pageEnd p.toNat < 2 ^ 64 - 4096 ∧
      ∀ x, p.toNat ≤ x → x < pageEnd p.toNat → UserReadable s x
  case neg =>
    exact ⟨false, userStringLoop_refused wf checked, by simpa using fun h => checked h.chunk⟩
  obtain ⟨below, readable⟩ := checked
  have above := pageEnd_above p.toNat
  rw [userStringLoop_accepted wf below readable]
  obtain ⟨k, atMost, found, before, stops⟩ :=
    strnlen_of_readsMemory reads (pageEnd p.toNat - p.toNat) p (fun i lt => by rw [toNat_add_ofNat (by omega)]; exact readable _ (by omega) (by omega))
  rw [found, Option.bind_some]
  by_cases ended : k = pageEnd p.toNat - p.toNat
  case neg =>
    exact ⟨true, if_pos ended, iff_of_true rfl
      (readableString_of_nul (by omega) before (stops (by omega)) below readable)⟩
  subst ended
  have chunkEnd := chunk_toNat below
  obtain ⟨b, run, spec⟩ := ih (alignUp (p + 1) PAGE_SIZE) (by
    show 2 ^ 64 - (alignUp (p + 1) PAGE_SIZE).toNat < 2 ^ 64 - p.toNat
    rw [chunkEnd]; omega)
  exact ⟨b, by rw [if_neg (not_not_intro rfl)]; exact run,
    spec.trans (readableString_next_iff chunkEnd before readable).symm⟩

/-- A readable user mapping of the page just below the last one. -/
def belowLastPage : VmaState :=
  ⟨[⟨1, 2 ^ 64 - 8192, 2 ^ 64 - 4096, 2 ^ 64 - 4096, PROT_READ, MAP_PRIVATE ||| MAP_ANONYMOUS, none, 0⟩],
    4096, 2⟩

theorem belowLastPage_wellFormed : belowLastPage.WellFormed 4096 :=
  ⟨fun vma member => by
      obtain rfl := List.mem_singleton.mp member
      exact ⟨by decide, by decide, by decide, by decide, by decide, fun _ => rfl⟩,
    by simp [belowLastPage, Ascending], rfl, by simp [belowLastPage], by simp [belowLastPage]⟩

/-- The one-letter string "a" at the start of `belowLastPage`. -/
def oneLetter (a : UInt64) : UInt8 := if a = 0xffffffffffffe000 then 0x61 else 0

end Memory

end Gramine.LibOS.Bookkeep
