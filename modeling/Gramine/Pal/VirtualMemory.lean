import Mathlib

/-!
# The address space as the PAL's memory calls leave it

`PalVirtualMemoryAlloc` and `PalVirtualMemoryFree` (`pal/include/pal/pal.h`)
are how the LibOS asks the host for memory. Each host implements them its own
way; the LibOS relies only on their contract, which is what this module states.
The address space is read address by address: each address has the protection
of its page if that page is allocated, and the byte stored there.

* `PalVirtualMemoryAlloc(addr, size, prot)` "allocates virtual memory and zeroes
  it out", and "there must be no memory previously allocated at the same
  address": it fails, changing nothing, when a page of the range is allocated
  or when the host has no memory to give, and otherwise allocates the range with
  `prot`, every byte of it zero;
* `PalVirtualMemoryFree(addr, size)` frees exactly the range.

The bytes of a page that is not allocated are kept, but nothing reads them.
-/

namespace Gramine.Pal

/-- The address space: the protection of the allocated page holding each
address, and the byte at each address. -/
structure PalMem where
  prot : Nat → Option UInt32
  bytes : Nat → UInt8

namespace PalMem

/-- Some page of `[addr, addr + size)` is allocated. -/
def anyAllocated (m : PalMem) (addr size : Nat) : Bool :=
  (List.range size).any fun i => (m.prot (addr + i)).isSome

attribute [grind] anyAllocated

theorem anyAllocated_eq_false {m : PalMem} {addr size : Nat} :
    m.anyAllocated addr size = false ↔ ∀ x, addr ≤ x → x < addr + size → m.prot x = none := by
  simp only [anyAllocated, List.any_eq_false, List.mem_range, Option.isSome_iff_ne_none,
    ne_eq, Decidable.not_not]
  constructor
  · intro free x lower upper
    simpa [Nat.add_sub_cancel' lower] using free (x - addr) (by omega)
  · intro free i below
    exact free (addr + i) (by omega) (by omega)

end PalMem

open PalMem

/-- `PalVirtualMemoryAlloc(addr, size, prot)`, `available` saying whether the
host has the memory; `none` when it fails. -/
def palVirtualMemoryAlloc (addr size : Nat) (prot : UInt32) (available : Bool) (m : PalMem) :
    Option PalMem :=
  if !available || m.anyAllocated addr size then none
  else some
    { prot := fun x => if addr ≤ x ∧ x < addr + size then some prot else m.prot x
      bytes := fun x => if addr ≤ x ∧ x < addr + size then 0 else m.bytes x }

/-- `PalVirtualMemoryFree(addr, size)`. -/
def palVirtualMemoryFree (addr size : Nat) (m : PalMem) : PalMem :=
  { m with prot := fun x => if addr ≤ x ∧ x < addr + size then none else m.prot x }

attribute [grind] palVirtualMemoryAlloc

/-- An allocation succeeds exactly when the host has the memory and the range
is free, and then gives the range `prot` and zero bytes, leaving every other
address as it was. -/
theorem palVirtualMemoryAlloc_eq_some {addr size : Nat} {prot : UInt32} {available : Bool}
    {m m' : PalMem} :
    palVirtualMemoryAlloc addr size prot available m = some m' ↔
      available = true ∧ (∀ x, addr ≤ x → x < addr + size → m.prot x = none) ∧
      (∀ x, m'.prot x = if addr ≤ x ∧ x < addr + size then some prot else m.prot x) ∧
      ∀ x, m'.bytes x = if addr ≤ x ∧ x < addr + size then 0 else m.bytes x := by
  rw [← anyAllocated_eq_false]
  unfold palVirtualMemoryAlloc
  cases available <;> cases m.anyAllocated addr size <;> simp only [Bool.not_false,
    Bool.not_true, Bool.or_true, Bool.or_false, Bool.false_eq_true, ↓reduceIte, reduceCtorEq,
    false_and, true_and, Option.some.injEq]
  constructor
  · rintro rfl
    exact ⟨fun _ => rfl, fun _ => rfl⟩
  · rintro ⟨protEq, bytesEq⟩
    cases m'
    simp only at protEq bytesEq
    rw [funext protEq, funext bytesEq]

/-- A failed allocation: the host had no memory, or a page of the range was
allocated. -/
theorem palVirtualMemoryAlloc_eq_none {addr size : Nat} {prot : UInt32} {available : Bool}
    {m : PalMem} :
    palVirtualMemoryAlloc addr size prot available m = none ↔
      available = false ∨ ∃ x, addr ≤ x ∧ x < addr + size ∧ m.prot x ≠ none := by
  have free : m.anyAllocated addr size = true ↔
      ∃ x, addr ≤ x ∧ x < addr + size ∧ m.prot x ≠ none := by
    rw [← Bool.not_eq_false, anyAllocated_eq_false]
    simp only [not_forall, exists_prop]
  unfold palVirtualMemoryAlloc
  split_ifs with refused
  · simpa only [true_iff, Bool.or_eq_true, Bool.not_eq_eq_eq_not, Bool.not_true, free]
      using refused
  · simpa only [reduceCtorEq, false_iff, Bool.or_eq_true, Bool.not_eq_eq_eq_not, Bool.not_true,
      free] using refused

@[simp] theorem palVirtualMemoryFree_prot (addr size : Nat) (m : PalMem) (x : Nat) :
    (palVirtualMemoryFree addr size m).prot x =
      if addr ≤ x ∧ x < addr + size then none else m.prot x := rfl

@[simp] theorem palVirtualMemoryFree_bytes (addr size : Nat) (m : PalMem) :
    (palVirtualMemoryFree addr size m).bytes = m.bytes := rfl

end Gramine.Pal
