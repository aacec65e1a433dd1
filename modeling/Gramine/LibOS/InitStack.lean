import Gramine.Common.Errno
import Gramine.Library.Stored
import Gramine.Library.LittleEndian

/-!
# The initial user stack

`populate_stack` (`libos_init.c`) lays out the first stack frame of a new
program in a stack that `init_stack` has already allocated: argc, the argv and
envp pointer arrays with their NULLs, room for the ELF auxiliary vector, and
the argument and environment strings. Two bump allocators work from the two
ends of the region, the strings from the high end and everything else from the
low end; each allocation fails with `-ENOMEM` once the ends would cross. The
low part is then moved up against the strings at a 16-byte aligned address,
the space below it is cleared, and the bases of the arrays are shifted by the
distance moved (the string pointers inside the arrays are not: they point into
the high part, which does not move).

Memory is bytes at natural-number addresses. A string is given as its bytes
before the NUL; the source strings lie outside the stack, so they are values
here. A `long` or a pointer is stored as eight little-endian bytes.
`SysvStack` is the layout the x86-64 SysV ABI asks for at the entry point, and
the theorems at the end say that populate_stack builds it whenever everything
fits, and fails with `-ENOMEM` exactly when it does not.
-/

namespace Gramine.LibOS

open ByteCopy

/-- `REQUIRED_ELF_AUXV`: the auxv entries that execute_elf_object fills. -/
def REQUIRED_ELF_AUXV : Nat := 14

/-- `REQUIRED_ELF_AUXV_SPACE`: bytes after the entries for the data they point to. -/
def REQUIRED_ELF_AUXV_SPACE : Nat := 16

/-- `sizeof(elf_auxv_t)`: a type word and a value word. -/
def sizeofElfAuxv : Nat := 16

/-- `ALIGN_DOWN_PTR(ptr, alignment)`. -/
def alignDownPtr (ptr alignment : Nat) : Nat := ptr - ptr % alignment

/-- The stack's bytes and the two ends of the free space while populate_stack runs. -/
structure StackBuild where
  mem : Nat → UInt8
  stackLowAddr : Nat
  stackHighAddr : Nat

/-- `ALLOCATE_FROM_LOW_ADDR(size)`: the allocated address, `none` for its `return -ENOMEM`. -/
def allocateFromLowAddr (size : Nat) (s : StackBuild) : Option (Nat × StackBuild) :=
  if s.stackLowAddr + size > s.stackHighAddr then none
  else some (s.stackLowAddr, { s with stackLowAddr := s.stackLowAddr + size })

/-- `ALLOCATE_FROM_HIGH_ADDR(size)`. The C compares `stack_high_addr - size`
with `stack_low_addr` as addresses; over the naturals that is the comparison below. -/
def allocateFromHighAddr (size : Nat) (s : StackBuild) : Option (Nat × StackBuild) :=
  if s.stackHighAddr < s.stackLowAddr + size then none
  else some (s.stackHighAddr - size, { s with stackHighAddr := s.stackHighAddr - size })

/-- `*ptr = value` for a `long` or a pointer. -/
def storeWord (mem : Nat → UInt8) (ptr value : Nat) : Nat → UInt8 :=
  store mem ptr (LittleEndian.bytes 8 value)

/-- A string's bytes with its NUL: what `memcpy(argv_str, *a, strlen(*a) + 1)` copies. -/
def cString (a : List UInt8) : List UInt8 := a ++ [0]

/-- `argv_size`, `envp_size`: `strlen + 1` of each string, summed. -/
def stringsSize (strs : List (List UInt8)) : Nat := (strs.map fun a => a.length + 1).sum

/-- The loop over argv (or envp) once the strings' buffer is allocated at `str`:
each string gets a pointer slot from the low end, is copied to `argv_str`,
and the slot is set to it. -/
def copyStrings : List (List UInt8) → Nat → StackBuild → Option StackBuild
  | [], _, s => some s
  | a :: rest, str, s =>
    match allocateFromLowAddr 8 s with
    | none => none
    | some (ptr, s) =>
      let mem := store s.mem str (cString a)
      copyStrings rest (str + (a.length + 1)) { s with mem := storeWord mem ptr str }

/-- The block of populate_stack that is the same for argv and envp: the
strings' buffer from the high end, the pointer array from the low end, and its
NULL. Returns the array's base, `new_argv` or `new_envp`. -/
def pushStrings (strs : List (List UInt8)) (s : StackBuild) : Option (Nat × StackBuild) :=
  match allocateFromHighAddr (stringsSize strs) s with
  | none => none
  | some (str, s) =>
    let base := s.stackLowAddr
    match copyStrings strs str s with
    | none => none
    | some s =>
      match allocateFromLowAddr 8 s with
      | none => none
      | some (nullPtr, s) => some (base, { s with mem := storeWord s.mem nullPtr 0 })

/-- The end of populate_stack: the low part is moved up against the strings at
a 16-byte aligned address and the area it leaves is cleared. Returns
`new_stack_low_addr`, `shift` and the stack's bytes. -/
def moveLowPart (stack : Nat) (s : StackBuild) : Nat × Nat × (Nat → UInt8) :=
  let moveSize := s.stackLowAddr - stack
  let newStackLowAddr := alignDownPtr (s.stackHighAddr - moveSize) 16
  -- memmove: every byte is read from the memory before the move
  let mem := copy s.mem newStackLowAddr stack moveSize
  let shift := newStackLowAddr - stack
  (newStackLowAddr, shift, place mem stack (fun _ => 0) shift)

/-- What populate_stack returns on success: `*out_argp`, `*out_auxv`, the
global `migrated_envp`, and the stack's bytes. -/
structure PopulatedStack where
  outArgp : Nat
  outAuxv : Nat
  migratedEnvp : Nat
  mem : Nat → UInt8

/-- `populate_stack(stack, stack_size, argv, envp, out_argp, out_auxv)`. The
base of the argv array is shifted in the C too but read by nobody after. -/
def populateStack (stack stackSize : Nat) (argv envp : List (List UInt8)) (mem : Nat → UInt8) :
    Except Int PopulatedStack :=
  match allocateFromLowAddr 8 ⟨mem, stack, stack + stackSize⟩ with
  | none => .error (-ENOMEM)
  | some (argcPtr, s) =>
    match pushStrings argv { s with mem := storeWord s.mem argcPtr argv.length } with
    | none => .error (-ENOMEM)
    | some (_, s) =>
      match pushStrings envp s with
      | none => .error (-ENOMEM)
      | some (newEnvp, s) =>
        match allocateFromLowAddr (REQUIRED_ELF_AUXV * sizeofElfAuxv + REQUIRED_ELF_AUXV_SPACE) s with
        | none => .error (-ENOMEM)
        | some (newAuxv, s) =>
          let (newStackLowAddr, shift, mem) := moveLowPart stack s
          .ok ⟨newStackLowAddr, newAuxv + shift, newEnvp + shift, mem⟩

/-! ## The layout -/

/-- The pointer slots of an array whose strings are stored one after another from `str`. -/
def pointerWords (str : Nat) : List (List UInt8) → List UInt8
  | [] => []
  | a :: rest => LittleEndian.bytes 8 str ++ pointerWords (str + (a.length + 1)) rest

/-- The strings one after another, each with its NUL. -/
def cStrings (strs : List (List UInt8)) : List UInt8 := strs.flatMap cString

/-- The bytes of the low part: argc, the two pointer arrays with their NULLs,
and the auxv reservation. -/
def lowPartSize (argc envc : Nat) : Nat :=
  8 + 8 * (argc + 1) + 8 * (envc + 1) + (REQUIRED_ELF_AUXV * sizeofElfAuxv + REQUIRED_ELF_AUXV_SPACE)

/-- Where the strings begin: envp's first, argv's after them, up to the top of the stack. -/
def stringsStart (stack stackSize : Nat) (argv envp : List (List UInt8)) : Nat :=
  stack + stackSize - (stringsSize envp + stringsSize argv)

/-- The first stack frame the x86-64 SysV ABI asks for at a program's entry,
in a stack of `stackSize` bytes at `stack`: at a 16-byte aligned `out_argp`
argc, then pointers to the argv strings and NULL, pointers to the envp strings
and NULL, then the auxv reservation, below the strings, which are stored one
after another up to the top of the stack. Nothing outside the stack changes,
and the part of the stack below `out_argp` is cleared. -/
structure SysvStack (stack stackSize : Nat) (argv envp : List (List UInt8)) (before : Nat → UInt8)
    (r : PopulatedStack) : Prop where
  aligned : r.outArgp % 16 = 0
  inside : stack ≤ r.outArgp
  belowStrings : r.outArgp + lowPartSize argv.length envp.length ≤ stringsStart stack stackSize argv envp
  frame : Stored r.mem r.outArgp
    (LittleEndian.bytes 8 argv.length ++
      (pointerWords (stringsStart stack stackSize argv envp + stringsSize envp) argv ++ LittleEndian.bytes 8 0) ++
      (pointerWords (stringsStart stack stackSize argv envp) envp ++ LittleEndian.bytes 8 0))
  strings : Stored r.mem (stringsStart stack stackSize argv envp) (cStrings envp ++ cStrings argv)
  auxv : r.outAuxv = r.outArgp + 8 + 8 * (argv.length + 1) + 8 * (envp.length + 1)
  envp : r.migratedEnvp = r.outArgp + 8 + 8 * (argv.length + 1)
  cleared : ∀ a, stack ≤ a → a < r.outArgp → r.mem a = 0
  writes : WritesWithin (fun a => stack ≤ a ∧ a < stack + stackSize) before r.mem

/-! ## The allocators and the lengths -/

section Allocate

variable {size : Nat} {s : StackBuild}

theorem allocateFromLowAddr_of_le (fits : s.stackLowAddr + size ≤ s.stackHighAddr) :
    allocateFromLowAddr size s = some (s.stackLowAddr, { s with stackLowAddr := s.stackLowAddr + size }) := by
  simp only [allocateFromLowAddr, gt_iff_lt, if_neg (Nat.not_lt.mpr fits)]

theorem allocateFromLowAddr_of_lt (tight : s.stackHighAddr < s.stackLowAddr + size) :
    allocateFromLowAddr size s = none := by
  simp only [allocateFromLowAddr, gt_iff_lt, if_pos tight]

theorem allocateFromHighAddr_of_le (fits : s.stackLowAddr + size ≤ s.stackHighAddr) :
    allocateFromHighAddr size s =
      some (s.stackHighAddr - size, { s with stackHighAddr := s.stackHighAddr - size }) := by
  simp only [allocateFromHighAddr, if_neg (Nat.not_lt.mpr fits)]

theorem allocateFromHighAddr_of_lt (tight : s.stackHighAddr < s.stackLowAddr + size) :
    allocateFromHighAddr size s = none := by
  simp only [allocateFromHighAddr, if_pos tight]

end Allocate

@[simp] theorem length_cString (a : List UInt8) : (cString a).length = a.length + 1 := by
  simp only [cString, List.length_append, List.length_singleton]

@[simp] theorem length_pointerWords : ∀ (str : Nat) (strs : List (List UInt8)),
    (pointerWords str strs).length = 8 * strs.length
  | _, [] => rfl
  | str, a :: rest => by
    simp only [pointerWords, List.length_append, LittleEndian.length_bytes, length_pointerWords,
      List.length_cons]
    omega

theorem stringsSize_cons (a : List UInt8) (rest : List (List UInt8)) :
    stringsSize (a :: rest) = a.length + 1 + stringsSize rest := by
  simp only [stringsSize, List.map_cons, List.sum_cons]

theorem cStrings_cons (a : List UInt8) (rest : List (List UInt8)) :
    cStrings (a :: rest) = cString a ++ cStrings rest :=
  List.flatMap_cons

@[simp] theorem length_cStrings : ∀ strs : List (List UInt8), (cStrings strs).length = stringsSize strs
  | [] => rfl
  | a :: rest => by
    rw [cStrings_cons, List.length_append, length_cString, length_cStrings rest, stringsSize_cons]

section Word

variable {mem : Nat → UInt8} {ptr v : Nat}

theorem stored_storeWord : Stored (storeWord mem ptr v) ptr (LittleEndian.bytes 8 v) :=
  stored_store mem ptr _

theorem storeWord_writesWithin : WritesWithin (fun a => ptr ≤ a ∧ a < ptr + 8) mem (storeWord mem ptr v) := by
  have writes := (store_writesWithin : WritesWithin _ mem (store mem ptr (LittleEndian.bytes 8 v)))
  rw [LittleEndian.length_bytes] at writes
  exact writes

end Word

/-! ## The two blocks of pointers and strings -/

/-- What a block of populate_stack leaves: `words` stored from `low`, `strings`
from `str`, and nothing written outside the two. -/
structure Laid (low : Nat) (words : List UInt8) (str : Nat) (strings : List UInt8)
    (before after : Nat → UInt8) : Prop where
  lowPart : Stored after low words
  highPart : Stored after str strings
  writes : WritesWithin
    (fun a => low ≤ a ∧ a < low + words.length ∨ str ≤ a ∧ a < str + strings.length) before after

namespace Laid

variable {low str : Nat} {words strings : List UInt8} {before after : Nat → UInt8}

/-- A block leaves alone what is stored away from both of its parts. -/
theorem keeps (laid : Laid low words str strings before after) {addr : Nat} {vs : List UInt8}
    (stored : Stored before addr vs) (apartLow : addr + vs.length ≤ low ∨ low + words.length ≤ addr)
    (apartHigh : addr + vs.length ≤ str ∨ str + strings.length ≤ addr) : Stored after addr vs :=
  stored.frame laid.writes fun k inside => by omega

/-- One step of the loop over the strings: the slot and the copy of `a`, then
the rest of the block above both. -/
theorem cons {a : List UInt8} {mem : Nat → UInt8}
    (rest : Laid (low + 8) words (str + (a.length + 1)) strings
      (storeWord (store mem str (cString a)) low str) after)
    (apart : low + 8 + words.length ≤ str) :
    Laid low (LittleEndian.bytes 8 str ++ words) str (cString a ++ strings) mem after := by
  have slot : Stored after low (LittleEndian.bytes 8 str) :=
    rest.keeps stored_storeWord (by simp only [LittleEndian.length_bytes]; omega)
      (by simp only [LittleEndian.length_bytes]; omega)
  have copied : Stored (storeWord (store mem str (cString a)) low str) str (cString a) :=
    (stored_store mem str (cString a)).frame storeWord_writesWithin
      (by intro k _; simp only [length_cString] at *; omega)
  refine ⟨stored_append.mpr ⟨slot, ?_⟩, stored_append.mpr ⟨?_, ?_⟩, ?_⟩
  · simpa only [LittleEndian.length_bytes] using rest.lowPart
  · exact rest.keeps copied (by simp only [length_cString]; omega) (by simp only [length_cString]; omega)
  · simpa only [length_cString, Nat.add_assoc] using rest.highPart
  · -- the copy, the slot, then the rest: each inside the block
    have writeCopy : WritesWithin (fun a' => str ≤ a' ∧ a' < str + (cString a).length) mem
        (store mem str (cString a)) := store_writesWithin
    have writeSlot : WritesWithin (fun a' => low ≤ a' ∧ a' < low + 8)
        (store mem str (cString a)) (storeWord (store mem str (cString a)) low str) := storeWord_writesWithin
    simp only [List.length_append, LittleEndian.length_bytes, length_cString] at writeCopy ⊢
    refine (writeCopy.mono ?_).trans ((writeSlot.mono ?_).trans (rest.writes.mono ?_)) <;>
      · intro a' inside
        omega

/-- The NULL that ends a pointer array, stored right after it. -/
theorem snocWord (laid : Laid low words str strings before after)
    (apart : low + words.length + 8 ≤ str) (v : Nat) :
    Laid low (words ++ LittleEndian.bytes 8 v) str strings before
      (storeWord after (low + words.length) v) := by
  have writeWord : WritesWithin (fun a => low + words.length ≤ a ∧ a < low + words.length + 8) after
      (storeWord after (low + words.length) v) := storeWord_writesWithin
  refine ⟨stored_append.mpr ⟨?_, stored_storeWord⟩, ?_, ?_⟩
  · exact laid.lowPart.frame writeWord fun k inside => by omega
  · exact laid.highPart.frame writeWord fun k inside => by omega
  · simp only [List.length_append, LittleEndian.length_bytes]
    refine (laid.writes.mono ?_).trans (writeWord.mono ?_) <;>
      · intro a inside
        omega

end Laid

/-- The loop over the strings fills the slots from `low` and the buffer from
`str` when the slots fit below the high end, the buffer lying above it. -/
theorem copyStrings_spec : ∀ (strs : List (List UInt8)) (str : Nat) (s : StackBuild),
    s.stackLowAddr + 8 * strs.length ≤ s.stackHighAddr → s.stackHighAddr ≤ str →
    ∃ s', copyStrings strs str s = some s' ∧ s'.stackLowAddr = s.stackLowAddr + 8 * strs.length ∧
      s'.stackHighAddr = s.stackHighAddr ∧
      Laid s.stackLowAddr (pointerWords str strs) str (cStrings strs) s.mem s'.mem
  | [], str, s, _, _ =>
    ⟨s, rfl, rfl, rfl, ⟨stored_nil, stored_nil, fun _ _ => rfl⟩⟩
  | a :: rest, str, s, fits, above => by
    simp only [List.length_cons] at fits
    have slot : s.stackLowAddr + 8 ≤ s.stackHighAddr := by omega
    let s₁ : StackBuild :=
      { s with stackLowAddr := s.stackLowAddr + 8,
               mem := storeWord (store s.mem str (cString a)) s.stackLowAddr str }
    obtain ⟨s', run, low', high', laid⟩ :=
      copyStrings_spec rest (str + (a.length + 1)) s₁ (by simp only [s₁]; omega) (by simp only [s₁]; omega)
    refine ⟨s', ?_, ?_, high', ?_⟩
    · rw [copyStrings, allocateFromLowAddr_of_le slot]
      exact run
    · simp only [low', s₁, List.length_cons]
      omega
    · exact Laid.cons laid (by simp only [length_pointerWords]; omega)

theorem copyStrings_of_lt : ∀ (strs : List (List UInt8)) (str : Nat) (s : StackBuild),
    s.stackLowAddr ≤ s.stackHighAddr → s.stackHighAddr < s.stackLowAddr + 8 * strs.length →
    copyStrings strs str s = none
  | [], _, _, order, tight => absurd tight (by simp only [List.length_nil]; omega)
  | a :: rest, str, s, _, tight => by
    by_cases slot : s.stackLowAddr + 8 ≤ s.stackHighAddr
    · rw [copyStrings, allocateFromLowAddr_of_le slot]
      simp only [List.length_cons] at tight
      apply copyStrings_of_lt
      · exact slot
      · show s.stackHighAddr < s.stackLowAddr + 8 + 8 * rest.length
        omega
    · rw [copyStrings, allocateFromLowAddr_of_lt (by omega)]

/-- The argv (or envp) block: the strings from the new high end, the array and
its NULL from the old low end, when both fit. -/
theorem pushStrings_spec (strs : List (List UInt8)) (s : StackBuild)
    (fits : s.stackLowAddr + stringsSize strs + 8 * (strs.length + 1) ≤ s.stackHighAddr) :
    ∃ s', pushStrings strs s = some (s.stackLowAddr, s') ∧
      s'.stackLowAddr = s.stackLowAddr + 8 * (strs.length + 1) ∧
      s'.stackHighAddr = s.stackHighAddr - stringsSize strs ∧
      Laid s.stackLowAddr (pointerWords s'.stackHighAddr strs ++ LittleEndian.bytes 8 0) s'.stackHighAddr
        (cStrings strs) s.mem s'.mem := by
  have buffer : s.stackLowAddr + stringsSize strs ≤ s.stackHighAddr := by omega
  obtain ⟨s₂, copied, low₂, high₂, laid⟩ :=
    copyStrings_spec strs (s.stackHighAddr - stringsSize strs)
      { s with stackHighAddr := s.stackHighAddr - stringsSize strs } (by dsimp only; omega) (Nat.le_refl _)
  dsimp only at low₂ high₂
  have null : s₂.stackLowAddr + 8 ≤ s₂.stackHighAddr := by omega
  refine ⟨{ s₂ with stackLowAddr := s₂.stackLowAddr + 8, mem := storeWord s₂.mem s₂.stackLowAddr 0 }, ?_, ?_, ?_, ?_⟩
  · rw [pushStrings, allocateFromHighAddr_of_le buffer]
    dsimp only
    rw [copied]
    dsimp only
    rw [allocateFromLowAddr_of_le null]
  · dsimp only
    rw [low₂]
    omega
  · exact high₂
  · dsimp only
    rw [high₂]
    have atNull : s₂.stackLowAddr = s.stackLowAddr + (pointerWords (s.stackHighAddr - stringsSize strs) strs).length := by
      rw [low₂, length_pointerWords]
    rw [atNull]
    exact laid.snocWord (by simp only [length_pointerWords]; omega) 0

theorem pushStrings_of_lt (strs : List (List UInt8)) (s : StackBuild)
    (tight : s.stackHighAddr < s.stackLowAddr + stringsSize strs + 8 * (strs.length + 1)) :
    pushStrings strs s = none := by
  by_cases buffer : s.stackLowAddr + stringsSize strs ≤ s.stackHighAddr
  · rw [pushStrings, allocateFromHighAddr_of_le buffer]
    dsimp only
    by_cases slots : s.stackLowAddr + 8 * strs.length ≤ s.stackHighAddr - stringsSize strs
    · obtain ⟨s₂, copied, low₂, high₂, -⟩ :=
        copyStrings_spec strs (s.stackHighAddr - stringsSize strs)
          { s with stackHighAddr := s.stackHighAddr - stringsSize strs } slots (Nat.le_refl _)
      dsimp only at low₂ high₂
      rw [copied]
      dsimp only
      rw [allocateFromLowAddr_of_lt (by omega)]
    · rw [copyStrings_of_lt strs _ _ (by dsimp only; omega) (by dsimp only; omega)]
  · rw [pushStrings, allocateFromHighAddr_of_lt (by omega)]

/-! ## Moving the low part -/

/-- The move keeps what the low part and the strings hold: the low part lands
at a 16-byte aligned address, no lower than the stack and below the strings,
the strings stay, the area below the new low part is cleared, and nothing
outside `[stack, stackHighAddr)` is written. -/
theorem moveLowPart_spec {stack : Nat} {s : StackBuild} {low strings : List UInt8}
    (aligned : stack % 16 = 0) (order : stack + low.length ≤ s.stackLowAddr)
    (room : s.stackLowAddr ≤ s.stackHighAddr)
    (lowStored : Stored s.mem stack low) (stringsStored : Stored s.mem s.stackHighAddr strings) :
    ∃ newLow mem, moveLowPart stack s = (newLow, newLow - stack, mem) ∧
      newLow % 16 = 0 ∧ stack ≤ newLow ∧ newLow + (s.stackLowAddr - stack) ≤ s.stackHighAddr ∧
      Stored mem newLow low ∧ Stored mem s.stackHighAddr strings ∧
      (∀ a, stack ≤ a → a < newLow → mem a = 0) ∧
      WritesWithin (fun a => stack ≤ a ∧ a < s.stackHighAddr) s.mem mem := by
  let moveSize := s.stackLowAddr - stack
  let newLow := alignDownPtr (s.stackHighAddr - moveSize) 16
  -- aligning down stays above the stack because the stack is aligned itself
  have bounds : newLow % 16 = 0 ∧ stack ≤ newLow ∧ newLow + moveSize ≤ s.stackHighAddr := by
    simp only [newLow, moveSize, alignDownPtr]
    omega
  obtain ⟨alignedLow, above, below⟩ := bounds
  let moved := copy s.mem newLow stack moveSize
  have moveWrites : WritesWithin (fun a => newLow ≤ a ∧ a < newLow + moveSize) s.mem moved :=
    copy_writesWithin
  have clearWrites : WritesWithin (fun a => stack ≤ a ∧ a < stack + (newLow - stack)) moved
      (place moved stack (fun _ => 0) (newLow - stack)) :=
    place_writesWithin
  refine ⟨newLow, place moved stack (fun _ => 0) (newLow - stack), rfl, alignedLow, above, below,
    ?_, ?_, ?_, ?_⟩
  · exact (lowStored.copy (by omega)).frame clearWrites fun k _ => by omega
  · exact (stringsStored.frame moveWrites fun k _ => by omega).frame clearWrites fun k _ => by omega
  · intro a lo hi
    simp only [place]
    rw [if_pos ⟨lo, by omega⟩]
  · exact (moveWrites.mono fun a inside => by omega).trans (clearWrites.mono fun a inside => by omega)

/-! ## populate_stack -/

section Populate

variable {stack stackSize : Nat} {argv envp : List (List UInt8)} {mem : Nat → UInt8}

/-- When everything fits, populate_stack reaches the move with argc and the two
arrays stored from `stack`, the auxv reservation after them, and the strings up
to the top of the stack. -/
theorem populateStack_laidOut
    (fits : lowPartSize argv.length envp.length + stringsSize envp + stringsSize argv ≤ stackSize) :
    ∃ s : StackBuild, s.stackLowAddr = stack + lowPartSize argv.length envp.length ∧
      s.stackHighAddr = stringsStart stack stackSize argv envp ∧
      Stored s.mem stack
        (LittleEndian.bytes 8 argv.length ++
          (pointerWords (stringsStart stack stackSize argv envp + stringsSize envp) argv ++
            LittleEndian.bytes 8 0) ++
          (pointerWords (stringsStart stack stackSize argv envp) envp ++ LittleEndian.bytes 8 0)) ∧
      Stored s.mem (stringsStart stack stackSize argv envp) (cStrings envp ++ cStrings argv) ∧
      WritesWithin (fun a => stack ≤ a ∧ a < stack + stackSize) mem s.mem ∧
      populateStack stack stackSize argv envp mem =
        match moveLowPart stack s with
        | (newStackLowAddr, shift, mem) =>
          .ok ⟨newStackLowAddr, stack + 8 + 8 * (argv.length + 1) + 8 * (envp.length + 1) + shift,
            stack + 8 + 8 * (argv.length + 1) + shift, mem⟩ := by
  unfold lowPartSize at fits
  have argcFits : stack + 8 ≤ stack + stackSize := by omega
  -- the argv block, then the envp block, each from where the last one left the two ends
  obtain ⟨s₂, pushArgv, low₂, high₂, laidArgv⟩ :=
    pushStrings_spec argv ⟨storeWord mem stack argv.length, stack + 8, stack + stackSize⟩
      (by dsimp only; omega)
  dsimp only at low₂ high₂ laidArgv
  obtain ⟨s₃, pushEnvp, low₃, high₃, laidEnvp⟩ := pushStrings_spec envp s₂ (by omega)
  have auxvFits : s₃.stackLowAddr + (REQUIRED_ELF_AUXV * sizeofElfAuxv + REQUIRED_ELF_AUXV_SPACE) ≤
      s₃.stackHighAddr := by omega
  have argvStr : s₂.stackHighAddr = stringsStart stack stackSize argv envp + stringsSize envp := by
    unfold stringsStart
    omega
  have envpStr : s₃.stackHighAddr = stringsStart stack stackSize argv envp := by
    unfold stringsStart
    omega
  have envpArray : stack + (8 + (8 * argv.length + 8)) = s₂.stackLowAddr := by omega
  rw [argvStr] at laidArgv
  rw [envpStr] at laidEnvp
  refine ⟨{ s₃ with
      stackLowAddr := s₃.stackLowAddr + (REQUIRED_ELF_AUXV * sizeofElfAuxv + REQUIRED_ELF_AUXV_SPACE) },
    ?_, envpStr, ?_, ?_, ?_, ?_⟩
  · dsimp only
    unfold lowPartSize
    omega
  · -- argc, then the argv array, then the envp array
    rw [stored_append, stored_append]
    simp only [List.length_append, LittleEndian.length_bytes, length_pointerWords]
    refine ⟨⟨?_, ?_⟩, ?_⟩
    · apply laidEnvp.keeps (laidArgv.keeps stored_storeWord ?_ ?_) <;>
        simp only [List.length_append, LittleEndian.length_bytes, length_pointerWords, length_cStrings] <;>
        omega
    · apply laidEnvp.keeps laidArgv.lowPart <;>
        simp only [List.length_append, LittleEndian.length_bytes, length_pointerWords, length_cStrings] <;>
        omega
    · rw [envpArray]
      exact laidEnvp.lowPart
  · rw [stored_append, length_cStrings]
    refine ⟨laidEnvp.highPart, ?_⟩
    apply laidEnvp.keeps laidArgv.highPart <;>
      simp only [List.length_append, LittleEndian.length_bytes, length_pointerWords, length_cStrings] <;>
      omega
  · have argcWrites : WritesWithin (fun a => stack ≤ a ∧ a < stack + 8) mem
        (storeWord mem stack argv.length) := storeWord_writesWithin
    refine (argcWrites.mono fun a inside => by omega).trans
      ((laidArgv.writes.mono ?_).trans (laidEnvp.writes.mono ?_)) <;>
      · intro a inside
        simp only [List.length_append, LittleEndian.length_bytes, length_pointerWords,
          length_cStrings] at inside
        unfold stringsStart at inside
        omega
  · rw [populateStack, allocateFromLowAddr_of_le (s := ⟨mem, stack, stack + stackSize⟩) argcFits]
    dsimp only
    rw [pushArgv]
    dsimp only
    rw [pushEnvp]
    dsimp only
    rw [allocateFromLowAddr_of_le auxvFits]
    dsimp only
    rw [low₃, low₂]

/-- populate_stack builds the SysV layout whenever everything fits in an aligned stack. -/
theorem populateStack_spec (aligned : stack % 16 = 0)
    (fits : lowPartSize argv.length envp.length + stringsSize envp + stringsSize argv ≤ stackSize) :
    ∃ r, populateStack stack stackSize argv envp mem = .ok r ∧ SysvStack stack stackSize argv envp mem r := by
  obtain ⟨s, low, high, lowStored, stringsStored, writes, run⟩ := @populateStack_laidOut stack stackSize argv envp mem fits
  have room : s.stackLowAddr ≤ s.stackHighAddr := by
    rw [low, high]
    unfold stringsStart
    omega
  rw [← high] at stringsStored
  obtain ⟨newLow, mem', move, alignedLow, above, below, lowMoved, stringsKept, cleared, moveWrites⟩ :=
    moveLowPart_spec aligned
      (by simp only [List.length_append, LittleEndian.length_bytes, length_pointerWords, low]
          unfold lowPartSize
          omega)
      room lowStored stringsStored
  rw [move] at run
  rw [high] at stringsKept below moveWrites
  refine ⟨_, run, alignedLow, above, ?_, lowMoved, stringsKept, ?_, ?_, cleared, ?_⟩
  · rw [low, Nat.add_sub_cancel_left] at below
    exact below
  · dsimp only
    omega
  · dsimp only
    omega
  · refine writes.trans (moveWrites.mono fun a inside => ?_)
    unfold stringsStart at inside
    omega

/-- populate_stack fails with `-ENOMEM` whenever something does not fit. -/
theorem populateStack_of_lt
    (tight : stackSize < lowPartSize argv.length envp.length + stringsSize envp + stringsSize argv) :
    populateStack stack stackSize argv envp mem = .error (-ENOMEM) := by
  unfold lowPartSize at tight
  rw [populateStack]
  by_cases argcFits : stack + 8 ≤ stack + stackSize
  · rw [allocateFromLowAddr_of_le (s := ⟨mem, stack, stack + stackSize⟩) argcFits]
    dsimp only
    by_cases argvFits : stack + 8 + stringsSize argv + 8 * (argv.length + 1) ≤ stack + stackSize
    · obtain ⟨s₂, pushArgv, low₂, high₂, -⟩ :=
        pushStrings_spec argv ⟨storeWord mem stack argv.length, stack + 8, stack + stackSize⟩ argvFits
      dsimp only at low₂ high₂
      rw [pushArgv]
      dsimp only
      by_cases envpFits : s₂.stackLowAddr + stringsSize envp + 8 * (envp.length + 1) ≤ s₂.stackHighAddr
      · obtain ⟨s₃, pushEnvp, low₃, high₃, -⟩ := pushStrings_spec envp s₂ envpFits
        rw [pushEnvp]
        dsimp only
        rw [allocateFromLowAddr_of_lt (by omega)]
      · rw [pushStrings_of_lt envp s₂ (by omega)]
    · rw [pushStrings_of_lt argv _ (by dsimp only; omega)]
  · rw [allocateFromLowAddr_of_lt (s := ⟨mem, stack, stack + stackSize⟩) (by dsimp only; omega)]

end Populate

theorem populateStack_sysv_layout (stack stackSize : Nat) (argv envp : List (List UInt8))
    (mem : Nat → UInt8) (aligned : stack % 16 = 0) :
    (stackSize < lowPartSize argv.length envp.length + stringsSize envp + stringsSize argv →
      populateStack stack stackSize argv envp mem = .error (-ENOMEM)) ∧
    (lowPartSize argv.length envp.length + stringsSize envp + stringsSize argv ≤ stackSize →
      ∃ r, populateStack stack stackSize argv envp mem = .ok r ∧
        SysvStack stack stackSize argv envp mem r) :=
  ⟨populateStack_of_lt, populateStack_spec aligned⟩

theorem populateStack_sysv_layout_one_arg :
    ∃ r, populateStack 4096 512 [[97]] [] (fun _ => 0) = .ok r ∧
      SysvStack 4096 512 [[97]] [] (fun _ => 0) r :=
  (populateStack_sysv_layout 4096 512 [[97]] [] (fun _ => 0) (by decide)).2 (by decide)

/-- One argument "a" in a 512-byte stack at 4096: the low part (272 bytes) moves
from 4096 up to 4320, below the string at 4606, and the argv pointer's low byte
is 4606 % 256. -/
example :
    (match populateStack 4096 512 [[97]] [] (fun _ => 0) with
      | .ok r => (r.outArgp, r.outAuxv, r.migratedEnvp, r.mem 4328)
      | .error _ => (0, 0, 0, 0)) = (4320, 4352, 4344, 254) := by
  decide

end Gramine.LibOS
