import Mathlib
import Gramine.LibOS.Bookkeep.Vma

/-!
# The ELF loader: from program headers to mapped segments

`map_elf_object` (`libos_rtld.c`) loads an ELF object into the LibOS's address
space. `read_all_loadcmds` turns each `PT_LOAD` program header into a load
command (`read_loadcmd`): the segment's page-rounded start, the end of its file
data, the end of the file data rounded up to a page, the page-rounded end of
its memory, and the page-rounded file offset. `execute_loadcmd` then maps the
file part, zeroes the tail of the last file page (making the page writable for
the while when the segment is read-only) and allocates anonymous pages for the
rest. Position-independent objects get their base from `reserve_dyn`, which
books `[0, load_end)` somewhere; executables are loaded where they ask. After
each load command `map_elf_object` looks for the program headers, the
interpreter's name and the entry point in the file part of the segment.

Header fields are the `uint64_t` of `Elf64_Phdr` and `Elf64_Ehdr`, so every sum
of them wraps, as in the C. The rest of the system (the VMA bookkeeping, the
file system's `mmap`, the PAL) is a `LoaderPlatform` over any state: each call
may fail or answer a value, as the real one may. The fields of the headers the
loader does not read, the `link_map` fields it does not set, and the logging
are left out.
-/

namespace Gramine.LibOS

open Gramine.LibOS.Bookkeep

/-! ## ELF headers -/

/-- The fields of `Elf64_Phdr` the loader reads. -/
structure ElfPhdr where
  pType : UInt32
  pFlags : UInt32
  pOffset : UInt64
  pVaddr : UInt64
  pFilesz : UInt64
  pMemsz : UInt64
  pAlign : UInt64
  deriving DecidableEq, Repr

/-- The fields of `Elf64_Ehdr` map_elf_object reads. -/
structure ElfEhdr where
  eType : UInt16
  eEntry : UInt64
  ePhoff : UInt64
  ePhnum : UInt16
  deriving DecidableEq, Repr

def PT_LOAD : UInt32 := 1
def PT_INTERP : UInt32 := 3
def ET_DYN : UInt16 := 3
def PF_X : UInt32 := 0x1
def PF_W : UInt32 := 0x2
def PF_R : UInt32 := 0x4
def PAL_PROT_WRITECOPY : UInt32 := 0x8

/-- `sizeof(elf_phdr_t)`. -/
def sizeofElfPhdr : UInt64 := 56

/-! ## Alignment on machine words -/

/-- `IS_POWER_OF_2(x)` (its `assert(x != 0)` holds where it is used). -/
def isPowerOf2 (x : UInt64) : Bool := x &&& (x - 1) == 0

/-- `IS_ALIGNED_POW2(val, alignment)`. -/
def isAlignedPow2 (val alignment : UInt64) : Bool := val &&& (alignment - 1) == 0

/-- `ALIGN_DOWN_POW2(val, alignment)`. -/
def alignDownPow2 (val alignment : UInt64) : UInt64 := val - (val &&& (alignment - 1))

/-- `ALIGN_UP_POW2(val, alignment)`: past the last aligned value it wraps. -/
def alignUpPow2 (val alignment : UInt64) : UInt64 := alignDownPow2 (val + alignment - 1) alignment

/-- `LINUX_PROT_TO_PAL(prot, map_flags)`. -/
def linuxProtToPal (prot mapFlags : UInt32) : UInt32 :=
  (if prot &&& PROT_READ != 0 then PAL_PROT_READ else 0) |||
  (if prot &&& PROT_WRITE != 0 then PAL_PROT_WRITE else 0) |||
  (if prot &&& PROT_EXEC != 0 then PAL_PROT_EXEC else 0) |||
  (if mapFlags &&& MAP_PRIVATE != 0 then PAL_PROT_WRITECOPY else 0)

/-! ## Load commands -/

/-- `struct loadcmd`. -/
structure Loadcmd where
  start : UInt64
  dataEnd : UInt64
  mapEnd : UInt64
  allocEnd : UInt64
  mapOff : UInt64
  prot : UInt32
  deriving DecidableEq, Repr

section ReadLoadcmds

variable (allocAlignment : UInt64)

/-- The protection of a segment from its `p_flags`. -/
def segmentProt (pFlags : UInt32) : UInt32 :=
  (if pFlags &&& PF_R != 0 then PROT_READ else 0) |||
  (if pFlags &&& PF_W != 0 then PROT_WRITE else 0) |||
  (if pFlags &&& PF_X != 0 then PROT_EXEC else 0)

/-- `read_loadcmd(ph, c)`, `ALLOC_ALIGNMENT` being `allocAlignment`. Its three
`assert`s on the order of the ends are compiled out of release builds and are
left out. -/
def readLoadcmd (ph : ElfPhdr) : Except Int Loadcmd :=
  if ph.pAlign > 1 ∧ (!isPowerOf2 ph.pAlign || !isAlignedPow2 (ph.pVaddr - ph.pOffset) ph.pAlign) then
    .error (-EINVAL)
  else if !isAlignedPow2 (ph.pVaddr - ph.pOffset) allocAlignment then .error (-EINVAL)
  else if ph.pFilesz > ph.pMemsz then .error (-EINVAL)
  else .ok
    { start := alignDownPow2 ph.pVaddr allocAlignment
      dataEnd := ph.pVaddr + ph.pFilesz
      mapEnd := alignUpPow2 (ph.pVaddr + ph.pFilesz) allocAlignment
      allocEnd := alignUpPow2 (ph.pVaddr + ph.pMemsz) allocAlignment
      mapOff := alignDownPow2 ph.pOffset allocAlignment
      prot := segmentProt ph.pFlags }

/-- The second loop of `read_all_loadcmds`: each `PT_LOAD` header must start
above the previous one, and becomes a load command. -/
def readLoadcmdsLoop : Option ElfPhdr → List ElfPhdr → Except Int (List Loadcmd)
  | _, [] => .ok []
  | prev, ph :: rest =>
    if ph.pType = PT_LOAD then
      if prev.any fun p => !(p.pVaddr < ph.pVaddr) then .error (-EINVAL)
      else
        match readLoadcmd allocAlignment ph with
        | .error err => .error err
        | .ok c =>
          match readLoadcmdsLoop (some ph) rest with
          | .error err => .error err
          | .ok cs => .ok (c :: cs)
    else readLoadcmdsLoop prev rest

/-- `read_all_loadcmds(phdr, phnum, &n_loadcmds, &loadcmds)`, `allocated`
saying whether the `malloc` of the array succeeds. -/
def readAllLoadcmds (allocated : Bool) (phdrs : List ElfPhdr) : Except Int (List Loadcmd) :=
  if (phdrs.filter fun ph => ph.pType = PT_LOAD).length = 0 then .ok []
  else if !allocated then .error (-ENOMEM)
  else readLoadcmdsLoop allocAlignment none phdrs

end ReadLoadcmds

/-! ## The rest of the system -/

/-- What map_elf_object asks of the VMA bookkeeping, the file system and the
PAL, with the arguments it passes. -/
inductive LoaderCall
  /-- `bkeep_mmap_any_aslr(length, PROT_NONE, VMA_UNMAPPED, NULL, 0, NULL, &addr)`;
  answers the address. -/
  | bkeepMmapAnyAslr (length : UInt64)
  /-- `bkeep_mmap_fixed(addr, length, prot, flags, file or NULL, offset, NULL)`. -/
  | bkeepMmapFixed (addr length : UInt64) (prot flags : UInt32) (fileBacked : Bool) (offset : UInt64)
  /-- `file->fs->fs_ops->mmap(file, addr, size, prot, flags, offset, &valid_size)`;
  answers `valid_size`. -/
  | fileMmap (addr size : UInt64) (prot flags : UInt32) (offset : UInt64)
  /-- `PalVirtualMemoryProtect(addr, size, prot)`. -/
  | palVirtualMemoryProtect (addr size : UInt64) (prot : UInt32)
  /-- `PalVirtualMemoryAlloc(addr, size, prot)`. -/
  | palVirtualMemoryAlloc (addr size : UInt64) (prot : UInt32)
  deriving DecidableEq, Repr

/-- The rest of the system over its state `σ`: a call fails with its error
code or answers a value; `memset` and the reads of `strnlen` cannot fail.
`palToUnixErrno` is `pal_to_unix_errno`, a lookup in a table indexed by the
negated PAL error. -/
structure LoaderPlatform (σ : Type) where
  call : σ → LoaderCall → Except Int (UInt64 × σ)
  memsetZero : σ → UInt64 → UInt64 → σ
  readByte : σ → UInt64 → UInt8
  palToUnixErrno : Int → Int

variable {σ : Type} (P : LoaderPlatform σ) (allocAlignment : UInt64)

/-- `strnlen(s, maxlen)` over the memory as `read` answers it. -/
def strnlen (read : UInt64 → UInt8) (s : UInt64) : Nat → Nat
  | 0 => 0
  | maxlen + 1 => if read s = 0 then 0 else strnlen read (s + 1) maxlen + 1

/-- `reserve_dyn(total_size, &addr)`: the return code and `addr`. The C
assigns `ret = bkeep_mmap_any_aslr(...) < 0`, the comparison, so a failure
returns 1 and leaves `addr` as it was. -/
def reserveDyn (totalSize addr : UInt64) (st : σ) : Int × UInt64 × σ :=
  match P.call st (.bkeepMmapAnyAslr (alignUpPow2 totalSize allocAlignment)) with
  | .error _ => (1, addr, st)
  | .ok (found, st) => (0, found, st)

/-- `PalVirtualMemoryProtect` as execute_loadcmd calls it: `ret = (... < 0)`
stores the comparison, so a failure returns `pal_to_unix_errno(1)`. -/
def protectLastPage (addr : UInt64) (prot : UInt32) (st : σ) : Except Int σ :=
  match P.call st (.palVirtualMemoryProtect addr allocAlignment prot) with
  | .error _ => .error (P.palToUnixErrno 1)
  | .ok (_, st) => .ok st

/-- The first step of `execute_loadcmd`: the file part, rounded up to pages. -/
def mapFilePart (c : Loadcmd) (baseDiff : UInt64) (st : σ) : Except Int σ :=
  if c.start < c.mapEnd then
    let mapFlags := MAP_FIXED ||| MAP_PRIVATE
    let mapStart := c.start + baseDiff
    let mapSize := c.mapEnd - c.start
    match P.call st (.bkeepMmapFixed mapStart mapSize c.prot mapFlags true c.mapOff) with
    | .error err => .error err
    | .ok (_, st) =>
      match P.call st (.fileMmap mapStart mapSize c.prot mapFlags c.mapOff) with
      | .error err => .error err
      | .ok (validSize, st) => if validSize ≠ mapSize then .error (-EACCES) else .ok st
  else .ok st

/-- The second step: zero the end of the last file page, making it writable
for the while when the segment is not. -/
def zeroFileTail (c : Loadcmd) (baseDiff : UInt64) (st : σ) : Except Int σ :=
  if c.dataEnd < c.mapEnd then
    let palProt := linuxProtToPal c.prot (MAP_FIXED ||| MAP_PRIVATE)
    let zeroStart := c.dataEnd + baseDiff
    let zeroSize := c.mapEnd - c.dataEnd
    let lastPageStart := alignDownPow2 zeroStart allocAlignment
    if c.prot &&& PROT_WRITE = 0 then
      match protectLastPage P allocAlignment lastPageStart (palProt ||| PAL_PROT_WRITE) st with
      | .error err => .error err
      | .ok st => protectLastPage P allocAlignment lastPageStart palProt (P.memsetZero st zeroStart zeroSize)
    else .ok (P.memsetZero st zeroStart zeroSize)
  else .ok st

/-- The third step: anonymous pages after the file part. -/
def allocZeroPages (c : Loadcmd) (baseDiff : UInt64) (st : σ) : Except Int σ :=
  if c.mapEnd < c.allocEnd then
    let zeroPageStart := c.mapEnd + baseDiff
    let zeroPageSize := c.allocEnd - c.mapEnd
    let zeroMapFlags := MAP_FIXED ||| MAP_PRIVATE ||| MAP_ANONYMOUS
    match P.call st (.bkeepMmapFixed zeroPageStart zeroPageSize c.prot zeroMapFlags false 0) with
    | .error err => .error err
    | .ok (_, st) =>
      match P.call st (.palVirtualMemoryAlloc zeroPageStart zeroPageSize (linuxProtToPal c.prot zeroMapFlags)) with
      | .error err => .error err
      | .ok (_, st) => .ok st
  else .ok st

/-- `execute_loadcmd(c, base_diff, file)`: its return code and the state. A
failure does not undo the steps before it; the model keeps the state as it was
before the step that failed. -/
def executeLoadcmd (c : Loadcmd) (baseDiff : UInt64) (st : σ) : Int × σ :=
  match mapFilePart P c baseDiff st with
  | .error err => (err, st)
  | .ok st =>
    match zeroFileTail P allocAlignment c baseDiff st with
    | .error err => (err, st)
    | .ok st =>
      match allocZeroPages P c baseDiff st with
      | .error err => (err, st)
      | .ok st => (0, st)

/-! ## map_elf_object -/

/-- The fields of `struct link_map` map_elf_object sets; `0` is `NULL`. -/
structure LinkMap where
  lBaseDiff : UInt64
  lPhdr : UInt64
  lEntry : UInt64
  lPhnum : UInt16
  lMapStart : UInt64
  lMapEnd : UInt64
  lInterpLibname : UInt64
  lDataSegmentSize : UInt64
  deriving DecidableEq, Repr

/-- The first lookup after a load command: the program headers, when they lie
in the segment's file part. -/
def findPhdr (ehdr : ElfEhdr) (c : Loadcmd) (l : LinkMap) : LinkMap :=
  if l.lPhdr = 0 ∧ ehdr.ePhoff ≥ c.mapOff ∧
      ehdr.ePhoff + ehdr.ePhnum.toUInt64 * sizeofElfPhdr ≤ c.mapOff + (c.dataEnd - c.start) then
    { l with lPhdr := ehdr.ePhoff - c.mapOff + c.start + l.lBaseDiff }
  else l

/-- The second: the interpreter's name, whose NUL must come before the end of
the segment's file data. -/
def findInterp (interpLibnameVaddr : UInt64) (c : Loadcmd) (st : σ) (l : LinkMap) : Except Int LinkMap :=
  if interpLibnameVaddr ≠ 0 ∧ l.lInterpLibname = 0 ∧ c.start ≤ interpLibnameVaddr ∧
      interpLibnameVaddr < c.dataEnd then
    let interpLibname := interpLibnameVaddr + l.lBaseDiff
    let maxlen := c.dataEnd - interpLibnameVaddr
    if strnlen (P.readByte st) interpLibname maxlen.toNat = maxlen.toNat then .error (-EINVAL)
    else .ok { l with lInterpLibname := interpLibname }
  else .ok l

/-- The third: the entry point. -/
def findEntry (ehdr : ElfEhdr) (c : Loadcmd) (l : LinkMap) : LinkMap :=
  if ehdr.eEntry ≠ 0 ∧ l.lEntry = 0 ∧ c.start ≤ ehdr.eEntry ∧ ehdr.eEntry < c.dataEnd then
    { l with lEntry := ehdr.eEntry + l.lBaseDiff }
  else l

/-- A segment that is not executable counts as data. -/
def countDataSegment (c : Loadcmd) (l : LinkMap) : LinkMap :=
  if c.prot &&& PROT_EXEC = 0 then { l with lDataSegmentSize := l.lDataSegmentSize + (c.allocEnd - c.start) }
  else l

/-- What map_elf_object looks for in a segment once it is mapped. -/
def findInLoadcmd (ehdr : ElfEhdr) (interpLibnameVaddr : UInt64) (c : Loadcmd) (st : σ)
    (l : LinkMap) : Except Int LinkMap :=
  match findInterp P interpLibnameVaddr c st (findPhdr ehdr c l) with
  | .error err => .error err
  | .ok l => .ok (countDataSegment c (findEntry ehdr c l))

/-- The loop of map_elf_object over the load commands, with the state it leaves
also when it stops at a failure. -/
def executeLoadcmds (ehdr : ElfEhdr) (interpLibnameVaddr : UInt64) :
    List Loadcmd → LinkMap → σ → Except Int LinkMap × σ
  | [], l, st => (.ok l, st)
  | c :: rest, l, st =>
    match executeLoadcmd P allocAlignment c l.lBaseDiff st with
    | (ret, st) =>
      if ret < 0 then (.error ret, st)
      else
        match findInLoadcmd P ehdr interpLibnameVaddr c st l with
        | .error err => (.error err, st)
        | .ok l => executeLoadcmds ehdr interpLibnameVaddr rest l st

/-- The value of the last `PT_INTERP` header's `p_vaddr`, `0` when there is none. -/
def interpVaddr (phdrs : List ElfPhdr) : UInt64 :=
  phdrs.foldl (fun vaddr ph => if ph.pType = PT_INTERP then ph.pVaddr else vaddr) 0

/-- How the allocations and reads of map_elf_object before the load commands
turn out: the `link_map` and header-table `malloc`s, the read of the header
table (`phdrs`, or the error of `read_file_fragment`), the `malloc` of the load
commands, and what `addr` holds before `reserve_dyn` writes it. -/
structure MapInputs where
  linkMapAllocated : Bool
  phdrAllocated : Bool
  phdrs : Except Int (List ElfPhdr)
  loadcmdsAllocated : Bool
  uninitAddr : UInt64

/-- `map_elf_object(file, ehdr)` for a file whose file system has `read`,
`mmap` and `seek`: the link map, or `none` for `NULL`, and the state. -/
def mapElfObject (ehdr : ElfEhdr) (inputs : MapInputs) (st : σ) : Option LinkMap × σ :=
  if !inputs.linkMapAllocated then (none, st)
  else if !inputs.phdrAllocated then (none, st)
  else
    match inputs.phdrs with
    | .error _ => (none, st)
    | .ok phdrs =>
      match readAllLoadcmds allocAlignment inputs.loadcmdsAllocated phdrs with
      | .error _ => (none, st)
      | .ok [] => (none, st)
      | .ok (first :: rest) =>
        let loadcmds := first :: rest
        let interpLibnameVaddr := interpVaddr phdrs
        let loadStart := first.start
        let loadEnd := (loadcmds.getLast (List.cons_ne_nil first rest)).allocEnd
        let (ret, baseDiff, st) :=
          if ehdr.eType = ET_DYN then reserveDyn P allocAlignment loadEnd inputs.uninitAddr st
          else (0, 0, st)
        if ret < 0 then (none, st)
        else
          let l : LinkMap :=
            { lBaseDiff := baseDiff, lPhdr := 0, lEntry := 0, lPhnum := 0,
              lMapStart := loadStart + baseDiff, lMapEnd := loadEnd + baseDiff,
              lInterpLibname := 0, lDataSegmentSize := 0 }
          match executeLoadcmds P allocAlignment ehdr interpLibnameVaddr loadcmds l st with
          | (.error _, st) => (none, st)
          | (.ok l, st) =>
            if l.lPhdr = 0 then (none, st)
            else if interpLibnameVaddr ≠ 0 ∧ l.lInterpLibname = 0 then (none, st)
            else if ehdr.eEntry ≠ 0 ∧ l.lEntry = 0 then (none, st)
            else (some { l with lPhnum := ehdr.ePhnum }, st)

/-! ## What read_all_loadcmds checks -/

/-- The `PT_LOAD` headers of a table, in order. -/
def loadPhdrs (phdrs : List ElfPhdr) : List ElfPhdr := phdrs.filter fun ph => ph.pType = PT_LOAD

section ReadSpec

variable {allocAlignment : UInt64}

/-- On a power of two, `IS_ALIGNED_POW2` is divisibility. -/
theorem isAlignedPow2_iff {val : UInt64} {k : Nat} (pow : allocAlignment.toNat = 2 ^ k) :
    isAlignedPow2 val allocAlignment = true ↔ val.toNat % allocAlignment.toNat = 0 := by
  have below : 2 ^ k ≤ 2 ^ 64 := pow ▸ Nat.le_of_lt allocAlignment.toNat_lt
  have mask : (allocAlignment - 1).toNat = 2 ^ k - 1 := by
    rw [UInt64.toNat_sub, pow]
    have positive : 0 < 2 ^ k := Nat.two_pow_pos k
    -- the subtraction wraps around once
    have shifted : 2 ^ 64 - (1 : UInt64).toNat + 2 ^ k = (2 ^ k - 1) + 2 ^ 64 := by
      rw [UInt64.toNat_one]
      omega
    rw [shifted, Nat.add_mod_right, Nat.mod_eq_of_lt (by omega)]
  simp only [isAlignedPow2, beq_iff_eq, ← UInt64.toNat_inj, UInt64.toNat_and, mask,
    Nat.and_two_pow_sub_one_eq_mod, UInt64.toNat_zero, pow]

/-- A load command comes from a header with sane alignments and no more file
than memory, and holds the page-rounded ends of the header's ranges. -/
theorem readLoadcmd_ok {ph : ElfPhdr} {c : Loadcmd} (ok : readLoadcmd allocAlignment ph = .ok c) :
    (ph.pAlign > 1 → isPowerOf2 ph.pAlign = true ∧ isAlignedPow2 (ph.pVaddr - ph.pOffset) ph.pAlign = true) ∧
    isAlignedPow2 (ph.pVaddr - ph.pOffset) allocAlignment = true ∧ ph.pFilesz ≤ ph.pMemsz ∧
    c = { start := alignDownPow2 ph.pVaddr allocAlignment
          dataEnd := ph.pVaddr + ph.pFilesz
          mapEnd := alignUpPow2 (ph.pVaddr + ph.pFilesz) allocAlignment
          allocEnd := alignUpPow2 (ph.pVaddr + ph.pMemsz) allocAlignment
          mapOff := alignDownPow2 ph.pOffset allocAlignment
          prot := segmentProt ph.pFlags } := by
  unfold readLoadcmd at ok
  split_ifs at ok with alignCheck pageCheck sizeCheck
  cases ok
  refine ⟨fun big => ?_, ?_, ?_, rfl⟩
  · simp only [big, true_and, Bool.or_eq_true, Bool.not_eq_eq_eq_not, Bool.not_true, not_or,
      Bool.not_eq_false] at alignCheck
    exact alignCheck
  · simpa only [Bool.not_eq_eq_eq_not, Bool.not_true, Bool.not_eq_false] using pageCheck
  · exact UInt64.not_lt.mp sizeCheck

theorem loadPhdrs_cons_of_load {ph : ElfPhdr} {rest : List ElfPhdr} (load : ph.pType = PT_LOAD) :
    loadPhdrs (ph :: rest) = ph :: loadPhdrs rest := by
  simp only [loadPhdrs, List.filter_cons, load, decide_true, if_true]

theorem loadPhdrs_cons_of_not {ph : ElfPhdr} {rest : List ElfPhdr} (other : ¬ ph.pType = PT_LOAD) :
    loadPhdrs (ph :: rest) = loadPhdrs rest := by
  simp only [loadPhdrs, List.filter_cons, other, decide_false, Bool.false_eq_true, if_false]

/-- The second loop of read_all_loadcmds succeeds only on `PT_LOAD` headers in
strictly ascending order of `p_vaddr`, all above the previous one, each giving
its load command. -/
theorem readLoadcmdsLoop_ok : ∀ (prev : Option ElfPhdr) (phdrs : List ElfPhdr) (cs : List Loadcmd),
    readLoadcmdsLoop allocAlignment prev phdrs = .ok cs →
    List.Forall₂ (fun ph c => readLoadcmd allocAlignment ph = .ok c) (loadPhdrs phdrs) cs ∧
      (∀ p ∈ prev, ∀ q ∈ loadPhdrs phdrs, p.pVaddr < q.pVaddr) ∧
      (loadPhdrs phdrs).Pairwise fun p q => p.pVaddr < q.pVaddr
  | prev, [], cs, ok => by
    simp only [readLoadcmdsLoop, Except.ok.injEq] at ok
    subst ok
    exact ⟨.nil, fun _ _ _ absent => absurd absent List.not_mem_nil, .nil⟩
  | prev, ph :: rest, cs, ok => by
    by_cases load : ph.pType = PT_LOAD
    · rw [readLoadcmdsLoop, if_pos load] at ok
      split_ifs at ok with descending
      cases readC : readLoadcmd allocAlignment ph with
      | error err => simp only [readC, reduceCtorEq] at ok
      | ok c =>
        cases loop : readLoadcmdsLoop allocAlignment (some ph) rest with
        | error err => simp only [readC, loop, reduceCtorEq] at ok
        | ok cs' =>
          simp only [readC, loop, Except.ok.injEq] at ok
          subst ok
          obtain ⟨pairs, above, sorted⟩ := readLoadcmdsLoop_ok (some ph) rest cs' loop
          -- the headers after `ph` are above it, and `ph` is above `prev`
          have abovePh : ∀ q ∈ loadPhdrs rest, ph.pVaddr < q.pVaddr := above ph rfl
          rw [loadPhdrs_cons_of_load load]
          refine ⟨.cons readC pairs, fun p previous q later => ?_, List.pairwise_cons.mpr ⟨abovePh, sorted⟩⟩
          have belowPh : p.pVaddr < ph.pVaddr := by
            cases prev with
            | none => exact absurd previous (by simp)
            | some p' =>
              simp only [Option.mem_def, Option.some.injEq] at previous
              subst previous
              simpa only [Option.any_some, Bool.not_eq_eq_eq_not, Bool.not_true,
                decide_eq_false_iff_not, Classical.not_not] using descending
          rcases List.mem_cons.mp later with same | after
          · exact same ▸ belowPh
          · exact UInt64.lt_trans belowPh (abovePh q after)
    · rw [readLoadcmdsLoop, if_neg load] at ok
      rw [loadPhdrs_cons_of_not load]
      exact readLoadcmdsLoop_ok prev rest cs ok

theorem readLoadcmd_of_forall₂ : ∀ {hs : List ElfPhdr} {cs : List Loadcmd},
    List.Forall₂ (fun ph c => readLoadcmd allocAlignment ph = .ok c) hs cs →
    ∀ ph ∈ hs, ∃ c, readLoadcmd allocAlignment ph = .ok c
  | _, _, .nil => fun _ absent => absurd absent List.not_mem_nil
  | _, _, .cons readC rest => fun ph mem => by
    rcases List.mem_cons.mp mem with same | later
    · exact ⟨_, same ▸ readC⟩
    · exact readLoadcmd_of_forall₂ rest ph later

/-- `read_all_loadcmds` succeeds only on tables whose `PT_LOAD` headers are in
strictly ascending order of `p_vaddr`, each with its load command. -/
theorem readAllLoadcmds_ok {allocated : Bool} {phdrs : List ElfPhdr} {cs : List Loadcmd}
    (ok : readAllLoadcmds allocAlignment allocated phdrs = .ok cs) :
    List.Forall₂ (fun ph c => readLoadcmd allocAlignment ph = .ok c) (loadPhdrs phdrs) cs ∧
      (loadPhdrs phdrs).Pairwise fun p q => p.pVaddr < q.pVaddr := by
  unfold readAllLoadcmds at ok
  split_ifs at ok with noLoads noMemory
  · simp only [Except.ok.injEq] at ok
    subst ok
    have empty : loadPhdrs phdrs = [] := List.length_eq_zero_iff.mp noLoads
    rw [empty]
    exact ⟨.nil, .nil⟩
  · obtain ⟨pairs, -, sorted⟩ := readLoadcmdsLoop_ok none phdrs cs ok
    exact ⟨pairs, sorted⟩

/-- Each `PT_LOAD` header of a table read_all_loadcmds accepts has no more file
than memory and its `p_vaddr - p_offset` on a page boundary. -/
theorem readAllLoadcmds_segments {k : Nat} (pow : allocAlignment.toNat = 2 ^ k) {allocated : Bool}
    {phdrs : List ElfPhdr} {cs : List Loadcmd} (ok : readAllLoadcmds allocAlignment allocated phdrs = .ok cs) :
    ∀ ph ∈ loadPhdrs phdrs,
      ph.pFilesz ≤ ph.pMemsz ∧ (ph.pVaddr - ph.pOffset).toNat % allocAlignment.toNat = 0 := by
  obtain ⟨pairs, -⟩ := readAllLoadcmds_ok ok
  intro ph mem
  obtain ⟨c, readC⟩ := readLoadcmd_of_forall₂ pairs ph mem
  obtain ⟨-, aligned, fits, -⟩ := readLoadcmd_ok readC
  exact ⟨fits, (isAlignedPow2_iff pow).mp aligned⟩

end ReadSpec

/-! ## On a platform that grants every call -/

/-- Every call succeeds, and the file system's `mmap` maps every page it is asked for. -/
def LoaderPlatform.Grants (P : LoaderPlatform σ) : Prop :=
  ∀ st call, ∃ v st', P.call st call = .ok (v, st') ∧
    ∀ addr size prot flags offset, call = .fileMmap addr size prot flags offset → v = size

section Granted

variable {P : LoaderPlatform σ}

theorem mapFilePart_granted (grants : P.Grants) (c : Loadcmd) (baseDiff : UInt64) (st : σ) :
    ∃ st', mapFilePart P c baseDiff st = .ok st' := by
  unfold mapFilePart
  split_ifs with inside
  · obtain ⟨_, st₁, booked, -⟩ := grants st
      (.bkeepMmapFixed (c.start + baseDiff) (c.mapEnd - c.start) c.prot (MAP_FIXED ||| MAP_PRIVATE) true c.mapOff)
    obtain ⟨validSize, st₂, mapped, whole⟩ := grants st₁
      (.fileMmap (c.start + baseDiff) (c.mapEnd - c.start) c.prot (MAP_FIXED ||| MAP_PRIVATE) c.mapOff)
    have valid : validSize = c.mapEnd - c.start := whole _ _ _ _ _ rfl
    exact ⟨st₂, by simp only [booked, mapped, valid, ne_eq, not_true_eq_false, if_false]⟩
  · exact ⟨st, rfl⟩

theorem protectLastPage_granted (grants : P.Grants) (addr : UInt64) (prot : UInt32) (st : σ) :
    ∃ st', protectLastPage P allocAlignment addr prot st = .ok st' := by
  obtain ⟨_, st', protected', -⟩ := grants st (.palVirtualMemoryProtect addr allocAlignment prot)
  exact ⟨st', by simp only [protectLastPage, protected']⟩

theorem zeroFileTail_granted (grants : P.Grants) (c : Loadcmd) (baseDiff : UInt64) (st : σ) :
    ∃ st', zeroFileTail P allocAlignment c baseDiff st = .ok st' := by
  unfold zeroFileTail
  split_ifs with tail readOnly
  · -- writable for the while, cleared, and back
    obtain ⟨st₁, writable⟩ := protectLastPage_granted allocAlignment grants
      (alignDownPow2 (c.dataEnd + baseDiff) allocAlignment)
      (linuxProtToPal c.prot (MAP_FIXED ||| MAP_PRIVATE) ||| PAL_PROT_WRITE) st
    obtain ⟨st₂, restored⟩ := protectLastPage_granted allocAlignment grants
      (alignDownPow2 (c.dataEnd + baseDiff) allocAlignment) (linuxProtToPal c.prot (MAP_FIXED ||| MAP_PRIVATE))
      (P.memsetZero st₁ (c.dataEnd + baseDiff) (c.mapEnd - c.dataEnd))
    exact ⟨st₂, by simp only [writable, restored]⟩
  · exact ⟨_, rfl⟩
  · exact ⟨st, rfl⟩

theorem allocZeroPages_granted (grants : P.Grants) (c : Loadcmd) (baseDiff : UInt64) (st : σ) :
    ∃ st', allocZeroPages P c baseDiff st = .ok st' := by
  unfold allocZeroPages
  split_ifs with beyond
  · obtain ⟨_, st₁, booked, -⟩ := grants st
      (.bkeepMmapFixed (c.mapEnd + baseDiff) (c.allocEnd - c.mapEnd) c.prot
        (MAP_FIXED ||| MAP_PRIVATE ||| MAP_ANONYMOUS) false 0)
    obtain ⟨_, st₂, allocated, -⟩ := grants st₁
      (.palVirtualMemoryAlloc (c.mapEnd + baseDiff) (c.allocEnd - c.mapEnd)
        (linuxProtToPal c.prot (MAP_FIXED ||| MAP_PRIVATE ||| MAP_ANONYMOUS)))
    exact ⟨st₂, by simp only [booked, allocated]⟩
  · exact ⟨st, rfl⟩

/-- On a platform that grants every call, every load command executes. -/
theorem executeLoadcmd_granted (grants : P.Grants) (c : Loadcmd) (baseDiff : UInt64) (st : σ) :
    ∃ st', executeLoadcmd P allocAlignment c baseDiff st = (0, st') := by
  obtain ⟨st₁, mapped⟩ := mapFilePart_granted grants c baseDiff st
  obtain ⟨st₂, zeroed⟩ := zeroFileTail_granted allocAlignment grants c baseDiff st₁
  obtain ⟨st₃, allocated⟩ := allocZeroPages_granted grants c baseDiff st₂
  exact ⟨st₃, by simp only [executeLoadcmd, mapped, zeroed, allocated]⟩

end Granted

/-! ## What the lookups keep and find -/

section Lookups

variable {P : LoaderPlatform σ} {ehdr : ElfEhdr} {c : Loadcmd} {l l' : LinkMap}

@[simp] theorem findPhdr_lBaseDiff : (findPhdr ehdr c l).lBaseDiff = l.lBaseDiff := by
  unfold findPhdr
  split_ifs <;> rfl

@[simp] theorem findEntry_lBaseDiff : (findEntry ehdr c l).lBaseDiff = l.lBaseDiff := by
  unfold findEntry
  split_ifs <;> rfl

@[simp] theorem countDataSegment_lBaseDiff : (countDataSegment c l).lBaseDiff = l.lBaseDiff := by
  unfold countDataSegment
  split_ifs <;> rfl

/-- The interpreter's name is taken only from a segment whose file data holds
it with its NUL, as the memory reads at that point. -/
theorem findInterp_ok {interpLibnameVaddr : UInt64} {st : σ}
    (found : findInterp P interpLibnameVaddr c st l = .ok l') :
    l' = l ∨
      (interpLibnameVaddr ≠ 0 ∧ l.lInterpLibname = 0 ∧ c.start ≤ interpLibnameVaddr ∧
        interpLibnameVaddr < c.dataEnd ∧
        strnlen (P.readByte st) (interpLibnameVaddr + l.lBaseDiff) (c.dataEnd - interpLibnameVaddr).toNat ≠
          (c.dataEnd - interpLibnameVaddr).toNat ∧
        l' = { l with lInterpLibname := interpLibnameVaddr + l.lBaseDiff }) := by
  unfold findInterp at found
  dsimp only at found
  by_cases inside : interpLibnameVaddr ≠ 0 ∧ l.lInterpLibname = 0 ∧ c.start ≤ interpLibnameVaddr ∧
      interpLibnameVaddr < c.dataEnd
  · rw [if_pos inside] at found
    by_cases unterminated : strnlen (P.readByte st) (interpLibnameVaddr + l.lBaseDiff)
        (c.dataEnd - interpLibnameVaddr).toNat = (c.dataEnd - interpLibnameVaddr).toNat
    · rw [if_pos unterminated] at found
      cases found
    · rw [if_neg unterminated] at found
      exact .inr ⟨inside.1, inside.2.1, inside.2.2.1, inside.2.2.2, unterminated, (Except.ok.inj found).symm⟩
  · rw [if_neg inside] at found
    exact .inl (Except.ok.inj found).symm

theorem findInLoadcmd_lBaseDiff {interpLibnameVaddr : UInt64} {st : σ}
    (found : findInLoadcmd P ehdr interpLibnameVaddr c st l = .ok l') : l'.lBaseDiff = l.lBaseDiff := by
  unfold findInLoadcmd at found
  cases interp : findInterp P interpLibnameVaddr c st (findPhdr ehdr c l) with
  | error err => simp only [interp, reduceCtorEq] at found
  | ok l₁ =>
    simp only [interp, Except.ok.injEq] at found
    subst found
    have kept : l₁.lBaseDiff = l.lBaseDiff := by
      rcases findInterp_ok interp with same | ⟨-, -, -, -, -, named⟩
      · rw [same, findPhdr_lBaseDiff]
      · rw [named, findPhdr_lBaseDiff]
    rw [countDataSegment_lBaseDiff, findEntry_lBaseDiff, kept]

/-- The load commands never move the object: the base stays what it was. -/
theorem executeLoadcmds_lBaseDiff {interpLibnameVaddr : UInt64} :
    ∀ (cs : List Loadcmd) (l : LinkMap) (st : σ) (l' : LinkMap) (st' : σ),
      executeLoadcmds P allocAlignment ehdr interpLibnameVaddr cs l st = (.ok l', st') →
      l'.lBaseDiff = l.lBaseDiff
  | [], l, st, l', st', run => by
    simp only [executeLoadcmds, Prod.mk.injEq, Except.ok.injEq] at run
    rw [run.1]
  | c :: rest, l, st, l', st', run => by
    simp only [executeLoadcmds] at run
    split_ifs at run with failed
    · simp only [Prod.mk.injEq, reduceCtorEq, false_and] at run
    · cases found : findInLoadcmd P ehdr interpLibnameVaddr c
          (executeLoadcmd P allocAlignment c l.lBaseDiff st).2 l with
      | error err => simp only [found, Prod.mk.injEq, reduceCtorEq, false_and] at run
      | ok l₁ =>
        simp only [found] at run
        rw [executeLoadcmds_lBaseDiff rest l₁ _ l' st' run, findInLoadcmd_lBaseDiff found]

end Lookups

/-! ## map_elf_object, inverted -/

/-- What a successful map_elf_object went through: every allocation and read
succeeded, the load commands executed, and everything it looked for was found. -/
theorem mapElfObject_some {P : LoaderPlatform σ} {ehdr : ElfEhdr} {inputs : MapInputs} {st : σ} {l : LinkMap}
    {st' : σ}
    (loaded : mapElfObject P allocAlignment ehdr inputs st = (some l, st')) :
    ∃ phdrs first rest ret baseDiff st₁ l₁,
      inputs.phdrs = .ok phdrs ∧
      readAllLoadcmds allocAlignment inputs.loadcmdsAllocated phdrs = .ok (first :: rest) ∧
      (if ehdr.eType = ET_DYN then
          reserveDyn P allocAlignment ((first :: rest).getLast (List.cons_ne_nil first rest)).allocEnd
            inputs.uninitAddr st
        else (0, 0, st)) = (ret, baseDiff, st₁) ∧
      ¬ ret < 0 ∧
      executeLoadcmds P allocAlignment ehdr (interpVaddr phdrs) (first :: rest)
        { lBaseDiff := baseDiff, lPhdr := 0, lEntry := 0, lPhnum := 0, lMapStart := first.start + baseDiff,
          lMapEnd := ((first :: rest).getLast (List.cons_ne_nil first rest)).allocEnd + baseDiff,
          lInterpLibname := 0, lDataSegmentSize := 0 } st₁ = (.ok l₁, st') ∧
      l₁.lPhdr ≠ 0 ∧ (interpVaddr phdrs ≠ 0 → l₁.lInterpLibname ≠ 0) ∧ (ehdr.eEntry ≠ 0 → l₁.lEntry ≠ 0) ∧
      l = { l₁ with lPhnum := ehdr.ePhnum } := by
  unfold mapElfObject at loaded
  split at loaded
  · cases loaded
  split at loaded
  · cases loaded
  split at loaded
  · cases loaded
  rename_i phdrs phdrsEq
  split at loaded
  · cases loaded
  · cases loaded
  rename_i first rest readEq
  dsimp only at loaded
  generalize reserveEq : (if ehdr.eType = ET_DYN then
      reserveDyn P allocAlignment ((first :: rest).getLast (List.cons_ne_nil first rest)).allocEnd
        inputs.uninitAddr st
    else (0, 0, st)) = reserved at loaded
  obtain ⟨ret, baseDiff, st₁⟩ := reserved
  dsimp only at loaded
  split at loaded
  · cases loaded
  rename_i notFailed
  split at loaded
  · cases loaded
  rename_i l₁ st₂ runEq
  split at loaded
  · cases loaded
  rename_i phdrFound
  split at loaded
  · cases loaded
  rename_i interpFound
  split at loaded
  · cases loaded
  rename_i entryFound
  simp only [Prod.mk.injEq, Option.some.injEq] at loaded
  obtain ⟨rfl, rfl⟩ := loaded
  refine ⟨phdrs, first, rest, ret, baseDiff, st₁, l₁, phdrsEq, readEq, reserveEq, notFailed, runEq, phdrFound,
    fun named => ?_, fun entry => ?_, rfl⟩
  · exact fun absent => interpFound ⟨named, absent⟩
  · exact fun absent => entryFound ⟨entry, absent⟩

/-! ## When reserve_dyn is refused -/

/-- A refused `bkeep_mmap_any_aslr` makes `reserve_dyn` return 1 and leave `addr`. -/
theorem reserveDyn_refused {P : LoaderPlatform σ} {st : σ}
    (refused : ∀ length, ∃ err, P.call st (.bkeepMmapAnyAslr length) = .error err) (totalSize addr : UInt64) :
    reserveDyn P allocAlignment totalSize addr st = (1, addr, st) := by
  obtain ⟨err, refusal⟩ := refused (alignUpPow2 totalSize allocAlignment)
  simp only [reserveDyn, refusal]

/-- When `bkeep_mmap_any_aslr` is refused, map_elf_object does not stop: a
position-independent object it loads has for its base whatever `addr` held
before the call, an address nobody reserved. -/
theorem mapElfObject_refused_reserve_base {P : LoaderPlatform σ} {ehdr : ElfEhdr} {inputs : MapInputs}
    {st : σ} (dyn : ehdr.eType = ET_DYN)
    (refused : ∀ length, ∃ err, P.call st (.bkeepMmapAnyAslr length) = .error err)
    {l : LinkMap} {st' : σ} (loaded : mapElfObject P allocAlignment ehdr inputs st = (some l, st')) :
    l.lBaseDiff = inputs.uninitAddr := by
  obtain ⟨phdrs, first, rest, ret, baseDiff, st₁, l₁, -, -, reserveEq, -, runEq, -, -, -, rfl⟩ :=
    mapElfObject_some allocAlignment loaded
  rw [if_pos dyn, reserveDyn_refused allocAlignment refused] at reserveEq
  simp only [Prod.mk.injEq] at reserveEq
  obtain ⟨-, rfl, rfl⟩ := reserveEq
  exact executeLoadcmds_lBaseDiff allocAlignment _ _ _ _ _ runEq

/-- A platform over no state that refuses `bkeep_mmap_any_aslr` and grants
every other call. -/
def aslrRefusingPlatform : LoaderPlatform Unit where
  call _ call :=
    match call with
    | .bkeepMmapAnyAslr _ => .error (-ENOMEM)
    | .fileMmap _ size _ _ _ => .ok (size, ())
    | _ => .ok (0, ())
  memsetZero _ _ _ := ()
  readByte _ _ := 0
  palToUnixErrno err := err

/-- A shared object of one read-only page, its program headers at offset 64. -/
def sharedPhdr : ElfPhdr :=
  { pType := PT_LOAD, pFlags := PF_R, pOffset := 0, pVaddr := 0, pFilesz := 0x100, pMemsz := 0x100,
    pAlign := 0x1000 }

def sharedEhdr : ElfEhdr := { eType := ET_DYN, eEntry := 0, ePhoff := 64, ePhnum := 1 }

/-- `addr` holds `0x7f0000000000` when reserve_dyn is called. -/
def sharedInputs : MapInputs :=
  { linkMapAllocated := true, phdrAllocated := true, phdrs := .ok [sharedPhdr], loadcmdsAllocated := true,
    uninitAddr := 0x7f0000000000 }

theorem mapElfObject_refused_reserve_base_unreserved :
    ∃ l, mapElfObject aslrRefusingPlatform 4096 sharedEhdr sharedInputs () = (some l, ()) ∧
      l.lBaseDiff = sharedInputs.uninitAddr := by
  have loaded : mapElfObject aslrRefusingPlatform 4096 sharedEhdr sharedInputs () =
      (some { lBaseDiff := 0x7f0000000000, lPhdr := 0x7f0000000040, lEntry := 0, lPhnum := 1,
              lMapStart := 0x7f0000000000, lMapEnd := 0x7f0000001000, lInterpLibname := 0,
              lDataSegmentSize := 0x1000 }, ()) := by
    decide
  exact ⟨_, loaded, mapElfObject_refused_reserve_base 4096 (by decide) (fun _ => ⟨_, rfl⟩) loaded⟩

/-! ## A segment that runs past the end of the address space -/

/-- A text segment whose `p_memsz` runs past the end of the address space:
`p_vaddr + p_memsz` is `2^64 + 0x1700`, while its alignments and sizes pass
every check of read_loadcmd, and the wrapped end rounds up to the same page as
the end of its file data. -/
def wrappingPhdr : ElfPhdr :=
  { pType := PT_LOAD, pFlags := PF_R ||| PF_X, pOffset := 0x800, pVaddr := 0x1800, pFilesz := 0x100,
    pMemsz := 0xFFFFFFFFFFFFFF00, pAlign := 0x1000 }

/-- An executable with that one segment, its program headers at offset 64 and
its entry point in the segment's file data. -/
def wrappingEhdr : ElfEhdr := { eType := 2, eEntry := 0x1810, ePhoff := 64, ePhnum := 1 }

/-- Every allocation succeeds and the header table reads as that one header. -/
def wrappingInputs : MapInputs :=
  { linkMapAllocated := true, phdrAllocated := true, phdrs := .ok [wrappingPhdr], loadcmdsAllocated := true,
    uninitAddr := 0 }

/-- On a platform that grants its calls, map_elf_object loads the wrapping
segment as the one page `[0x1000, 0x2000)`. -/
theorem mapElfObject_wrapping_granted {P : LoaderPlatform σ} (grants : P.Grants) (st : σ) :
    ∃ l st', mapElfObject P 4096 wrappingEhdr wrappingInputs st = (some l, st') ∧
      l.lMapStart = 0x1000 ∧ l.lMapEnd = 0x2000 ∧
      l.lMapEnd.toNat < wrappingPhdr.pVaddr.toNat + wrappingPhdr.pMemsz.toNat := by
  let c₀ : Loadcmd :=
    { start := 0x1000, dataEnd := 0x1900, mapEnd := 0x2000, allocEnd := 0x2000, mapOff := 0,
      prot := PROT_READ ||| PROT_EXEC }
  have read : readAllLoadcmds 4096 true [wrappingPhdr] = .ok [c₀] := by decide
  have noInterp : interpVaddr [wrappingPhdr] = 0 := by decide
  have notDyn : ¬ wrappingEhdr.eType = ET_DYN := by decide
  obtain ⟨st₁, executed⟩ := executeLoadcmd_granted 4096 grants c₀ 0 st
  let loaded : LinkMap :=
    { lBaseDiff := 0, lPhdr := 0x1040, lEntry := 0x1810, lPhnum := 1, lMapStart := 0x1000,
      lMapEnd := 0x2000, lInterpLibname := 0, lDataSegmentSize := 0 }
  refine ⟨loaded, st₁, ?_, rfl, rfl, by decide⟩
  simp only [mapElfObject, wrappingInputs, Bool.not_true, Bool.false_eq_true, if_false, read, notDyn,
    noInterp]
  simp only [executeLoadcmds, List.getLast_singleton, executed]
  -- the program headers and the entry point are found in the segment's file data
  simp +decide only [findInLoadcmd, findPhdr, findInterp, findEntry, countDataSegment, c₀, wrappingEhdr,
    sizeofElfPhdr, PROT_READ, PROT_EXEC, ↓reduceIte]
  rfl

theorem mapElfObject_accepts_wrapping_segment :
    (∀ (allocAlignment : UInt64) (k : Nat) (allocated : Bool) (phdrs : List ElfPhdr) (cs : List Loadcmd),
      allocAlignment.toNat = 2 ^ k → readAllLoadcmds allocAlignment allocated phdrs = .ok cs →
      ((loadPhdrs phdrs).Pairwise fun p q => p.pVaddr < q.pVaddr) ∧
      ∀ ph ∈ loadPhdrs phdrs,
        ph.pFilesz ≤ ph.pMemsz ∧ (ph.pVaddr - ph.pOffset).toNat % allocAlignment.toNat = 0) ∧
    2 ^ 64 ≤ wrappingPhdr.pVaddr.toNat + wrappingPhdr.pMemsz.toNat ∧
    readAllLoadcmds 4096 true [wrappingPhdr] =
      .ok [{ start := 0x1000, dataEnd := 0x1900, mapEnd := 0x2000, allocEnd := 0x2000, mapOff := 0,
             prot := PROT_READ ||| PROT_EXEC }] ∧
    ∀ {σ : Type} (P : LoaderPlatform σ), P.Grants → ∀ st : σ, ∃ l st',
      mapElfObject P 4096 wrappingEhdr wrappingInputs st = (some l, st') ∧
      l.lMapStart = 0x1000 ∧ l.lMapEnd = 0x2000 ∧
      l.lMapEnd.toNat < wrappingPhdr.pVaddr.toNat + wrappingPhdr.pMemsz.toNat := by
  refine ⟨fun allocAlignment k allocated phdrs cs pow ok => ?_, by decide, by decide, ?_⟩
  · exact ⟨(readAllLoadcmds_ok ok).2, readAllLoadcmds_segments pow ok⟩
  · intro σ P grants st
    exact mapElfObject_wrapping_granted grants st

/-- The platform over no state that grants every call: `mmap` maps all it is
asked for, and every other call answers 0. -/
def grantingPlatform : LoaderPlatform Unit where
  call _ call := .ok ((match call with | .fileMmap _ size _ _ _ => size | _ => 0), ())
  memsetZero _ _ _ := ()
  readByte _ _ := 0
  palToUnixErrno err := err

theorem grantingPlatform_grants : grantingPlatform.Grants := by
  intro st call
  refine ⟨_, (), rfl, ?_⟩
  rintro addr size prot flags offset rfl
  rfl

theorem mapElfObject_accepts_wrapping_segment_granted :
    (((loadPhdrs [wrappingPhdr]).Pairwise fun p q => p.pVaddr < q.pVaddr) ∧
      ∀ ph ∈ loadPhdrs [wrappingPhdr],
        ph.pFilesz ≤ ph.pMemsz ∧ (ph.pVaddr - ph.pOffset).toNat % (4096 : UInt64).toNat = 0) ∧
    ∃ l st', mapElfObject grantingPlatform 4096 wrappingEhdr wrappingInputs () = (some l, st') ∧
      l.lMapStart = 0x1000 ∧ l.lMapEnd = 0x2000 ∧
      l.lMapEnd.toNat < wrappingPhdr.pVaddr.toNat + wrappingPhdr.pMemsz.toNat :=
  ⟨mapElfObject_accepts_wrapping_segment.1 4096 12 true [wrappingPhdr] _ (by decide)
      mapElfObject_accepts_wrapping_segment.2.2.1,
    mapElfObject_accepts_wrapping_segment.2.2.2 grantingPlatform grantingPlatform_grants ()⟩

end Gramine.LibOS
