import Gramine.Library.ByteCopy
import Gramine.Pal.LinuxSgx.TrustedFiles

/-!
# Copies between the enclave and untrusted memory

`sgx_copy_to_enclave_verified` and `sgx_copy_from_enclave_verified`
(`enclave_framework.c`) stand for `memcpy` between an enclave buffer and
untrusted memory. Against CVE-2022-21233 and CVE-2022-21166 they touch
untrusted memory only in 8-byte words at 8-aligned addresses: a misaligned
head goes through the word it lies in (read, and for a write to untrusted
memory written back whole), the aligned middle is moved with `rep movsq`, and
a misaligned tail goes through its word as the head does.

The model runs the routines on one memory of bytes addressed by `Nat` and
records each access to untrusted memory; `prefix_val` and `suffix_val` are
values of the routine. Addresses and sizes are `uintptr_t` and `size_t`
values, and once `sgx_is_completely_within_enclave` and
`sgx_is_valid_untrusted_ptr` pass nothing the routines compute wraps around.
No other thread writes the memory during a copy.
-/

namespace Gramine.Pal.LinuxSgx

open ByteCopy

/-- `UINTPTR_MAX`. -/
def UINTPTR_MAX : Nat := 2 ^ 64 - 1

/-- `PAGE_SIZE`. -/
def PAGE_SIZE : Nat := 4096

/-- `g_enclave_base` and `g_enclave_top`. -/
structure EnclaveRange where
  base : Nat
  top : Nat
  deriving DecidableEq, Repr

/-- `sgx_is_completely_within_enclave(addr, size)`. -/
def sgxIsCompletelyWithinEnclave (enclave : EnclaveRange) (addr size : Nat) : Bool :=
  if addr > UINTPTR_MAX - size then false
  else enclave.base ≤ addr && addr + size ≤ enclave.top

/-- `sgx_is_valid_untrusted_ptr(addr, size, alignment)`. -/
def sgxIsValidUntrustedPtr (enclave : EnclaveRange) (addr size alignment : Nat) : Bool :=
  if addr > UINTPTR_MAX - size then false
  else if !(addr + size ≤ enclave.base || enclave.top ≤ addr) then false
  else addr % alignment == 0

/-- An access to untrusted memory: the 8-byte word at `addr`. -/
inductive UntrustedAccess
  | read (addr : Nat)
  | write (addr : Nat)
  deriving DecidableEq, Repr

def UntrustedAccess.addr : UntrustedAccess → Nat
  | .read addr | .write addr => addr

def UntrustedAccess.isRead : UntrustedAccess → Bool
  | .read _ => true
  | .write _ => false

/-- An access within the words that cover `[uptr, uptr + size)`: an
8-aligned word between `ALIGN_DOWN(uptr, 8)` and `ALIGN_UP(uptr + size, 8)`. -/
def UntrustedAccess.InWords (uptr size : Nat) (acc : UntrustedAccess) : Prop :=
  acc.addr % 8 = 0 ∧ alignDown uptr 8 ≤ acc.addr ∧ acc.addr + 8 ≤ alignUp (uptr + size) 8

attribute [grind] PAGE_SIZE sgxIsCompletelyWithinEnclave sgxIsValidUntrustedPtr UntrustedAccess.addr

/-- The words that cover the rest of a range cover the range. -/
theorem UntrustedAccess.InWords.of_rest {uptr size off : Nat} {acc : UntrustedAccess} (within : off ≤ size)
    (rest : acc.InWords (uptr + off) (size - off)) : acc.InWords uptr size := by
  obtain ⟨aligned, lo, hi⟩ := rest
  refine ⟨aligned, ?_, ?_⟩
  · unfold alignDown at lo ⊢
    omega
  · rw [show uptr + size = uptr + off + (size - off) by omega]
    exact hi

/-- The memory and the accesses to untrusted memory made so far. -/
structure CopyMachine where
  mem : Nat → UInt8
  accesses : List UntrustedAccess

/-- `copy_u64s_from_untrusted(buf, addr, 1)`: the word at `addr` read into a
local buffer, whose byte `i < 8` it gives. -/
def CopyMachine.readWord (m : CopyMachine) (addr : Nat) : (Nat → UInt8) × CopyMachine :=
  (fun i => m.mem (addr + i), { m with accesses := m.accesses ++ [.read addr] })

/-- `copy_u64s_to_untrusted(addr, buf, 1)`: bytes `0` to `7` of a local
buffer written to the word at `addr`. -/
def CopyMachine.writeWord (m : CopyMachine) (addr : Nat) (word : Nat → UInt8) : CopyMachine :=
  ⟨fun a => if addr ≤ a ∧ a < addr + 8 then word (a - addr) else m.mem a, m.accesses ++ [.write addr]⟩

/-- `memcpy(dst, buf, len)` from a local buffer into enclave memory. -/
def CopyMachine.store (m : CopyMachine) (dst len : Nat) (buf : Nat → UInt8) : CopyMachine :=
  { m with mem := fun a => if dst ≤ a ∧ a < dst + len then buf (a - dst) else m.mem a }

/-- `copy_u64s_from_untrusted(dst, src, count)`: `rep movsq`, a word at a
time, from untrusted memory into the enclave. -/
def copyU64sFromUntrusted (dst src : Nat) : Nat → CopyMachine → CopyMachine
  | 0, m => m
  | count + 1, m =>
    let (word, m) := m.readWord src
    copyU64sFromUntrusted (dst + 8) (src + 8) count (m.store dst 8 word)

/-- `copy_u64s_to_untrusted(dst, src, count)`: `rep movsq`, a word at a time,
from the enclave into untrusted memory. -/
def copyU64sToUntrusted (dst src : Nat) : Nat → CopyMachine → CopyMachine
  | 0, m => m
  | count + 1, m => copyU64sToUntrusted (dst + 8) (src + 8) count (m.writeWord dst fun i => m.mem (src + i))

/-- `sgx_copy_to_enclave_verified` from `uptr` aligned on: the whole words,
then a misaligned tail through its word. -/
def copyAlignedToEnclave (m : CopyMachine) (ptr uptr size : Nat) : CopyMachine :=
  let suffixMisalignment := size % 8
  let copyLen := size - suffixMisalignment
  let m := copyU64sFromUntrusted ptr uptr (copyLen / 8) m
  if suffixMisalignment ≠ 0 then
    let (suffixVal, m) := m.readWord (uptr + copyLen)
    m.store (ptr + copyLen) suffixMisalignment suffixVal
  else m

/-- `sgx_copy_to_enclave_verified(ptr, uptr, size)`. -/
def sgxCopyToEnclaveVerified (m : CopyMachine) (ptr uptr size : Nat) : CopyMachine :=
  if size = 0 then m
  else
    let prefixMisalignment := uptr % 8
    if prefixMisalignment ≠ 0 then
      -- the head, from the word it lies in
      let (prefixVal, m) := m.readWord (uptr - prefixMisalignment)
      let copyLen := min (8 - prefixMisalignment) size
      let m := m.store ptr copyLen fun i => prefixVal (prefixMisalignment + i)
      if size - copyLen = 0 then m
      else copyAlignedToEnclave m (ptr + copyLen) (uptr + copyLen) (size - copyLen)
    else copyAlignedToEnclave m ptr uptr size

/-- `sgx_copy_from_enclave_verified` from `uptr` aligned on: the whole words,
then a misaligned tail read, patched and written back as a word. -/
def copyAlignedFromEnclave (m : CopyMachine) (uptr ptr size : Nat) : CopyMachine :=
  let suffixMisalignment := size % 8
  let copyLen := size - suffixMisalignment
  let m := copyU64sToUntrusted uptr ptr (copyLen / 8) m
  if suffixMisalignment ≠ 0 then
    let (suffixVal, m) := m.readWord (uptr + copyLen)
    m.writeWord (uptr + copyLen) fun i => if i < suffixMisalignment then m.mem (ptr + copyLen + i) else suffixVal i
  else m

/-- `sgx_copy_from_enclave_verified(uptr, ptr, size)`. -/
def sgxCopyFromEnclaveVerified (m : CopyMachine) (uptr ptr size : Nat) : CopyMachine :=
  if size = 0 then m
  else
    let prefixMisalignment := uptr % 8
    if prefixMisalignment ≠ 0 then
      let copyLen := min (8 - prefixMisalignment) size
      -- the head's word, with the head's bytes replaced, written back whole
      let (prefixVal, m) := m.readWord (uptr - prefixMisalignment)
      let m := m.writeWord (uptr - prefixMisalignment) fun i =>
        if prefixMisalignment ≤ i ∧ i < prefixMisalignment + copyLen then m.mem (ptr + (i - prefixMisalignment))
        else prefixVal i
      if size - copyLen = 0 then m
      else copyAlignedFromEnclave m (uptr + copyLen) (ptr + copyLen) (size - copyLen)
    else copyAlignedFromEnclave m uptr ptr size

/-! ## The primitives -/

section Primitives

variable (m : CopyMachine) (addr : Nat)

@[simp] theorem CopyMachine.readWord_mem : (m.readWord addr).2.mem = m.mem := rfl

@[simp] theorem CopyMachine.readWord_accesses : (m.readWord addr).2.accesses = m.accesses ++ [.read addr] := rfl

@[simp] theorem CopyMachine.writeWord_accesses (word : Nat → UInt8) :
    (m.writeWord addr word).accesses = m.accesses ++ [.write addr] := rfl

@[simp] theorem CopyMachine.store_accesses (len : Nat) (buf : Nat → UInt8) :
    (m.store addr len buf).accesses = m.accesses := rfl

/-- A store of bytes read from memory is a copy. -/
theorem CopyMachine.store_read (dst len src : Nat) :
    (m.store dst len fun i => m.mem (src + i)).mem = copy m.mem dst src len := rfl

/-- A word written back with the bytes `[off, off + len)` replaced by bytes
of memory is a copy of those bytes. -/
theorem CopyMachine.writeWord_patch {off len : Nat} (src : Nat) (fits : off + len ≤ 8) :
    (m.writeWord addr fun i => if off ≤ i ∧ i < off + len then m.mem (src + (i - off)) else m.mem (addr + i)).mem =
      copy m.mem (addr + off) src len := by
  funext a
  simp only [CopyMachine.writeWord]
  by_cases word : addr ≤ a ∧ a < addr + 8
  · rw [if_pos word]
    by_cases patched : addr + off ≤ a ∧ a < addr + off + len
    · rw [if_pos (by omega), copy_apply_of_mem patched.1 patched.2]
      congr 1
      omega
    · rw [if_neg (by omega), copy_apply_of_not_mem (by omega)]
      congr 1
      omega
  · rw [if_neg word, copy_apply_of_not_mem (by omega)]

theorem CopyMachine.writeWord_read (src : Nat) :
    (m.writeWord addr fun i => m.mem (src + i)).mem = copy m.mem addr src 8 := rfl

end Primitives

/-- `rep movsq` into the enclave copies `8 * count` bytes and reads the
source words in order. -/
theorem copyU64sFromUntrusted_eq (count : Nat) :
    ∀ (m : CopyMachine) (dst src : Nat), src + 8 * count ≤ dst ∨ dst ≤ src →
      (copyU64sFromUntrusted dst src count m).mem = copy m.mem dst src (8 * count) ∧
      (copyU64sFromUntrusted dst src count m).accesses =
        m.accesses ++ (List.range count).map fun i => .read (src + 8 * i) := by
  induction count with
  | zero => exact fun m dst src _ => ⟨by simp [copyU64sFromUntrusted], by simp [copyU64sFromUntrusted]⟩
  | succ count ih =>
    intro m dst src apart
    obtain ⟨memIs, accessesIs⟩ := ih ((m.readWord src).2.store dst 8 (m.readWord src).1) (dst + 8) (src + 8)
      (by omega)
    refine ⟨?_, ?_⟩
    · rw [copyU64sFromUntrusted, memIs]
      -- the first word, then the others
      have first : ((m.readWord src).2.store dst 8 (m.readWord src).1).mem = copy m.mem dst src 8 :=
        (m.readWord src).2.store_read dst 8 src
      rw [first, copy_copy (by omega)]
      congr 1
      omega
    · rw [copyU64sFromUntrusted, accessesIs, List.range_succ_eq_map]
      simp only [CopyMachine.store_accesses, CopyMachine.readWord_accesses, List.map_cons, List.map_map,
        List.append_assoc, List.singleton_append]
      congr 3
      funext i
      simp only [Function.comp, UntrustedAccess.read.injEq]
      omega

/-- `rep movsq` out of the enclave copies `8 * count` bytes and writes the
destination words in order. -/
theorem copyU64sToUntrusted_eq (count : Nat) :
    ∀ (m : CopyMachine) (dst src : Nat), src + 8 * count ≤ dst ∨ dst ≤ src →
      (copyU64sToUntrusted dst src count m).mem = copy m.mem dst src (8 * count) ∧
      (copyU64sToUntrusted dst src count m).accesses =
        m.accesses ++ (List.range count).map fun i => .write (dst + 8 * i) := by
  induction count with
  | zero => exact fun m dst src _ => ⟨by simp [copyU64sToUntrusted], by simp [copyU64sToUntrusted]⟩
  | succ count ih =>
    intro m dst src apart
    obtain ⟨memIs, accessesIs⟩ := ih (m.writeWord dst fun i => m.mem (src + i)) (dst + 8) (src + 8) (by omega)
    refine ⟨?_, ?_⟩
    · rw [copyU64sToUntrusted, memIs, m.writeWord_read, copy_copy (by omega)]
      congr 1
      omega
    · rw [copyU64sToUntrusted, accessesIs, List.range_succ_eq_map]
      simp only [CopyMachine.writeWord_accesses, List.map_cons, List.map_map, List.append_assoc,
        List.singleton_append]
      congr 3
      funext i
      simp only [Function.comp, UntrustedAccess.write.injEq]
      omega

/-! ## The routines -/

/-- Bytes `[off, off + len)` of the word at `base`, stored at `dst`, are a
copy from `base + off`. -/
theorem CopyMachine.store_word (m : CopyMachine) (dst len base off : Nat) :
    (m.store dst len fun i => m.mem (base + (off + i))).mem = copy m.mem dst (base + off) len := by
  simp only [← Nat.add_assoc]
  exact m.store_read dst len (base + off)

section Aligned

variable (m : CopyMachine) (ptr uptr size : Nat)

/-- From an aligned `uptr` on, the copy into the enclave is `memcpy`, and it
reads the words that cover the range. -/
theorem copyAlignedToEnclave_eq (aligned : uptr % 8 = 0) (apart : uptr + size ≤ ptr ∨ ptr ≤ uptr) :
    (copyAlignedToEnclave m ptr uptr size).mem = copy m.mem ptr uptr size ∧
      ∃ new, (copyAlignedToEnclave m ptr uptr size).accesses = m.accesses ++ new ∧
        ∀ acc ∈ new, acc.isRead = true ∧ acc.InWords uptr size := by
  have words : 8 * ((size - size % 8) / 8) = size - size % 8 := by omega
  obtain ⟨middleMem, middleAccesses⟩ := copyU64sFromUntrusted_eq ((size - size % 8) / 8) m ptr uptr (by omega)
  rw [words] at middleMem
  -- each whole word read lies below the last whole word's end
  have middleOk : ∀ acc ∈ (List.range ((size - size % 8) / 8)).map (fun i => UntrustedAccess.read (uptr + 8 * i)),
      acc.isRead = true ∧ acc.InWords uptr size := by
    intro acc mem
    obtain ⟨i, below, rfl⟩ := List.mem_map.mp mem
    rw [List.mem_range] at below
    refine ⟨rfl, ?_, ?_, ?_⟩ <;> simp only [UntrustedAccess.addr, alignDown, alignUp] <;> omega
  unfold copyAlignedToEnclave
  dsimp only
  split_ifs with tail
  · -- the tail goes through the word after the whole words
    set middle := copyU64sFromUntrusted ptr uptr ((size - size % 8) / 8) m
    have tailMem : ((middle.readWord (uptr + (size - size % 8))).2.store (ptr + (size - size % 8)) (size % 8)
        (middle.readWord (uptr + (size - size % 8))).1).mem =
        copy middle.mem (ptr + (size - size % 8)) (uptr + (size - size % 8)) (size % 8) := rfl
    refine ⟨?_, (List.range ((size - size % 8) / 8)).map (fun i => .read (uptr + 8 * i)) ++
      [.read (uptr + (size - size % 8))], ?_, fun acc mem => ?_⟩
    · rw [tailMem, middleMem, copy_copy (by omega)]
      congr 1
      omega
    · simp only [CopyMachine.store_accesses, CopyMachine.readWord_accesses, middleAccesses, List.append_assoc]
    · rcases List.mem_append.mp mem with middleMem | tailMem
      · exact middleOk acc middleMem
      · rw [List.mem_singleton.mp tailMem]
        refine ⟨rfl, ?_, ?_, ?_⟩ <;> simp only [UntrustedAccess.addr, alignDown, alignUp] <;> omega
  · refine ⟨?_, _, middleAccesses, middleOk⟩
    rw [middleMem]
    congr 1
    omega

/-- From an aligned `uptr` on, the copy out of the enclave is `memcpy`, and it
writes, and for the tail reads, the words that cover the range. -/
theorem copyAlignedFromEnclave_eq (aligned : uptr % 8 = 0) (apart : ptr + size ≤ uptr ∨ uptr ≤ ptr) :
    (copyAlignedFromEnclave m uptr ptr size).mem = copy m.mem uptr ptr size ∧
      ∃ new, (copyAlignedFromEnclave m uptr ptr size).accesses = m.accesses ++ new ∧
        ∀ acc ∈ new, acc.InWords uptr size := by
  have words : 8 * ((size - size % 8) / 8) = size - size % 8 := by omega
  obtain ⟨middleMem, middleAccesses⟩ := copyU64sToUntrusted_eq ((size - size % 8) / 8) m uptr ptr (by omega)
  rw [words] at middleMem
  have middleOk : ∀ acc ∈ (List.range ((size - size % 8) / 8)).map (fun i => UntrustedAccess.write (uptr + 8 * i)),
      acc.InWords uptr size := by
    intro acc mem
    obtain ⟨i, below, rfl⟩ := List.mem_map.mp mem
    rw [List.mem_range] at below
    refine ⟨?_, ?_, ?_⟩ <;> simp only [UntrustedAccess.addr, alignDown, alignUp] <;> omega
  unfold copyAlignedFromEnclave
  dsimp only
  split_ifs with tail
  · -- the tail's word, read, patched with the last bytes and written back
    set middle := copyU64sToUntrusted uptr ptr ((size - size % 8) / 8) m
    have tailMem : ((middle.readWord (uptr + (size - size % 8))).2.writeWord (uptr + (size - size % 8)) fun i =>
          if i < size % 8 then (middle.readWord (uptr + (size - size % 8))).2.mem (ptr + (size - size % 8) + i)
          else (middle.readWord (uptr + (size - size % 8))).1 i).mem =
        copy middle.mem (uptr + (size - size % 8)) (ptr + (size - size % 8)) (size % 8) := by
      have patched := middle.writeWord_patch (uptr + (size - size % 8)) (ptr + (size - size % 8))
        (show 0 + size % 8 ≤ 8 by omega)
      simp only [Nat.zero_le, true_and, Nat.sub_zero, Nat.zero_add, Nat.add_zero] at patched
      exact patched
    refine ⟨?_, (List.range ((size - size % 8) / 8)).map (fun i => .write (uptr + 8 * i)) ++
      [.read (uptr + (size - size % 8)), .write (uptr + (size - size % 8))], ?_, fun acc mem => ?_⟩
    · rw [tailMem, middleMem, copy_copy (by omega)]
      congr 1
      omega
    · simp only [CopyMachine.writeWord_accesses, CopyMachine.readWord_accesses, middleAccesses, List.append_assoc,
        List.singleton_append]
    · rcases List.mem_append.mp mem with middleMem | tailMem
      · exact middleOk acc middleMem
      · simp only [List.mem_cons, List.not_mem_nil, or_false] at tailMem
        rcases tailMem with rfl | rfl
        · refine ⟨?_, ?_, ?_⟩ <;> simp only [UntrustedAccess.addr, alignDown, alignUp] <;> omega
        · refine ⟨?_, ?_, ?_⟩ <;> simp only [UntrustedAccess.addr, alignDown, alignUp] <;> omega
  · refine ⟨?_, _, middleAccesses, middleOk⟩
    rw [middleMem]
    congr 1
    omega

end Aligned

/-- `sgx_copy_to_enclave_verified` is `memcpy` into the enclave, and it only
reads the words that cover `[uptr, uptr + size)`. -/
theorem sgxCopyToEnclaveVerified_eq (m : CopyMachine) {ptr uptr size : Nat}
    (apart : uptr + size ≤ ptr ∨ ptr ≤ uptr) :
    (sgxCopyToEnclaveVerified m ptr uptr size).mem = copy m.mem ptr uptr size ∧
      ∃ new, (sgxCopyToEnclaveVerified m ptr uptr size).accesses = m.accesses ++ new ∧
        ∀ acc ∈ new, acc.isRead = true ∧ acc.InWords uptr size := by
  have down : uptr - uptr % 8 + uptr % 8 = uptr := Nat.sub_add_cancel (Nat.mod_le uptr 8)
  unfold sgxCopyToEnclaveVerified
  dsimp only
  split_ifs with empty misaligned headOnly
  · subst empty
    exact ⟨by simp, [], by simp, by simp⟩
  · -- the head is the whole range
    have headMem : ((m.readWord (uptr - uptr % 8)).2.store ptr (min (8 - uptr % 8) size) fun i =>
        (m.readWord (uptr - uptr % 8)).1 (uptr % 8 + i)).mem = copy m.mem ptr uptr size := by
      rw [show min (8 - uptr % 8) size = size by omega, ← congrArg (copy m.mem ptr · size) down]
      exact (m.readWord (uptr - uptr % 8)).2.store_word ptr size (uptr - uptr % 8) (uptr % 8)
    refine ⟨headMem, [.read (uptr - uptr % 8)], rfl, fun acc mem => ?_⟩
    rw [List.mem_singleton.mp mem]
    refine ⟨rfl, ?_, ?_, ?_⟩ <;> simp only [UntrustedAccess.addr, alignDown, alignUp] <;> omega
  · -- the head, then the rest from the aligned address after it
    rw [show min (8 - uptr % 8) size = 8 - uptr % 8 by omega]
    set head := (m.readWord (uptr - uptr % 8)).2.store ptr (8 - uptr % 8) fun i =>
        (m.readWord (uptr - uptr % 8)).1 (uptr % 8 + i) with headIs
    have headMem : head.mem = copy m.mem ptr uptr (8 - uptr % 8) := by
      rw [headIs, ← congrArg (copy m.mem ptr · (8 - uptr % 8)) down]
      exact (m.readWord (uptr - uptr % 8)).2.store_word ptr (8 - uptr % 8) (uptr - uptr % 8) (uptr % 8)
    obtain ⟨restMem, new, restAccesses, restOk⟩ := copyAlignedToEnclave_eq head (ptr + (8 - uptr % 8))
      (uptr + (8 - uptr % 8)) (size - (8 - uptr % 8)) (by omega) (by omega)
    refine ⟨?_, .read (uptr - uptr % 8) :: new, ?_, fun acc mem => ?_⟩
    · rw [restMem, headMem, copy_copy (by omega)]
      congr 1
      omega
    · rw [restAccesses]
      simp [headIs]
    · rcases List.mem_cons.mp mem with rfl | later
      · refine ⟨rfl, ?_, ?_, ?_⟩ <;> simp only [UntrustedAccess.addr, alignDown, alignUp] <;> omega
      · obtain ⟨read, words⟩ := restOk acc later
        exact ⟨read, words.of_rest (by omega)⟩
  · exact copyAlignedToEnclave_eq m ptr uptr size (by omega) apart

/-- `sgx_copy_from_enclave_verified` is `memcpy` out of the enclave, and it
only reads and writes the words that cover `[uptr, uptr + size)`. -/
theorem sgxCopyFromEnclaveVerified_eq (m : CopyMachine) {uptr ptr size : Nat}
    (apart : ptr + size ≤ uptr ∨ uptr ≤ ptr) :
    (sgxCopyFromEnclaveVerified m uptr ptr size).mem = copy m.mem uptr ptr size ∧
      ∃ new, (sgxCopyFromEnclaveVerified m uptr ptr size).accesses = m.accesses ++ new ∧
        ∀ acc ∈ new, acc.InWords uptr size := by
  have down : uptr - uptr % 8 + uptr % 8 = uptr := Nat.sub_add_cancel (Nat.mod_le uptr 8)
  unfold sgxCopyFromEnclaveVerified
  dsimp only
  split_ifs with empty misaligned headOnly
  · subst empty
    exact ⟨by simp, [], by simp, by simp⟩
  · -- the head's word, patched with the whole range
    rw [show min (8 - uptr % 8) size = size by omega]
    have headMem : ((m.readWord (uptr - uptr % 8)).2.writeWord (uptr - uptr % 8) fun i =>
        if uptr % 8 ≤ i ∧ i < uptr % 8 + size then (m.readWord (uptr - uptr % 8)).2.mem (ptr + (i - uptr % 8))
        else (m.readWord (uptr - uptr % 8)).1 i).mem = copy m.mem uptr ptr size := by
      rw [← congrArg (copy m.mem · ptr size) down]
      exact (m.readWord (uptr - uptr % 8)).2.writeWord_patch (uptr - uptr % 8) ptr (by omega)
    refine ⟨headMem, [.read (uptr - uptr % 8), .write (uptr - uptr % 8)], by simp, fun acc mem => ?_⟩
    simp only [List.mem_cons, List.not_mem_nil, or_false] at mem
    rcases mem with rfl | rfl <;> refine ⟨?_, ?_, ?_⟩ <;> simp only [UntrustedAccess.addr, alignDown, alignUp] <;>
      omega
  · -- the head's word, then the rest from the aligned address after it
    rw [show min (8 - uptr % 8) size = 8 - uptr % 8 by omega]
    set head := (m.readWord (uptr - uptr % 8)).2.writeWord (uptr - uptr % 8) (fun i =>
        if uptr % 8 ≤ i ∧ i < uptr % 8 + (8 - uptr % 8) then (m.readWord (uptr - uptr % 8)).2.mem (ptr + (i - uptr % 8))
        else (m.readWord (uptr - uptr % 8)).1 i) with headIs
    have headMem : head.mem = copy m.mem uptr ptr (8 - uptr % 8) := by
      rw [headIs, ← congrArg (copy m.mem · ptr (8 - uptr % 8)) down]
      exact (m.readWord (uptr - uptr % 8)).2.writeWord_patch (uptr - uptr % 8) ptr (by omega)
    obtain ⟨restMem, new, restAccesses, restOk⟩ := copyAlignedFromEnclave_eq head (ptr + (8 - uptr % 8))
      (uptr + (8 - uptr % 8)) (size - (8 - uptr % 8)) (by omega) (by omega)
    refine ⟨?_, .read (uptr - uptr % 8) :: .write (uptr - uptr % 8) :: new, ?_, fun acc mem => ?_⟩
    · rw [restMem, headMem, copy_copy (by omega)]
      congr 1
      omega
    · rw [restAccesses]
      simp [headIs]
    · simp only [List.mem_cons] at mem
      rcases mem with rfl | rfl | later
      · refine ⟨?_, ?_, ?_⟩ <;> simp only [UntrustedAccess.addr, alignDown, alignUp] <;> omega
      · refine ⟨?_, ?_, ?_⟩ <;> simp only [UntrustedAccess.addr, alignDown, alignUp] <;> omega
      · exact (restOk acc later).of_rest (by omega)
  · exact copyAlignedFromEnclave_eq m ptr uptr size (by omega) apart

/-! ## Under the callers' checks -/

/-- The checks keep the enclave buffer and the untrusted range apart. -/
theorem apart_of_checks {enclave : EnclaveRange} {ptr uptr size : Nat}
    (within : sgxIsCompletelyWithinEnclave enclave ptr size = true)
    (valid : sgxIsValidUntrustedPtr enclave uptr size 1 = true) : uptr + size ≤ ptr ∨ ptr + size ≤ uptr := by
  unfold sgxIsCompletelyWithinEnclave at within
  split_ifs at within
  simp only [Bool.and_eq_true, decide_eq_true_eq] at within
  unfold sgxIsValidUntrustedPtr at valid
  split_ifs at valid with overflow outside
  simp only [Bool.not_or, Bool.and_eq_true, Bool.not_eq_eq_eq_not, Bool.not_true, decide_eq_false_iff_not,
    Nat.not_le, not_and, Nat.not_lt] at outside
  omega

/-- With page-aligned enclave bounds, the words that cover a valid untrusted
range lie outside the enclave. -/
theorem words_outside_enclave {enclave : EnclaveRange}
    (pageAligned : enclave.base % PAGE_SIZE = 0 ∧ enclave.top % PAGE_SIZE = 0) {uptr size : Nat}
    (valid : sgxIsValidUntrustedPtr enclave uptr size 1 = true) :
    alignUp (uptr + size) 8 ≤ enclave.base ∨ enclave.top ≤ alignDown uptr 8 := by
  unfold sgxIsValidUntrustedPtr at valid
  split_ifs at valid with overflow outside
  simp only [Bool.not_or, Bool.and_eq_true, Bool.not_eq_eq_eq_not, Bool.not_true, decide_eq_false_iff_not,
    Nat.not_le, not_and, Nat.not_lt] at outside
  unfold PAGE_SIZE at pageAligned
  unfold alignUp alignDown
  omega

theorem sgxCopyVerified_exact_in_words (enclave : EnclaveRange)
    (pageAligned : enclave.base % PAGE_SIZE = 0 ∧ enclave.top % PAGE_SIZE = 0) (m : CopyMachine)
    (ptr uptr size : Nat) (within : sgxIsCompletelyWithinEnclave enclave ptr size = true)
    (valid : sgxIsValidUntrustedPtr enclave uptr size 1 = true) :
    (alignUp (uptr + size) 8 ≤ enclave.base ∨ enclave.top ≤ alignDown uptr 8) ∧
    ((sgxCopyToEnclaveVerified m ptr uptr size).mem = copy m.mem ptr uptr size ∧
      ∃ new, (sgxCopyToEnclaveVerified m ptr uptr size).accesses = m.accesses ++ new ∧
        ∀ acc ∈ new, acc.isRead = true ∧ acc.InWords uptr size) ∧
    ((sgxCopyFromEnclaveVerified m uptr ptr size).mem = copy m.mem uptr ptr size ∧
      ∃ new, (sgxCopyFromEnclaveVerified m uptr ptr size).accesses = m.accesses ++ new ∧
        ∀ acc ∈ new, acc.InWords uptr size) := by
  have apart := apart_of_checks within valid
  exact ⟨words_outside_enclave pageAligned valid, sgxCopyToEnclaveVerified_eq m (by omega),
    sgxCopyFromEnclaveVerified_eq m (by omega)⟩

/-- Ten bytes at the untrusted address `3`, copied to and from the first page
of an enclave at `[4096, 8192)`: a misaligned head, a whole word and a tail. -/
theorem sgxCopyVerified_exact_in_words_misaligned :
    (alignUp (3 + 10) 8 ≤ 4096 ∨ 8192 ≤ alignDown 3 8) ∧
    ((sgxCopyToEnclaveVerified ⟨fun _ => 0, []⟩ 4096 3 10).mem = copy (fun _ => 0) 4096 3 10 ∧
      ∃ new, (sgxCopyToEnclaveVerified ⟨fun _ => 0, []⟩ 4096 3 10).accesses = [] ++ new ∧
        ∀ acc ∈ new, acc.isRead = true ∧ acc.InWords 3 10) ∧
    ((sgxCopyFromEnclaveVerified ⟨fun _ => 0, []⟩ 3 4096 10).mem = copy (fun _ => 0) 3 4096 10 ∧
      ∃ new, (sgxCopyFromEnclaveVerified ⟨fun _ => 0, []⟩ 3 4096 10).accesses = [] ++ new ∧
        ∀ acc ∈ new, acc.InWords 3 10) :=
  sgxCopyVerified_exact_in_words ⟨4096, 8192⟩ (by decide) ⟨fun _ => 0, []⟩ 4096 3 10 (by decide) (by decide)

end Gramine.Pal.LinuxSgx
