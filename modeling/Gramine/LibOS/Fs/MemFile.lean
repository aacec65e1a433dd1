import Gramine.Common.Errno
import Gramine.Library.Doubling
import Gramine.Library.FileBytes

/-!
# In-memory files

`struct libos_mem_file` (`libos/src/fs/libos_fs_mem.c`) keeps the contents of
a tmpfs file in a heap buffer of `buf_size` bytes, of which the first `size`
are the file. The buffer grows by doubling from `MIN_RESIZE` and shrinks by
halving; `mem_file_resize` copies what fits of the old contents into the new
buffer and zeroes the rest of it.

What the file should be is a byte array, changed by `FileBytes.write` and
`FileBytes.truncate`. The buffer holds the array (`Holds`) when its first
`size` bytes are the array and every byte after them is zero: a write that
leaves a gap and a truncate that extends the file then read zeroes there, as
they should. Every call keeps the sizes right (`Sized`), and every call but a
truncate that shrinks the file keeps `Holds`. A shrinking truncate only moves
`size` down and leaves the cut bytes in the buffer, and a later extension reads
them back.

`malloc` in `mem_file_resize` and `PalSystemTimeQuery` in tmpfs are
parameters: `allocated` says whether the allocation succeeds and `timeUs` is
the time the query returned, `none` when it failed.
-/

namespace Gramine.LibOS.Fs

open FileBytes

/-- `INT64_MAX`, the largest `file_off_t`. -/
def INT64_MAX : Nat := 2 ^ 63 - 1

/-- `MIN_RESIZE`, the smallest allocation of `slabmgr.h`. -/
def MIN_RESIZE : Nat := 16

/-- `struct libos_mem_file`: a buffer `buf` of `buf_size` bytes whose first
`size` bytes are the file. -/
structure LibosMemFile where
  buf : List UInt8
  bufSize : Nat
  size : Nat
  deriving DecidableEq, Repr

/-- `mem_file_init(mem, data, size)`. -/
def memFileInit (data : List UInt8) : LibosMemFile :=
  ⟨data, data.length, data.length⟩

/-- `mem_file_resize`: a buffer of `bufSize` bytes with the first
`min bufSize size` bytes of the old one, zero after them. -/
def memFileResize (mem : LibosMemFile) (bufSize : Nat) (allocated : Bool) :
    Except Int LibosMemFile :=
  if !allocated then .error (-ENOMEM)
  else
    let minSize := min bufSize mem.size
    .ok { mem with buf := mem.buf.take minSize ++ List.replicate (bufSize - minSize) 0, bufSize }

/-- The loop of `mem_file_truncate` that halves `buf_size` while half of it
still holds `size` bytes. -/
def shrinkBufSize (bufSize size : Nat) (positive : 0 < size) : Nat :=
  if size ≤ bufSize / 2 then shrinkBufSize (bufSize / 2) size positive else bufSize
termination_by bufSize

/-- `mem_file_read`: the bytes copied to the caller, as many as it returns. -/
def memFileRead (mem : LibosMemFile) (posStart size : Nat) : List UInt8 :=
  -- `__builtin_add_overflow` into a `file_off_t`
  let posEnd := if INT64_MAX < posStart + size ∨ mem.size < posStart + size then mem.size
    else posStart + size
  let size := if posStart ≤ posEnd then posEnd - posStart else 0
  FileBytes.read mem.buf posStart size

/-- The first half of `mem_file_write`: the buffer it copies into, the old one
when it holds `posEnd` bytes, else a new one of doubled size. -/
def memFileReserve (mem : LibosMemFile) (posEnd : Nat) (allocated : Bool) :
    Except Int LibosMemFile :=
  if mem.bufSize < posEnd then
    -- the doubling loop, in `size_t`
    match Doubling.grow 64 (max mem.bufSize MIN_RESIZE) posEnd
        (by simp only [MIN_RESIZE]; omega) with
    | none => .error (-EFBIG)
    | some bufSize => memFileResize mem bufSize allocated
  else .ok mem

/-- `mem_file_write`: the file after `data` is copied to `posStart`; the call
returns `data.length`. -/
def memFileWrite (mem : LibosMemFile) (posStart : Nat) (data : List UInt8) (allocated : Bool) :
    Except Int LibosMemFile :=
  let posEnd := posStart + data.length
  if INT64_MAX < posEnd then .error (-EFBIG)
  else if 2 ^ 64 ≤ posEnd then .error (-EFBIG)
  else if data.length = 0 then .ok mem
  else
    match memFileReserve mem posEnd allocated with
    | .error err => .error err
    | .ok mem => .ok { mem with size := max mem.size posEnd, buf := patch mem.buf posStart data }

/-- The `buf_size` that `mem_file_truncate` picks for a file of `size` bytes. -/
def truncateBufSize (bufSize size : Nat) : Option Nat :=
  if bufSize < size then
    Doubling.grow 64 (max bufSize MIN_RESIZE) size (by simp only [MIN_RESIZE]; omega)
  else if positive : 0 < size then some (max (shrinkBufSize bufSize size positive) MIN_RESIZE)
  else some MIN_RESIZE

/-- `mem_file_truncate`: the buffer is reallocated only when its size changes. -/
def memFileTruncate (mem : LibosMemFile) (size : Nat) (allocated : Bool) :
    Except Int LibosMemFile :=
  if 2 ^ 64 ≤ size then .error (-EFBIG)
  else
    match truncateBufSize mem.bufSize size with
    | none => .error (-EFBIG)
    | some bufSize =>
      let resized := if bufSize ≠ mem.bufSize then memFileResize mem bufSize allocated
        else .ok mem
      match resized with
      | .error err => .error err
      | .ok mem => .ok { mem with size }

/-! ## tmpfs -/

/-- `USEC_IN_SEC`. -/
def USEC_IN_SEC : Nat := 1000000

/-- The fields of `struct libos_inode` that tmpfs reads and writes here: the
size, the modification time and the contents (`inode->data`). -/
structure TmpfsInode where
  size : Nat
  mtime : Nat
  data : LibosMemFile
  deriving DecidableEq, Repr

/-- `tmpfs_read`: the bytes read, and `*pos` moved past them. -/
def tmpfsRead (inode : TmpfsInode) (pos size : Nat) : List UInt8 × Nat :=
  let bytes := memFileRead inode.data pos size
  (bytes, pos + bytes.length)

/-- `tmpfs_write`: the inode and the new `*pos`; the call returns
`data.length`. -/
def tmpfsWrite (inode : TmpfsInode) (data : List UInt8) (pos : Nat) (timeUs : Option Nat)
    (allocated : Bool) : Except Int (TmpfsInode × Nat) :=
  match timeUs with
  | none => .error (-EPERM)
  | some timeUs =>
    match memFileWrite inode.data pos data allocated with
    | .error err => .error err
    | .ok mem =>
      .ok ({ inode with data := mem, size := mem.size, mtime := timeUs / USEC_IN_SEC },
        pos + data.length)

/-- `tmpfs_truncate`. -/
def tmpfsTruncate (inode : TmpfsInode) (size : Nat) (timeUs : Option Nat) (allocated : Bool) :
    Except Int TmpfsInode :=
  match timeUs with
  | none => .error (-EPERM)
  | some timeUs =>
    match memFileTruncate inode.data size allocated with
    | .error err => .error err
    | .ok mem => .ok { inode with data := mem, mtime := timeUs / USEC_IN_SEC, size }

/-! ## The loops -/

attribute [grind] MIN_RESIZE memFileResize shrinkBufSize memFileReserve memFileWrite truncateBufSize
  memFileTruncate tmpfsWrite tmpfsTruncate

theorem shrinkBufSize_of_lt {bufSize size : Nat} (positive : 0 < size)
    (above : bufSize / 2 < size) : shrinkBufSize bufSize size positive = bufSize := by
  rw [shrinkBufSize, if_neg (by omega)]

theorem shrinkBufSize_of_le {bufSize size : Nat} (positive : 0 < size)
    (within : size ≤ bufSize / 2) :
    shrinkBufSize bufSize size positive = shrinkBufSize (bufSize / 2) size positive := by
  rw [shrinkBufSize, if_pos within]

/-- The halving loop stops while the buffer still holds `size` bytes. -/
theorem le_shrinkBufSize {bufSize size : Nat} (positive : 0 < size) (holds : size ≤ bufSize) :
    size ≤ shrinkBufSize bufSize size positive := by
  induction bufSize using shrinkBufSize.induct size positive with
  | case1 bufSize within ih =>
    rw [shrinkBufSize_of_le positive within]
    exact ih within
  | case2 bufSize above =>
    rw [shrinkBufSize_of_lt positive (by omega)]
    exact holds

theorem truncateBufSize_spec {bufSize size result : Nat}
    (h : truncateBufSize bufSize size = some result) : size ≤ result := by
  unfold truncateBufSize at h
  split_ifs at h with grows positive
  · exact (Doubling.grow_spec h).1
  · cases h
    have := le_shrinkBufSize positive (show size ≤ bufSize by omega)
    omega
  · cases h
    omega

/-! ## The file as a byte array -/

/-- The sizes agree with the byte array `bytes`: `size` is its length, at most
`INT64_MAX`, within the buffer, which has `buf_size` bytes. -/
structure LibosMemFile.Sized (mem : LibosMemFile) (bytes : List UInt8) : Prop where
  bufLength : mem.buf.length = mem.bufSize
  size : mem.size = bytes.length
  fits : mem.size ≤ mem.bufSize
  representable : mem.size ≤ INT64_MAX

/-- The buffer holds `bytes`: the sizes agree, and each byte of the buffer is
the array's, zero past its end. -/
structure LibosMemFile.Holds (mem : LibosMemFile) (bytes : List UInt8) : Prop
    extends mem.Sized bytes where
  contents : ∀ i, mem.buf.getD i 0 = bytes.getD i 0

section Calls

variable {mem mem' : LibosMemFile} {bytes : List UInt8} {allocated : Bool}

theorem memFileResize_eq_ok {bufSize : Nat} (h : memFileResize mem bufSize allocated = .ok mem') :
    mem' = { mem with
      buf := mem.buf.take (min bufSize mem.size) ++ List.replicate (bufSize - min bufSize mem.size) 0,
      bufSize } := by
  unfold memFileResize at h
  split_ifs at h
  cases h
  rfl

/-- A new buffer has `buf_size` bytes, and past what was copied they are zero. -/
theorem memFileResize_buf {bufSize : Nat} (longEnough : mem.size ≤ mem.buf.length)
    (h : memFileResize mem bufSize allocated = .ok mem') :
    mem'.buf.length = mem'.bufSize ∧ mem'.bufSize = bufSize ∧ mem'.size = mem.size ∧
      ∀ i, mem'.buf.getD i 0 = if i < min bufSize mem.size then mem.buf.getD i 0 else 0 := by
  rw [memFileResize_eq_ok h]
  refine ⟨?_, rfl, rfl, getD_take_append_replicate _ _⟩
  simp only [List.length_append, List.length_take, List.length_replicate]
  omega

/-- A new buffer that holds the whole file keeps the sizes right. -/
theorem memFileResize_sized {bufSize : Nat} (sized : mem.Sized bytes) (grows : mem.size ≤ bufSize)
    (h : memFileResize mem bufSize allocated = .ok mem') : mem'.Sized bytes := by
  obtain ⟨bufLength, resized, sameSize, -⟩ := memFileResize_buf (sized.bufLength ▸ sized.fits) h
  exact ⟨bufLength, sameSize ▸ sized.size, by omega, sameSize ▸ sized.representable⟩

/-- A new buffer that holds the whole file holds what the old one held. -/
theorem memFileResize_holds {bufSize : Nat} (holds : mem.Holds bytes) (grows : mem.size ≤ bufSize)
    (h : memFileResize mem bufSize allocated = .ok mem') : mem'.Holds bytes := by
  have contents := (memFileResize_buf (holds.bufLength ▸ holds.fits) h).2.2.2
  refine ⟨memFileResize_sized holds.toSized grows h, fun i => ?_⟩
  rw [contents, Nat.min_eq_right grows]
  split_ifs with inside
  · exact holds.contents i
  · exact (getD_eq_zero (by rw [← holds.size]; omega)).symm

theorem memFileReserve_eq_ok {posEnd : Nat}
    (h : memFileReserve mem posEnd allocated = .ok mem') :
    mem' = mem ∧ posEnd ≤ mem.bufSize ∨ ∃ bufSize, mem.bufSize < posEnd ∧ posEnd ≤ bufSize ∧
      memFileResize mem bufSize allocated = .ok mem' := by
  unfold memFileReserve at h
  split_ifs at h with grows
  · split at h
    · cases h
    · rename_i bufSize grown
      exact .inr ⟨bufSize, grows, (Doubling.grow_spec grown).1, h⟩
  · cases h
    exact .inl ⟨rfl, by omega⟩

/-- The buffer `mem_file_write` copies into holds `posEnd` bytes and what the
old one held. -/
theorem memFileReserve_holds {posEnd : Nat} (holds : mem.Holds bytes)
    (h : memFileReserve mem posEnd allocated = .ok mem') :
    mem'.Holds bytes ∧ posEnd ≤ mem'.bufSize := by
  rcases memFileReserve_eq_ok h with ⟨rfl, fits⟩ | ⟨bufSize, grows, reaches, resized⟩
  · exact ⟨holds, fits⟩
  · have := holds.fits
    have newSize := (memFileResize_buf (holds.bufLength ▸ holds.fits) resized).2.1
    exact ⟨memFileResize_holds holds (by omega) resized, by omega⟩

theorem memFileReserve_sized {posEnd : Nat} (sized : mem.Sized bytes)
    (h : memFileReserve mem posEnd allocated = .ok mem') :
    mem'.Sized bytes ∧ posEnd ≤ mem'.bufSize := by
  rcases memFileReserve_eq_ok h with ⟨rfl, fits⟩ | ⟨bufSize, grows, reaches, resized⟩
  · exact ⟨sized, fits⟩
  · have := sized.fits
    have newSize := (memFileResize_buf (sized.bufLength ▸ sized.fits) resized).2.1
    exact ⟨memFileResize_sized sized (by omega) resized, by omega⟩

theorem memFileWrite_eq_ok {pos : Nat} {data : List UInt8}
    (h : memFileWrite mem pos data allocated = .ok mem') :
    pos + data.length ≤ INT64_MAX ∧ (data = [] ∧ mem' = mem ∨ data ≠ [] ∧
      ∃ reserved, memFileReserve mem (pos + data.length) allocated = .ok reserved ∧
        mem' = { reserved with
          size := max reserved.size (pos + data.length), buf := patch reserved.buf pos data }) := by
  unfold memFileWrite at h
  dsimp only at h
  split_ifs at h with tooFar overflows empty
  · cases h
    exact ⟨by omega, .inl ⟨List.eq_nil_of_length_eq_zero empty, rfl⟩⟩
  · split at h
    · cases h
    · rename_i reserved reserve
      cases h
      exact ⟨by omega, .inr ⟨fun nil => empty (by simp [nil]), reserved, reserve, rfl⟩⟩

/-- `mem_file_write` keeps the sizes right: the file grows to the end of the
write, within the buffer. -/
theorem memFileWrite_sized {pos : Nat} {data : List UInt8} (sized : mem.Sized bytes)
    (h : memFileWrite mem pos data allocated = .ok mem') : mem'.Sized (write bytes pos data) := by
  obtain ⟨representable, ⟨rfl, rfl⟩ | ⟨nonempty, reserved, reserve, rfl⟩⟩ := memFileWrite_eq_ok h
  · simpa using sized
  · obtain ⟨reservedSized, reaches⟩ := memFileReserve_sized sized reserve
    have length : (write bytes pos data).length = max bytes.length (pos + data.length) :=
      length_write nonempty
    have bufLength := reservedSized.bufLength
    have sameSize := reservedSized.size
    have fits := reservedSized.fits
    refine ⟨?_, ?_, ?_, ?_⟩
    · show (patch reserved.buf pos data).length = reserved.bufSize
      rw [length_patch (by omega)]
      omega
    · show max reserved.size (pos + data.length) = (write bytes pos data).length
      omega
    · show max reserved.size (pos + data.length) ≤ reserved.bufSize
      omega
    · show max reserved.size (pos + data.length) ≤ INT64_MAX
      have := reservedSized.representable
      omega

/-- `mem_file_write` keeps the buffer holding the file: the written bytes are
copied in, and a gap before them reads as the zeroes already there. -/
theorem memFileWrite_holds {pos : Nat} {data : List UInt8} (holds : mem.Holds bytes)
    (h : memFileWrite mem pos data allocated = .ok mem') : mem'.Holds (write bytes pos data) := by
  refine ⟨memFileWrite_sized holds.toSized h, fun i => ?_⟩
  obtain ⟨-, ⟨rfl, rfl⟩ | ⟨-, reserved, reserve, rfl⟩⟩ := memFileWrite_eq_ok h
  · simpa using holds.contents i
  · obtain ⟨reservedHolds, reaches⟩ := memFileReserve_holds holds reserve
    show (patch reserved.buf pos data).getD i 0 = (write bytes pos data).getD i 0
    rw [getD_patch (by have := reservedHolds.bufLength; omega), getD_write,
      reservedHolds.contents]

theorem memFileTruncate_eq_ok {size : Nat} (h : memFileTruncate mem size allocated = .ok mem') :
    ∃ bufSize resized, truncateBufSize mem.bufSize size = some bufSize ∧
      (resized = mem ∧ bufSize = mem.bufSize ∨ memFileResize mem bufSize allocated = .ok resized) ∧
      mem' = { resized with size } := by
  unfold memFileTruncate at h
  split_ifs at h with overflows
  rcases picking : truncateBufSize mem.bufSize size with _ | bufSize
  · simp [picking] at h
  · simp only [picking] at h
    by_cases changed : bufSize ≠ mem.bufSize
    · rw [if_pos changed] at h
      rcases resize : memFileResize mem bufSize allocated with err | resized
      · simp [resize] at h
      · simp only [resize, Except.ok.injEq] at h
        exact ⟨bufSize, resized, rfl, .inr resize, h.symm⟩
    · rw [if_neg changed] at h
      simp only [Except.ok.injEq] at h
      exact ⟨bufSize, mem, rfl, .inl ⟨rfl, by omega⟩, h.symm⟩

/-- `mem_file_truncate` keeps the sizes right for every new size a
`file_off_t` holds. -/
theorem memFileTruncate_sized {size : Nat} (sized : mem.Sized bytes)
    (representable : size ≤ INT64_MAX)
    (h : memFileTruncate mem size allocated = .ok mem') : mem'.Sized (truncate bytes size) := by
  obtain ⟨bufSize, resized, picked, kept, rfl⟩ := memFileTruncate_eq_ok h
  have fits := truncateBufSize_spec picked
  have resizedBuf : resized.buf.length = resized.bufSize ∧ resized.bufSize = bufSize := by
    rcases kept with ⟨rfl, same⟩ | resize
    · exact ⟨sized.bufLength, same.symm⟩
    · obtain ⟨bufLength, newSize, -⟩ := memFileResize_buf (sized.bufLength ▸ sized.fits) resize
      exact ⟨bufLength, newSize⟩
  exact ⟨resizedBuf.1, (length_truncate size).symm, show size ≤ resized.bufSize by omega,
    representable⟩

/-- A truncate that does not shrink the file keeps the buffer holding it: the
bytes past the old end are the zeroes already in the buffer. -/
theorem memFileTruncate_holds {size : Nat} (holds : mem.Holds bytes) (grows : bytes.length ≤ size)
    (representable : size ≤ INT64_MAX)
    (h : memFileTruncate mem size allocated = .ok mem') : mem'.Holds (truncate bytes size) := by
  refine ⟨memFileTruncate_sized holds.toSized representable h, fun i => ?_⟩
  obtain ⟨bufSize, resized, picked, kept, rfl⟩ := memFileTruncate_eq_ok h
  have resizedHolds : resized.Holds bytes := by
    rcases kept with ⟨rfl, -⟩ | resize
    · exact holds
    · have := truncateBufSize_spec picked
      exact memFileResize_holds holds (by rw [holds.size]; omega) resize
  show resized.buf.getD i 0 = (truncate bytes size).getD i 0
  rw [resizedHolds.contents, getD_truncate]
  split_ifs with inside
  · rfl
  · exact getD_eq_zero (by omega)

/-- `mem_file_read` returns the bytes of the array from `pos` on, up to its end,
whenever the buffer agrees with the array below its end. -/
theorem memFileRead_eq (sized : mem.Sized bytes)
    (agree : ∀ i < bytes.length, mem.buf.getD i 0 = bytes.getD i 0) (pos n : Nat) :
    memFileRead mem pos n = FileBytes.read bytes pos n := by
  have longer : bytes.length ≤ mem.buf.length := by
    rw [← sized.size, sized.bufLength]
    exact sized.fits
  rw [← read_eq_of_agree longer agree pos n]
  unfold memFileRead
  dsimp only
  have := sized.size
  have := sized.representable
  congr 1
  split_ifs <;> omega

end Calls

/-! ## Runs of tmpfs calls -/

/-- A call that changes a tmpfs file, with the outcomes the model takes as
parameters. -/
inductive TmpfsOp where
  | write (pos : Nat) (data : List UInt8) (timeUs : Option Nat) (allocated : Bool)
  | truncate (size : Nat) (timeUs : Option Nat) (allocated : Bool)
  deriving DecidableEq, Repr

/-- The inode after the call; a call that fails returns before changing it. -/
def tmpfsStep (inode : TmpfsInode) : TmpfsOp → TmpfsInode
  | .write pos data timeUs allocated =>
    match tmpfsWrite inode data pos timeUs allocated with
    | .ok (written, _) => written
    | .error _ => inode
  | .truncate size timeUs allocated =>
    match tmpfsTruncate inode size timeUs allocated with
    | .ok truncated => truncated
    | .error _ => inode

/-- The byte array after the call: a call that succeeds writes or truncates
it, one that fails leaves it. -/
def bytesStep (inode : TmpfsInode) (bytes : List UInt8) : TmpfsOp → List UInt8
  | .write pos data timeUs allocated =>
    match tmpfsWrite inode data pos timeUs allocated with
    | .ok _ => write bytes pos data
    | .error _ => bytes
  | .truncate size timeUs allocated =>
    match tmpfsTruncate inode size timeUs allocated with
    | .ok _ => truncate bytes size
    | .error _ => bytes

/-- The new size of a truncate is a `file_off_t`. -/
def TmpfsOp.Representable : TmpfsOp → Prop
  | .write .. => True
  | .truncate size .. => size ≤ INT64_MAX

/-- The call does not shrink the file `bytes`. -/
def TmpfsOp.Grows (bytes : List UInt8) : TmpfsOp → Prop
  | .write .. => True
  | .truncate size .. => bytes.length ≤ size ∧ size ≤ INT64_MAX

/-- The inodes a run of calls reaches from a new tmpfs file
(`tmpfs_setup_dentry`), with the byte array the file should be; each call is
one that `allowed` admits on the array it finds. -/
inductive TmpfsRun (allowed : List UInt8 → TmpfsOp → Prop) : TmpfsInode → List UInt8 → Prop where
  | init (mtime : Nat) : TmpfsRun allowed ⟨0, mtime, memFileInit []⟩ []
  | step {inode : TmpfsInode} {bytes : List UInt8} (op : TmpfsOp) :
      TmpfsRun allowed inode bytes → allowed bytes op →
      TmpfsRun allowed (tmpfsStep inode op) (bytesStep inode bytes op)

/-- The inode's size is the array's length and its contents' sizes agree. -/
def TmpfsInode.Sized (inode : TmpfsInode) (bytes : List UInt8) : Prop :=
  inode.size = bytes.length ∧ inode.data.Sized bytes

/-- The inode's size is the array's length and its contents hold the array. -/
def TmpfsInode.Holds (inode : TmpfsInode) (bytes : List UInt8) : Prop :=
  inode.size = bytes.length ∧ inode.data.Holds bytes

attribute [grind] tmpfsStep bytesStep

section Run

variable {inode inode' : TmpfsInode} {bytes : List UInt8}

theorem tmpfsWrite_eq_ok {data : List UInt8} {pos pos' : Nat} {timeUs : Option Nat}
    {allocated : Bool} (h : tmpfsWrite inode data pos timeUs allocated = .ok (inode', pos')) :
    memFileWrite inode.data pos data allocated = .ok inode'.data ∧ inode'.size = inode'.data.size := by
  unfold tmpfsWrite at h
  split at h
  · cases h
  · split at h
    · cases h
    · rename_i mem wrote
      cases h
      exact ⟨wrote, rfl⟩

theorem tmpfsTruncate_eq_ok {size : Nat} {timeUs : Option Nat} {allocated : Bool}
    (h : tmpfsTruncate inode size timeUs allocated = .ok inode') :
    memFileTruncate inode.data size allocated = .ok inode'.data ∧ inode'.size = size := by
  unfold tmpfsTruncate at h
  split at h
  · cases h
  · split at h
    · cases h
    · rename_i mem truncated
      cases h
      exact ⟨truncated, rfl⟩

/-- Every call of a new size that fits `file_off_t` keeps the sizes right. -/
theorem tmpfsStep_sized {op : TmpfsOp} (sized : inode.Sized bytes) (representable : op.Representable) :
    (tmpfsStep inode op).Sized (bytesStep inode bytes op) := by
  cases op with
  | write pos data timeUs allocated =>
    rcases written : tmpfsWrite inode data pos timeUs allocated with err | ⟨written, pos'⟩
    · simpa only [tmpfsStep, bytesStep, written] using sized
    · obtain ⟨wrote, size⟩ := tmpfsWrite_eq_ok written
      have dataSized := memFileWrite_sized sized.2 wrote
      simp only [tmpfsStep, bytesStep, written]
      exact ⟨size.trans dataSized.size, dataSized⟩
  | truncate size timeUs allocated =>
    rcases truncated : tmpfsTruncate inode size timeUs allocated with err | truncated'
    · simpa only [tmpfsStep, bytesStep, truncated] using sized
    · obtain ⟨truncatedData, newSize⟩ := tmpfsTruncate_eq_ok truncated
      simp only [tmpfsStep, bytesStep, truncated]
      exact ⟨newSize.trans (length_truncate size).symm,
        memFileTruncate_sized sized.2 representable truncatedData⟩

/-- Every call that does not shrink the file keeps the inode holding it. -/
theorem tmpfsStep_holds {op : TmpfsOp} (holds : inode.Holds bytes) (grows : op.Grows bytes) :
    (tmpfsStep inode op).Holds (bytesStep inode bytes op) := by
  cases op with
  | write pos data timeUs allocated =>
    rcases written : tmpfsWrite inode data pos timeUs allocated with err | ⟨written, pos'⟩
    · simpa only [tmpfsStep, bytesStep, written] using holds
    · obtain ⟨wrote, size⟩ := tmpfsWrite_eq_ok written
      have dataHolds := memFileWrite_holds holds.2 wrote
      simp only [tmpfsStep, bytesStep, written]
      exact ⟨size.trans dataHolds.size, dataHolds⟩
  | truncate size timeUs allocated =>
    rcases truncated : tmpfsTruncate inode size timeUs allocated with err | truncated'
    · simpa only [tmpfsStep, bytesStep, truncated] using holds
    · obtain ⟨truncatedData, newSize⟩ := tmpfsTruncate_eq_ok truncated
      simp only [tmpfsStep, bytesStep, truncated]
      exact ⟨newSize.trans (length_truncate size).symm,
        memFileTruncate_holds holds.2 grows.1 grows.2 truncatedData⟩

theorem tmpfsInit_holds (mtime : Nat) : TmpfsInode.Holds ⟨0, mtime, memFileInit []⟩ [] :=
  ⟨rfl, ⟨rfl, rfl, Nat.le_refl 0, by simp [memFileInit]⟩, fun _ => rfl⟩

/-- Along every run of calls whose sizes fit `file_off_t`, the sizes stay right. -/
theorem TmpfsRun.sized {allowed : List UInt8 → TmpfsOp → Prop}
    (representable : ∀ bytes op, allowed bytes op → op.Representable)
    (run : TmpfsRun allowed inode bytes) : inode.Sized bytes := by
  induction run with
  | init mtime => exact ⟨(tmpfsInit_holds mtime).1, (tmpfsInit_holds mtime).2.toSized⟩
  | step op run admitted ih => exact tmpfsStep_sized ih (representable _ op admitted)

/-- Along every run that never shrinks the file, the inode holds it. -/
theorem TmpfsRun.holds (run : TmpfsRun TmpfsOp.Grows inode bytes) : inode.Holds bytes := by
  induction run with
  | init mtime => exact tmpfsInit_holds mtime
  | step op run grows ih => exact tmpfsStep_holds ih grows

/-- A run goes on with a write that succeeds. -/
theorem TmpfsRun.write_ok {allowed : List UInt8 → TmpfsOp → Prop} {data : List UInt8}
    {pos pos' : Nat} {timeUs : Option Nat} {allocated : Bool}
    (run : TmpfsRun allowed inode bytes) (admitted : allowed bytes (.write pos data timeUs allocated))
    (h : tmpfsWrite inode data pos timeUs allocated = .ok (inode', pos')) :
    TmpfsRun allowed inode' (write bytes pos data) := by
  have next := run.step _ admitted
  simp only [tmpfsStep, bytesStep, h] at next
  exact next

/-- A run goes on with a truncate that succeeds. -/
theorem TmpfsRun.truncate_ok {allowed : List UInt8 → TmpfsOp → Prop} {size : Nat}
    {timeUs : Option Nat} {allocated : Bool}
    (run : TmpfsRun allowed inode bytes) (admitted : allowed bytes (.truncate size timeUs allocated))
    (h : tmpfsTruncate inode size timeUs allocated = .ok inode') :
    TmpfsRun allowed inode' (truncate bytes size) := by
  have next := run.step _ admitted
  simp only [tmpfsStep, bytesStep, h] at next
  exact next

end Run

/-! ## What the calls give the caller -/

/-- Along every run of calls whose sizes fit `file_off_t`, the inode's size
and the file's size are the array's length, within the buffer. -/
theorem tmpfsRun_size_eq_length {inode : TmpfsInode} {bytes : List UInt8}
    (run : TmpfsRun (fun _ op => op.Representable) inode bytes) :
    inode.size = bytes.length ∧ inode.data.size = bytes.length ∧
      bytes.length ≤ inode.data.bufSize := by
  obtain ⟨size, sized⟩ := run.sized fun _ _ representable => representable
  exact ⟨size, sized.size, sized.size ▸ sized.fits⟩

/-- Along every run that never shrinks the file, `tmpfs_read` returns the bytes
of the array from `pos` on, up to its end. -/
theorem tmpfsRun_read_eq {inode : TmpfsInode} {bytes : List UInt8}
    (run : TmpfsRun TmpfsOp.Grows inode bytes) (pos n : Nat) :
    (tmpfsRead inode pos n).1 = FileBytes.read bytes pos n := by
  have holds := run.holds.2
  exact memFileRead_eq holds.toSized (fun i _ => holds.contents i) pos n

/-- Two bytes written to a new file. -/
theorem tmpfsWrite_two_bytes :
    tmpfsWrite ⟨0, 0, memFileInit []⟩ [1, 2] 0 (some 0) true =
      .ok (⟨2, 0, ⟨[1, 2] ++ List.replicate 14 0, 16, 2⟩⟩, 2) := by
  simp [tmpfsWrite, memFileWrite, memFileReserve, MIN_RESIZE, Doubling.grow_of_le, memFileResize,
    memFileInit, patch, INT64_MAX, USEC_IN_SEC]

theorem tmpfsRun_size_eq_length_after_write :
    TmpfsRun (fun _ op => op.Representable) ⟨2, 0, ⟨[1, 2] ++ List.replicate 14 0, 16, 2⟩⟩ [1, 2] ∧
      (2 = 2 ∧ 2 = 2 ∧ 2 ≤ 16) :=
  have run := (TmpfsRun.init 0).write_ok trivial tmpfsWrite_two_bytes
  ⟨run, tmpfsRun_size_eq_length run⟩

theorem tmpfsRun_read_eq_after_write :
    TmpfsRun TmpfsOp.Grows ⟨2, 0, ⟨[1, 2] ++ List.replicate 14 0, 16, 2⟩⟩ [1, 2] ∧
      (tmpfsRead ⟨2, 0, ⟨[1, 2] ++ List.replicate 14 0, 16, 2⟩⟩ 0 2).1 = [1, 2] :=
  have run := (TmpfsRun.init 0).write_ok trivial tmpfsWrite_two_bytes
  ⟨run, tmpfsRun_read_eq run 0 2⟩

/-- Truncating a file of sixteen bytes to eight and back, or to nothing and
then writing past the end: the buffer keeps its sixteen bytes, and the bytes
the array has as zeroes read as the old ones. -/
theorem tmpfs_reextended_file_reads_stale_bytes :
    ∃ (inode₁ : TmpfsInode) (bytes₁ : List UInt8) (inode₂ : TmpfsInode) (bytes₂ : List UInt8),
      TmpfsRun (fun _ op => op.Representable) inode₁ bytes₁ ∧
      (tmpfsRead inode₁ 0 16).1 = List.replicate 16 0x41 ∧
      FileBytes.read bytes₁ 0 16 = List.replicate 8 0x41 ++ List.replicate 8 0 ∧
      TmpfsRun (fun _ op => op.Representable) inode₂ bytes₂ ∧
      (tmpfsRead inode₂ 0 9).1 = List.replicate 8 0x41 ++ [0x42] ∧
      FileBytes.read bytes₂ 0 9 = List.replicate 8 0 ++ [0x42] := by
  have wrote : tmpfsWrite ⟨0, 0, memFileInit []⟩ (List.replicate 16 0x41) 0 (some 0) true =
      .ok (⟨16, 0, ⟨List.replicate 16 0x41, 16, 16⟩⟩, 16) := by
    simp [tmpfsWrite, memFileWrite, memFileReserve, MIN_RESIZE, Doubling.grow_of_le,
      memFileResize, memFileInit, patch, INT64_MAX, USEC_IN_SEC]
  -- no truncate below reallocates: sixteen bytes stay the right buffer size
  have halved : tmpfsTruncate ⟨16, 0, ⟨List.replicate 16 0x41, 16, 16⟩⟩ 8 (some 0) true =
      .ok ⟨8, 0, ⟨List.replicate 16 0x41, 16, 8⟩⟩ := by
    simp [tmpfsTruncate, memFileTruncate, truncateBufSize, MIN_RESIZE, shrinkBufSize_of_le,
      shrinkBufSize_of_lt, USEC_IN_SEC]
  have restored : tmpfsTruncate ⟨8, 0, ⟨List.replicate 16 0x41, 16, 8⟩⟩ 16 (some 0) true =
      .ok ⟨16, 0, ⟨List.replicate 16 0x41, 16, 16⟩⟩ := by
    simp [tmpfsTruncate, memFileTruncate, truncateBufSize, MIN_RESIZE, shrinkBufSize_of_lt,
      USEC_IN_SEC]
  have emptied : tmpfsTruncate ⟨16, 0, ⟨List.replicate 16 0x41, 16, 16⟩⟩ 0 (some 0) true =
      .ok ⟨0, 0, ⟨List.replicate 16 0x41, 16, 0⟩⟩ := by
    simp [tmpfsTruncate, memFileTruncate, truncateBufSize, MIN_RESIZE, USEC_IN_SEC]
  have appended : tmpfsWrite ⟨0, 0, ⟨List.replicate 16 0x41, 16, 0⟩⟩ [0x42] 8 (some 0) true =
      .ok (⟨9, 0, ⟨List.replicate 8 0x41 ++ [0x42] ++ List.replicate 7 0x41, 16, 9⟩⟩, 9) := by
    simp [tmpfsWrite, memFileWrite, memFileReserve, INT64_MAX, USEC_IN_SEC]
    decide
  have written : TmpfsRun (fun _ op => op.Representable) _ _ :=
    (TmpfsRun.init 0).write_ok trivial wrote
  have run₁ := (written.truncate_ok (by simp [TmpfsOp.Representable, INT64_MAX]) halved).truncate_ok
    (by simp [TmpfsOp.Representable, INT64_MAX]) restored
  have run₂ := (written.truncate_ok (by simp [TmpfsOp.Representable, INT64_MAX]) emptied).write_ok
    trivial appended
  exact ⟨_, _, _, _, run₁, by decide, by decide, run₂, by decide, by decide⟩

end Gramine.LibOS.Fs
