import Mathlib
import Gramine.Common.Errno

/-!
# Directory listing in the SGX PAL

`dir_read` (`pal/src/host/linux-sgx/pal_files.c`) fills the caller's buffer
with the names of a directory. It gets the raw `linux_dirent64` records from
the host through `ocall_getdents` (`enclave_ocalls.c`), which copies the
host's answer into the enclave buffer `handle->dir.buf` and walks the records
before returning their total size.

Memory is a byte function from an offset in the buffer, so that reading past
the copied bytes is a read of whatever the enclave heap holds there. Both
loops of the C code run over host data and are written with fuel: `none` is a
run that has not finished after `fuel` iterations.
-/

namespace Gramine.Pal.LinuxSgx

/-- Bytes of a buffer, from its start. -/
abbrev Bytes := Nat → UInt8

/-- `offsetof(struct linux_dirent64, d_name)`: `d_ino`, `d_off`, `d_reclen`, `d_type`. -/
def D_NAME_OFFSET : Nat := 19

/-- `DIRBUF_SIZE`, the size of `handle->dir.buf`. -/
def DIRBUF_SIZE : Nat := 1024

/-- `DT_DIR`. -/
def DT_DIR : UInt8 := 4

/-- `d_reclen` of the record at `off`: the little-endian `unsigned short` at byte 16. -/
def dReclen (dirp : Bytes) (off : Nat) : Nat :=
  (dirp (off + 16)).toNat + 256 * (dirp (off + 17)).toNat

/-- `d_type` of the record at `off`. -/
def dType (dirp : Bytes) (off : Nat) : UInt8 := dirp (off + 18)

/-- One answer of the host to `OCALL_GETDENTS`: whether the untrusted stack had
room for the arguments, the return value, and the bytes it left in the
untrusted dirent buffer. -/
structure GetdentsAnswer where
  ustackFits : Bool
  retval : Int
  udirp : Bytes

/-- The host's answers to successive exits. -/
abbrev GetdentsHost := Nat → GetdentsAnswer

/-- The `do ... while (retval == -EINTR)` loop: the index of the first answer
that is not `-EINTR`. -/
def retryEintr (host : GetdentsHost) : Nat → Nat → Option Nat
  | 0, _ => none
  | fuel + 1, call => if (host call).retval = -EINTR then retryEintr host fuel (call + 1) else some call

/-- The errno filter of `ocall_getdents`. -/
def getdentsErrno (retval : Int) : Int :=
  if retval < 0 ∧ retval ≠ -EBADF ∧ retval ≠ -EINVAL ∧ retval ≠ -ENOENT ∧ retval ≠ -ENOTDIR then
    -EPERM
  else retval

/-- `sgx_copy_to_enclave(dirp, dirp_size, untrusted_dirp, size)` once its checks passed. -/
def copyToEnclave (dirp untrusted : Bytes) (size : Nat) : Bytes :=
  fun i => if i < size then untrusted i else dirp i

/-- The record walk of `ocall_getdents` over `size_left` bytes from `off`:
`some true` when the walk ends with nothing left, `some false` on a record
longer than what is left or on leftover bytes. -/
def recordWalk (dirp : Bytes) : Nat → Nat → Nat → Option Bool
  | 0, _, _ => none
  | fuel + 1, off, sizeLeft =>
      if D_NAME_OFFSET < sizeLeft then
        if sizeLeft < dReclen dirp off then some false
        else recordWalk dirp fuel (off + dReclen dirp off) (sizeLeft - dReclen dirp off)
      else some (sizeLeft == 0)

/-- `ocall_getdents(fd, dirp, dirp_size)`: the return value, the enclave buffer
afterwards and the index of the next host answer. -/
def ocallGetdents (host : GetdentsHost) (call : Nat) (dirp : Bytes) (dirpSize fuel : Nat) :
    Option (Int × Bytes × Nat) := do
  if !(host call).ustackFits then return (-EPERM, dirp, call)
  let answered ← retryEintr host fuel call
  let retval := getdentsErrno (host answered).retval
  if 0 < retval then
    let size := retval.toNat
    if dirpSize < size then return (-EPERM, dirp, answered + 1)
    let copied := copyToEnclave dirp (host answered).udirp size
    let recordsOk ← recordWalk copied fuel 0 size
    if recordsOk then return (retval, copied, answered + 1)
    else return (-EPERM, copied, answered + 1)
  else return (retval, dirp, answered + 1)

/-- `strlen` of the string at `start`, scanning at most `fuel` bytes. -/
def strlenFrom (mem : Bytes) : Nat → Nat → Option Nat
  | 0, _ => none
  | fuel + 1, start =>
      if mem start = 0 then some 0 else (strlenFrom mem fuel (start + 1)).map (· + 1)

/-- The `len` bytes of a string at `start`. -/
def bytesFrom (mem : Bytes) (start len : Nat) : List UInt8 :=
  (List.range len).map fun i => mem (start + i)

/-- `is_dot_or_dotdot(name)`, reading only as far as the C short-circuit does. -/
def isDotOrDotdot (mem : Bytes) (name : Nat) : Bool :=
  (mem name == 0x2e && mem (name + 1) == 0) ||
    (mem name == 0x2e && mem (name + 1) == 0x2e && mem (name + 2) == 0)

/-- The bytes `dir_read` writes for the record at `ptr` with a name of length
`len`: the name, a `/` for a directory, and the terminating NUL. -/
def direntEntry (mem : Bytes) (ptr len : Nat) : List UInt8 :=
  bytesFrom mem (ptr + D_NAME_OFFSET) len ++ (if dType mem ptr == DT_DIR then [0x2f] else []) ++ [0]

/-- `handle->dir` with the pointers `ptr` and `end` as offsets into `buf`. -/
structure DirHandle where
  fd : Int
  buf : Option Bytes
  ptr : Nat
  dirEnd : Nat
  endofstream : Bool

/-- Where the inner loop of `dir_read` stopped: at `ptr`, having written
`written` with `count` bytes of room left, and whether it jumped to `out`
because a name did not fit. -/
structure CopyStop where
  ptr : Nat
  written : List UInt8
  count : Nat
  full : Bool

/-- The inner `while (handle->dir.ptr < handle->dir.end)` loop of `dir_read`. -/
def copyDirents (mem : Bytes) (dirEnd : Nat) : Nat → Nat → List UInt8 → Nat → Option CopyStop
  | 0, _, _, _ => none
  | fuel + 1, ptr, written, count =>
      if ptr < dirEnd then
        if isDotOrDotdot mem (ptr + D_NAME_OFFSET) then
          copyDirents mem dirEnd fuel (ptr + dReclen mem ptr) written count
        else
          match strlenFrom mem fuel (ptr + D_NAME_OFFSET) with
          | none => none
          | some len =>
              let entry := direntEntry mem ptr len
              if count < entry.length then some ⟨ptr, written, count, true⟩
              else copyDirents mem dirEnd fuel (ptr + dReclen mem ptr) (written ++ entry)
                (count - entry.length)
      else some ⟨ptr, written, count, false⟩

/-- What `dir_read` returns: the bytes written, or a PAL error. -/
inductive DirReadResult where
  | ok (written : List UInt8)
  | noMem
  | inval
  | unixError (errno : Int)
  deriving DecidableEq

/-- The outer `while (1)` loop of `dir_read`. `freshBuf` is what
`malloc(DIRBUF_SIZE)` returns, `none` when it fails. -/
def dirReadLoop (host : GetdentsHost) (freshBuf : Option Bytes) :
    Nat → Nat → DirHandle → List UInt8 → Nat → Option (DirReadResult × DirHandle × Nat)
  | 0, _, _, _, _ => none
  | fuel + 1, call, handle, written, count => do
      let stop ← copyDirents (handle.buf.getD fun _ => 0) handle.dirEnd fuel handle.ptr written count
      let handle := { handle with ptr := stop.ptr }
      if stop.full then return (.ok stop.written, handle, call)
      if stop.count = 0 then return (.ok stop.written, handle, call)
      match handle.buf.orElse fun _ => freshBuf with
      | none => return (.noMem, handle, call)
      | some buf =>
          let (size, buf, call) ← ocallGetdents host call buf DIRBUF_SIZE fuel
          let handle := { handle with buf := some buf }
          if size < 0 then
            if stop.written ≠ [] then return (.ok stop.written, handle, call)
            else return (.unixError size, handle, call)
          if size = 0 then return (.ok stop.written, { handle with endofstream := true }, call)
          dirReadLoop host freshBuf fuel call { handle with ptr := 0, dirEnd := size.toNat }
            stop.written stop.count

/-- `dir_read(handle, offset, count, buf)`. -/
def dirRead (host : GetdentsHost) (freshBuf : Option Bytes) (fuel call : Nat) (handle : DirHandle)
    (offset count : Nat) : Option (DirReadResult × DirHandle × Nat) :=
  if offset ≠ 0 then some (.inval, handle, call)
  else if handle.endofstream then some (.ok [], handle, call)
  else dirReadLoop host freshBuf fuel call handle [] count

/-! ## What the record walk establishes -/

/-- The split of `size` bytes from `off` that the record walk accepts: records
that each start with more than `offsetof(d_name)` bytes left and are no longer
than what is left, ending exactly at `size`. -/
inductive RecordChain (dirp : Bytes) : Nat → Nat → Prop where
  | done (off : Nat) : RecordChain dirp off 0
  | record (off sizeLeft : Nat) (header : D_NAME_OFFSET < sizeLeft)
      (fits : dReclen dirp off ≤ sizeLeft)
      (rest : RecordChain dirp (off + dReclen dirp off) (sizeLeft - dReclen dirp off)) :
      RecordChain dirp off sizeLeft

attribute [grind] D_NAME_OFFSET dReclen getdentsErrno copyToEnclave recordWalk ocallGetdents
  copyDirents dirReadLoop dirRead

/-- An accepting walk has walked a record chain. -/
theorem recordChain_of_recordWalk {dirp : Bytes} {fuel off sizeLeft : Nat}
    (accepted : recordWalk dirp fuel off sizeLeft = some true) : RecordChain dirp off sizeLeft := by
  induction fuel generalizing off sizeLeft with
  | zero => simp [recordWalk] at accepted
  | succ fuel inductionHypothesis =>
      unfold recordWalk at accepted
      split at accepted
      · rename_i header
        split at accepted
        · cases accepted
        · rename_i fits
          exact .record off sizeLeft header (by omega) (inductionHypothesis accepted)
      · have empty : sizeLeft = 0 := by simpa using accepted
        subst empty
        exact .done off

/-- The walk depends only on the bytes of the chain it walks: outside
`[off, off + sizeLeft)` the buffer is never read. -/
theorem recordWalk_congr {dirp dirp' : Bytes} {fuel off sizeLeft : Nat}
    (agree : ∀ i, off ≤ i → i < off + sizeLeft → dirp i = dirp' i) :
    recordWalk dirp fuel off sizeLeft = recordWalk dirp' fuel off sizeLeft := by
  induction fuel generalizing off sizeLeft with
  | zero => rfl
  | succ fuel inductionHypothesis =>
      unfold recordWalk
      by_cases header : D_NAME_OFFSET < sizeLeft
      · have sameLength : dReclen dirp off = dReclen dirp' off := by
          unfold D_NAME_OFFSET at header
          simp only [dReclen, agree (off + 16) (by omega) (by omega),
            agree (off + 17) (by omega) (by omega)]
        simp only [header, if_true, sameLength]
        split
        · rfl
        · rename_i fits
          apply inductionHypothesis
          intro i lower upper
          exact agree i (by omega) (by omega)
      · simp only [header, if_false]

/-- The errno filter leaves positive sizes alone. -/
theorem getdentsErrno_of_pos {retval : Int} (positive : 0 < getdentsErrno retval) :
    getdentsErrno retval = retval := by
  unfold getdentsErrno at positive ⊢
  split_ifs at positive ⊢ with negative
  · simp [EPERM] at positive
  · rfl

/-- `ocall_getdents` returns a positive size only for at most `dirp_size`
bytes copied from the host's buffer that form a record chain. -/
theorem ocallGetdents_positive {host : GetdentsHost} {call : Nat} {dirp dirp' : Bytes}
    {dirpSize fuel : Nat} {retval : Int} {next : Nat}
    (returned : ocallGetdents host call dirp dirpSize fuel = some (retval, dirp', next))
    (positive : 0 < retval) :
    ∃ answered, retval = (host answered).retval ∧ retval.toNat ≤ dirpSize ∧
      (∀ i, i < retval.toNat → dirp' i = (host answered).udirp i) ∧
      RecordChain dirp' 0 retval.toNat := by
  unfold ocallGetdents at returned
  simp only [bind, Option.bind] at returned
  split at returned
  · cases returned
    simp [EPERM] at positive
  rename_i fits
  split at returned
  · cases returned
  rename_i answered retried
  dsimp only at returned
  split at returned
  · rename_i hostPositive
    split at returned
    · cases returned
      simp [EPERM] at positive
    rename_i small
    split at returned
    · cases returned
    rename_i recordsOk walked
    dsimp only at returned
    split at returned
    · cases returned
      have same := getdentsErrno_of_pos hostPositive
      refine ⟨answered, same, by omega, fun i below => ?_, ?_⟩
      · simp [copyToEnclave, below]
      · rename_i accepted
        rw [accepted] at walked
        exact recordChain_of_recordWalk walked
    · cases returned
      simp [EPERM] at positive
  · cases returned
    omega

/-! ## `dir_read` writes only what fits -/

/-- The inner loop only appends, and every byte it appends comes out of the
room `count` it was given. -/
theorem copyDirents_accounts {mem : Bytes} {dirEnd fuel ptr count : Nat} {written : List UInt8}
    {stop : CopyStop} (stopped : copyDirents mem dirEnd fuel ptr written count = some stop) :
    stop.written.length + stop.count = written.length + count ∧ written <+: stop.written := by
  induction fuel generalizing ptr written count with
  | zero => simp [copyDirents] at stopped
  | succ fuel inductionHypothesis =>
      unfold copyDirents at stopped
      split at stopped
      · split at stopped
        · exact inductionHypothesis stopped
        · split at stopped
          · cases stopped
          · rename_i len _
            dsimp only at stopped
            split at stopped
            · cases stopped
              exact ⟨rfl, List.prefix_refl written⟩
            · rename_i fits
              obtain ⟨accounted, extended⟩ := inductionHypothesis stopped
              refine ⟨?_, (List.prefix_append written _).trans extended⟩
              simp only [List.length_append] at accounted ⊢
              omega
      · cases stopped
        exact ⟨rfl, List.prefix_refl written⟩

/-- The outer loop returns bytes that extend what it was given by at most
`count`. -/
theorem dirReadLoop_accounts {host : GetdentsHost} {freshBuf : Option Bytes}
    {fuel call : Nat} {handle : DirHandle} {written : List UInt8} {count : Nat}
    {out : List UInt8} {handle' : DirHandle} {call' : Nat}
    (returned : dirReadLoop host freshBuf fuel call handle written count =
      some (.ok out, handle', call')) :
    out.length ≤ written.length + count ∧ written <+: out := by
  induction fuel generalizing call handle written count with
  | zero => simp [dirReadLoop] at returned
  | succ fuel inductionHypothesis =>
      unfold dirReadLoop at returned
      simp only [bind, Option.bind] at returned
      split at returned
      · cases returned
      rename_i stop stopped
      obtain ⟨accounted, extended⟩ := copyDirents_accounts stopped
      have done : out = stop.written → out.length ≤ written.length + count ∧ written <+: out := by
        rintro rfl
        exact ⟨by omega, extended⟩
      dsimp only at returned
      split at returned
      · cases returned
        exact done rfl
      split at returned
      · cases returned
        exact done rfl
      split at returned
      · cases returned
      rename_i buf _
      split at returned
      · cases returned
      rename_i answer _
      obtain ⟨size, buf', call''⟩ := answer
      dsimp only at returned
      split at returned
      · split at returned
        · cases returned
          exact done rfl
        · cases returned
      split at returned
      · cases returned
        exact done rfl
      obtain ⟨bounded, longer⟩ := inductionHypothesis returned
      exact ⟨by omega, extended.trans longer⟩

/-- Every successful `dir_read` writes at most `count` bytes into the caller's
buffer. -/
theorem dirRead_written_le {host : GetdentsHost} {freshBuf : Option Bytes} {fuel call : Nat}
    {handle : DirHandle} {offset count : Nat} {out : List UInt8} {handle' : DirHandle}
    {call' : Nat}
    (returned : dirRead host freshBuf fuel call handle offset count = some (.ok out, handle', call')) :
    out.length ≤ count := by
  unfold dirRead at returned
  split at returned
  · cases returned
  split at returned
  · cases returned
    simp
  · simpa using (dirReadLoop_accounts returned).1

/-! ## What the record walk lets through

The walk compares `d_reclen` only with what is left: a record of length 0
keeps it in place for ever, and nothing asks for a NUL inside `d_name`, which
`dir_read` then hands to `strlen`. -/

/-- A record of length 0 with more than a header left: the walk never
advances, so it never finishes, whatever the fuel. -/
theorem recordWalk_zero_reclen {dirp : Bytes} {off sizeLeft : Nat}
    (header : D_NAME_OFFSET < sizeLeft) (empty : dReclen dirp off = 0) (fuel : Nat) :
    recordWalk dirp fuel off sizeLeft = none := by
  induction fuel with
  | zero => rfl
  | succ fuel inductionHypothesis =>
      have stays : ¬ sizeLeft < dReclen dirp off := by omega
      rw [recordWalk, if_pos header, if_neg stays, empty, Nat.add_zero, Nat.sub_zero]
      exact inductionHypothesis

/-- `ocall_getdents` never returns when the host answers, at once, more than a
header whose first record has length 0. -/
theorem ocallGetdents_zero_reclen {host : GetdentsHost} {call : Nat} {dirp : Bytes}
    {dirpSize : Nat} (fits : (host call).ustackFits = true)
    (header : (D_NAME_OFFSET : Int) < (host call).retval)
    (small : (host call).retval.toNat ≤ dirpSize)
    (empty : dReclen (host call).udirp 0 = 0) (fuel : Nat) :
    ocallGetdents host call dirp dirpSize fuel = none := by
  have headerNat : D_NAME_OFFSET < (host call).retval.toNat := by
    unfold D_NAME_OFFSET at header ⊢
    omega
  have positive : 0 < (host call).retval := by
    unfold D_NAME_OFFSET at header
    omega
  have passed : getdentsErrno (host call).retval = (host call).retval := by
    rw [getdentsErrno, if_neg fun negative => absurd negative.1 (by omega)]
  have fitsBuffer : ¬ (dirpSize : Int) < (host call).retval := by omega
  cases fuel with
  | zero => simp [ocallGetdents, fits, retryEintr]
  | succ fuel =>
      have answered : retryEintr host (fuel + 1) call = some call := by
        have notInterrupted : (host call).retval ≠ -EINTR := by
          simp only [EINTR]
          omega
        simp [retryEintr, notInterrupted]
      -- the header bytes of the copy are the host's, so its first record has length 0 too
      have copiedEmpty :
          dReclen (copyToEnclave dirp (host call).udirp (host call).retval.toNat) 0 = 0 := by
        unfold D_NAME_OFFSET at headerNat
        have below16 : 16 < (host call).retval.toNat := by omega
        have below17 : 17 < (host call).retval.toNat := by omega
        simpa [dReclen, copyToEnclave, below16, below17] using empty
      have walk := recordWalk_zero_reclen headerNat copiedEmpty (fuel + 1)
      simp [ocallGetdents, fits, answered, passed, positive, fitsBuffer, walk]

/-- A host that answers every `OCALL_GETDENTS` with a 20-byte record header
of length 0. -/
def zeroReclenHost : GetdentsHost := fun _ => ⟨true, 20, fun _ => 0⟩

/-- One record of 24 bytes: `d_reclen = 24`, `d_type = 0`, and a name of five
bytes `a` that fills the record with no NUL. -/
def unterminatedRecord : Bytes := fun i =>
  if i = 16 then 24 else if D_NAME_OFFSET ≤ i then 0x61 else 0

/-- A host that answers the first `OCALL_GETDENTS` with the record above, and
the end of the directory afterwards. -/
def unterminatedHost : GetdentsHost := fun call =>
  if call = 0 then ⟨true, 24, unterminatedRecord⟩ else ⟨true, 0, fun _ => 0⟩

/-- A directory handle just opened: no buffer yet. -/
def freshDirHandle : DirHandle := ⟨3, none, 0, 0, false⟩

/-- `dir_read` is not safe against the host. Answering with a record of length 0
makes `dir_read` loop for ever; answering with a record whose name has no NUL
is accepted by `ocall_getdents`, and the names `dir_read` returns then depend on
the byte of `handle->dir.buf` right after the 24 bytes the host returned. -/
theorem dirRead_trusts_host_records :
    (∀ fuel, dirRead zeroReclenHost (some fun _ => 0) fuel 0 freshDirHandle 0 64 = none) ∧
    (∃ dirp' next, ocallGetdents unterminatedHost 0 (fun _ => 0) DIRBUF_SIZE 8 =
        some (24, dirp', next) ∧ ∀ i, D_NAME_OFFSET ≤ i → i < 24 → dirp' i ≠ 0) ∧
    (dirRead unterminatedHost (some fun _ => 0) 40 0 freshDirHandle 0 64).map Prod.fst =
      some (.ok [0x61, 0x61, 0x61, 0x61, 0x61, 0]) ∧
    (dirRead unterminatedHost (some fun i => if i = 24 then 0x62 else 0) 40 0 freshDirHandle 0
        64).map Prod.fst =
      some (.ok [0x61, 0x61, 0x61, 0x61, 0x61, 0x62, 0]) := by
  refine ⟨fun fuel => ?_, ?_, by decide, by decide⟩
  · cases fuel with
    | zero => rfl
    | succ fuel =>
        have spins : ocallGetdents zeroReclenHost 0 (fun _ => 0) DIRBUF_SIZE fuel = none :=
          ocallGetdents_zero_reclen rfl (by decide) (by decide) (by decide) fuel
        -- the fresh handle has nothing buffered, so the first pass goes straight to the host
        cases fuel with
        | zero => rfl
        | succ fuel => simp [dirRead, freshDirHandle, dirReadLoop, copyDirents, spins]
  · refine ⟨_, _, rfl, ?_⟩
    intro i lower upper
    unfold D_NAME_OFFSET at lower
    have notLength : i ≠ 16 := by omega
    simp [copyToEnclave, getdentsErrno, unterminatedHost, unterminatedRecord, D_NAME_OFFSET,
      upper, notLength, lower]

end Gramine.Pal.LinuxSgx
