import Mathlib
import Gramine.Common.Errno

/-!
# File locks

`libos_fs_lock.c` keeps, for each dentry with locks, the POSIX (`fcntl`) and
BSD (`flock`) locks held on the file and the requests waiting for one. All
requests are handled by the process leader under one lock, so the calls on a
dentry run one after the other: `file_lock_set` sets or removes a lock, or
queues a request that waits, and `file_lock_clear_pid` drops what a process
held. Every change to the locks is followed by `file_lock_process_requests`,
which grants the waiting requests that no longer conflict.

The POSIX list is kept sorted by pid and start; `_posix_lock_set` walks it
once, merging locks of the same type that touch the new range, cutting or
splitting locks of the other type, and remembers the last lock before the
range (`prev`) to put the new lock after it. `posixScan` is that walk: the
locks that end before the new one, the merged range, and the locks after it.

`malloc` answers as `mallocOk` says, for the allocations in the order they
are made; `allocs` counts them.
-/

namespace Gramine.LibOS.Fs

/-- `FS_LOCK_EOF`: the end of a range that runs to the end of the file. -/
def FS_LOCK_EOF : Nat := 2 ^ 64 - 1

/-- `enum libos_file_lock_family`, without the value for unset locks. -/
inductive FileLockFamily
  | posix
  | flock
  deriving DecidableEq, Repr

/-- `F_RDLCK`, `F_WRLCK` and `F_UNLCK`. -/
inductive FileLockType
  | rdlck
  | wrlck
  | unlck
  deriving DecidableEq, Repr

/-- `struct libos_file_lock`; `rangeEnd` is its `end`, the last byte. -/
structure LibosFileLock where
  family : FileLockFamily
  type : FileLockType
  start : Nat
  rangeEnd : Nat
  pid : Nat
  handleId : Nat
  deriving DecidableEq, Repr

/-- `struct dent_file_locks`: the requests are kept by their lock, without
the waiter to notify. New requests go to the head. -/
structure DentFileLocks where
  posixUsed : Bool
  flockUsed : Bool
  fileLocks : List LibosFileLock
  fileLockRequests : List LibosFileLock
  deriving DecidableEq, Repr

/-- The test of `file_lock_find_conflict` for a lock `cur` against a request
`fileLock`: for POSIX, another pid, overlapping ranges and a write lock; for
`flock`, another handle and an exclusive lock. -/
def FileLockConflict (cur fileLock : LibosFileLock) : Prop :=
  match fileLock.family with
  | .posix =>
    cur.pid ≠ fileLock.pid ∧ fileLock.start ≤ cur.rangeEnd ∧ cur.start ≤ fileLock.rangeEnd ∧
      (cur.type = .wrlck ∨ fileLock.type = .wrlck)
  | .flock => cur.handleId ≠ fileLock.handleId ∧ (cur.type = .wrlck ∨ fileLock.type = .wrlck)

instance (cur fileLock : LibosFileLock) : Decidable (FileLockConflict cur fileLock) := by
  unfold FileLockConflict
  split <;> infer_instance

/-- `file_lock_find_conflict(dent_file_locks, file_lock)`. -/
def fileLockFindConflict (fileLocks : List LibosFileLock) (fileLock : LibosFileLock) :
    Option LibosFileLock :=
  fileLocks.find? fun cur => decide (FileLockConflict cur fileLock)

/-- Where the walk of `_posix_lock_set` leaves the list: the locks before the
new one (up to `prev`), the range of the new lock, and the locks after it. -/
structure PosixScan where
  before : List LibosFileLock
  start : Nat
  rangeEnd : Nat
  after : List LibosFileLock
  deriving DecidableEq, Repr

/-- A lock `cur` that stays before the new one (`prev = cur`). -/
def PosixScan.keep (cur : LibosFileLock) (scan : PosixScan) : PosixScan :=
  { scan with before := cur :: scan.before }

/-- A lock the walk passes over without making it `prev`: it stays before the
new lock only if a later one becomes `prev`. -/
def PosixScan.skip (cur : LibosFileLock) (scan : PosixScan) : PosixScan :=
  match scan.before with
  | [] => { scan with after := cur :: scan.after }
  | _ => { scan with before := cur :: scan.before }

/-- The loop of `_posix_lock_set(dent_file_locks, file_lock)` from the target
range `[start, rangeEnd]` on. -/
def posixScan (fileLock : LibosFileLock) (start rangeEnd : Nat) :
    List LibosFileLock → PosixScan
  | [] => ⟨[], start, rangeEnd, []⟩
  | cur :: rest =>
    if cur.family ≠ .posix then (posixScan fileLock start rangeEnd rest).skip cur
    else if cur.pid < fileLock.pid then (posixScan fileLock start rangeEnd rest).keep cur
    else if fileLock.pid < cur.pid then ⟨[], start, rangeEnd, cur :: rest⟩
    else if cur.type = fileLock.type then
      -- the same type: a lock that touches the range is merged into it
      if 0 < start ∧ cur.rangeEnd < start - 1 then
        (posixScan fileLock start rangeEnd rest).keep cur
      else if rangeEnd < FS_LOCK_EOF ∧ rangeEnd + 1 < cur.start then
        ⟨[], start, rangeEnd, cur :: rest⟩
      else posixScan fileLock (min start cur.start) (max rangeEnd cur.rangeEnd) rest
    else
      -- another type: the range is cut out of the lock
      if cur.rangeEnd < start then (posixScan fileLock start rangeEnd rest).keep cur
      else if rangeEnd < cur.start then ⟨[], start, rangeEnd, cur :: rest⟩
      else if cur.start < start ∧ cur.rangeEnd ≤ rangeEnd then
        (posixScan fileLock start rangeEnd rest).keep { cur with rangeEnd := start - 1 }
      else if cur.start < start ∧ rangeEnd < cur.rangeEnd then
        ⟨[{ cur with rangeEnd := start - 1 }], start, rangeEnd,
          ⟨.posix, cur.type, rangeEnd + 1, cur.rangeEnd, cur.pid, 0⟩ :: rest⟩
      else if start ≤ cur.start ∧ cur.rangeEnd ≤ rangeEnd then
        posixScan fileLock start rangeEnd rest
      else ⟨[], start, rangeEnd, { cur with start := rangeEnd + 1 } :: rest⟩

/-- The lock `_posix_lock_set` adds for a scan that ended with `scan`. -/
def PosixScan.newLock (scan : PosixScan) (fileLock : LibosFileLock) : LibosFileLock :=
  ⟨.posix, fileLock.type, scan.start, scan.rangeEnd, fileLock.pid, 0⟩

/-- The locks after `_posix_lock_set`: the new lock after `prev`, or none for
`F_UNLCK`. -/
def PosixScan.result (scan : PosixScan) (fileLock : LibosFileLock) : List LibosFileLock :=
  if fileLock.type = .unlck then scan.before ++ scan.after
  else scan.before ++ scan.newLock fileLock :: scan.after

/-- The loop of `_flock_lock_set`: the first `flock` lock of the handle goes. -/
def flockRemove (handleId : Nat) : List LibosFileLock → List LibosFileLock
  | [] => []
  | cur :: rest =>
    if cur.family ≠ .flock then cur :: flockRemove handleId rest
    else if cur.handleId = handleId then rest
    else cur :: flockRemove handleId rest

attribute [grind] FileLockConflict fileLockFindConflict PosixScan.keep PosixScan.skip
  PosixScan.newLock PosixScan.result flockRemove

section Malloc

variable (mallocOk : Nat → Bool)

/-- `_posix_lock_set(dent_file_locks, file_lock)`: the new lock (unless
`F_UNLCK`) and the spare one for a split are allocated first, so that a
failure changes nothing. -/
def posixLockSet (fileLock : LibosFileLock) (fileLocks : List LibosFileLock) (allocs : Nat) :
    Except Int (List LibosFileLock) × Nat :=
  let needsNew := fileLock.type ≠ .unlck
  if needsNew ∧ !mallocOk allocs then (.error (-ENOMEM), allocs + 1)
  else
    let allocs := if needsNew then allocs + 1 else allocs
    if !mallocOk allocs then (.error (-ENOMEM), allocs + 1)
    else
      ((.ok ((posixScan fileLock fileLock.start fileLock.rangeEnd fileLocks).result fileLock)),
        allocs + 1)

/-- `_flock_lock_set(dent_file_locks, file_lock)`: the handle's lock is
replaced, or removed for `F_UNLCK`. -/
def flockLockSet (fileLock : LibosFileLock) (fileLocks : List LibosFileLock) (allocs : Nat) :
    Except Int (List LibosFileLock) × Nat :=
  if fileLock.type = .unlck then (.ok (flockRemove fileLock.handleId fileLocks), allocs)
  else if !mallocOk allocs then (.error (-ENOMEM), allocs + 1)
  else (.ok (fileLock :: flockRemove fileLock.handleId fileLocks), allocs + 1)

/-- The set of `file_lock_set_or_add_request` and of a granted request. -/
def fileLockSetLock (fileLock : LibosFileLock) (fileLocks : List LibosFileLock) (allocs : Nat) :
    Except Int (List LibosFileLock) × Nat :=
  match fileLock.family with
  | .posix => posixLockSet mallocOk fileLock fileLocks allocs
  | .flock => flockLockSet mallocOk fileLock fileLocks allocs

/-- Where a pass over the requests leaves them: whether one was granted, the
requests still waiting, the locks and the count of allocations. -/
structure RequestPass where
  changed : Bool
  waiting : List LibosFileLock
  fileLocks : List LibosFileLock
  allocs : Nat
  deriving DecidableEq, Repr

/-- The locks after a set that may fail: unchanged on failure. -/
def lockSetResult (result : Except Int (List LibosFileLock)) (fileLocks : List LibosFileLock) :
    List LibosFileLock :=
  match result with
  | .ok fileLocks => fileLocks
  | .error _ => fileLocks

/-- One pass of the loop of `file_lock_process_requests` over the requests:
each that conflicts with no lock is set, which may fail, and leaves the
list. -/
def grantRequests : List LibosFileLock → List LibosFileLock → Nat → RequestPass
  | [], fileLocks, allocs => ⟨false, [], fileLocks, allocs⟩
  | request :: rest, fileLocks, allocs =>
    match fileLockFindConflict fileLocks request with
    | some _ =>
      let pass := grantRequests rest fileLocks allocs
      { pass with waiting := request :: pass.waiting }
    | none =>
      let set := fileLockSetLock mallocOk request fileLocks allocs
      { grantRequests rest (lockSetResult set.1 fileLocks) set.2 with changed := true }

attribute [grind] grantRequests

theorem grantRequests_length : ∀ (requests fileLocks : List LibosFileLock) (allocs : Nat),
    (grantRequests mallocOk requests fileLocks allocs).waiting.length ≤ requests.length ∧
      ((grantRequests mallocOk requests fileLocks allocs).changed = true →
        (grantRequests mallocOk requests fileLocks allocs).waiting.length < requests.length)
  | [], _, _ => by simp [grantRequests]
  | request :: rest, fileLocks, allocs => by
    rw [grantRequests]
    split
    · obtain ⟨le, lt⟩ := grantRequests_length rest fileLocks allocs
      dsimp only
      simp only [List.length_cons]
      exact ⟨by omega, fun changed => by have := lt changed; omega⟩
    · obtain ⟨le, -⟩ := grantRequests_length rest
        (lockSetResult (fileLockSetLock mallocOk request fileLocks allocs).1 fileLocks)
        (fileLockSetLock mallocOk request fileLocks allocs).2
      dsimp only
      simp only [List.length_cons]
      exact ⟨by omega, fun _ => by omega⟩

/-- `file_lock_process_requests(dent_file_locks)`: passes until one grants
nothing; that last pass. -/
def fileLockProcessRequests (requests fileLocks : List LibosFileLock) (allocs : Nat) :
    RequestPass :=
  match passed : grantRequests mallocOk requests fileLocks allocs with
  | ⟨true, waiting, fileLocks', allocs'⟩ => fileLockProcessRequests waiting fileLocks' allocs'
  | pass@⟨false, _, _, _⟩ => pass
termination_by requests.length
decreasing_by
  have := (grantRequests_length mallocOk requests fileLocks allocs).2
  rw [passed] at this
  exact this rfl

/-- `dent_file_locks_gc(dent_file_locks)`: the entry goes once it holds
nothing. -/
def dentFileLocksGc (dentFileLocks : DentFileLocks) : Option DentFileLocks :=
  if dentFileLocks.fileLocks = [] ∧ dentFileLocks.fileLockRequests = [] then none
  else some dentFileLocks

/-- The end of `file_lock_set_or_add_request`: a lock or a request of a
family marks the family used. -/
def DentFileLocks.markUsed (dentFileLocks : DentFileLocks) (fileLock : LibosFileLock) :
    DentFileLocks :=
  if fileLock.type = .unlck then dentFileLocks
  else match fileLock.family with
    | .posix => { dentFileLocks with posixUsed := true }
    | .flock => { dentFileLocks with flockUsed := true }

/-- The rest of `file_lock_set_or_add_request` once the dentry's entry is
found: mixing the families is refused; a conflicting lock makes the call
fail or wait; otherwise the lock is set and the requests are processed. The
result and the dentry's entry. -/
def setOrAddRequest (fileLock : LibosFileLock) (wait : Bool) (dentFileLocks : DentFileLocks)
    (allocs : Nat) : Int × Option DentFileLocks × Nat :=
  if fileLock.type ≠ .unlck ∧ ((fileLock.family = .flock ∧ dentFileLocks.posixUsed) ∨
      (fileLock.family = .posix ∧ dentFileLocks.flockUsed)) then
    (-EPERM, dentFileLocksGc dentFileLocks, allocs)
  else
    let conflict := if fileLock.type ≠ .unlck then
      fileLockFindConflict dentFileLocks.fileLocks fileLock else none
    match conflict with
    | some _ =>
      if !wait then (-EAGAIN, dentFileLocksGc dentFileLocks, allocs)
      else if !mallocOk allocs then (-ENOMEM, dentFileLocksGc dentFileLocks, allocs + 1)
      else
        (0, dentFileLocksGc ({ dentFileLocks with
          fileLockRequests := fileLock :: dentFileLocks.fileLockRequests }.markUsed fileLock),
          allocs + 1)
    | none =>
      match fileLockSetLock mallocOk fileLock dentFileLocks.fileLocks allocs with
      | (.error err, allocs) => (err, dentFileLocksGc dentFileLocks, allocs)
      | (.ok fileLocks, allocs) =>
        let pass := fileLockProcessRequests mallocOk dentFileLocks.fileLockRequests fileLocks allocs
        (0, dentFileLocksGc ({ dentFileLocks with
          fileLocks := pass.fileLocks, fileLockRequests := pass.waiting }.markUsed fileLock),
          pass.allocs)

/-- `file_lock_set_or_add_request(dent, file_lock, wait, ...)` on the entry of
the dentry, `none` when it has none: the entry is created for a lock, and an
unlock of a file without one does nothing. -/
def fileLockSetOrAddRequest (fileLock : LibosFileLock) (wait : Bool)
    (dent : Option DentFileLocks) (allocs : Nat) : Int × Option DentFileLocks × Nat :=
  match dent with
  | some dentFileLocks => setOrAddRequest mallocOk fileLock wait dentFileLocks allocs
  | none =>
    if fileLock.type = .unlck then (0, none, allocs)
    else if !mallocOk allocs then (-ENOMEM, none, allocs + 1)
    else setOrAddRequest mallocOk fileLock wait ⟨false, false, [], []⟩ (allocs + 1)

/-- A POSIX lock or request of `pid`. -/
def LibosFileLock.ofPid (pid : Nat) (fileLock : LibosFileLock) : Bool :=
  fileLock.family = .posix ∧ fileLock.pid = pid

/-- `file_lock_clear_pid_from_dentry(dent, pid)`: the pid's POSIX locks and
requests go; the other requests are processed only if a lock went. -/
def fileLockClearPidFromDentry (pid : Nat) (dent : Option DentFileLocks) (allocs : Nat) :
    Option DentFileLocks × Nat :=
  match dent with
  | none => (none, allocs)
  | some dentFileLocks =>
    let fileLocks := dentFileLocks.fileLocks.filter fun fileLock => !fileLock.ofPid pid
    let requests := dentFileLocks.fileLockRequests.filter fun request => !request.ofPid pid
    if dentFileLocks.fileLocks.any (LibosFileLock.ofPid pid) then
      let pass := fileLockProcessRequests mallocOk requests fileLocks allocs
      (dentFileLocksGc { dentFileLocks with
        fileLocks := pass.fileLocks, fileLockRequests := pass.waiting }, pass.allocs)
    else (some { dentFileLocks with fileLocks, fileLockRequests := requests }, allocs)

attribute [grind] DentFileLocks.markUsed

end Malloc

/-- What the leader does on one dentry. -/
inductive FileLockOp
  | set (fileLock : LibosFileLock) (wait : Bool)
  | clearPid (pid : Nat)
  deriving DecidableEq, Repr

/-- The locks the callers of `file_lock_set` pass: a POSIX lock of a nonzero
pid on a range `start ≤ end`, or a `flock` lock of a nonzero handle. -/
def LibosFileLock.Valid (fileLock : LibosFileLock) : Prop :=
  match fileLock.family with
  | .posix => 0 < fileLock.pid ∧ fileLock.start ≤ fileLock.rangeEnd ∧ fileLock.rangeEnd ≤ FS_LOCK_EOF
  | .flock => 0 < fileLock.handleId

def FileLockOp.Valid : FileLockOp → Prop
  | .set fileLock _ => fileLock.Valid
  | .clearPid _ => True

/-- The entry of a dentry and the count of allocations. -/
structure FileLockState where
  dent : Option DentFileLocks
  allocs : Nat
  deriving DecidableEq, Repr

/-- One call on the dentry. -/
def fileLockStep (mallocOk : Nat → Bool) : FileLockOp → FileLockState → FileLockState
  | .set fileLock wait, s =>
    let (_, dent, allocs) := fileLockSetOrAddRequest mallocOk fileLock wait s.dent s.allocs
    ⟨dent, allocs⟩
  | .clearPid pid, s =>
    let (dent, allocs) := fileLockClearPidFromDentry mallocOk pid s.dent s.allocs
    ⟨dent, allocs⟩

/-- The states of a dentry's locks from none, by valid calls. -/
inductive FileLockRun (mallocOk : Nat → Bool) : FileLockState → Prop
  | init : FileLockRun mallocOk ⟨none, 0⟩
  | step {s : FileLockState} (op : FileLockOp) : FileLockRun mallocOk s → op.Valid →
      FileLockRun mallocOk (fileLockStep mallocOk op s)

attribute [grind] LibosFileLock.Valid FileLockOp.Valid

end Gramine.LibOS.Fs
