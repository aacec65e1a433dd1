import Gramine.LibOS.Lock
/-!
# `libos_rwlock.c` and `libos_rwlock.h`

The readers-writer lock of the LibOS. `state` counts the readers that hold the
lock or wait for it, less `WRITER_WEIGHT` from the moment a writer announces
itself until it starts to unlock; `departing_readers` counts the readers a
writer waits for before it writes, `waiting_readers` those it wakes before it
leaves. Each event is a flag: the wait that sees `writer_wait` set clears it,
`readers_wait` is cleared only by `PalEventClear`, and `writers_lock` is the
auto-clear event of `libos_lock.h`. A wait that fails is retried by the
source's loops, which changes nothing, so the model leaves it out.

A thread runs one call at a time, from the start of `rwlock_read_lock` or
`rwlock_write_lock` to the end of the matching unlock, and each access it makes
to the lock is one step. The counters are integers: while fewer than
`WRITER_WEIGHT` readers count in `state`, none of them leaves the range of its
`int64_t` or `size_t`.
-/

namespace Gramine.LibOS

/-- `WRITER_WEIGHT`, `1ul << 60`. -/
def WRITER_WEIGHT : Int := 2 ^ 60

/-- `struct libos_rwlock`, with each event as whether it is set. -/
structure LibosRwlock where
  state : Int
  departingReaders : Int
  writerWait : Bool
  readersWait : Bool
  waitingReaders : Int
  writersLock : LibosLock
  deriving DecidableEq, Repr

/-- The lock as a successful `rwlock_create` leaves it. -/
def rwlockCreate : LibosRwlock where
  state := 0
  departingReaders := 0
  writerWait := false
  readersWait := false
  waitingReaders := 0
  writersLock := ⟨true, 0⟩

/-- Where a thread is: outside any call, holding the lock (`reading`,
`writing`), or inside a call before the access to the lock its name says;
`writeLockAdd` and `writeUnlockStore` hold the local `state` of
`rwlock_write_lock` and `rwlock_write_unlock`. -/
inductive RwPc
  | idle
  | readLockWait
  | readLockDec
  | readLockSet
  | reading
  | readUnlockDec
  | readUnlockSet
  | writeLock
  | writeLockSub
  | writeLockAdd (state : Int)
  | writeLockWait
  | writing
  | writeUnlockStore (state : Int)
  | writeUnlockSet
  | writeUnlockWait
  | writeUnlockClear
  | writeUnlockRelease
  deriving DecidableEq, Repr

/-- `rwlock_read_lock(l)` up to its slow path: the `__atomic_fetch_add` of
`state`, after which the thread waits if a writer had announced itself. -/
def rwlockReadLock (l : LibosRwlock) : RwPc × LibosRwlock :=
  (if l.state < 0 then .readLockWait else .reading, { l with state := l.state + 1 })

/-- The next access to the lock of the thread `tid` at `pc`: for a holder, the
first of its unlock; `none` while the thread waits for an event that is not
set, or is outside any call. -/
def RwPc.step (tid : Nat) : RwPc → LibosRwlock → Option (RwPc × LibosRwlock)
  | .idle, _ => none
  -- `rwlock_read_lock_slow_path`
  | .readLockWait, l => if l.readersWait then some (.readLockDec, l) else none
  | .readLockDec, l =>
    let waiting := l.waitingReaders - 1
    some (if waiting = 0 then .readLockSet else .reading, { l with waitingReaders := waiting })
  | .readLockSet, l => some (.reading, { l with writerWait := true })
  -- `rwlock_read_unlock` and `rwlock_read_unlock_slow_path`
  | .reading, l =>
    let state := l.state - 1
    some (if state < 0 then .readUnlockDec else .idle, { l with state := state })
  | .readUnlockDec, l =>
    let departing := l.departingReaders - 1
    some (if departing = 0 then .readUnlockSet else .idle, { l with departingReaders := departing })
  | .readUnlockSet, l => some (.idle, { l with writerWait := true })
  -- `rwlock_write_lock`
  | .writeLock, l => (l.writersLock.lock tid).map fun w => (.writeLockSub, { l with writersLock := w })
  | .writeLockSub, l =>
    some (if 0 < l.state then .writeLockAdd l.state else .writing,
      { l with state := l.state - WRITER_WEIGHT })
  | .writeLockAdd state, l =>
    let departing := l.departingReaders + state
    some (if departing ≠ 0 then .writeLockWait else .writing, { l with departingReaders := departing })
  | .writeLockWait, l => if l.writerWait then some (.writing, { l with writerWait := false }) else none
  -- `rwlock_write_unlock`
  | .writing, l =>
    let state := l.state + WRITER_WEIGHT
    some (if state ≠ 0 then .writeUnlockStore state else .writeUnlockRelease, { l with state := state })
  | .writeUnlockStore state, l => some (.writeUnlockSet, { l with waitingReaders := state })
  | .writeUnlockSet, l => some (.writeUnlockWait, { l with readersWait := true })
  | .writeUnlockWait, l =>
    if l.writerWait then some (.writeUnlockClear, { l with writerWait := false }) else none
  | .writeUnlockClear, l => some (.writeUnlockRelease, { l with readersWait := false })
  | .writeUnlockRelease, l => some (.idle, { l with writersLock := l.writersLock.unlock })

/-- The lock and where each of its threads is; a thread is its index. -/
structure RwlockSystem where
  lock : LibosRwlock
  threads : List RwPc
  deriving DecidableEq, Repr

/-- What happens next: a thread outside any call calls `rwlock_read_lock` or
`rwlock_write_lock`, or a thread makes its next access to the lock. -/
inductive RwOp
  | readLock (tid : Nat)
  | writeLock (tid : Nat)
  | run (tid : Nat)
  deriving DecidableEq, Repr

def rwStep : RwOp → RwlockSystem → Option RwlockSystem
  | .readLock tid, s =>
    if s.threads[tid]? = some .idle then
      let next := rwlockReadLock s.lock
      some ⟨next.2, s.threads.set tid next.1⟩
    else none
  | .writeLock tid, s =>
    if s.threads[tid]? = some .idle then some ⟨s.lock, s.threads.set tid .writeLock⟩ else none
  | .run tid, s =>
    match s.threads[tid]? with
    | some pc => (pc.step tid s.lock).map fun next => ⟨next.2, s.threads.set tid next.1⟩
    | none => none

def rwSteps : List RwOp → RwlockSystem → Option RwlockSystem
  | [], s => some s
  | op :: ops, s => (rwStep op s).bind (rwSteps ops)

/-- The threads that count in `state`: from the `__atomic_fetch_add` of
`rwlock_read_lock` to the `__atomic_sub_fetch` of `rwlock_read_unlock`. -/
def RwPc.countsInState : RwPc → Bool
  | .readLockWait | .readLockDec | .readLockSet | .reading => true
  | _ => false

/-- How many readers count in `state`. -/
def RwlockSystem.readers (s : RwlockSystem) : Nat :=
  s.threads.countP RwPc.countsInState

/-- `n` threads outside any call, over a lock `rwlock_create` made. -/
def RwlockSystem.created (n : Nat) : RwlockSystem :=
  ⟨rwlockCreate, List.replicate n .idle⟩

/-- The states of the runs from `rwlock_create` in which fewer than
`WRITER_WEIGHT` readers count in `state` at every moment. -/
inductive RwReach : RwlockSystem → Prop
  | created (n : Nat) : RwReach (.created n)
  | step {s s' : RwlockSystem} (op : RwOp) : RwReach s → rwStep op s = some s' →
      (s'.readers : Int) < WRITER_WEIGHT → RwReach s'

attribute [grind] rwlockCreate rwlockReadLock RwPc.step rwStep RwlockSystem.readers

end Gramine.LibOS
