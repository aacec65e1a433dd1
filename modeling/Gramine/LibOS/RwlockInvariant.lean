import Gramine.LibOS.Rwlock
import Gramine.Library.Interleaving
/-!
# What the counters of a `libos_rwlock` mean

Every reachable state is described by where the holder of `writers_lock` is.
While nobody holds it, the counters and events are as `rwlock_create` left
them and `state` counts the readers holding the lock. From the
`__atomic_fetch_sub` of `rwlock_write_lock` on, `state` is the readers less
`WRITER_WEIGHT`, the readers that come in wait on `readers_wait`, and
`departing_readers`, once the writer has added its count, is the number of
readers that have not yet left, the readers that leave before that addition
having made it negative. From the `__atomic_add_fetch` of
`rwlock_write_unlock` on, `waiting_readers` is the number of readers the writer
woke that have not yet decremented it. Each of the two waits of a writer ends
when the last reader it waits for has set `writer_wait`, and that set is the
only one, which is why one auto-clear event serves both.

`PhaseInv` says this for each position of the holder, `HolderIs` that
`writers_lock` has one holder at most, and `RwInv.step` that every step of
every thread keeps both.
-/

namespace Gramine.LibOS

/-- The positions at which a thread holds `writers_lock`. -/
def RwPc.holdsWritersLock : RwPc → Bool
  | .writeLockSub | .writeLockAdd _ | .writeLockWait | .writing | .writeUnlockStore _
  | .writeUnlockSet | .writeUnlockWait | .writeUnlockClear | .writeUnlockRelease => true
  | _ => false

attribute [grind] RwPc.holdsWritersLock

namespace RwlockSystem

variable {s : RwlockSystem} {j : Nat} {pc pc' : RwPc} {l' : LibosRwlock}

/-- How many threads are at `pc`. -/
def count (s : RwlockSystem) (pc : RwPc) : Nat := s.threads.count pc

/-- How many threads hold `writers_lock`. -/
def holders (s : RwlockSystem) : Nat := s.threads.countP RwPc.holdsWritersLock

/-- Who holds `writers_lock`: nobody, with the lock as `unlock` leaves it, or
one thread, at `pc`. -/
def HolderIs (s : RwlockSystem) : Option RwPc → Prop
  | none => s.holders = 0 ∧ s.lock.writersLock = ⟨true, 0⟩
  | some pc => pc.holdsWritersLock = true ∧ pc ∈ s.threads ∧ s.holders = 1 ∧
      s.lock.writersLock.set = false

/-- The counters, the events and the readers at each position while the
holder of `writers_lock` is at `holder`. -/
def PhaseInv (s : RwlockSystem) : Option RwPc → Prop
  | none | some .writeLockSub | some .writeUnlockRelease =>
    s.lock.state = s.count .reading ∧ s.count .readLockWait = 0 ∧ s.count .readLockDec = 0 ∧
      s.count .readLockSet = 0 ∧ s.count .readUnlockDec = 0 ∧ s.count .readUnlockSet = 0 ∧
      s.lock.departingReaders = 0 ∧ s.lock.waitingReaders = 0 ∧ s.lock.writerWait.toNat = 0 ∧
      s.lock.readersWait.toNat = 0
  | some (.writeLockAdd old) =>
    s.lock.state = s.count .reading + s.count .readLockWait - WRITER_WEIGHT ∧
      s.count .readLockDec = 0 ∧ s.count .readLockSet = 0 ∧ s.count .readUnlockSet = 0 ∧
      s.lock.departingReaders + old = s.count .reading + s.count .readUnlockDec ∧ 0 < old ∧
      s.lock.departingReaders ≤ 0 ∧ s.lock.waitingReaders = 0 ∧ s.lock.writerWait.toNat = 0 ∧
      s.lock.readersWait.toNat = 0
  | some .writeLockWait =>
    s.lock.state = s.count .reading + s.count .readLockWait - WRITER_WEIGHT ∧
      s.count .readLockDec = 0 ∧ s.count .readLockSet = 0 ∧
      s.lock.departingReaders = s.count .reading + s.count .readUnlockDec ∧
      (s.lock.departingReaders = 0 ∧ s.count .readUnlockSet + s.lock.writerWait.toNat = 1 ∨
        0 < s.lock.departingReaders ∧ s.count .readUnlockSet = 0 ∧ s.lock.writerWait.toNat = 0) ∧
      s.lock.waitingReaders = 0 ∧ s.lock.readersWait.toNat = 0
  | some .writing =>
    s.lock.state = s.count .readLockWait - WRITER_WEIGHT ∧ s.count .reading = 0 ∧
      s.count .readLockDec = 0 ∧ s.count .readLockSet = 0 ∧ s.count .readUnlockDec = 0 ∧
      s.count .readUnlockSet = 0 ∧ s.lock.departingReaders = 0 ∧ s.lock.waitingReaders = 0 ∧
      s.lock.writerWait.toNat = 0 ∧ s.lock.readersWait.toNat = 0
  | some (.writeUnlockStore state) =>
    s.lock.state = s.count .reading + s.count .readLockWait ∧ state = s.count .readLockWait ∧
      0 < state ∧ s.count .readLockDec = 0 ∧ s.count .readLockSet = 0 ∧
      s.count .readUnlockDec = 0 ∧ s.count .readUnlockSet = 0 ∧ s.lock.departingReaders = 0 ∧
      s.lock.waitingReaders = 0 ∧ s.lock.writerWait.toNat = 0 ∧ s.lock.readersWait.toNat = 0
  | some .writeUnlockSet =>
    s.lock.state = s.count .reading + s.count .readLockWait ∧
      s.lock.waitingReaders = s.count .readLockWait ∧ 0 < s.lock.waitingReaders ∧
      s.count .readLockDec = 0 ∧ s.count .readLockSet = 0 ∧ s.count .readUnlockDec = 0 ∧
      s.count .readUnlockSet = 0 ∧ s.lock.departingReaders = 0 ∧ s.lock.writerWait.toNat = 0 ∧
      s.lock.readersWait.toNat = 0
  | some .writeUnlockWait =>
    s.lock.state = s.count .reading + s.count .readLockWait + s.count .readLockDec +
        s.count .readLockSet ∧
      s.lock.waitingReaders = s.count .readLockWait + s.count .readLockDec ∧
      (s.lock.waitingReaders = 0 ∧ s.count .readLockSet + s.lock.writerWait.toNat = 1 ∨
        0 < s.lock.waitingReaders ∧ s.count .readLockSet = 0 ∧ s.lock.writerWait.toNat = 0) ∧
      s.count .readUnlockDec = 0 ∧ s.count .readUnlockSet = 0 ∧ s.lock.departingReaders = 0 ∧
      s.lock.readersWait.toNat = 1
  | some .writeUnlockClear =>
    s.lock.state = s.count .reading ∧ s.count .readLockWait = 0 ∧ s.count .readLockDec = 0 ∧
      s.count .readLockSet = 0 ∧ s.count .readUnlockDec = 0 ∧ s.count .readUnlockSet = 0 ∧
      s.lock.departingReaders = 0 ∧ s.lock.waitingReaders = 0 ∧ s.lock.writerWait.toNat = 0 ∧
      s.lock.readersWait.toNat = 1
  | some _ => False

/-- The invariant of every reachable state. -/
def RwInv (s : RwlockSystem) : Prop :=
  ∃ holder, s.HolderIs holder ∧ s.PhaseInv holder

/-! ## Counting after a step -/

attribute [grind] count holders PhaseInv

theorem count_set (at_j : s.threads[j]? = some pc) (l' : LibosRwlock) (pc' q : RwPc) :
    (⟨l', s.threads.set j pc'⟩ : RwlockSystem).count q =
      s.count q + (if pc' = q then 1 else 0) - (if pc = q then 1 else 0) := by
  have := List.count_set_add at_j pc' q
  simp only [count]
  omega

theorem count_pos (at_j : s.threads[j]? = some pc) : 0 < s.count pc :=
  List.count_pos_of_getElem? at_j

theorem holders_set (at_j : s.threads[j]? = some pc) (l' : LibosRwlock) (pc' : RwPc) :
    (⟨l', s.threads.set j pc'⟩ : RwlockSystem).holders + (if pc.holdsWritersLock then 1 else 0) =
      s.holders + (if pc'.holdsWritersLock then 1 else 0) :=
  List.countP_set_add RwPc.holdsWritersLock at_j pc'

theorem readers_eq (s : RwlockSystem) :
    s.readers = s.count .readLockWait + s.count .readLockDec + s.count .readLockSet +
      s.count .reading := by
  obtain ⟨lock, threads⟩ := s
  simp only [readers, count]
  induction threads with
  | nil => rfl
  | cons pc threads ih =>
    simp only [List.countP_cons, List.count_cons, ih, beq_iff_eq]
    cases pc <;> simp [RwPc.countsInState] <;> omega

/-! ## Who holds `writers_lock` -/

/-- A thread that holds `writers_lock` is at the holder's position. -/
theorem HolderIs.eq {holder : Option RwPc} (h : s.HolderIs holder) (at_j : s.threads[j]? = some pc)
    (holds : pc.holdsWritersLock = true) : holder = some pc := by
  have one : 0 < s.holders := List.countP_pos_iff.mpr ⟨pc, List.mem_of_getElem? at_j, holds⟩
  rcases holder with _ | pcHolder
  · exact absurd h.1 (by omega)
  · obtain ⟨holdsHolder, member, once, -⟩ := h
    obtain ⟨i, at_i⟩ := List.mem_iff_getElem?.mp member
    have same : i = j := List.eq_of_countP_le_one (by simp only [holders] at once; omega)
      at_i at_j holdsHolder holds
    subst same
    rw [at_i] at at_j
    cases at_j
    rfl

/-- A step of a thread that neither holds nor takes `writers_lock` keeps its
holder. -/
theorem HolderIs.set_other {holder : Option RwPc} (h : s.HolderIs holder)
    (at_j : s.threads[j]? = some pc) (free : pc.holdsWritersLock = false)
    (free' : pc'.holdsWritersLock = false) (same : l'.writersLock = s.lock.writersLock) :
    HolderIs ⟨l', s.threads.set j pc'⟩ holder := by
  have count := holders_set at_j l' pc'
  simp only [free, free', Bool.false_eq_true, if_false] at count
  rcases holder with _ | pcHolder
  · exact ⟨by have := h.1; omega, same.trans h.2⟩
  · obtain ⟨holds, member, once, set⟩ := h
    obtain ⟨i, at_i⟩ := List.mem_iff_getElem?.mp member
    have other : i ≠ j := by
      rintro rfl
      rw [at_i] at at_j
      cases at_j
      rw [holds] at free
      cases free
    refine ⟨holds, ?_, by omega, same ▸ set⟩
    exact List.mem_of_getElem? (i := i) (by rw [List.getElem?_set_ne (Ne.symm other), at_i])

/-- A step of the holder to another position at which it still holds the lock. -/
theorem HolderIs.set_holder (h : s.HolderIs (some pc)) (at_j : s.threads[j]? = some pc)
    (holds' : pc'.holdsWritersLock = true) (same : l'.writersLock = s.lock.writersLock) :
    HolderIs ⟨l', s.threads.set j pc'⟩ (some pc') := by
  obtain ⟨holds, -, once, set⟩ := h
  have count := holders_set at_j l' pc'
  simp only [holds, holds', if_true] at count
  refine ⟨holds', ?_, by omega, same ▸ set⟩
  exact List.mem_of_getElem? (List.getElem?_set_self (List.getElem?_eq_some_iff.mp at_j).1)

/-- `unlock(&l->writers_lock)` at the end of `rwlock_write_unlock`. -/
theorem HolderIs.release (h : s.HolderIs (some pc)) (at_j : s.threads[j]? = some pc) :
    HolderIs ⟨{ s.lock with writersLock := s.lock.writersLock.unlock }, s.threads.set j .idle⟩ none := by
  obtain ⟨holds, -, once, -⟩ := h
  have count := holders_set at_j { s.lock with writersLock := s.lock.writersLock.unlock } .idle
  rw [holds] at count
  simp only [RwPc.holdsWritersLock, if_true, Bool.false_eq_true, if_false, holders] at count once
  exact ⟨by simp only [holders]; omega, rfl⟩

/-- `lock(&l->writers_lock)` at the start of `rwlock_write_lock`. -/
theorem HolderIs.acquire {w : LibosLock} (h : s.HolderIs none) (at_j : s.threads[j]? = some .writeLock)
    (taken : s.lock.writersLock.lock j = some w) :
    HolderIs ⟨{ s.lock with writersLock := w }, s.threads.set j .writeLockSub⟩ (some .writeLockSub) := by
  obtain ⟨nobody, -⟩ := h
  obtain ⟨-, rfl⟩ := LibosLock.lock_eq_some taken
  have count := holders_set at_j { s.lock with writersLock := ⟨false, j⟩ } .writeLockSub
  simp only [RwPc.holdsWritersLock, if_true, Bool.false_eq_true, if_false, holders] at count nobody
  refine ⟨rfl, ?_, by simp only [holders]; omega, rfl⟩
  exact List.mem_of_getElem? (List.getElem?_set_self (List.getElem?_eq_some_iff.mp at_j).1)

/-! ## The phases

Each lemma is one access of the source to the lock. The readers' accesses
keep the holder's position, and each is checked against every position the
holder may be at; the holder's own accesses move it to the next position.
Every case closes with the same normalisation, the counts after the move and
the events' flags, and then `omega`; the linter on its unused lemmas is off. -/

set_option linter.unusedSimpArgs false

section Readers

variable {holder : Option RwPc}

/-- The `__atomic_fetch_add` of `rwlock_read_lock`. -/
theorem PhaseInv.readLock (inv : s.PhaseInv holder) (fewer : (s.readers : Int) < WRITER_WEIGHT)
    (at_j : s.threads[j]? = some .idle) :
    PhaseInv ⟨(rwlockReadLock s.lock).2, s.threads.set j (rwlockReadLock s.lock).1⟩ holder := by
  rw [readers_eq] at fewer
  simp only [rwlockReadLock]
  split_ifs with negative <;>
  rcases holder with _ | ⟨_ | _ | _ | _ | _ | _ | _ | _ | _ | _ | _ | _ | _ | _ | _ | _ | _⟩ <;>
  simp only [PhaseInv, count_set at_j, Bool.toNat_true, Bool.toNat_false, reduceCtorEq, if_true, if_false, and_true, and_false, true_and, or_false] at inv ⊢ <;> omega

/-- A call of `rwlock_write_lock`, before its `lock(&l->writers_lock)`. -/
theorem PhaseInv.writeLock (inv : s.PhaseInv holder) (at_j : s.threads[j]? = some .idle) :
    PhaseInv ⟨s.lock, s.threads.set j .writeLock⟩ holder := by
  rcases holder with _ | ⟨_ | _ | _ | _ | _ | _ | _ | _ | _ | _ | _ | _ | _ | _ | _ | _ | _⟩ <;>
  simp only [PhaseInv, count_set at_j, Bool.toNat_true, Bool.toNat_false, reduceCtorEq, if_true, if_false, and_true, and_false, true_and, or_false] at inv ⊢ <;> omega

/-- The `PalEventWait(l->readers_wait)` of `rwlock_read_lock_slow_path`. -/
theorem PhaseInv.readLockWait (inv : s.PhaseInv holder) (at_j : s.threads[j]? = some .readLockWait)
    (woken : s.lock.readersWait = true) :
    PhaseInv ⟨s.lock, s.threads.set j .readLockDec⟩ holder := by
  have pos := count_pos at_j
  rcases holder with _ | ⟨_ | _ | _ | _ | _ | _ | _ | _ | _ | _ | _ | _ | _ | _ | _ | _ | _⟩ <;>
  simp only [PhaseInv, count_set at_j, woken, Bool.toNat_true, Bool.toNat_false, reduceCtorEq, if_true, if_false, and_true, and_false, true_and, or_false]
    at inv ⊢ <;> omega

/-- The `__atomic_sub_fetch` of `waiting_readers`. -/
theorem PhaseInv.readLockDec (inv : s.PhaseInv holder) (at_j : s.threads[j]? = some .readLockDec) :
    let waiting := s.lock.waitingReaders - 1
    PhaseInv ⟨{ s.lock with waitingReaders := waiting },
      s.threads.set j (if waiting = 0 then .readLockSet else .reading)⟩ holder := by
  have pos := count_pos at_j
  intro waiting
  split_ifs with last <;>
  rcases holder with _ | ⟨_ | _ | _ | _ | _ | _ | _ | _ | _ | _ | _ | _ | _ | _ | _ | _ | _⟩ <;>
  simp only [PhaseInv, count_set at_j, Bool.toNat_true, Bool.toNat_false, reduceCtorEq, if_true, if_false, and_true, and_false, true_and, or_false] at inv ⊢ <;> omega

/-- The `PalEventSet(l->writer_wait)` of `rwlock_read_lock_slow_path`. -/
theorem PhaseInv.readLockSet (inv : s.PhaseInv holder) (at_j : s.threads[j]? = some .readLockSet) :
    PhaseInv ⟨{ s.lock with writerWait := true }, s.threads.set j .reading⟩ holder := by
  have pos := count_pos at_j
  rcases holder with _ | ⟨_ | _ | _ | _ | _ | _ | _ | _ | _ | _ | _ | _ | _ | _ | _ | _ | _⟩ <;>
  simp only [PhaseInv, count_set at_j, Bool.toNat_true, Bool.toNat_false, reduceCtorEq, if_true, if_false, and_true, and_false, true_and, or_false]
    at inv ⊢ <;> omega

/-- The `__atomic_sub_fetch` of `state` in `rwlock_read_unlock`. -/
theorem PhaseInv.reading (inv : s.PhaseInv holder) (fewer : (s.readers : Int) < WRITER_WEIGHT)
    (at_j : s.threads[j]? = some .reading) :
    let state := s.lock.state - 1
    PhaseInv ⟨{ s.lock with state := state },
      s.threads.set j (if state < 0 then .readUnlockDec else .idle)⟩ holder := by
  have pos := count_pos at_j
  rw [readers_eq] at fewer
  intro state
  split_ifs with negative <;>
  rcases holder with _ | ⟨_ | _ | _ | _ | _ | _ | _ | _ | _ | _ | _ | _ | _ | _ | _ | _ | _⟩ <;>
  simp only [PhaseInv, count_set at_j, Bool.toNat_true, Bool.toNat_false, reduceCtorEq, if_true, if_false, and_true, and_false, true_and, or_false] at inv ⊢ <;> omega

/-- The `__atomic_sub_fetch` of `departing_readers`. -/
theorem PhaseInv.readUnlockDec (inv : s.PhaseInv holder) (at_j : s.threads[j]? = some .readUnlockDec) :
    let departing := s.lock.departingReaders - 1
    PhaseInv ⟨{ s.lock with departingReaders := departing },
      s.threads.set j (if departing = 0 then .readUnlockSet else .idle)⟩ holder := by
  have pos := count_pos at_j
  intro departing
  split_ifs with last <;>
  rcases holder with _ | ⟨_ | _ | _ | _ | _ | _ | _ | _ | _ | _ | _ | _ | _ | _ | _ | _ | _⟩ <;>
  simp only [PhaseInv, count_set at_j, Bool.toNat_true, Bool.toNat_false, reduceCtorEq, if_true, if_false, and_true, and_false, true_and, or_false] at inv ⊢ <;> omega

/-- The `PalEventSet(l->writer_wait)` of `rwlock_read_unlock_slow_path`. -/
theorem PhaseInv.readUnlockSet (inv : s.PhaseInv holder) (at_j : s.threads[j]? = some .readUnlockSet) :
    PhaseInv ⟨{ s.lock with writerWait := true }, s.threads.set j .idle⟩ holder := by
  have pos := count_pos at_j
  rcases holder with _ | ⟨_ | _ | _ | _ | _ | _ | _ | _ | _ | _ | _ | _ | _ | _ | _ | _ | _⟩ <;>
  simp only [PhaseInv, count_set at_j, Bool.toNat_true, Bool.toNat_false, reduceCtorEq, if_true, if_false, and_true, and_false, true_and, or_false]
    at inv ⊢ <;> omega

end Readers

section Writer

/-- `lock(&l->writers_lock)`. -/
theorem PhaseInv.acquire (inv : s.PhaseInv none) (at_j : s.threads[j]? = some .writeLock) (w : LibosLock) :
    PhaseInv ⟨{ s.lock with writersLock := w }, s.threads.set j .writeLockSub⟩ (some .writeLockSub) := by
  simp only [PhaseInv, count_set at_j, Bool.toNat_true, Bool.toNat_false, reduceCtorEq, if_true, if_false, and_true, and_false, true_and, or_false] at inv ⊢
  omega

/-- The `__atomic_fetch_sub` of `state` in `rwlock_write_lock`. -/
theorem PhaseInv.writeLockSub (inv : s.PhaseInv (some .writeLockSub))
    (at_j : s.threads[j]? = some .writeLockSub) :
    let next := if 0 < s.lock.state then .writeLockAdd s.lock.state else .writing
    PhaseInv ⟨{ s.lock with state := s.lock.state - WRITER_WEIGHT }, s.threads.set j next⟩ (some next) := by
  dsimp only
  split_ifs with readers <;>
  simp only [PhaseInv, count_set at_j, Bool.toNat_true, Bool.toNat_false, reduceCtorEq, if_true, if_false, and_true, and_false, true_and, or_false] at inv ⊢ <;> omega

/-- The `__atomic_add_fetch` of `departing_readers`. -/
theorem PhaseInv.writeLockAdd {old : Int} (inv : s.PhaseInv (some (.writeLockAdd old)))
    (at_j : s.threads[j]? = some (.writeLockAdd old)) :
    let departing := s.lock.departingReaders + old
    let next := if departing ≠ 0 then .writeLockWait else .writing
    PhaseInv ⟨{ s.lock with departingReaders := departing }, s.threads.set j next⟩ (some next) := by
  dsimp only
  split_ifs with waits <;>
  simp only [PhaseInv, count_set at_j, Bool.toNat_true, Bool.toNat_false, reduceCtorEq, if_true, if_false, and_true, and_false, true_and, or_false] at inv ⊢ <;> omega

/-- The `PalEventWait(l->writer_wait)` of `rwlock_write_lock`. -/
theorem PhaseInv.writeLockWait (inv : s.PhaseInv (some .writeLockWait))
    (at_j : s.threads[j]? = some .writeLockWait) (woken : s.lock.writerWait = true) :
    PhaseInv ⟨{ s.lock with writerWait := false }, s.threads.set j .writing⟩ (some .writing) := by
  simp only [PhaseInv, count_set at_j, woken, Bool.toNat_true, Bool.toNat_false, reduceCtorEq, if_true, if_false, and_true, and_false, true_and, or_false] at inv ⊢
  omega

/-- The `__atomic_add_fetch` of `state` in `rwlock_write_unlock`. -/
theorem PhaseInv.writing (inv : s.PhaseInv (some .writing)) (at_j : s.threads[j]? = some .writing) :
    let state := s.lock.state + WRITER_WEIGHT
    let next := if state ≠ 0 then .writeUnlockStore state else .writeUnlockRelease
    PhaseInv ⟨{ s.lock with state := state }, s.threads.set j next⟩ (some next) := by
  dsimp only
  split_ifs with readers <;>
  simp only [PhaseInv, count_set at_j, Bool.toNat_true, Bool.toNat_false, reduceCtorEq, if_true, if_false, and_true, and_false, true_and, or_false] at inv ⊢ <;> omega

/-- The `__atomic_store_n` of `waiting_readers`. -/
theorem PhaseInv.writeUnlockStore {state : Int} (inv : s.PhaseInv (some (.writeUnlockStore state)))
    (at_j : s.threads[j]? = some (.writeUnlockStore state)) :
    PhaseInv ⟨{ s.lock with waitingReaders := state }, s.threads.set j .writeUnlockSet⟩
      (some .writeUnlockSet) := by
  simp only [PhaseInv, count_set at_j, Bool.toNat_true, Bool.toNat_false, reduceCtorEq, if_true, if_false, and_true, and_false, true_and, or_false] at inv ⊢
  omega

/-- The `PalEventSet(l->readers_wait)`. -/
theorem PhaseInv.writeUnlockSet (inv : s.PhaseInv (some .writeUnlockSet))
    (at_j : s.threads[j]? = some .writeUnlockSet) :
    PhaseInv ⟨{ s.lock with readersWait := true }, s.threads.set j .writeUnlockWait⟩
      (some .writeUnlockWait) := by
  simp only [PhaseInv, count_set at_j, Bool.toNat_true, Bool.toNat_false, reduceCtorEq, if_true, if_false, and_true, and_false, true_and, or_false] at inv ⊢
  omega

/-- The `PalEventWait(l->writer_wait)` of `rwlock_write_unlock`. -/
theorem PhaseInv.writeUnlockWait (inv : s.PhaseInv (some .writeUnlockWait))
    (at_j : s.threads[j]? = some .writeUnlockWait) (woken : s.lock.writerWait = true) :
    PhaseInv ⟨{ s.lock with writerWait := false }, s.threads.set j .writeUnlockClear⟩
      (some .writeUnlockClear) := by
  simp only [PhaseInv, count_set at_j, woken, Bool.toNat_true, Bool.toNat_false, reduceCtorEq, if_true, if_false, and_true, and_false, true_and, or_false] at inv ⊢
  omega

/-- The `PalEventClear(l->readers_wait)`. -/
theorem PhaseInv.writeUnlockClear (inv : s.PhaseInv (some .writeUnlockClear))
    (at_j : s.threads[j]? = some .writeUnlockClear) :
    PhaseInv ⟨{ s.lock with readersWait := false }, s.threads.set j .writeUnlockRelease⟩
      (some .writeUnlockRelease) := by
  simp only [PhaseInv, count_set at_j, Bool.toNat_true, Bool.toNat_false, reduceCtorEq, if_true, if_false, and_true, and_false, true_and, or_false] at inv ⊢
  omega

/-- `unlock(&l->writers_lock)`. -/
theorem PhaseInv.release (inv : s.PhaseInv (some .writeUnlockRelease))
    (at_j : s.threads[j]? = some .writeUnlockRelease) (w : LibosLock) :
    PhaseInv ⟨{ s.lock with writersLock := w }, s.threads.set j .idle⟩ none := by
  simp only [PhaseInv, count_set at_j, Bool.toNat_true, Bool.toNat_false, reduceCtorEq, if_true, if_false, and_true, and_false, true_and, or_false] at inv ⊢
  omega

end Writer

/-! ## Every step keeps the invariant -/

theorem created_rwInv (n : Nat) : (created n).RwInv := by
  have none_at (q : RwPc) (moving : q ≠ .idle) : (RwlockSystem.created n).count q = 0 :=
    List.count_eq_zero.mpr fun member => moving (List.eq_of_mem_replicate member)
  refine ⟨none, ⟨List.countP_eq_zero.mpr fun pc member => ?_, rfl⟩, ?_⟩
  · rw [List.eq_of_mem_replicate member]
    decide
  · simp only [PhaseInv, none_at _ (by decide : RwPc.reading ≠ .idle),
      none_at _ (by decide : RwPc.readLockWait ≠ .idle), none_at _ (by decide : RwPc.readLockDec ≠ .idle),
      none_at _ (by decide : RwPc.readLockSet ≠ .idle), none_at _ (by decide : RwPc.readUnlockDec ≠ .idle),
      none_at _ (by decide : RwPc.readUnlockSet ≠ .idle)]
    simp [RwlockSystem.created, rwlockCreate]

/-- A step of one thread keeps the invariant: the readers' steps keep the
holder, the holder's move it on, and `lock(&l->writers_lock)` succeeds only
while nobody holds the lock. -/
theorem RwInv.run {holder : Option RwPc} (holderIs : s.HolderIs holder) (phase : s.PhaseInv holder)
    (fewer : (s.readers : Int) < WRITER_WEIGHT) (at_j : s.threads[j]? = some pc)
    (step : pc.step j s.lock = some (pc', l')) : RwInv ⟨l', s.threads.set j pc'⟩ := by
  cases pc with
  | idle => cases step
  | readLockWait =>
    simp only [RwPc.step, Option.ite_none_right_eq_some, Option.some.injEq, Prod.mk.injEq] at step
    obtain ⟨woken, rfl, rfl⟩ := step
    exact ⟨holder, holderIs.set_other at_j rfl rfl rfl, phase.readLockWait at_j woken⟩
  | readLockDec =>
    simp only [RwPc.step, Option.some.injEq, Prod.mk.injEq] at step
    obtain ⟨rfl, rfl⟩ := step
    exact ⟨holder, holderIs.set_other at_j rfl (by split <;> rfl) rfl, phase.readLockDec at_j⟩
  | readLockSet =>
    simp only [RwPc.step, Option.some.injEq, Prod.mk.injEq] at step
    obtain ⟨rfl, rfl⟩ := step
    exact ⟨holder, holderIs.set_other at_j rfl rfl rfl, phase.readLockSet at_j⟩
  | reading =>
    simp only [RwPc.step, Option.some.injEq, Prod.mk.injEq] at step
    obtain ⟨rfl, rfl⟩ := step
    exact ⟨holder, holderIs.set_other at_j rfl (by split <;> rfl) rfl, phase.reading fewer at_j⟩
  | readUnlockDec =>
    simp only [RwPc.step, Option.some.injEq, Prod.mk.injEq] at step
    obtain ⟨rfl, rfl⟩ := step
    exact ⟨holder, holderIs.set_other at_j rfl (by split <;> rfl) rfl, phase.readUnlockDec at_j⟩
  | readUnlockSet =>
    simp only [RwPc.step, Option.some.injEq, Prod.mk.injEq] at step
    obtain ⟨rfl, rfl⟩ := step
    exact ⟨holder, holderIs.set_other at_j rfl rfl rfl, phase.readUnlockSet at_j⟩
  | writeLock =>
    simp only [RwPc.step, Option.map_eq_some_iff, Prod.mk.injEq] at step
    obtain ⟨w, taken, rfl, rfl⟩ := step
    have nobody : holder = none := by
      have free := (LibosLock.lock_eq_some taken).1
      rcases holder with _ | pcHolder
      · rfl
      · rw [holderIs.2.2.2] at free
        cases free
    subst nobody
    exact ⟨_, holderIs.acquire at_j taken, phase.acquire at_j w⟩
  | writeLockSub =>
    obtain rfl := holderIs.eq at_j rfl
    simp only [RwPc.step, Option.some.injEq, Prod.mk.injEq] at step
    obtain ⟨rfl, rfl⟩ := step
    exact ⟨_, holderIs.set_holder at_j (by split <;> rfl) rfl, phase.writeLockSub at_j⟩
  | writeLockAdd old =>
    obtain rfl := holderIs.eq at_j rfl
    simp only [RwPc.step, Option.some.injEq, Prod.mk.injEq] at step
    obtain ⟨rfl, rfl⟩ := step
    exact ⟨_, holderIs.set_holder at_j (by split <;> rfl) rfl, phase.writeLockAdd at_j⟩
  | writeLockWait =>
    obtain rfl := holderIs.eq at_j rfl
    simp only [RwPc.step, Option.ite_none_right_eq_some, Option.some.injEq, Prod.mk.injEq] at step
    obtain ⟨woken, rfl, rfl⟩ := step
    exact ⟨_, holderIs.set_holder at_j rfl rfl, phase.writeLockWait at_j woken⟩
  | writing =>
    obtain rfl := holderIs.eq at_j rfl
    simp only [RwPc.step, Option.some.injEq, Prod.mk.injEq] at step
    obtain ⟨rfl, rfl⟩ := step
    exact ⟨_, holderIs.set_holder at_j (by split <;> rfl) rfl, phase.writing at_j⟩
  | writeUnlockStore state =>
    obtain rfl := holderIs.eq at_j rfl
    simp only [RwPc.step, Option.some.injEq, Prod.mk.injEq] at step
    obtain ⟨rfl, rfl⟩ := step
    exact ⟨_, holderIs.set_holder at_j rfl rfl, phase.writeUnlockStore at_j⟩
  | writeUnlockSet =>
    obtain rfl := holderIs.eq at_j rfl
    simp only [RwPc.step, Option.some.injEq, Prod.mk.injEq] at step
    obtain ⟨rfl, rfl⟩ := step
    exact ⟨_, holderIs.set_holder at_j rfl rfl, phase.writeUnlockSet at_j⟩
  | writeUnlockWait =>
    obtain rfl := holderIs.eq at_j rfl
    simp only [RwPc.step, Option.ite_none_right_eq_some, Option.some.injEq, Prod.mk.injEq] at step
    obtain ⟨woken, rfl, rfl⟩ := step
    exact ⟨_, holderIs.set_holder at_j rfl rfl, phase.writeUnlockWait at_j woken⟩
  | writeUnlockClear =>
    obtain rfl := holderIs.eq at_j rfl
    simp only [RwPc.step, Option.some.injEq, Prod.mk.injEq] at step
    obtain ⟨rfl, rfl⟩ := step
    exact ⟨_, holderIs.set_holder at_j rfl rfl, phase.writeUnlockClear at_j⟩
  | writeUnlockRelease =>
    obtain rfl := holderIs.eq at_j rfl
    simp only [RwPc.step, Option.some.injEq, Prod.mk.injEq] at step
    obtain ⟨rfl, rfl⟩ := step
    exact ⟨none, holderIs.release at_j, phase.release at_j _⟩

theorem RwInv.step {s s' : RwlockSystem} {op : RwOp} (inv : s.RwInv)
    (fewer : (s.readers : Int) < WRITER_WEIGHT) (step : rwStep op s = some s') : s'.RwInv := by
  obtain ⟨holder, holderIs, phase⟩ := inv
  cases op with
  | readLock j =>
    simp only [rwStep, Option.ite_none_right_eq_some, Option.some.injEq] at step
    obtain ⟨at_j, rfl⟩ := step
    have starts : (rwlockReadLock s.lock).1.holdsWritersLock = false := by
      simp only [rwlockReadLock]
      split <;> rfl
    exact ⟨holder, holderIs.set_other at_j rfl starts rfl, phase.readLock fewer at_j⟩
  | writeLock j =>
    simp only [rwStep, Option.ite_none_right_eq_some, Option.some.injEq] at step
    obtain ⟨at_j, rfl⟩ := step
    exact ⟨holder, holderIs.set_other at_j rfl rfl rfl, phase.writeLock at_j⟩
  | run j =>
    simp only [rwStep] at step
    split at step
    · rename_i pc at_j
      obtain ⟨⟨pc', l'⟩, stepped, rfl⟩ := Option.map_eq_some_iff.mp step
      exact RwInv.run holderIs phase fewer at_j stepped
    · cases step

end RwlockSystem

/-- Every reachable state has fewer than `WRITER_WEIGHT` readers. -/
theorem RwReach.readers_lt {s : RwlockSystem} : RwReach s → (s.readers : Int) < WRITER_WEIGHT
  | .created n => by
    have : (RwlockSystem.created n).readers = 0 :=
      List.countP_eq_zero.mpr fun pc member => by rw [List.eq_of_mem_replicate member]; decide
    rw [this]
    decide
  | .step _ _ _ fewer => fewer

theorem RwReach.rwInv {s : RwlockSystem} : RwReach s → s.RwInv
  | .created n => RwlockSystem.created_rwInv n
  | .step _ reach stepped _ => reach.rwInv.step reach.readers_lt stepped

/-- A thread between `rwlock_write_lock` and `rwlock_write_unlock` is alone:
every other thread is outside any call, waiting for `writers_lock`, or waiting
for `readers_wait`. -/
theorem RwReach.writing_alone {s : RwlockSystem} (reach : RwReach s) {i j : Nat} {pc : RwPc}
    (at_i : s.threads[i]? = some .writing) (at_j : s.threads[j]? = some pc) (other : i ≠ j) :
    pc = .idle ∨ pc = .writeLock ∨ pc = .readLockWait := by
  obtain ⟨holder, holderIs, phase⟩ := reach.rwInv
  obtain rfl := holderIs.eq at_i rfl
  have pos := RwlockSystem.count_pos at_j
  have once : s.threads.countP RwPc.holdsWritersLock ≤ 1 := Nat.le_of_eq holderIs.2.2.1
  have alone (holds : pc.holdsWritersLock = true) : False :=
    other (List.eq_of_countP_le_one once at_i at_j rfl holds)
  simp only [RwlockSystem.PhaseInv] at phase
  cases pc with
  | idle => exact .inl rfl
  | writeLock => exact .inr (.inl rfl)
  | readLockWait => exact .inr (.inr rfl)
  | readLockDec | readLockSet | reading | readUnlockDec | readUnlockSet => omega
  | writeLockSub | writeLockAdd _ | writeLockWait | writing | writeUnlockStore _ | writeUnlockSet
  | writeUnlockWait | writeUnlockClear | writeUnlockRelease => exact (alone rfl).elim

/-- With every thread outside any call, the lock is as `rwlock_create` made it. -/
theorem RwReach.lock_of_idle {s : RwlockSystem} (reach : RwReach s) (idle : ∀ pc ∈ s.threads, pc = .idle) :
    s.lock = rwlockCreate := by
  obtain ⟨holder, holderIs, phase⟩ := reach.rwInv
  have nobody : holder = none := by
    rcases holder with _ | pc
    · rfl
    · obtain ⟨holds, member, -⟩ := holderIs
      rw [idle pc member] at holds
      cases holds
  subst nobody
  have readers : s.count .reading = 0 :=
    List.count_eq_zero.mpr fun member => by cases idle _ member
  obtain ⟨-, writersLock⟩ := holderIs
  simp only [RwlockSystem.PhaseInv, readers, Bool.toNat_eq_zero] at phase
  obtain ⟨state, -, -, -, -, -, departing, waiting, writerWait, readersWait⟩ := phase
  obtain ⟨⟨_, _, _, _, _, _⟩, _⟩ := s
  simp_all [rwlockCreate]

end Gramine.LibOS
