import Mathlib
import Gramine.LibOS.RwlockInvariant
/-!
# Nothing waits on a `libos_rwlock` for ever

A thread waits at four places: for `readers_wait` in
`rwlock_read_lock_slow_path`, for `writers_lock`, and for `writer_wait` in
`rwlock_write_lock` and `rwlock_write_unlock`. In every reachable state in
which some thread is inside a call or holds the lock, some thread can move:
while nobody holds `writers_lock` nobody waits for `readers_wait` and the lock
is free, and the holder of `writers_lock` waits only for readers that can
still move or for a `writer_wait` that is set. Every step moves its thread
forward, so the calls in progress all return, and the holders all unlock,
when no thread starts a new call.
-/

namespace Gramine.LibOS

/-- The positions from which a thread moves whatever the lock: all but being
outside any call and the four waits. -/
def RwPc.alwaysMoves : RwPc → Bool
  | .idle | .readLockWait | .writeLock | .writeLockWait | .writeUnlockWait => false
  | _ => true

attribute [grind] RwPc.alwaysMoves

theorem RwPc.step_isSome {pc : RwPc} (moves : pc.alwaysMoves = true) (tid : Nat) (l : LibosRwlock) :
    (pc.step tid l).isSome := by
  cases pc <;> simp_all [RwPc.alwaysMoves, RwPc.step]

/-- How many more accesses to the lock a thread at `pc` makes, at most, before
it is outside any call. -/
def RwPc.pending : RwPc → Nat
  | .idle => 0
  | .readLockWait => 6
  | .readLockDec => 5
  | .readLockSet => 4
  | .reading => 3
  | .readUnlockDec => 2
  | .readUnlockSet => 1
  | .writeLock => 10
  | .writeLockSub => 9
  | .writeLockAdd _ => 8
  | .writeLockWait => 7
  | .writing => 6
  | .writeUnlockStore _ => 5
  | .writeUnlockSet => 4
  | .writeUnlockWait => 3
  | .writeUnlockClear => 2
  | .writeUnlockRelease => 1

/-- Every step moves its thread forward. -/
theorem RwPc.pending_lt {pc pc' : RwPc} {tid : Nat} {l l' : LibosRwlock}
    (step : pc.step tid l = some (pc', l')) : pc'.pending < pc.pending := by
  cases pc <;> simp only [RwPc.step, Option.ite_none_right_eq_some, Option.some.injEq, Prod.mk.injEq,
    Option.map_eq_some_iff, reduceCtorEq] at step <;> grind [RwPc.pending]

/-- No step makes a thread count in `state` that did not: only
`rwlock_read_lock` does. -/
theorem RwPc.countsInState_of_step {pc pc' : RwPc} {tid : Nat} {l l' : LibosRwlock}
    (step : pc.step tid l = some (pc', l')) (counts : pc'.countsInState = true) :
    pc.countsInState = true := by
  cases pc <;> simp only [RwPc.step, Option.ite_none_right_eq_some, Option.some.injEq, Prod.mk.injEq,
    Option.map_eq_some_iff, reduceCtorEq] at step <;> grind [RwPc.countsInState]

namespace RwlockSystem

variable {s s' : RwlockSystem} {j : Nat}

/-- How many more accesses to the lock the threads make, at most, before every
one of them is outside any call. -/
def pending (s : RwlockSystem) : Nat := (s.threads.map RwPc.pending).sum

theorem run_inv {s s' : RwlockSystem} (step : rwStep (.run j) s = some s') :
    ∃ pc pc' l', s.threads[j]? = some pc ∧ pc.step j s.lock = some (pc', l') ∧
      s' = ⟨l', s.threads.set j pc'⟩ := by
  simp only [rwStep] at step
  split at step
  · rename_i pc at_j
    obtain ⟨⟨pc', l'⟩, stepped, rfl⟩ := Option.map_eq_some_iff.mp step
    exact ⟨pc, pc', l', at_j, stepped, rfl⟩
  · cases step

theorem pending_run_lt (step : rwStep (.run j) s = some s') : s'.pending < s.pending := by
  obtain ⟨pc, pc', l', at_j, stepped, rfl⟩ := run_inv step
  have sum := List.sum_map_set_add RwPc.pending at_j pc'
  have forward := RwPc.pending_lt stepped
  simp only [pending]
  omega

theorem readers_run_le (step : rwStep (.run j) s = some s') : s'.readers ≤ s.readers := by
  obtain ⟨pc, pc', l', at_j, stepped, rfl⟩ := run_inv step
  have count := List.countP_set_add RwPc.countsInState at_j pc'
  have monotone := RwPc.countsInState_of_step stepped
  simp only [readers]
  cases counts : pc'.countsInState
  · simp only [counts, Bool.false_eq_true, if_false] at count
    omega
  · simp only [counts, monotone counts, if_true] at count
    omega

/-- A thread at `q` moves when there is one and `q` is enabled. -/
theorem run_of_count_pos {q : RwPc} (pos : 0 < s.count q) (enabled : ∀ tid, (q.step tid s.lock).isSome) :
    ∃ j s', rwStep (.run j) s = some s' := by
  obtain ⟨j, at_j⟩ := List.mem_iff_getElem?.mp (List.count_pos_iff.mp pos)
  obtain ⟨next, stepped⟩ := Option.isSome_iff_exists.mp (enabled j)
  exact ⟨j, ⟨next.2, s.threads.set j next.1⟩, by simp only [rwStep, at_j, stepped, Option.map_some]⟩

/-- While a thread holds `writers_lock`, some thread can move: the holder, or
when it waits for `writer_wait`, one of the readers it waits for. -/
theorem run_of_holder {pc : RwPc} (holderIs : s.HolderIs (some pc)) (phase : s.PhaseInv (some pc)) :
    ∃ j s', rwStep (.run j) s = some s' := by
  have moves (q : RwPc) (pos : 0 < s.count q) (always : q.alwaysMoves = true) :=
    run_of_count_pos pos fun tid => RwPc.step_isSome always tid s.lock
  have here : 0 < s.count pc := List.count_pos_iff.mpr holderIs.2.1
  cases pc with
  | writeLockWait =>
    cases set : s.lock.writerWait
    · -- the readers it waits for have not all left, or the last has yet to set the event
      simp only [PhaseInv, set, Bool.toNat_false] at phase
      by_cases r : 0 < s.count .reading
      · exact moves _ r rfl
      by_cases d : 0 < s.count .readUnlockDec
      · exact moves _ d rfl
      exact moves .readUnlockSet (by omega) rfl
    · exact run_of_count_pos here fun tid => by simp [RwPc.step, set]
  | writeUnlockWait =>
    cases set : s.lock.writerWait
    · -- the readers it woke have not all gone past their wait, or the last has yet to set the event
      simp only [PhaseInv, set, Bool.toNat_false] at phase
      by_cases d : 0 < s.count .readLockDec
      · exact moves _ d rfl
      by_cases w : 0 < s.count .readLockWait
      · refine run_of_count_pos w fun tid => ?_
        have woken : s.lock.readersWait = true := by
          cases h : s.lock.readersWait
          · simp [h] at phase
          · rfl
        simp [RwPc.step, woken]
      exact moves .readLockSet (by omega) rfl
    · exact run_of_count_pos here fun tid => by simp [RwPc.step, set]
  | writeLockSub | writeLockAdd _ | writing | writeUnlockStore _ | writeUnlockSet | writeUnlockClear
  | writeUnlockRelease => exact moves _ here rfl
  | idle | readLockWait | readLockDec | readLockSet | reading | readUnlockDec | readUnlockSet
  | writeLock => cases holderIs.1

end RwlockSystem

open RwlockSystem in
/-- No deadlock: whenever a thread is inside a call or holds the lock, some
thread can take its next step. -/
theorem RwReach.progress {s : RwlockSystem} (reach : RwReach s) (busy : ∃ pc ∈ s.threads, pc ≠ .idle) :
    ∃ j s', rwStep (.run j) s = some s' := by
  obtain ⟨holder, holderIs, phase⟩ := reach.rwInv
  rcases holder with _ | pcHolder
  · -- nobody holds `writers_lock`: nobody waits for an event and the lock is free
    obtain ⟨pc, member, busy⟩ := busy
    have pos : 0 < s.count pc := List.count_pos_iff.mpr member
    have held : pc.holdsWritersLock = true → False := fun holds => by
      have : 0 < s.holders := List.countP_pos_iff.mpr ⟨pc, member, holds⟩
      rw [holderIs.1] at this
      cases this
    cases pc with
    | idle => exact absurd rfl busy
    | readLockWait =>
      simp only [PhaseInv] at phase
      omega
    | writeLock => exact run_of_count_pos pos fun tid => by simp [RwPc.step, LibosLock.lock, holderIs.2]
    | writeLockWait | writeUnlockWait => exact (held rfl).elim
    | readLockDec | readLockSet | reading | readUnlockDec | readUnlockSet | writeLockSub | writeLockAdd _
    | writing | writeUnlockStore _ | writeUnlockSet | writeUnlockClear | writeUnlockRelease =>
      exact run_of_count_pos pos fun tid => RwPc.step_isSome rfl tid s.lock
  · exact run_of_holder holderIs phase

/-- The calls in progress all return, and the holders all unlock, when no
thread starts a new call. -/
theorem RwReach.drain {s : RwlockSystem} (reach : RwReach s) :
    ∃ ops s', (∀ op ∈ ops, ∃ j, op = .run j) ∧ rwSteps ops s = some s' ∧ ∀ pc ∈ s'.threads, pc = .idle := by
  induction h : s.pending using Nat.strong_induction_on generalizing s with
  | _ n ih =>
    by_cases busy : ∃ pc ∈ s.threads, pc ≠ .idle
    · obtain ⟨j, s', stepped⟩ := reach.progress busy
      have fewer : (s'.readers : Int) < WRITER_WEIGHT := by
        have := RwlockSystem.readers_run_le stepped
        have := reach.readers_lt
        omega
      obtain ⟨ops, s'', runs, steps, idle⟩ :=
        ih _ (h ▸ RwlockSystem.pending_run_lt stepped) (.step _ reach stepped fewer) rfl
      refine ⟨.run j :: ops, s'', ?_, by simp only [rwSteps, stepped, Option.bind_some, steps], idle⟩
      rintro op (_ | ⟨_, later⟩)
      · exact ⟨j, rfl⟩
      · exact runs op later
    · refine ⟨[], s, by simp, rfl, fun pc member => ?_⟩
      by_contra moving
      exact busy ⟨pc, member, moving⟩

end Gramine.LibOS
