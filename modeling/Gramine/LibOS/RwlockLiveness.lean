import Gramine.LibOS.RwlockProgress
import Gramine.Library.Fairness
/-!
# Every call on a `libos_rwlock` returns

An infinite run of the threads is fair when every thread inside a call or
holding the lock keeps being scheduled: its next access is taken if it stays
possible. For a holder that access is the start of its unlock, so a fair run is
one in which every holder eventually unlocks. In such a run every
`rwlock_read_lock`, every unlock and every `rwlock_write_lock` that has taken
`writers_lock` returns. A writer waiting for `writers_lock` gets it when it is
scheduled each time the lock is free again and again: the lock is an
auto-clear event, which hands itself to no waiter in particular.

The waits are where the argument is. A writer waiting for its departing
readers, or for the readers it woke, waits for a finite amount of their work
that no step increases and that each of their steps lowers. A reader waiting
for `readers_wait` waits for the holder of `writers_lock`, which reaches its
`PalEventSet(l->readers_wait)`, and the event stays set until that reader has
gone past it.
-/

namespace Gramine.LibOS

/-- Where a thread at `pc` can go next: the control flow of the calls. -/
def RwPc.Next : RwPc → RwPc → Prop
  | .idle, _ => False
  | .readLockWait, q => q = .readLockDec
  | .readLockDec, q => q = .readLockSet ∨ q = .reading
  | .readLockSet, q => q = .reading
  | .reading, q => q = .readUnlockDec ∨ q = .idle
  | .readUnlockDec, q => q = .readUnlockSet ∨ q = .idle
  | .readUnlockSet, q => q = .idle
  | .writeLock, q => q = .writeLockSub
  | .writeLockSub, q => (∃ state, q = .writeLockAdd state) ∨ q = .writing
  | .writeLockAdd _, q => q = .writeLockWait ∨ q = .writing
  | .writeLockWait, q => q = .writing
  | .writing, q => (∃ state, q = .writeUnlockStore state) ∨ q = .writeUnlockRelease
  | .writeUnlockStore _, q => q = .writeUnlockSet
  | .writeUnlockSet, q => q = .writeUnlockWait
  | .writeUnlockWait, q => q = .writeUnlockClear
  | .writeUnlockClear, q => q = .writeUnlockRelease
  | .writeUnlockRelease, q => q = .idle

attribute [grind] RwPc.Next

theorem RwPc.ne_idle {pc : RwPc} (moves : pc.alwaysMoves = true) : pc ≠ .idle := by
  rintro rfl
  cases moves

theorem RwPc.step_next {pc pc' : RwPc} {tid : Nat} {l l' : LibosRwlock}
    (step : pc.step tid l = some (pc', l')) : pc.Next pc' := by
  cases pc <;> simp only [RwPc.step, Option.ite_none_right_eq_some, Option.some.injEq, Prod.mk.injEq,
    Option.map_eq_some_iff, reduceCtorEq] at step <;> grind [RwPc.Next]

/-- A step sets `writer_wait` or leaves it, except the two waits for it, which
clear it. -/
theorem RwPc.step_writerWait {pc pc' : RwPc} {tid : Nat} {l l' : LibosRwlock}
    (step : pc.step tid l = some (pc', l')) :
    l'.writerWait = l.writerWait ∨ l'.writerWait = true ∨ pc = .writeLockWait ∨ pc = .writeUnlockWait := by
  cases pc <;> simp only [RwPc.step, Option.ite_none_right_eq_some, Option.some.injEq, Prod.mk.injEq,
    Option.map_eq_some_iff, reduceCtorEq] at step <;> grind

/-- Only `rwlock_write_unlock` sets or clears `readers_wait`. -/
theorem RwPc.step_readersWait {pc pc' : RwPc} {tid : Nat} {l l' : LibosRwlock}
    (step : pc.step tid l = some (pc', l')) :
    l'.readersWait = l.readersWait ∨ pc = .writeUnlockSet ∨ pc = .writeUnlockClear := by
  cases pc <;> simp only [RwPc.step, Option.ite_none_right_eq_some, Option.some.injEq, Prod.mk.injEq,
    Option.map_eq_some_iff, reduceCtorEq] at step <;> grind

/-- The work a writer waiting for its departing readers waits for: a reader
holding the lock has three accesses left before it has set `writer_wait`, if
it is the last. -/
def departWeight : RwPc → Nat
  | .reading => 3
  | .readUnlockDec => 2
  | .readUnlockSet => 1
  | _ => 0

/-- The work a writer waiting for the readers it woke waits for. -/
def wakeWeight : RwPc → Nat
  | .readLockWait => 3
  | .readLockDec => 2
  | .readLockSet => 1
  | _ => 0

attribute [grind] departWeight wakeWeight

/-- Along the control flow the departing readers' work only falls, once
no reader is past `readers_wait`. -/
theorem departWeight_next {p p' : RwPc} (next : p.Next p') (notDec : p ≠ .readLockDec)
    (notSet : p ≠ .readLockSet) :
    departWeight p' ≤ departWeight p ∧ (0 < departWeight p → departWeight p' < departWeight p) := by
  cases p <;> simp only [RwPc.Next] at next <;> grind [departWeight]

/-- Along the control flow the woken readers' work only falls. -/
theorem wakeWeight_next {p p' : RwPc} (next : p.Next p') :
    wakeWeight p' ≤ wakeWeight p ∧ (0 < wakeWeight p → wakeWeight p' < wakeWeight p) := by
  cases p <;> simp only [RwPc.Next] at next <;> grind [wakeWeight]

/-- The holder of `writers_lock`, before its `unlock`, moves on to a position
at which it still holds it. -/
theorem RwPc.next_holds {p p' : RwPc} (holds : p.holdsWritersLock = true)
    (notRelease : p ≠ .writeUnlockRelease) (next : p.Next p') :
    p'.holdsWritersLock = true ∧ p'.pending < p.pending := by
  cases p <;> simp only [RwPc.Next] at next <;> grind [RwPc.holdsWritersLock, RwPc.pending]

/-- Where the call a thread at `pc` is in returns: a lock call at the lock
held, an unlock call outside any call; `none` outside any call. -/
def RwPc.returnsAt : RwPc → Option RwPc
  | .idle | .reading | .writing => none
  | .readLockWait | .readLockDec | .readLockSet => some .reading
  | .readUnlockDec | .readUnlockSet => some .idle
  | .writeLock | .writeLockSub | .writeLockAdd _ | .writeLockWait => some .writing
  | .writeUnlockStore _ | .writeUnlockSet | .writeUnlockWait | .writeUnlockClear | .writeUnlockRelease => some .idle

/-- Inside a call a thread goes on in the call or returns, and never goes back
to the wait for `writers_lock`. -/
theorem RwPc.returnsAt_next {p p' t : RwPc} (returns : p.returnsAt = some t) (next : p.Next p') :
    p'.returnsAt = some t ∧ p' ≠ .writeLock ∨ p' = t := by
  cases p <;> simp only [RwPc.Next] at next <;> simp only [RwPc.returnsAt, reduceCtorEq, Option.some.injEq] at returns <;>
    grind [RwPc.returnsAt]

namespace RwlockSystem

variable {s s' : RwlockSystem} {op : RwOp} {i : Nat} {p : RwPc}

/-- Thread `i` is at `p`. -/
def At (i : Nat) (p : RwPc) (s : RwlockSystem) : Prop := s.threads[i]? = some p

instance (i : Nat) (p : RwPc) (s : RwlockSystem) : Decidable (s.At i p) :=
  inferInstanceAs (Decidable (s.threads[i]? = some p))

attribute [grind] At

/-- What one step does: one thread moves, by its next access to the lock or,
from outside any call, by the start of a call. -/
theorem rwStep_inv (step : rwStep op s = some s') :
    ∃ j p p', s.threads[j]? = some p ∧ s'.threads = s.threads.set j p' ∧
      (op = .run j ∧ p.step j s.lock = some (p', s'.lock) ∨
        p = .idle ∧ (op = .readLock j ∧ (p', s'.lock) = rwlockReadLock s.lock ∨
          op = .writeLock j ∧ p' = .writeLock ∧ s'.lock = s.lock)) := by
  cases op with
  | readLock j =>
    simp only [rwStep, Option.ite_none_right_eq_some, Option.some.injEq] at step
    obtain ⟨at_j, rfl⟩ := step
    exact ⟨j, _, _, at_j, rfl, .inr ⟨rfl, .inl ⟨rfl, rfl⟩⟩⟩
  | writeLock j =>
    simp only [rwStep, Option.ite_none_right_eq_some, Option.some.injEq] at step
    obtain ⟨at_j, rfl⟩ := step
    exact ⟨j, _, _, at_j, rfl, .inr ⟨rfl, .inr ⟨rfl, rfl, rfl⟩⟩⟩
  | run j =>
    obtain ⟨pc, pc', l', at_j, stepped, rfl⟩ := run_inv step
    exact ⟨j, pc, pc', at_j, rfl, .inl ⟨rfl, stepped⟩⟩

/-- A thread inside a call or holding the lock moves only by its own next
access. -/
theorem rwStep_at (step : rwStep op s = some s') (at_i : s.At i p) (busy : p ≠ .idle) :
    s'.At i p ∨ op = .run i ∧ ∃ p', p.step i s.lock = some (p', s'.lock) ∧ s'.At i p' := by
  obtain ⟨j, q, q', at_j, threads, moved⟩ := rwStep_inv step
  by_cases same : j = i
  · subst same
    rw [at_i] at at_j
    cases at_j
    rcases moved with ⟨rfl, stepped⟩ | ⟨rfl, -⟩
    · refine .inr ⟨rfl, q', stepped, ?_⟩
      simp only [At, threads, List.getElem?_set_self (List.getElem?_eq_some_iff.mp at_i).1]
    · exact absurd rfl busy
  · left
    simp only [At, threads, List.getElem?_set_ne same]
    exact at_i

theorem run_at (step : rwStep (.run i) s = some s') (at_i : s.At i p) :
    ∃ p', p.step i s.lock = some (p', s'.lock) ∧ s'.At i p' := by
  obtain ⟨pc, pc', l', at_j, stepped, rfl⟩ := run_inv step
  rw [at_i] at at_j
  cases at_j
  refine ⟨pc', stepped, ?_⟩
  simp only [At, List.getElem?_set_self (List.getElem?_eq_some_iff.mp at_i).1]

theorem run_isSome (at_i : s.At i p) (enabled : (p.step i s.lock).isSome) :
    (rwStep (.run i) s).isSome := by
  simp only [At] at at_i
  simp only [rwStep, at_i, Option.isSome_map, enabled]

/-- A weight summed over the threads. -/
def weight (w : RwPc → Nat) (s : RwlockSystem) : Nat := (s.threads.map w).sum

attribute [grind] weight

/-- A step changes a weight by what the thread that moves leaves and gains. -/
theorem weight_step (w : RwPc → Nat) (step : rwStep op s = some s') :
    ∃ j p p', s.threads[j]? = some p ∧ s'.weight w + w p = s.weight w + w p' ∧
      (op = .run j ∧ p.step j s.lock = some (p', s'.lock) ∨
        p = .idle ∧ (op = .readLock j ∧ (p', s'.lock) = rwlockReadLock s.lock ∨
          op = .writeLock j ∧ p' = .writeLock ∧ s'.lock = s.lock)) := by
  obtain ⟨j, p, p', at_j, threads, moved⟩ := rwStep_inv step
  refine ⟨j, p, p', at_j, ?_, moved⟩
  simp only [weight, threads]
  exact List.sum_map_set_add w at_j p'

/-- A thread that waits stays where it is. -/
theorem at_of_blocked (step : rwStep op s = some s') (at_i : s.At i p) (busy : p ≠ .idle)
    (blocked : p.step i s.lock = none) : s'.At i p := by
  rcases rwStep_at step at_i busy with stays | ⟨-, p', stepped, -⟩
  · exact stays
  · rw [blocked] at stepped
    cases stepped

theorem HolderIs.unique {a b : Option RwPc} (first : s.HolderIs a) (second : s.HolderIs b) : a = b := by
  rcases b with _ | pc
  · rcases a with _ | pc
    · rfl
    · have := first.2.2.1
      rw [second.1] at this
      cases this
  · obtain ⟨i, at_i⟩ := List.mem_iff_getElem?.mp second.2.1
    exact first.eq at_i second.1

end RwlockSystem

open RwlockSystem in
/-- The phase of the holder a reachable state has. -/
theorem RwReach.phase {s : RwlockSystem} {holder : Option RwPc} (reach : RwReach s)
    (holderIs : s.HolderIs holder) : s.PhaseInv holder := by
  obtain ⟨holder', holderIs', phase⟩ := reach.rwInv
  rwa [holderIs'.unique holderIs] at phase

namespace RwlockSystem

variable {s s' : RwlockSystem} {op : RwOp} {i : Nat} {p : RwPc}

/-- While the holder of `writers_lock` waits for its departing readers, no step
adds to their work, and each of their steps takes from it. -/
theorem departWork_step (reach : RwReach s) (holder : s.HolderIs (some .writeLockWait))
    (step : rwStep op s = some s') :
    s'.weight departWeight ≤ s.weight departWeight ∧
      ∀ j q, op = .run j → s.At j q → 0 < departWeight q → s'.weight departWeight < s.weight departWeight := by
  have phase := reach.phase holder
  have fewer := reach.readers_lt
  rw [readers_eq] at fewer
  simp only [PhaseInv] at phase
  obtain ⟨j, p, p', at_j, sum, moved⟩ := weight_step departWeight step
  rcases moved with ⟨rfl, stepped⟩ | ⟨rfl, ⟨rfl, started⟩ | ⟨rfl, rfl, -⟩⟩
  · -- no reader is past `readers_wait`, so every move lowers the work or keeps it
    have notDec : p ≠ .readLockDec := by
      rintro rfl
      have := count_pos at_j
      omega
    have notSet : p ≠ .readLockSet := by
      rintro rfl
      have := count_pos at_j
      omega
    obtain ⟨le, lt⟩ := departWeight_next (RwPc.step_next stepped) notDec notSet
    refine ⟨by omega, fun j' q same at_q pos => ?_⟩
    cases same
    rw [At, at_j] at at_q
    cases at_q
    have := lt pos
    omega
  · -- a reader that comes in waits on `readers_wait`
    have waits : p' = .readLockWait := by
      simp only [rwlockReadLock, Prod.mk.injEq] at started
      rw [started.1, if_pos (by omega)]
    subst waits
    exact ⟨by simp only [departWeight] at sum; omega, fun _ _ same => by cases same⟩
  · exact ⟨by simp only [departWeight] at sum; omega, fun _ _ same => by cases same⟩

/-- While the holder of `writers_lock` waits for the readers it woke, no step
adds to their work, and each of their steps takes from it. -/
theorem wakeWork_step (reach : RwReach s) (holder : s.HolderIs (some .writeUnlockWait))
    (step : rwStep op s = some s') :
    s'.weight wakeWeight ≤ s.weight wakeWeight ∧
      ∀ j q, op = .run j → s.At j q → 0 < wakeWeight q → s'.weight wakeWeight < s.weight wakeWeight := by
  have phase := reach.phase holder
  simp only [PhaseInv] at phase
  obtain ⟨j, p, p', at_j, sum, moved⟩ := weight_step wakeWeight step
  rcases moved with ⟨rfl, stepped⟩ | ⟨rfl, ⟨rfl, started⟩ | ⟨rfl, rfl, -⟩⟩
  · obtain ⟨le, lt⟩ := wakeWeight_next (RwPc.step_next stepped)
    refine ⟨by omega, fun j' q same at_q pos => ?_⟩
    cases same
    rw [At, at_j] at at_q
    cases at_q
    have := lt pos
    omega
  · -- a reader that comes in takes the lock at once
    have reads : p' = .reading := by
      simp only [rwlockReadLock, Prod.mk.injEq] at started
      rw [started.1, if_neg (by omega)]
    subst reads
    exact ⟨by simp only [wakeWeight] at sum; omega, fun _ _ same => by cases same⟩
  · exact ⟨by simp only [wakeWeight] at sum; omega, fun _ _ same => by cases same⟩

/-- Two threads that hold `writers_lock` are one. -/
theorem HolderIs.index_unique {pc q q' : RwPc} {j j' : Nat} (holderIs : s.HolderIs (some pc))
    (at_j : s.At j q) (at_j' : s.At j' q') (holds : q.holdsWritersLock = true)
    (holds' : q'.holdsWritersLock = true) : j = j' :=
  List.eq_of_countP_le_one (Nat.le_of_eq holderIs.2.2.1) at_j at_j' holds holds'

theorem holderIs_of_at (reach : RwReach s) (at_h : s.At i p) (holds : p.holdsWritersLock = true) :
    s.HolderIs (some p) := by
  obtain ⟨holder, holderIs, -⟩ := reach.rwInv
  rwa [holderIs.eq at_h holds] at holderIs

/-- A reader holding the lock or leaving it, when the holder of
`writers_lock` waits for its departing readers without `writer_wait` set. -/
theorem departing_reader (reach : RwReach s) (at_h : s.At i .writeLockWait)
    (clear : s.lock.writerWait = false) :
    ∃ j q, s.At j q ∧ 0 < departWeight q ∧ q.alwaysMoves = true := by
  have phase := reach.phase (holderIs_of_at reach at_h rfl)
  simp only [PhaseInv, clear, Bool.toNat_false] at phase
  have found (q : RwPc) (pos : 0 < s.count q) : ∃ j, s.At j q :=
    List.mem_iff_getElem?.mp (List.count_pos_iff.mp pos)
  by_cases r : 0 < s.count .reading
  · obtain ⟨j, at_j⟩ := found _ r
    exact ⟨j, _, at_j, by decide, rfl⟩
  by_cases d : 0 < s.count .readUnlockDec
  · obtain ⟨j, at_j⟩ := found _ d
    exact ⟨j, _, at_j, by decide, rfl⟩
  obtain ⟨j, at_j⟩ := found .readUnlockSet (by omega)
  exact ⟨j, _, at_j, by decide, rfl⟩

/-- A reader the holder of `writers_lock` woke and waits for, when
`writer_wait` is not set. -/
theorem woken_reader (reach : RwReach s) (at_h : s.At i .writeUnlockWait)
    (clear : s.lock.writerWait = false) :
    ∃ j q, s.At j q ∧ 0 < wakeWeight q ∧ (q.step j s.lock).isSome := by
  have phase := reach.phase (holderIs_of_at reach at_h rfl)
  simp only [PhaseInv, clear, Bool.toNat_false] at phase
  have woken : s.lock.readersWait = true := by
    cases h : s.lock.readersWait
    · simp [h] at phase
    · rfl
  have found (q : RwPc) (pos : 0 < s.count q) : ∃ j, s.At j q :=
    List.mem_iff_getElem?.mp (List.count_pos_iff.mp pos)
  by_cases w : 0 < s.count .readLockWait
  · obtain ⟨j, at_j⟩ := found _ w
    exact ⟨j, _, at_j, by decide, by simp [RwPc.step, woken]⟩
  by_cases d : 0 < s.count .readLockDec
  · obtain ⟨j, at_j⟩ := found _ d
    exact ⟨j, _, at_j, by decide, RwPc.step_isSome rfl j s.lock⟩
  obtain ⟨j, at_j⟩ := found .readLockSet (by omega)
  exact ⟨j, _, at_j, by decide, RwPc.step_isSome rfl j s.lock⟩

/-- `writer_wait` stays set under every step but the waits for it. -/
theorem writerWait_step (step : rwStep op s = some s') (set : s.lock.writerWait = true)
    (others : ∀ j q, op = .run j → s.At j q → q ≠ .writeLockWait ∧ q ≠ .writeUnlockWait) :
    s'.lock.writerWait = true := by
  obtain ⟨j, p, p', at_j, -, moved⟩ := rwStep_inv step
  rcases moved with ⟨rfl, stepped⟩ | ⟨-, ⟨-, started⟩ | ⟨-, -, same⟩⟩
  · obtain ⟨notLock, notUnlock⟩ := others j p rfl at_j
    rcases RwPc.step_writerWait stepped with kept | now | waits | waits
    · rwa [kept]
    · exact now
    · exact absurd waits notLock
    · exact absurd waits notUnlock
  · simp only [rwlockReadLock, Prod.mk.injEq] at started
    rw [started.2]
    exact set
  · rwa [same]

/-- A woken reader the holder of `writers_lock` waits for can move:
`readers_wait` is set until the holder is past its wait. -/
theorem woken_enabled {q : RwPc} {j : Nat} (reach : RwReach s) (at_h : s.At i .writeUnlockWait)
    (pos : 0 < wakeWeight q) : (q.step j s.lock).isSome := by
  have phase := reach.phase (holderIs_of_at reach at_h rfl)
  simp only [PhaseInv] at phase
  have woken : s.lock.readersWait = true := by
    cases h : s.lock.readersWait
    · simp [h] at phase
    · rfl
  cases q <;> simp_all [wakeWeight, RwPc.step]

/-- How many accesses the holder of `writers_lock` has left before it is
outside any call. -/
def holderPending (s : RwlockSystem) : Nat :=
  s.weight fun pc => if pc.holdsWritersLock then pc.pending else 0

theorem holderPending_eq (reach : RwReach s) (at_h : s.At i p) (holds : p.holdsWritersLock = true) :
    s.holderPending = p.pending := by
  have holder := holderIs_of_at reach at_h holds
  have same : ∀ q ∈ s.threads, q.holdsWritersLock = true → q.pending = p.pending := by
    intro q member holdsQ
    obtain ⟨j, at_j⟩ := List.mem_iff_getElem?.mp member
    cases holder.eq at_j holdsQ
    rfl
  simp only [holderPending, weight]
  rw [List.sum_map_ite_of_forall _ _ same]
  have once := holder.2.2.1
  simp only [holders] at once
  rw [once, Nat.one_mul]

/-- `readers_wait` is clear but while the holder of `writers_lock` waits for
the readers it woke or clears the event. -/
theorem readersWait_eq_false (reach : RwReach s) (at_h : s.At i p) (holds : p.holdsWritersLock = true)
    (notWait : p ≠ .writeUnlockWait) (notClear : p ≠ .writeUnlockClear) : s.lock.readersWait = false := by
  have phase := reach.phase (holderIs_of_at reach at_h holds)
  cases p <;> simp_all [PhaseInv, RwPc.holdsWritersLock]

/-- A reader waits for a clear `readers_wait` only while a thread holds
`writers_lock` before its `PalEventSet(l->readers_wait)`. -/
theorem holder_of_readLockWait (reach : RwReach s) (at_i : s.At i .readLockWait)
    (clear : s.lock.readersWait = false) :
    ∃ h p, s.At h p ∧ p.holdsWritersLock = true ∧ p ≠ .writeUnlockWait ∧ p ≠ .writeUnlockClear ∧
      p ≠ .writeUnlockRelease := by
  have pos := count_pos at_i
  obtain ⟨holder, holderIs, phase⟩ := reach.rwInv
  rcases holder with _ | p
  · simp only [PhaseInv] at phase
    omega
  · obtain ⟨h, at_h⟩ := List.mem_iff_getElem?.mp holderIs.2.1
    refine ⟨h, p, at_h, holderIs.1, ?_, ?_, ?_⟩ <;> rintro rfl <;>
      simp only [PhaseInv, clear, Bool.toNat_false] at phase <;> omega

/-- How many accesses thread `i` has left before it is outside any call. -/
def threadPending (i : Nat) (s : RwlockSystem) : Nat := (s.threads[i]?.map RwPc.pending).getD 0

theorem threadPending_eq (at_i : s.At i p) : s.threadPending i = p.pending := by
  simp only [At] at at_i
  simp only [threadPending, at_i, Option.map_some, Option.getD_some]

end RwlockSystem

/-- A run from a reachable state in which fewer than `WRITER_WEIGHT` threads
count in `state` at every moment goes through reachable states only. -/
theorem RwReach.run {ρ : Fairness.Run rwStep} (start : RwReach (ρ.state 0))
    (fewer : ∀ k, ((ρ.state k).readers : Int) < WRITER_WEIGHT) : ∀ k, RwReach (ρ.state k) :=
  Fairness.Run.always start fun k _ before stepped after => .step _ before stepped (after ▸ fewer (k + 1))

/-! ## Leads-to in a fair run -/

section Liveness

open Fairness RwlockSystem

variable {ρ : Run rwStep} (reach : ∀ k, RwReach (ρ.state k)) (fair : ∀ i, ρ.WeakFair (.run i))
include reach fair

/-- A thread at a position from which it always moves goes on, with what
its wait cannot change kept along. -/
theorem leadsTo_next {h : Nat} {p : RwPc} {R : RwlockSystem → Prop} (moves : p.alwaysMoves = true)
    (stable : ∀ op s s', RwReach s → s.At h p → R s → rwStep op s = some s' → R s') :
    ρ.LeadsTo (fun s => s.At h p ∧ R s) fun s => (∃ p', p.Next p' ∧ s.At h p') ∧ R s := by
  refine Run.wf1 reach (fair h) ?_ ?_ ?_
  · rintro op s s' reachS - ⟨at_h, r⟩ step
    have r' := stable op s s' reachS at_h r step
    rcases rwStep_at step at_h (RwPc.ne_idle moves) with stays | ⟨-, p', stepped, at_h'⟩
    · exact .inl ⟨stays, r'⟩
    · exact .inr ⟨⟨p', RwPc.step_next stepped, at_h'⟩, r'⟩
  · rintro s s' reachS ⟨at_h, r⟩ step
    obtain ⟨p', stepped, at_h'⟩ := run_at step at_h
    exact ⟨⟨p', RwPc.step_next stepped, at_h'⟩, stable _ s s' reachS at_h r step⟩
  · rintro s - ⟨at_h, -⟩
    exact run_isSome at_h (RwPc.step_isSome moves h s.lock)

/-- A wait of the holder of `writers_lock` for `writer_wait` returns, if the
work of the readers it waits for never grows, falls with each of their steps,
and is left while the event is clear: the work falls until the last of them
has set the event, which nothing else then clears. -/
theorem leadsTo_writerWait {h : Nat} {w w' : RwPc} {work : RwPc → Nat} {R : RwlockSystem → Prop}
    (waits : w = .writeLockWait ∨ w = .writeUnlockWait) (restful : work .idle = 0)
    (wakes : ∀ l : LibosRwlock, w.step h l = if l.writerWait then some (w', { l with writerWait := false }) else none)
    (falls : ∀ op s s', RwReach s → s.At h w → rwStep op s = some s' →
      s'.weight work ≤ s.weight work ∧
        ∀ j q, op = .run j → s.At j q → 0 < work q → s'.weight work < s.weight work)
    (left : ∀ s, RwReach s → s.At h w → s.lock.writerWait = false → ∃ j q, s.At j q ∧ 0 < work q)
    (enabled : ∀ s j q, RwReach s → s.At h w → s.At j q → 0 < work q → (q.step j s.lock).isSome)
    (stable : ∀ op s s', RwReach s → s.At h w → R s → rwStep op s = some s' → R s') :
    ρ.LeadsTo (fun s => s.At h w ∧ R s) fun s => s.At h w' ∧ R s := by
  have holds : w.holdsWritersLock = true := by rcases waits with rfl | rfl <;> rfl
  have busy : w ≠ .idle := by rcases waits with rfl | rfl <;> decide
  -- the waiter does not move while the event is clear
  have stays {op : RwOp} {s s' : RwlockSystem} (at_h : s.At h w)
      (clear : s.lock.writerWait = false) (step : rwStep op s = some s') : s'.At h w :=
    at_of_blocked step at_h busy (by simp [wakes, clear])
  have set : ρ.LeadsTo (fun s => s.At h w ∧ R s) fun s => (s.At h w ∧ R s) ∧ s.lock.writerWait = true := by
    refine Run.LeadsTo.lattice (fun s => s.weight work) fun n => ?_
    -- the event is set, or a reader has work left, which falls when it moves
    refine Run.LeadsTo.mono reach (Run.LeadsTo.or (Run.LeadsTo.of_imp reach fun _ _ done => done)
      (Run.LeadsTo.exists fun (helper : Nat × RwPc) => Run.wf1 (P := fun s =>
        ((s.At h w ∧ R s) ∧ s.weight work = n) ∧ s.lock.writerWait = false ∧
          s.At helper.1 helper.2 ∧ 0 < work helper.2)
        reach (fair helper.1) ?keep ?help ?enabled)) ?stronger fun _ _ done => done
    case stronger =>
      rintro s reachS ⟨⟨at_h, r⟩, rfl⟩
      cases clear : s.lock.writerWait
      · obtain ⟨j, q, at_j, pos⟩ := left s reachS at_h clear
        exact .inr ⟨(j, q), ⟨⟨at_h, r⟩, rfl⟩, rfl, at_j, pos⟩
      · exact .inl (.inl ⟨⟨at_h, r⟩, rfl⟩)
    case keep =>
      rintro op s s' reachS - ⟨⟨⟨at_h, r⟩, rfl⟩, clear, at_j, pos⟩ step
      obtain ⟨le, lt⟩ := falls op s s' reachS at_h step
      have now : s'.At h w ∧ R s' := ⟨stays at_h clear step, stable op s s' reachS at_h r step⟩
      cases clear' : s'.lock.writerWait
      · rcases Nat.lt_or_ge (s'.weight work) (s.weight work) with fell | kept
        · exact .inr (.inr ⟨now, fell⟩)
        · -- the reader has not moved, or the work would have fallen
          have moving : helper.2 ≠ .idle := by
            intro idle
            rw [idle, restful] at pos
            exact Nat.lt_irrefl 0 pos
          rcases rwStep_at step at_j moving with at_j' | ⟨same, -⟩
          · exact .inl ⟨⟨now, by omega⟩, rfl, at_j', pos⟩
          · exact absurd (lt _ _ same at_j pos) (by omega)
      · exact .inr (.inl ⟨now, rfl⟩)
    case help =>
      rintro s s' reachS ⟨⟨⟨at_h, r⟩, rfl⟩, clear, at_j, pos⟩ step
      exact .inr ⟨⟨stays at_h clear step, stable _ s s' reachS at_h r step⟩,
        (falls _ s s' reachS at_h step).2 _ _ rfl at_j pos⟩
    case enabled =>
      rintro s reachS ⟨⟨⟨at_h, -⟩, -⟩, -, at_j, pos⟩
      exact run_isSome at_j (enabled s _ _ reachS at_h at_j pos)
  refine Run.LeadsTo.trans set (Run.wf1 reach (fair h) ?_ ?_ ?_)
  · rintro op s s' reachS - ⟨⟨at_h, r⟩, set⟩ step
    have r' := stable op s s' reachS at_h r step
    by_cases mine : op = .run h
    · subst mine
      obtain ⟨p', stepped, at_h'⟩ := run_at step at_h
      simp only [wakes, set, if_true, Option.some.injEq, Prod.mk.injEq] at stepped
      exact .inr ⟨stepped.1 ▸ at_h', r'⟩
    · -- only the holder of `writers_lock` waits for the event, and it is this one
      have holder := holderIs_of_at reachS at_h holds
      have others : ∀ j q, op = .run j → s.At j q → q ≠ .writeLockWait ∧ q ≠ .writeUnlockWait := by
        rintro j q rfl at_j
        have other : q.holdsWritersLock = true → False := fun holdsQ =>
          mine (by rw [holder.index_unique at_j at_h holdsQ holds])
        exact ⟨fun waiting => other (waiting ▸ rfl), fun waiting => other (waiting ▸ rfl)⟩
      rcases rwStep_at step at_h busy with at_h' | ⟨same, -⟩
      · exact .inl ⟨⟨at_h', r'⟩, writerWait_step step set others⟩
      · exact absurd same mine
  · rintro s s' reachS ⟨⟨at_h, r⟩, set⟩ step
    obtain ⟨p', stepped, at_h'⟩ := run_at step at_h
    simp only [wakes, set, if_true, Option.some.injEq, Prod.mk.injEq] at stepped
    exact ⟨stepped.1 ▸ at_h', stable _ s s' reachS at_h r step⟩
  · rintro s - ⟨⟨at_h, -⟩, set⟩
    exact run_isSome at_h (by simp [wakes, set])

/-- The `PalEventWait(l->writer_wait)` of `rwlock_write_lock` returns. -/
theorem leadsTo_writing {h : Nat} {R : RwlockSystem → Prop}
    (stable : ∀ op s s', RwReach s → s.At h .writeLockWait → R s → rwStep op s = some s' → R s') :
    ρ.LeadsTo (fun s => s.At h .writeLockWait ∧ R s) fun s => s.At h .writing ∧ R s :=
  leadsTo_writerWait reach fair (.inl rfl) rfl (fun _ => rfl)
    (fun _ _ _ reachS at_h step => departWork_step reachS (holderIs_of_at reachS at_h rfl) step)
    (fun _ reachS at_h clear => by
      obtain ⟨j, q, at_j, pos, -⟩ := departing_reader reachS at_h clear
      exact ⟨j, q, at_j, pos⟩)
    (fun s j q _ _ _ pos => RwPc.step_isSome (by cases q <;> simp_all [departWeight, RwPc.alwaysMoves]) j s.lock)
    stable

/-- The `PalEventWait(l->writer_wait)` of `rwlock_write_unlock` returns. -/
theorem leadsTo_writeUnlockClear {h : Nat} {R : RwlockSystem → Prop}
    (stable : ∀ op s s', RwReach s → s.At h .writeUnlockWait → R s → rwStep op s = some s' → R s') :
    ρ.LeadsTo (fun s => s.At h .writeUnlockWait ∧ R s) fun s => s.At h .writeUnlockClear ∧ R s :=
  leadsTo_writerWait reach fair (.inr rfl) rfl (fun _ => rfl)
    (fun _ _ _ reachS at_h step => wakeWork_step reachS (holderIs_of_at reachS at_h rfl) step)
    (fun _ reachS at_h clear => by
      obtain ⟨j, q, at_j, pos, -⟩ := woken_reader reachS at_h clear
      exact ⟨j, q, at_j, pos⟩)
    (fun s j q reachS at_h _ pos => woken_enabled reachS at_h pos)
    stable

/-- The holder of `writers_lock` moves on. -/
theorem leadsTo_holder_next {h : Nat} {p : RwPc} {R : RwlockSystem → Prop} (holds : p.holdsWritersLock = true)
    (stable : ∀ op s s', RwReach s → s.At h p → R s → rwStep op s = some s' → R s') :
    ρ.LeadsTo (fun s => s.At h p ∧ R s) fun s => (∃ p', p.Next p' ∧ s.At h p') ∧ R s := by
  by_cases moves : p.alwaysMoves = true
  · exact leadsTo_next reach fair moves stable
  · -- the two waits for `writer_wait`
    have waits : p = .writeLockWait ∨ p = .writeUnlockWait := by
      cases p <;> simp_all [RwPc.alwaysMoves, RwPc.holdsWritersLock]
    rcases waits with rfl | rfl
    · exact (leadsTo_writing reach fair stable).mono reach (fun _ _ now => now)
        fun _ _ ⟨at_h, r⟩ => ⟨⟨.writing, rfl, at_h⟩, r⟩
    · exact (leadsTo_writeUnlockClear reach fair stable).mono reach (fun _ _ now => now)
        fun _ _ ⟨at_h, r⟩ => ⟨⟨.writeUnlockClear, rfl, at_h⟩, r⟩

/-- The `PalEventWait(l->readers_wait)` of `rwlock_read_lock_slow_path`
returns: the holder of `writers_lock` goes on to set the event, which stays
set while the reader has not gone past it. -/
theorem leadsTo_readLockDec {i : Nat} : ρ.LeadsTo (At i .readLockWait) (At i .readLockDec) := by
  -- the reader does not move while the event is clear
  have stays {op : RwOp} {s s' : RwlockSystem} (at_i : s.At i .readLockWait)
      (clear : s.lock.readersWait = false) (step : rwStep op s = some s') : s'.At i .readLockWait :=
    at_of_blocked step at_i (by decide) (by simp [RwPc.step, clear])
  have woken : ρ.LeadsTo (fun s => s.At i .readLockWait ∧ s.lock.readersWait = true) (At i .readLockDec) := by
    refine Run.wf1 reach (fair i) ?_ ?_ ?_
    · rintro op s s' reachS - ⟨at_i, set⟩ step
      rcases rwStep_at step at_i (by decide) with at_i' | ⟨-, p', stepped, at_i'⟩
      · -- nobody clears the event: its holder is still waiting for this reader
        left
        refine ⟨at_i', ?_⟩
        obtain ⟨j, q, q', at_j, -, moved⟩ := rwStep_inv step
        rcases moved with ⟨rfl, stepped⟩ | ⟨-, ⟨-, started⟩ | ⟨-, -, same⟩⟩
        · rcases RwPc.step_readersWait stepped with kept | sets | clears
          · rwa [kept]
          · subst sets
            simp only [RwPc.step, Option.some.injEq, Prod.mk.injEq] at stepped
            rw [← stepped.2]
          · subst clears
            have phase := reachS.phase (holderIs_of_at reachS at_j rfl)
            have := count_pos at_i
            simp only [PhaseInv] at phase
            omega
        · simp only [rwlockReadLock, Prod.mk.injEq] at started
          rw [started.2]
          exact set
        · rwa [same]
      · simp only [RwPc.step, set, if_true, Option.some.injEq, Prod.mk.injEq] at stepped
        exact .inr (stepped.1 ▸ at_i')
    · rintro s s' - ⟨at_i, set⟩ step
      obtain ⟨p', stepped, at_i'⟩ := run_at step at_i
      simp only [RwPc.step, set, if_true, Option.some.injEq, Prod.mk.injEq] at stepped
      exact stepped.1 ▸ at_i'
    · rintro s - ⟨at_i, set⟩
      exact run_isSome at_i (by simp [RwPc.step, set])
  -- until then, induction on what the holder of `writers_lock` has left to do
  refine Run.LeadsTo.lattice holderPending fun n => ?_
  have each : ∀ holder : Nat × RwPc, ρ.LeadsTo
      (fun s => (s.At holder.1 holder.2 ∧ s.At i .readLockWait) ∧ holder.2.holdsWritersLock = true ∧
        holder.2 ≠ .writeUnlockWait ∧ holder.2 ≠ .writeUnlockClear ∧ holder.2 ≠ .writeUnlockRelease ∧
        holder.2.pending = n)
      fun s => s.At i .readLockDec ∨ s.At i .readLockWait ∧ s.holderPending < n := by
    rintro ⟨h, p⟩
    by_cases side : p.holdsWritersLock = true ∧ p ≠ .writeUnlockWait ∧ p ≠ .writeUnlockClear ∧
      p ≠ .writeUnlockRelease ∧ p.pending = n
    · obtain ⟨holds, notWait, notClear, notRelease, rfl⟩ := side
      have stable : ∀ op s s', RwReach s → s.At h p → s.At i .readLockWait → rwStep op s = some s' →
          s'.At i .readLockWait := fun op s s' reachS at_h at_i step =>
        stays at_i (readersWait_eq_false reachS at_h holds notWait notClear) step
      refine (leadsTo_holder_next reach fair holds stable).mono reach (fun _ _ now => now.1) ?_
      rintro s reachS ⟨⟨p', next, at_h'⟩, at_i⟩
      obtain ⟨holds', lt⟩ := RwPc.next_holds holds notRelease next
      exact .inr ⟨at_i, by rw [holderPending_eq reachS at_h' holds']; omega⟩
    · rintro k ⟨-, holds, notWait, notClear, notRelease, pending⟩
      exact absurd ⟨holds, notWait, notClear, notRelease, pending⟩ side
  refine Run.LeadsTo.mono reach (Run.LeadsTo.or (woken.mono reach (fun _ _ now => now) fun _ _ done => .inl done)
    (Run.LeadsTo.exists each)) ?_ fun _ _ done => done
  rintro s reachS ⟨at_i, rfl⟩
  cases set : s.lock.readersWait
  · obtain ⟨h, p, at_h, holds, notWait, notClear, notRelease⟩ := holder_of_readLockWait reachS at_i set
    exact .inr ⟨(h, p), ⟨at_h, at_i⟩, holds, notWait, notClear, notRelease,
      (holderPending_eq reachS at_h holds).symm⟩
  · exact .inl ⟨at_i, rfl⟩

omit fair in
/-- A call returns once each of its positions leads on: induction on the
accesses the thread has left. -/
theorem leadsTo_call {i : Nat} {C : RwPc → Prop} {t : RwPc}
    (each : ∀ p, C p → ρ.LeadsTo (At i p) fun s => ∃ p', p.Next p' ∧ s.At i p')
    (closed : ∀ p p', C p → p.Next p' → C p' ∨ p' = t) :
    ρ.LeadsTo (fun s => ∃ p, C p ∧ s.At i p) (At i t) := by
  refine Run.LeadsTo.lattice (threadPending i) fun n => ?_
  have step : ∀ p : RwPc, ρ.LeadsTo (fun s => (C p ∧ s.At i p) ∧ p.pending = n)
      fun s => s.At i t ∨ (∃ p, C p ∧ s.At i p) ∧ s.threadPending i < n := by
    intro p
    by_cases inside : C p ∧ p.pending = n
    · obtain ⟨inC, rfl⟩ := inside
      refine (each p inC).mono reach (fun _ _ now => now.1.2) ?_
      rintro s - ⟨p', next, at_i⟩
      rcases closed p p' inC next with inC' | rfl
      · refine .inr ⟨⟨p', inC', at_i⟩, ?_⟩
        rw [threadPending_eq at_i]
        cases p <;> simp only [RwPc.Next] at next <;> grind [RwPc.pending]
      · exact .inl at_i
    · rintro k ⟨⟨inC, -⟩, pending⟩
      exact absurd ⟨inC, pending⟩ inside
  refine Run.LeadsTo.mono reach (Run.LeadsTo.exists step) ?_ fun _ _ done => done
  rintro s - ⟨⟨p, inC, at_i⟩, rfl⟩
  exact ⟨p, ⟨inC, at_i⟩, (threadPending_eq at_i).symm⟩

/-- A thread that always moves from `p` goes on. -/
theorem leadsTo_next_self {i : Nat} {p : RwPc} (moves : p.alwaysMoves = true) :
    ρ.LeadsTo (At i p) fun s => ∃ p', p.Next p' ∧ s.At i p' :=
  (leadsTo_next (R := fun _ => True) reach fair moves fun _ _ _ _ _ _ _ => trivial).mono reach
    (fun _ _ now => ⟨now, trivial⟩) fun _ _ done => done.1

/-- The `lock(&l->writers_lock)` of `rwlock_write_lock` returns when the
writer is scheduled each time the lock is free, again and again: the holder of
the lock goes on to release it. -/
theorem leadsTo_writeLockSub {i : Nat} (strong : ρ.StrongFair (.run i)) :
    ρ.LeadsTo (At i .writeLock) (At i .writeLockSub) := by
  -- the waiter does not move while the lock is held
  have stays {op : RwOp} {s s' : RwlockSystem} (at_i : s.At i .writeLock)
      (held : s.lock.writersLock.set = false) (step : rwStep op s = some s') : s'.At i .writeLock :=
    at_of_blocked step at_i (by decide) (by simp [RwPc.step, LibosLock.lock, held])
  have held {s : RwlockSystem} {h : Nat} {p : RwPc} (reachS : RwReach s) (at_h : s.At h p)
      (holds : p.holdsWritersLock = true) : s.lock.writersLock.set = false :=
    (holderIs_of_at reachS at_h holds).2.2.2
  have enabled {s : RwlockSystem} (at_i : s.At i .writeLock) (free : s.lock.writersLock.set = true) :
      (rwStep (.run i) s).isSome :=
    run_isSome at_i (by simp [RwPc.step, LibosLock.lock, free])
  refine Run.sf1 reach strong ?_ ?_ ?_
  · rintro op s s' - - at_i step
    rcases rwStep_at step at_i (by decide) with at_i' | ⟨-, p', stepped, at_i'⟩
    · exact .inl at_i'
    · simp only [RwPc.step, Option.map_eq_some_iff, Prod.mk.injEq] at stepped
      obtain ⟨-, -, rfl, -⟩ := stepped
      exact .inr at_i'
  · rintro s s' - at_i step
    obtain ⟨p', stepped, at_i'⟩ := run_at step at_i
    obtain ⟨w, -, same⟩ := Option.map_eq_some_iff.mp stepped
    rw [← (Prod.mk.inj same).1] at at_i'
    exact at_i'
  -- the lock is free again and again: induction on what its holder has left to do
  refine Run.LeadsTo.lattice holderPending fun n => ?_
  have each : ∀ holder : Nat × RwPc, ρ.LeadsTo
      (fun s => (s.At holder.1 holder.2 ∧ s.At i .writeLock) ∧ holder.2.holdsWritersLock = true ∧
        holder.2.pending = n)
      fun s => ((rwStep (.run i) s).isSome ∨ s.At i .writeLockSub) ∨
        s.At i .writeLock ∧ s.holderPending < n := by
    rintro ⟨h, p⟩
    by_cases side : p.holdsWritersLock = true ∧ p.pending = n
    · obtain ⟨holds, rfl⟩ := side
      have stable : ∀ op s s', RwReach s → s.At h p → s.At i .writeLock → rwStep op s = some s' →
          s'.At i .writeLock := fun op s s' reachS at_h at_i step =>
        stays at_i (held reachS at_h holds) step
      by_cases release : p = .writeUnlockRelease
      · -- the `unlock(&l->writers_lock)` frees the lock for the waiter
        subst release
        refine Run.wf1 reach (fair h) ?_ ?_ ?_
        · rintro op s s' reachS - ⟨⟨at_h, at_i⟩, -⟩ step
          have at_i' := stable op s s' reachS at_h at_i step
          rcases rwStep_at step at_h (RwPc.ne_idle rfl) with at_h' | ⟨-, p', stepped, -⟩
          · exact .inl ⟨⟨at_h', at_i'⟩, rfl, rfl⟩
          · simp only [RwPc.step, Option.some.injEq, Prod.mk.injEq] at stepped
            exact .inr (.inl (.inl (enabled at_i' (by rw [← stepped.2]; rfl))))
        · rintro s s' reachS ⟨⟨at_h, at_i⟩, -⟩ step
          obtain ⟨p', stepped, -⟩ := run_at step at_h
          simp only [RwPc.step, Option.some.injEq, Prod.mk.injEq] at stepped
          exact .inl (.inl (enabled (stable _ s s' reachS at_h at_i step) (by rw [← stepped.2]; rfl)))
        · rintro s - ⟨⟨at_h, -⟩, -⟩
          exact run_isSome at_h (RwPc.step_isSome rfl h s.lock)
      · refine (leadsTo_holder_next reach fair holds stable).mono reach (fun _ _ now => now.1) ?_
        rintro s reachS ⟨⟨p', next, at_h'⟩, at_i⟩
        obtain ⟨holds', lt⟩ := RwPc.next_holds holds release next
        exact .inr ⟨at_i, by rw [holderPending_eq reachS at_h' holds']; omega⟩
    · rintro k ⟨-, holds, pending⟩
      exact absurd ⟨holds, pending⟩ side
  refine Run.LeadsTo.mono reach (Run.LeadsTo.or (Run.LeadsTo.of_imp reach fun _ _ done => done)
    (Run.LeadsTo.exists each)) ?_ fun _ _ done => done
  rintro s reachS ⟨at_i, rfl⟩
  obtain ⟨holder, holderIs, -⟩ := reachS.rwInv
  rcases holder with _ | p
  · exact .inl (.inl (.inl (enabled at_i (by rw [holderIs.2]))))
  · obtain ⟨h, at_h⟩ := List.mem_iff_getElem?.mp holderIs.2.1
    exact .inr ⟨(h, p), ⟨at_h, at_i⟩, holderIs.1, (holderPending_eq reachS at_h holderIs.1).symm⟩

/-- A thread inside a call goes on, at `writers_lock` if it is scheduled
while the lock is free again and again. -/
theorem leadsTo_step {i : Nat} {p : RwPc} (busy : p ≠ .idle) (fairLock : p ≠ .writeLock ∨ ρ.StrongFair (.run i)) :
    ρ.LeadsTo (At i p) fun s => ∃ p', p.Next p' ∧ s.At i p' := by
  by_cases moves : p.alwaysMoves = true
  · exact leadsTo_next_self reach fair moves
  · -- the four waits
    cases p with
    | readLockWait =>
      exact (leadsTo_readLockDec reach fair).mono reach (fun _ _ now => now) fun _ _ done => ⟨_, rfl, done⟩
    | writeLock =>
      have strong := fairLock.resolve_left fun ne => ne rfl
      exact (leadsTo_writeLockSub reach fair strong).mono reach (fun _ _ now => now) fun _ _ done => ⟨_, rfl, done⟩
    | writeLockWait =>
      exact (leadsTo_writing (R := fun _ => True) reach fair fun _ _ _ _ _ _ _ => trivial).mono reach
        (fun _ _ now => ⟨now, trivial⟩) fun _ _ done => ⟨_, rfl, done.1⟩
    | writeUnlockWait =>
      exact (leadsTo_writeUnlockClear (R := fun _ => True) reach fair fun _ _ _ _ _ _ _ => trivial).mono reach
        (fun _ _ now => ⟨now, trivial⟩) fun _ _ done => ⟨_, rfl, done.1⟩
    | idle => exact absurd rfl busy
    | readLockDec | readLockSet | reading | readUnlockDec | readUnlockSet | writeLockSub | writeLockAdd _
    | writing | writeUnlockStore _ | writeUnlockSet | writeUnlockClear | writeUnlockRelease =>
      exact absurd rfl moves

/-- Every call returns, `rwlock_write_lock` if its thread is scheduled while
`writers_lock` is free again and again. -/
theorem calls_return {i : Nat} {p t : RwPc} (returns : p.returnsAt = some t)
    (fairLock : p ≠ .writeLock ∨ ρ.StrongFair (.run i)) : ρ.LeadsTo (At i p) (At i t) := by
  have call := leadsTo_call reach (i := i) (t := t)
    (C := fun q => q.returnsAt = some t ∧ (q ≠ .writeLock ∨ ρ.StrongFair (.run i)))
    (fun q ⟨returnsQ, fairQ⟩ => leadsTo_step reach fair (by rintro rfl; cases returnsQ) fairQ)
    (fun q q' ⟨returnsQ, _⟩ next => (RwPc.returnsAt_next returnsQ next).imp (fun ⟨r, ne⟩ => ⟨r, .inl ne⟩) id)
  exact call.mono reach (fun _ _ at_i => ⟨p, ⟨returns, fairLock⟩, at_i⟩) fun _ _ done => done

end Liveness

open Fairness RwlockSystem in
/-- The LibOS readers-writer lock is correct: a writer holds the lock alone;
in a run in which every thread inside a call or holding the lock is scheduled
as long as it can move, every call returns, a `rwlock_write_lock` waiting for
`writers_lock` if its thread is scheduled while the lock is free again and
again; and the lock is as `rwlock_create` left it when no thread is inside a
call or holds it. -/
theorem libosRwlock_correct :
    (∀ s i j pc, RwReach s → i ≠ j → s.At i .writing → s.At j pc →
      pc = .idle ∨ pc = .writeLock ∨ pc = .readLockWait) ∧
    (∀ ρ : Run rwStep, RwReach (ρ.state 0) → (∀ k, ((ρ.state k).readers : Int) < WRITER_WEIGHT) →
      (∀ i, ρ.WeakFair (.run i)) → ∀ i p t, p.returnsAt = some t →
        (p ≠ .writeLock ∨ ρ.StrongFair (.run i)) → ρ.LeadsTo (At i p) (At i t)) ∧
    (∀ s, RwReach s → (∀ pc ∈ s.threads, pc = .idle) → s.lock = rwlockCreate) := by
  refine ⟨fun s i j pc reach other at_i at_j => reach.writing_alone at_i at_j other, ?_,
    fun s reach idle => reach.lock_of_idle idle⟩
  intro ρ start fewer fair i p t returns fairLock
  exact calls_return (RwReach.run start fewer) fair returns fairLock

/-- Thread 1 holds `writers_lock`, threads 0 and 2 wait for it. -/
def starvingStart : RwlockSystem :=
  ⟨{ rwlockCreate with writersLock := ⟨false, 1⟩ }, [.writeLock, .writeLockSub, .writeLock]⟩

/-- One round: thread 1 writes and unlocks, thread 2 takes `writers_lock`
before thread 0 is scheduled, and thread 1 calls `rwlock_write_lock` again;
then the same with threads 1 and 2 swapped. -/
def starvingRound : List RwOp :=
  [.run 1, .run 1, .run 1, .run 2, .writeLock 1, .run 2, .run 2, .run 2, .run 1, .writeLock 2]

open Fairness RwlockSystem in
/-- Weak fairness is not enough for `rwlock_write_lock`: in a run in which
every thread is scheduled as long as it can move and every holder unlocks,
thread 0 waits for `writers_lock` for ever, scheduled only while the lock is
held. -/
theorem libosRwlock_writer_starves : ∃ ρ : Run rwStep, RwReach (ρ.state 0) ∧
    (∀ k, ((ρ.state k).readers : Int) < WRITER_WEIGHT) ∧ (∀ i, ρ.WeakFair (.run i)) ∧
    ¬ ρ.LeadsTo (At 0 .writeLock) (At 0 .writing) := by
  have rounds : ∀ r, r < starvingRound.length →
      (tryAll rwStep starvingStart (starvingRound.take r)).readers = 0 ∧
      (tryAll rwStep starvingStart (starvingRound.take r)).At 0 .writeLock ∧
      (tryAll rwStep starvingStart (starvingRound.take r)).threads.length = 3 := by decide
  have start : RwReach starvingStart :=
    .step (.writeLock 2) (.step (.run 1) (.step (.writeLock 1) (.step (.writeLock 0) (.created 3) rfl (by decide))
      rfl (by decide)) rfl (by decide)) rfl (by decide)
  let ρ : Run rwStep := Run.cycle starvingStart starvingRound (by decide) (by decide)
  have always : ∀ k, (ρ.state k).readers = 0 ∧ (ρ.state k).At 0 .writeLock ∧ (ρ.state k).threads.length = 3 :=
    Run.cycle_always (P := fun s : RwlockSystem => s.readers = 0 ∧ s.At 0 .writeLock ∧ s.threads.length = 3) rounds
  refine ⟨ρ, start, fun k => ?_, ?_, ?_⟩
  · rw [(always k).1]
    decide
  · rintro (_ | _ | _ | i) k enabled
    · -- thread 0 is refused at the start of every round, where thread 1 holds the lock
      have refused := enabled (starvingRound.length * k + 0) (Nat.le_mul_of_pos_left k (by decide))
      rw [Run.cycle_state k (by decide)] at refused
      exact absurd refused (by decide)
    · exact Run.cycle_tried (r := 0) (by decide) k
    · exact Run.cycle_tried (r := 3) (by decide) k
    · -- there is no fourth thread
      have short : (ρ.state k).threads[i + 3]? = none := List.getElem?_eq_none (by rw [(always k).2.2]; omega)
      have refused := enabled k (Nat.le_refl k)
      simp [rwStep, short] at refused
  · intro returns
    obtain ⟨m, -, at_m⟩ := returns 0 (always 0).2.1
    have waits : (ρ.state m).At 0 .writeLock := (always m).2.1
    rw [At] at at_m waits
    rw [waits] at at_m
    cases at_m

end Gramine.LibOS
