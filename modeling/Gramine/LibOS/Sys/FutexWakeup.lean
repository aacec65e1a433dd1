import Gramine.LibOS.Sys.Futex
/-!
# A woken waiter that returns as not woken

`futex_wait` tells whether its waiter was woken by whether the waiter is still
linked, once `thread_wait` has returned and the call holds the futex's lock
again. A `futex_wake` may remove the waiter in between and count it among the
threads it woke; the waiter then returns what `thread_wait` returned,
`-ETIMEDOUT` after a timeout, and the wake is lost to whoever waits next.
-/

namespace Gramine.LibOS

open FutexSystem

variable {s : FutexSystem} {tid f : Nat} {tmp : Option Nat} {ret : Int}

/-- The end of `futex_wait`: from `maybe_dequeue_futex` or the last
`put_futex` calls, the thread returns `ret`. -/
theorem waitTail_returns (inside : tid < s.threads.length)
    (tail : (s.thread tid).pc = .waitDequeue f tmp ret ∨ (s.thread tid).pc = .waitRelease f tmp ret) :
    ∃ ops s', (∀ op ∈ ops, op = .run tid) ∧ futexSteps ops s = some s' ∧ (s'.thread tid).pc = .returned ret := by
  have release {s : FutexSystem} (inside : tid < s.threads.length) (at_tid : (s.thread tid).pc = .waitRelease f tmp ret) :
      futexStep (.run tid) s = some (((s.putFutex f).putFutexOpt tmp).setPc tid (.returned ret)) := by
    simp only [futexStep, inside, if_true, at_tid, FutexSystem.run]
  rcases tail with dequeue | released
  · let s₁ := (s.maybeDequeueFutex f).setPc tid (.waitRelease f tmp ret)
    have inside₁ : tid < s₁.threads.length := by simpa [s₁] using inside
    have first : futexStep (.run tid) s = some s₁ := by
      simp only [futexStep, inside, if_true, dequeue, FutexSystem.run, s₁]
    refine ⟨[.run tid, .run tid], ((s₁.putFutex f).putFutexOpt tmp).setPc tid (.returned ret), by simp, ?_,
      pc_setPc_self (by simpa using inside₁)⟩
    simp only [futexSteps, first, Option.bind_some, release inside₁ (pc_setPc_self (by simpa using inside))]
  · exact ⟨[.run tid], ((s.putFutex f).putFutexOpt tmp).setPc tid (.returned ret), by simp,
      by simp only [futexSteps, release inside released, Option.bind_some], pc_setPc_self (by simpa using inside)⟩

/-- The end of `futex_wake`: from `maybe_dequeue_futex` or `wake_queue`, the
thread returns the count it woke. -/
theorem wakeTail_returns {woken : Nat} {queue : List Nat} (inside : tid < s.threads.length)
    (tail : (s.thread tid).pc = .wakeDequeue f woken queue ∨ (s.thread tid).pc = .wakeQueue f woken queue) :
    ∃ ops s', (∀ op ∈ ops, op = .run tid) ∧ futexSteps ops s = some s' ∧ (s'.thread tid).pc = .returned woken := by
  have put {s : FutexSystem} (inside : tid < s.threads.length) (at_tid : (s.thread tid).pc = .wakePut f woken) :
      futexSteps [.run tid] s = some ((s.putFutex f).setPc tid (.returned woken)) := by
    simp only [futexSteps, futexStep, inside, if_true, at_tid, FutexSystem.run, Option.bind_some]
  have wake {s : FutexSystem} (inside : tid < s.threads.length) (at_tid : (s.thread tid).pc = .wakeQueue f woken queue) :
      futexSteps [.run tid, .run tid] s = some ((((s.wakeQueue queue).setPc tid (.wakePut f woken)).putFutex f).setPc
        tid (.returned woken)) := by
    have inside₁ : tid < ((s.wakeQueue queue).setPc tid (.wakePut f woken)).threads.length := by simpa using inside
    have first : futexStep (.run tid) s = some ((s.wakeQueue queue).setPc tid (.wakePut f woken)) := by
      simp only [futexStep, inside, if_true, at_tid, FutexSystem.run]
    rw [futexSteps, first, Option.bind_some, put inside₁ (pc_setPc_self (by simpa using inside))]
  rcases tail with dequeue | queued
  · let s₁ := (s.maybeDequeueFutex f).setPc tid (.wakeQueue f woken queue)
    have inside₁ : tid < s₁.threads.length := by simpa [s₁] using inside
    have first : futexStep (.run tid) s = some s₁ := by
      simp only [futexStep, inside, if_true, dequeue, FutexSystem.run, s₁]
    refine ⟨[.run tid, .run tid, .run tid],
      (((s₁.wakeQueue queue).setPc tid (.wakePut f woken)).putFutex f).setPc tid (.returned woken), by simp, ?_,
      pc_setPc_self (by simpa using inside₁)⟩
    have rest := wake inside₁ (pc_setPc_self (by simpa using inside))
    simp only [futexSteps] at rest ⊢
    rw [first, Option.bind_some, rest]
  · exact ⟨[.run tid, .run tid], _, by simp, wake inside queued, pc_setPc_self (by simpa using inside)⟩

/-- After `thread_wait`, a waiter that a wake has unlinked returns what
`thread_wait` returned, `-EINTR` read as 0. -/
theorem waitWoken_of_unlinked (inside : tid < s.threads.length) (unlinked : (s.thread tid).waiter.linked = false) :
    ((s.waitWoken tid tmp ret).thread tid).pc = .waitDequeue (s.thread tid).waiter.futex tmp
        (if ret = -EINTR then 0 else ret) ∨
      ((s.waitWoken tid tmp ret).thread tid).pc = .waitRelease (s.thread tid).waiter.futex tmp
        (if ret = -EINTR then 0 else ret) := by
  unfold waitWoken
  simp only [thread_getFutex, unlinked, Bool.false_eq_true, if_false]
  split
  · exact .inl (pc_setPc_self (by simpa using inside))
  · exact .inr (pc_setPc_self (by simpa using inside))

/-- A `futex_wake` on the futex of a waiter whose `thread_wait` timed out, run
before the waiter takes `g_futex_tree_lock` again, removes the waiter and
counts it, and returns; the waiter's `futex_wait` then returns `-ETIMEDOUT`. -/
theorem futexWake_counts_timed_out_waiter {a b uaddr : Nat} {rest : List Nat} {toWake : Int}
    {bitset : UInt32} (other : a ≠ b) (inA : a < s.threads.length) (inB : b < s.threads.length)
    (timedOut : (s.thread a).pc = .waitWake tmp (-ETIMEDOUT)) (onFutex : (s.thread a).waiter.futex = f)
    (first : (s.futex f).waiters = a :: rest) (meets : (s.thread a).waiter.bitset &&& bitset ≠ 0)
    (found : s.tree.find? (fun g => (s.futex g).uaddr == uaddr) = some f)
    (waking : (s.thread b).pc = .wakeLookup uaddr toWake bitset) (nonzero : bitset ≠ 0) :
    ∃ s₁, futexStep (.run b) s = some s₁ ∧
      (∃ woken : Nat, 0 < woken ∧ ∃ ops s₂, (∀ op ∈ ops, op = .run b) ∧ futexSteps ops s₁ = some s₂ ∧
        (s₂.thread b).pc = .returned woken) ∧
      ∃ ops s₂, (∀ op ∈ ops, op = .run a) ∧ futexSteps ops s₁ = some s₂ ∧
        (s₂.thread a).pc = .returned (-ETIMEDOUT) := by
  -- the wake's section: it finds the futex and wakes its first waiter
  obtain ⟨woken, queue, s₁, woke⟩ : ∃ woken queue s₁,
      moveToWakeQueue f bitset toWake (a :: rest) 0 [] (s.getFutex f) = (woken, queue, s₁) := ⟨_, _, _, rfl⟩
  obtain ⟨counted, unlinked⟩ := moveToWakeQueue_first f bitset toWake rest [] 0 (s := s.getFutex f)
    (by simpa using inA) (by simpa using meets)
  obtain ⟨kept, sameLength⟩ := moveToWakeQueue_unlinks f bitset toWake a (a :: rest) 0 [] (s.getFutex f)
  rw [woke] at counted unlinked kept sameLength
  set next : FutexPc := if s₁.checkDequeueFutex f then .wakeDequeue f woken queue else .wakeQueue f woken queue
  have wakes : futexStep (.run b) s = some (s₁.setPc b next) := by
    simp only [futexStep, inB, if_true, waking, FutexSystem.run, wakeLocked, nonzero, if_false,
      findFutex_of_find? found, waiters_getFutex, first, woke, next]
  have inB₁ : b < s₁.threads.length := by simpa [sameLength] using inB
  have inA₁ : a < (s₁.setPc b next).threads.length := by simpa [sameLength] using inA
  refine ⟨_, wakes, ⟨woken, counted, ?_⟩, ?_⟩
  · have tail : ((s₁.setPc b next).thread b).pc = .wakeDequeue f woken queue ∨
        ((s₁.setPc b next).thread b).pc = .wakeQueue f woken queue := by
      rw [pc_setPc_self inB₁]
      by_cases needs : s₁.checkDequeueFutex f
      · exact .inl (if_pos needs)
      · exact .inr (if_neg needs)
    exact wakeTail_returns (by simpa using inB₁) tail
  · -- the waiter's section finds its waiter unlinked and keeps the result of `thread_wait`
    have waiterA : (s₁.setPc b next).thread a = s₁.thread a := thread_setPc_ne (Ne.symm other)
    have timedOut₁ : ((s₁.setPc b next).thread a).pc = .waitWake tmp (-ETIMEDOUT) := by
      rw [waiterA, kept.1, thread_getFutex, timedOut]
    have onFutex₁ : ((s₁.setPc b next).thread a).waiter.futex = f := by
      rw [waiterA, kept.2.1, thread_getFutex, onFutex]
    have woken₁ : futexStep (.run a) (s₁.setPc b next) = some ((s₁.setPc b next).waitWoken a tmp (-ETIMEDOUT)) := by
      simp only [futexStep, inA₁, if_true, timedOut₁, FutexSystem.run]
    have notInterrupted : (if -ETIMEDOUT = -EINTR then (0 : Int) else -ETIMEDOUT) = -ETIMEDOUT := by
      simp [ETIMEDOUT, EINTR]
    have tail : (((s₁.setPc b next).waitWoken a tmp (-ETIMEDOUT)).thread a).pc =
          .waitDequeue ((s₁.setPc b next).thread a).waiter.futex tmp
            (if -ETIMEDOUT = -EINTR then 0 else -ETIMEDOUT) ∨
        (((s₁.setPc b next).waitWoken a tmp (-ETIMEDOUT)).thread a).pc =
          .waitRelease ((s₁.setPc b next).thread a).waiter.futex tmp
            (if -ETIMEDOUT = -EINTR then 0 else -ETIMEDOUT) :=
      waitWoken_of_unlinked inA₁ (by rw [waiterA]; exact unlinked)
    rw [onFutex₁, notInterrupted] at tail
    obtain ⟨ops, s₂, runs, steps, returned⟩ := waitTail_returns (by simpa using inA₁) tail
    refine ⟨.run a :: ops, s₂, ?_, by simp only [futexSteps, woken₁, Option.bind_some, steps], returned⟩
    rintro op (_ | ⟨_, later⟩)
    · rfl
    · exact runs op later

/-- Thread 0 calls `futex_wait(0, 0, timeout, FUTEX_BITSET_MATCH_ANY)` on the
word 0, which holds 0, makes and enqueues the futex, sleeps, and its
`thread_wait` times out; thread 1 then calls `futex_wake(0, 1,
FUTEX_BITSET_MATCH_ANY)`. -/
def timedOutWake : List FutexOp :=
  [.wait 0 0 0 true 0xffffffff, .run 0, .run 0, .run 0, .run 0, .timeOut 0, .wake 1 0 1 0xffffffff]

/-- Where `timedOutWake` leaves the threads: thread 0's waiter still linked on
the futex of word 0, thread 1 at the start of `futex_wake`. -/
def timedOutWakeState : FutexSystem :=
  ⟨[⟨0, [0], true, 2⟩], [0], [0],
    [⟨.waitWake none (-ETIMEDOUT), ⟨0xffffffff, 0, true⟩, false, false⟩,
      ⟨.wakeLookup 0 1 0xffffffff, default, false, false⟩]⟩

theorem futexWake_counts_timed_out_waiter_in_race :
    FutexReach timedOutWakeState ∧ ∃ s₁, futexStep (.run 1) timedOutWakeState = some s₁ ∧
      (∃ woken : Nat, 0 < woken ∧ ∃ ops s₂, (∀ op ∈ ops, op = .run 1) ∧ futexSteps ops s₁ = some s₂ ∧
        (s₂.thread 1).pc = .returned woken) ∧
      ∃ ops s₂, (∀ op ∈ ops, op = .run 0) ∧ futexSteps ops s₁ = some s₂ ∧
        (s₂.thread 0).pc = .returned (-ETIMEDOUT) :=
  ⟨FutexReach.steps (.initial 2 [0]) (by decide : futexSteps timedOutWake (.initial 2 [0]) = some timedOutWakeState),
    futexWake_counts_timed_out_waiter (a := 0) (b := 1) (f := 0) (by decide) (by decide) (by decide) rfl rfl rfl
      (by decide) rfl rfl (by decide)⟩

end Gramine.LibOS
