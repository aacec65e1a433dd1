import Mathlib
import Gramine.LibOS.Sys.Futex
/-!
# What `futex_wake` and `futex_requeue` take from a futex

The locked sections of `futex_wake` and `futex_requeue` walk the waiters list
of a futex while they remove or move its entries. Over a list of distinct
waiters `w`:

* `move_to_wake_queue` takes the first `max(1, to_wake)` waiters whose bitset
  meets the one given, in list order (fewer if there are not enough), and
  leaves the others in place (`moveToWakeQueue_spec`);
* the waking passes of `futex_requeue` take the first `min(to_wake, n)`
  waiters (`requeueWake_spec`), and its requeueing passes move the next ones,
  as many as `to_requeue` allows, to the tail of a different target futex in
  their order (`requeueMove_spec`).

When the target is the futex itself, the moved waiter is appended to the list
being walked and is met again: every pass moves the first waiter to the tail,
so the list rotates and the count of moved waiters reaches `to_requeue`
whatever the number of waiters (`requeueMove_self`). Linux moves each waiter
at most once.
-/

namespace Gramine.LibOS

open FutexSystem

/-- The test `move_to_wake_queue` makes of a waiter with bitset `bits tid`: a
zero `bitset` matches every waiter. -/
def wakeMatches (bits : Nat → UInt32) (bitset : UInt32) (tid : Nat) : Bool :=
  !(bitset != 0 && bits tid &&& bitset == 0)

/-- How many waiters `move_to_wake_queue` takes at most: `max(1, to_wake)`. -/
def wakeQuota (toWake : Int) : Nat :=
  max 1 toWake.toNat

namespace FutexSystem

variable {s : FutexSystem} {t u f g : Nat}

@[simp] theorem futexes_length_modifyFutex {h : LibosFutex → LibosFutex} :
    (s.modifyFutex f h).futexes.length = s.futexes.length :=
  List.length_modify ..

@[simp] theorem futexes_modifyThread {h : FutexThread → FutexThread} :
    (s.modifyThread t h).futexes = s.futexes :=
  rfl

@[simp] theorem futexes_length_getFutex : (s.getFutex f).futexes.length = s.futexes.length :=
  futexes_length_modifyFutex

@[simp] theorem futexes_length_putFutex : (s.putFutex f).futexes.length = s.futexes.length :=
  futexes_length_modifyFutex

@[simp] theorem futexes_length_removeFutexWaiter :
    (s.removeFutexWaiter t f).futexes.length = s.futexes.length := by
  simp [removeFutexWaiter]

@[simp] theorem futexes_addThreadToQueue {queue : List Nat} :
    (s.addThreadToQueue t queue).2.futexes = s.futexes := by
  unfold addThreadToQueue
  split <;> rfl

@[simp] theorem futex_addThreadToQueue {queue : List Nat} :
    (s.addThreadToQueue t queue).2.futex f = s.futex f := by
  simp only [futex, futexes_addThreadToQueue]

/-- A reference dropped leaves the futex's waiters. -/
@[simp] theorem waiters_putFutex : ((s.putFutex f).futex g).waiters = (s.futex g).waiters := by
  by_cases same : f = g
  · subst same
    by_cases inside : f < s.futexes.length
    · simp only [putFutex, futex_modifyFutex_self inside]
    · simp [putFutex, futex, modifyFutex, List.getD_eq_getElem?_getD, inside]
  · simp only [putFutex, futex_modifyFutex_ne same]

/-- A futex with waiters is one of the heap. -/
theorem lt_length_of_waiters (waiting : (s.futex f).waiters ≠ []) : f < s.futexes.length := by
  by_contra outside
  simp [futex, List.getD_eq_getElem?_getD, Nat.le_of_not_lt outside] at waiting
  exact waiting rfl

theorem waiters_removeFutexWaiter_self (inside : f < s.futexes.length) :
    ((s.removeFutexWaiter t f).futex f).waiters = (s.futex f).waiters.erase t := by
  simp only [removeFutexWaiter, futex_modifyThread, futex_modifyFutex_self inside]

theorem waiters_removeFutexWaiter_ne (other : f ≠ g) :
    ((s.removeFutexWaiter t f).futex g).waiters = (s.futex g).waiters := by
  simp only [removeFutexWaiter, futex_modifyThread, futex_modifyFutex_ne other]

/-- A wake leaves every waiter's bitset. -/
theorem bitset_removeFutexWaiter_addThreadToQueue {queue : List Nat} :
    (((s.removeFutexWaiter t f).addThreadToQueue t queue).2.thread u).waiter.bitset =
      (s.thread u).waiter.bitset :=
  ((removeFutexWaiter_unlinks s t f u).trans (addThreadToQueue_unlinks _ t queue u)).2.2.1

/-- `move_futex_waiter` from `futex1` to `futex2`: the waiter leaves the list
of `futex1` and is appended to the list of `futex2`. -/
theorem waiters_moveFutexWaiter (inside : g < s.futexes.length) :
    ((s.moveFutexWaiter t f g).futex g).waiters = ((s.removeFutexWaiter t f).futex g).waiters ++ [t] := by
  have kept : (((s.removeFutexWaiter t f).getFutex g).putFutex
      ((s.removeFutexWaiter t f).getFutex g |>.thread t).waiter.futex).futexes.length =
        s.futexes.length := by simp
  simp only [moveFutexWaiter]
  rw [futex_modifyFutex_self (by simpa [kept] using inside)]
  simp

theorem waiters_moveFutexWaiter_ne (other : g ≠ u) :
    ((s.moveFutexWaiter t f g).futex u).waiters = ((s.removeFutexWaiter t f).futex u).waiters := by
  simp only [moveFutexWaiter, futex_modifyThread, futex_modifyFutex_ne other, waiters_putFutex,
    waiters_getFutex]

@[simp] theorem futexes_length_moveFutexWaiter :
    (s.moveFutexWaiter t f g).futexes.length = s.futexes.length := by
  simp [moveFutexWaiter]

end FutexSystem

/-! ## `move_to_wake_queue` -/

/-- The loop of `move_to_wake_queue`, from a point where the waiters already
passed over (`kept`) are in front of those still to visit: it takes the first
matching ones among the rest, up to the quota left, and counts them. -/
theorem moveToWakeQueue_spec {f : Nat} {bitset : UInt32} {toWake : Int} {bits : Nat → UInt32}
    (rest : List Nat) : ∀ (kept : List Nat) (woken : Nat) (queue : List Nat) (s : FutexSystem),
      f < s.futexes.length → (∀ t, (s.thread t).waiter.bitset = bits t) →
      (s.futex f).waiters = kept ++ rest → (kept ++ rest).Nodup → woken < wakeQuota toWake →
      (moveToWakeQueue f bitset toWake rest woken queue s).1 =
          woken + ((rest.filter (wakeMatches bits bitset)).take (wakeQuota toWake - woken)).length ∧
        ((moveToWakeQueue f bitset toWake rest woken queue s).2.2.futex f).waiters =
          kept ++ rest.filter
            (· ∉ (rest.filter (wakeMatches bits bitset)).take (wakeQuota toWake - woken)) := by
  induction rest with
  | nil =>
    intro kept woken queue s _ _ waiters _ _
    simp [moveToWakeQueue, waiters]
  | cons tid rest ih =>
    intro kept woken queue s inside bitsEq waiters distinct below
    have fresh : tid ∉ kept ∧ tid ∉ rest := by
      simp only [List.nodup_append, List.nodup_cons, List.mem_cons] at distinct
      exact ⟨fun mem => distinct.2.2 tid mem tid (.inl rfl) rfl, distinct.2.1.1⟩
    have restDistinct : (kept ++ rest).Nodup :=
      distinct.sublist (List.Sublist.append_left (List.sublist_cons_self tid rest) kept)
    -- the waiters the loop has not reached never contain `tid` again
    have dropTid : ∀ taken : List Nat, rest.filter (· ∉ tid :: taken) = rest.filter (· ∉ taken) := by
      intro taken
      refine List.filter_congr fun x mem => ?_
      have : x ≠ tid := fun same => fresh.2 (same ▸ mem)
      simp [this]
    by_cases skip : (bitset != 0 && (s.thread tid).waiter.bitset &&& bitset == 0) = true
    · -- a waiter whose bitset misses stays, in front of the rest
      have unmatched : wakeMatches bits bitset tid = false := by
        simp only [wakeMatches, ← bitsEq tid, skip, Bool.not_true]
      have later := ih (kept ++ [tid]) woken queue s inside bitsEq (by simp [waiters])
        (by simpa using distinct) below
      have notTaken : tid ∉ (rest.filter (wakeMatches bits bitset)).take (wakeQuota toWake - woken) :=
        fun mem => fresh.2 (List.mem_of_mem_filter (List.mem_of_mem_take mem))
      rw [moveToWakeQueue, if_pos skip, List.filter_cons_of_neg (by simp [unmatched]), later.2,
        List.filter_cons_of_pos (by simpa using notTaken)]
      exact ⟨later.1, by simp⟩
    · have matched : wakeMatches bits bitset tid = true := by
        have passes : (bitset != 0 && (s.thread tid).waiter.bitset &&& bitset == 0) = false := by
          simpa using skip
        simp only [wakeMatches, ← bitsEq tid, passes, Bool.not_false]
      set woke := (s.removeFutexWaiter tid f).addThreadToQueue tid queue
      have wokeInside : f < woke.2.futexes.length := by simpa [woke] using inside
      have wokeBits : ∀ t, (woke.2.thread t).waiter.bitset = bits t := fun t =>
        bitset_removeFutexWaiter_addThreadToQueue.trans (bitsEq t)
      have wokeWaiters : (woke.2.futex f).waiters = kept ++ rest := by
        simp only [woke, futex_addThreadToQueue, waiters_removeFutexWaiter_self inside, waiters,
          List.erase_append_right _ fresh.1, List.erase_cons_head]
      have quota : wakeQuota toWake - woken = (wakeQuota toWake - (woken + 1)) + 1 := by omega
      rw [moveToWakeQueue, if_neg skip, List.filter_cons_of_pos matched, quota, List.take_succ_cons,
        List.filter_cons_of_neg (by simp), dropTid]
      split
      · -- the quota is used up
        rename_i done
        have none : wakeQuota toWake - (woken + 1) = 0 := by
          simp only [wakeQuota] at below ⊢
          omega
        rw [none, wokeWaiters]
        simp
      · rename_i more
        have later := ih kept (woken + 1) woke.1 woke.2 wokeInside wokeBits wokeWaiters restDistinct
          (by simp only [wakeQuota] at below ⊢; omega)
        rw [later.1, later.2]
        constructor
        · simp only [List.length_cons]
          omega
        · rfl

/-- `move_to_wake_queue` over the whole list of distinct waiters of a futex:
it takes the first `max(1, to_wake)` waiters that match, counts them, and
leaves the others in their order. -/
theorem moveToWakeQueue_waiters {f : Nat} {bitset : UInt32} {toWake : Int} {s : FutexSystem}
    (inside : f < s.futexes.length) (distinct : (s.futex f).waiters.Nodup) :
    let w := (s.futex f).waiters
    let taken := (w.filter (wakeMatches (fun t => (s.thread t).waiter.bitset) bitset)).take
      (wakeQuota toWake)
    (moveToWakeQueue f bitset toWake w 0 [] s).1 = taken.length ∧
      ((moveToWakeQueue f bitset toWake w 0 [] s).2.2.futex f).waiters = w.filter (· ∉ taken) := by
  have spec := @moveToWakeQueue_spec f bitset toWake _ (s.futex f).waiters [] 0 [] s inside
    (fun _ => rfl) rfl distinct (Nat.lt_of_lt_of_le Nat.one_pos (Nat.le_max_left 1 _))
  dsimp only
  simpa using spec

/-! ## The loop of `futex_requeue` -/

/-- The waking passes of `futex_requeue` take the first `min(to_wake, n)`
waiters and leave the rest, and every other futex's list. -/
theorem requeueWake_spec {f : Nat} :
    ∀ (k woken : Nat) (queue : List Nat) (s : FutexSystem), f < s.futexes.length →
      (s.futex f).waiters.Nodup →
      (requeueWake f k woken queue s).1 = woken + min k (s.futex f).waiters.length ∧
        ((requeueWake f k woken queue s).2.2.1.futex f).waiters = (s.futex f).waiters.drop k ∧
        (requeueWake f k woken queue s).2.2.1.futexes.length = s.futexes.length ∧
        ∀ g, g ≠ f → ((requeueWake f k woken queue s).2.2.1.futex g).waiters = (s.futex g).waiters
  | 0, woken, queue, s, _, _ => by simp [requeueWake]
  | k + 1, woken, queue, s, inside, distinct => by
    cases waiters : (s.futex f).waiters with
    | nil => simp [requeueWake, waiters]
    | cons tid rest =>
      set woke := (s.removeFutexWaiter tid f).addThreadToQueue tid queue
      have wokeWaiters : (woke.2.futex f).waiters = rest := by
        simp only [woke, futex_addThreadToQueue, waiters_removeFutexWaiter_self inside, waiters,
          List.erase_cons_head]
      have wokeOthers : ∀ g, g ≠ f → (woke.2.futex g).waiters = (s.futex g).waiters := fun g other => by
        simp only [woke, futex_addThreadToQueue, waiters_removeFutexWaiter_ne (Ne.symm other)]
      have wokeLength : woke.2.futexes.length = s.futexes.length := by simp [woke]
      simp only [requeueWake, waiters]
      split
      · rename_i last
        subst last
        simp only [List.length_singleton, List.drop_succ_cons, List.drop_nil]
        exact ⟨by omega, wokeWaiters, wokeLength, wokeOthers⟩
      · rename_i more
        have later := requeueWake_spec k (woken + 1) woke.1 woke.2 (wokeLength ▸ inside)
          (by rw [wokeWaiters]; exact (List.nodup_cons.mp (waiters ▸ distinct)).2)
        rw [wokeWaiters] at later
        refine ⟨by rw [later.1]; simp; omega, later.2.1, later.2.2.1.trans wokeLength, ?_⟩
        intro g other
        rw [later.2.2.2 g other, wokeOthers g other]

/-- The requeueing passes of `futex_requeue` onto a different futex move the
first `min(to_requeue, n)` waiters, in their order, to its tail. -/
theorem requeueMove_spec {f1 f2 : Nat} (distinctFutexes : f1 ≠ f2) :
    ∀ (k requeued : Nat) (s : FutexSystem), f2 < s.futexes.length →
      (requeueMove f1 f2 k requeued s).1 = requeued + min k (s.futex f1).waiters.length ∧
        ((requeueMove f1 f2 k requeued s).2.futex f1).waiters = (s.futex f1).waiters.drop k ∧
        ((requeueMove f1 f2 k requeued s).2.futex f2).waiters =
          (s.futex f2).waiters ++ (s.futex f1).waiters.take k
  | 0, requeued, s, _ => by simp [requeueMove]
  | k + 1, requeued, s, inside => by
    cases waiters : (s.futex f1).waiters with
    | nil => simp [requeueMove, waiters]
    | cons tid rest =>
      have source : f1 < s.futexes.length := lt_length_of_waiters (by simp [waiters])
      set moved := s.moveFutexWaiter tid f1 f2
      have movedSource : (moved.futex f1).waiters = rest := by
        simp only [moved, waiters_moveFutexWaiter_ne (Ne.symm distinctFutexes),
          waiters_removeFutexWaiter_self source, waiters, List.erase_cons_head]
      have movedTarget : (moved.futex f2).waiters = (s.futex f2).waiters ++ [tid] := by
        simp only [moved, waiters_moveFutexWaiter inside,
          waiters_removeFutexWaiter_ne distinctFutexes]
      simp only [requeueMove, waiters]
      split
      · rename_i last
        subst last
        simp only [List.length_singleton, List.drop_succ_cons, List.drop_nil, List.take_succ_cons,
          List.take_nil]
        exact ⟨by omega, movedSource, movedTarget⟩
      · have later := requeueMove_spec distinctFutexes k (requeued + 1) moved (by simpa [moved] using inside)
        rw [movedSource, movedTarget] at later
        refine ⟨by rw [later.1]; simp; omega, later.2.1, ?_⟩
        rw [later.2.2, List.take_succ_cons, List.append_assoc, List.singleton_append]

/-- Requeueing a futex onto itself: each pass moves the first waiter to the
tail of the same list, so while two waiters or more are there every pass
counts one, and the list rotates. -/
theorem requeueMove_self {f : Nat} :
    ∀ (k requeued : Nat) (s : FutexSystem), 2 ≤ (s.futex f).waiters.length →
      (requeueMove f f k requeued s).1 = requeued + k ∧
        ((requeueMove f f k requeued s).2.futex f).waiters = (s.futex f).waiters.rotate k
  | 0, requeued, s, _ => by simp [requeueMove]
  | k + 1, requeued, s, many => by
    cases waiters : (s.futex f).waiters with
    | nil => simp [waiters] at many
    | cons tid rest =>
      have inside : f < s.futexes.length := lt_length_of_waiters (by simp [waiters])
      have moved : ((s.moveFutexWaiter tid f f).futex f).waiters = rest ++ [tid] := by
        simp only [waiters_moveFutexWaiter inside, waiters_removeFutexWaiter_self inside, waiters,
          List.erase_cons_head]
      have restNonempty : rest ≠ [] := by
        rintro rfl
        simp [waiters] at many
      simp only [requeueMove, waiters, if_neg restNonempty]
      have later := requeueMove_self k (requeued + 1) (s.moveFutexWaiter tid f f)
        (by rw [moved]; simpa [waiters] using many)
      rw [moved] at later
      refine ⟨by rw [later.1]; omega, ?_⟩
      rw [later.2, List.rotate_cons_succ]

/-! ## A requeue onto the same futex -/

/-- Threads 1 and 2 wait on the word at 0, then thread 0 requeues that futex
onto itself, waking none and requeueing up to three waiters. -/
def requeueOntoItself : List FutexOp :=
  [.wait 1 0 0 false 0xffffffff, .run 1, .run 1, .run 1,
    .run 1, .wait 2 0 0 false 0xffffffff, .run 2, .run 2,
    .requeue 0 0 0 0 3 (some 0), .run 0, .run 0, .run 0]

/-- The requeue answers three, with two waiters on the futex, and leaves them
in the other order. -/
theorem futexRequeue_onto_itself_counts_passes :
    ∃ s, futexSteps requeueOntoItself (.initial 3 [0]) = some s ∧ FutexReach s ∧
      (s.futex 0).waiters = [2, 1] ∧ (s.thread 0).pc = .returned 3 := by
  obtain ⟨s, run⟩ : ∃ s, futexSteps requeueOntoItself (.initial 3 [0]) = some s := ⟨_, rfl⟩
  have observed : (futexSteps requeueOntoItself (.initial 3 [0])).map
      (fun s => ((s.futex 0).waiters, (s.thread 0).pc)) = some ([2, 1], .returned 3) := by
    decide
  rw [run, Option.map_some, Option.some.injEq, Prod.mk.injEq] at observed
  exact ⟨s, run, FutexReach.steps (.initial 3 [0]) run, observed⟩

end Gramine.LibOS
