import Mathlib
import Gramine.Common.Errno

/-!
# Emulated eventfds

In emulate-in-libos mode (`eventfd/fs.c`, `libos_eventfd.c`) the LibOS keeps
an eventfd's counter `val` itself, and uses an eventfd of the host only as a
doorbell for readers and pollers that must sleep: a write adds to `val`, bumps
`dummy_host_val` and writes 1 to the host; a read takes from `val` and, when
`dummy_host_val` is not zero, reads the host's eventfd, which takes its whole
count, and sets `dummy_host_val` to zero. A reader that finds `val` zero drops
the spinlock and sleeps in `PalStreamsWaitEvents` until the host's eventfd is
readable. The host's eventfd has no `EFD_SEMAPHORE`, so a read of it takes its
whole count.

Each pass under the spinlock is atomic, so a run is a sequence of such passes
by any threads (`EventfdOp`), with a sleeping reader woken when the host's
count is positive or by an interruption. The counters are `uint64_t`; the
theorems show that they stay below `2^64`. Passthrough mode, the checks of a
handle inherited by a child, the failures of handle creation and epoll's
edge triggers are left out.
-/

namespace Gramine.LibOS.Fs

/-- `UINT64_MAX`. -/
def UINT64_MAX : Nat := 2 ^ 64 - 1

/-- `EFD_SEMAPHORE`. -/
def EFD_SEMAPHORE : UInt32 := 0x1

/-- `EFD_NONBLOCK`, which is `O_NONBLOCK`. -/
def EFD_NONBLOCK : UInt32 := 0o4000

/-- `hdl->info.eventfd`, the handle's `O_NONBLOCK`, and the count of the
host's eventfd. -/
structure Eventfd where
  val : Nat
  dummyHostVal : Nat
  isSemaphore : Bool
  nonblock : Bool
  hostVal : Nat
  deriving DecidableEq, Repr

/-- `libos_syscall_eventfd2(count, flags)` in emulate-in-libos mode: the host's
eventfd is created with the count `dummy_host_val`, zero, and no flags. -/
def eventfd2 (count : UInt32) (flags : UInt32) : Eventfd :=
  { val := count.toNat, dummyHostVal := 0, isSemaphore := flags &&& EFD_SEMAPHORE != 0,
    nonblock := flags &&& EFD_NONBLOCK != 0, hostVal := 0 }

/-- `eventfd_dummy_host_read`: the read takes the host's whole count. -/
def dummyHostRead (e : Eventfd) : Eventfd := { e with hostVal := 0 }

/-- `eventfd_dummy_host_write`: writes 1 to the host's eventfd. -/
def dummyHostWrite (e : Eventfd) : Eventfd := { e with hostVal := e.hostVal + 1 }

/-- How a pass of `eventfd_read` ends. -/
inductive ReadOutcome
  /-- the value copied to the buffer; the call returns `count` -/
  | value (v : Nat)
  | eagain
  | einval
  /-- the spinlock is dropped and the thread sleeps in `eventfd_dummy_host_wait` -/
  | block
  deriving DecidableEq, Repr

/-- One pass of eventfd_read's loop under the spinlock. -/
def readPass (e : Eventfd) : ReadOutcome × Eventfd :=
  if e.val = 0 then (if e.nonblock then .eagain else .block, e)
  else
    let taken : Nat × Eventfd :=
      if !e.isSemaphore then (e.val, { e with val := 0 }) else (1, { e with val := e.val - 1 })
    -- a read of the host clears it for pollers and lets writers go on
    let e := if taken.2.dummyHostVal ≠ 0 then { dummyHostRead taken.2 with dummyHostVal := 0 } else taken.2
    (.value taken.1, e)

/-- `eventfd_read(hdl, buf, count, pos)` in emulate-in-libos mode, up to its
first pass; a woken reader makes another pass. -/
def eventfdRead (count : Nat) (e : Eventfd) : ReadOutcome × Eventfd :=
  if count < 8 then (.einval, e) else readPass e

/-- How a pass of `eventfd_write` ends. -/
inductive WriteOutcome
  /-- the call returns `count` -/
  | written
  | eagain
  | einval
  /-- the spinlock is dropped, the thread yields and makes another pass -/
  | busy
  /-- `BUG()` -/
  | bug
  deriving DecidableEq, Repr

/-- One pass of eventfd_write's loop under the spinlock, for a value that
passed the checks. `__builtin_add_overflow(val, v, &val) || val > UINT64_MAX - 1`
is, over the naturals, a sum above `UINT64_MAX - 1`. -/
def writePass (v : Nat) (e : Eventfd) : WriteOutcome × Eventfd :=
  if e.val + v > UINT64_MAX - 1 then (if e.nonblock then .eagain else .busy, e)
  else if e.dummyHostVal ≥ UINT64_MAX - 1 then (.bug, e)
  else (.written, dummyHostWrite { e with val := e.val + v, dummyHostVal := e.dummyHostVal + 1 })

/-- `eventfd_write(hdl, buf, count, pos)` in emulate-in-libos mode, `v` being
the value in the buffer. -/
def eventfdWrite (count : Nat) (v : UInt64) (e : Eventfd) : WriteOutcome × Eventfd :=
  if count ≠ 8 then (.einval, e)
  else if v.toNat = UINT64_MAX then (.einval, e)
  else if v = 0 then (.written, e)
  else writePass v.toNat e

/-- `eventfd_post_poll`: which of the read and write events the host reported
the poll passes on. -/
def eventfdPostPoll (e : Eventfd) (readReady writeReady : Bool) : Bool × Bool :=
  (readReady && e.val ≠ 0, writeReady && !(e.val ≥ UINT64_MAX - 1))

/-! ## Runs -/

/-- The eventfd and the threads asleep in `eventfd_dummy_host_wait`. -/
structure EventfdSystem where
  eventfd : Eventfd
  waiting : Nat → Bool

/-- What a thread does next. -/
inductive EventfdOp
  /-- a pass of `eventfd_read` with `count`, by a thread that is not asleep -/
  | read (t count : Nat)
  /-- the host's eventfd is readable and wakes a sleeping reader, which will
  make another pass -/
  | wake (t : Nat)
  /-- `PalStreamsWaitEvents` returns `PAL_ERROR_INTERRUPTED` -/
  | interrupt (t : Nat)
  /-- a pass of `eventfd_write` -/
  | write (t count : Nat) (v : UInt64)
  deriving DecidableEq, Repr

/-- One step; `none` when the thread cannot take it. -/
def eventfdStep (s : EventfdSystem) : EventfdOp → Option EventfdSystem
  | .read t count =>
    if s.waiting t then none
    else
      match eventfdRead count s.eventfd with
      | (.block, e) => some { eventfd := e, waiting := Function.update s.waiting t true }
      | (_, e) => some { s with eventfd := e }
  | .wake t =>
    if s.waiting t ∧ 0 < s.eventfd.hostVal then some { s with waiting := Function.update s.waiting t false }
    else none
  | .interrupt t => if s.waiting t then some { s with waiting := Function.update s.waiting t false } else none
  | .write t count v => if s.waiting t then none else some { s with eventfd := (eventfdWrite count v s.eventfd).2 }

/-- A run of steps; `none` when one of them cannot be taken. -/
def eventfdRun (s : EventfdSystem) : List EventfdOp → Option EventfdSystem
  | [] => some s
  | op :: ops =>
    match eventfdStep s op with
    | none => none
    | some s => eventfdRun s ops

/-- The states reachable from `eventfd2(count, flags)`. -/
def EventfdReachable (count flags : UInt32) (s : EventfdSystem) : Prop :=
  ∃ ops, eventfdRun ⟨eventfd2 count flags, fun _ => false⟩ ops = some s

/-! ## The passes -/

section Passes

variable {e : Eventfd}

/-- A read of a positive counter takes all of it, or one in semaphore mode,
and clears the host's count and `dummy_host_val`. -/
theorem readPass_of_pos (pos : 0 < e.val) :
    readPass e = (.value (if e.isSemaphore then 1 else e.val),
      { e with val := if e.isSemaphore then e.val - 1 else 0, dummyHostVal := 0,
               hostVal := if e.dummyHostVal ≠ 0 then 0 else e.hostVal }) := by
  unfold readPass dummyHostRead
  rw [if_neg (Nat.pos_iff_ne_zero.mp pos)]
  cases e with
  | mk val dummyHostVal isSemaphore nonblock hostVal =>
    cases isSemaphore <;> by_cases rung : dummyHostVal = 0 <;> simp [rung] at pos ⊢

theorem readPass_of_zero (zero : e.val = 0) :
    readPass e = (if e.nonblock then .eagain else .block, e) := by
  unfold readPass
  rw [if_pos zero]

theorem writePass_of_fits {v : Nat} (fits : e.val + v ≤ UINT64_MAX - 1) (room : e.dummyHostVal < UINT64_MAX - 1) :
    writePass v e = (.written,
      { e with val := e.val + v, dummyHostVal := e.dummyHostVal + 1, hostVal := e.hostVal + 1 }) := by
  unfold writePass dummyHostWrite
  rw [if_neg (Nat.not_lt.mpr fits), if_neg (Nat.not_le.mpr room)]

theorem writePass_of_full {v : Nat} (full : UINT64_MAX - 1 < e.val + v) :
    writePass v e = (if e.nonblock then .eagain else .busy, e) := by
  unfold writePass
  rw [if_pos full]

end Passes

/-! ## What every pass keeps -/

/-- What every pass keeps: the host's count is `dummy_host_val`, which is at
most the counter, and the counter stays below `UINT64_MAX`. -/
structure EventfdInv (e : Eventfd) : Prop where
  host : e.hostVal = e.dummyHostVal
  rung : e.dummyHostVal ≤ e.val
  bounded : e.val ≤ UINT64_MAX - 1

section Inv

variable {e : Eventfd}

theorem EventfdInv.eventfd2 (count flags : UInt32) : EventfdInv (eventfd2 count flags) where
  host := rfl
  rung := Nat.zero_le _
  bounded := by
    have small := count.toNat_lt
    show count.toNat ≤ 2 ^ 64 - 1 - 1
    omega

theorem EventfdInv.of_readPass (inv : EventfdInv e) : EventfdInv (readPass e).2 := by
  by_cases zero : e.val = 0
  · rw [readPass_of_zero zero]
    exact inv
  · rw [readPass_of_pos (Nat.pos_of_ne_zero zero)]
    have bounded := inv.bounded
    constructor
    · by_cases rung : e.dummyHostVal = 0 <;> simp only [rung, ne_eq, not_true_eq_false, not_false_eq_true,
        if_true, if_false, inv.host]
    · exact Nat.zero_le _
    · dsimp only
      split_ifs <;> omega

/-- A write pass never reaches `BUG()`: `dummy_host_val` is at most the
counter, which a write leaves below `UINT64_MAX`. -/
theorem EventfdInv.of_writePass {v : Nat} (inv : EventfdInv e) (positive : 0 < v) :
    (writePass v e).1 ≠ .bug ∧ EventfdInv (writePass v e).2 := by
  have host := inv.host
  have rung := inv.rung
  by_cases full : UINT64_MAX - 1 < e.val + v
  · rw [writePass_of_full full]
    exact ⟨by dsimp only; split_ifs <;> simp only [ne_eq, reduceCtorEq, not_false_eq_true], inv⟩
  · have fits : e.val + v ≤ UINT64_MAX - 1 := Nat.not_lt.mp full
    rw [writePass_of_fits fits (by omega)]
    exact ⟨by simp only [ne_eq, reduceCtorEq, not_false_eq_true],
      ⟨by simp only [host], by simp only; omega, fits⟩⟩

theorem EventfdInv.of_eventfdRead (inv : EventfdInv e) (count : Nat) : EventfdInv (eventfdRead count e).2 := by
  unfold eventfdRead
  split_ifs
  · exact inv
  · exact inv.of_readPass

theorem EventfdInv.of_eventfdWrite (inv : EventfdInv e) (count : Nat) (v : UInt64) :
    EventfdInv (eventfdWrite count v e).2 := by
  unfold eventfdWrite
  split_ifs with badCount isMax isZero
  · exact inv
  · exact inv
  · exact inv
  · have positive : 0 < v.toNat := Nat.pos_of_ne_zero fun zero => isZero (UInt64.toNat_inj.mp zero)
    exact (inv.of_writePass positive).2

/-! ### The calls, as Linux has them -/

/-- A read of at least eight bytes from a positive counter returns all of it,
and clears it, or returns one and takes one in semaphore mode. -/
theorem eventfdRead_of_pos {count : Nat} (large : 8 ≤ count) (pos : 0 < e.val) :
    (eventfdRead count e).1 = .value (if e.isSemaphore then 1 else e.val) ∧
      (eventfdRead count e).2.val = if e.isSemaphore then e.val - 1 else 0 := by
  rw [eventfdRead, if_neg (Nat.not_lt.mpr large), readPass_of_pos pos]
  exact ⟨rfl, rfl⟩

/-- A write of a positive value that fits adds it. -/
theorem eventfdWrite_of_fits (inv : EventfdInv e) {v : UInt64} (positive : 0 < v.toNat)
    (fits : e.val + v.toNat ≤ UINT64_MAX - 1) :
    (eventfdWrite 8 v e).1 = .written ∧ (eventfdWrite 8 v e).2.val = e.val + v.toNat := by
  have rung := inv.rung
  have notMax : v.toNat ≠ UINT64_MAX := by
    unfold UINT64_MAX at fits ⊢
    omega
  have notZero : v ≠ 0 := fun zero => Nat.ne_of_gt positive (by rw [zero]; rfl)
  rw [eventfdWrite, if_neg (by decide), if_neg notMax, if_neg notZero, writePass_of_fits fits (by omega)]
  exact ⟨rfl, rfl⟩

/-- A write of a value that does not fit leaves the eventfd alone, and the
caller retries or gets EAGAIN. -/
theorem eventfdWrite_of_full {v : UInt64} (positive : 0 < v.toNat) (below : v.toNat < UINT64_MAX)
    (full : UINT64_MAX - 1 < e.val + v.toNat) :
    eventfdWrite 8 v e = (if e.nonblock then .eagain else .busy, e) := by
  have notZero : v ≠ 0 := fun zero => Nat.ne_of_gt positive (by rw [zero]; rfl)
  rw [eventfdWrite, if_neg (by decide), if_neg (Nat.ne_of_lt below), if_neg notZero, writePass_of_full full]

end Inv

/-- What a step does to the eventfd: a read pass, a write pass, or nothing. -/
theorem eventfdStep_eventfd {s s' : EventfdSystem} {op : EventfdOp} (step : eventfdStep s op = some s') :
    (∃ t count, op = .read t count ∧ s'.eventfd = (eventfdRead count s.eventfd).2) ∨
      (∃ t count v, op = .write t count v ∧ s'.eventfd = (eventfdWrite count v s.eventfd).2) ∨
      s'.eventfd = s.eventfd := by
  cases op with
  | read t count =>
    simp only [eventfdStep] at step
    split_ifs at step
    generalize readEq : eventfdRead count s.eventfd = r at step
    obtain ⟨outcome, e⟩ := r
    refine .inl ⟨t, count, rfl, ?_⟩
    cases outcome <;> simp only [Option.some.injEq] at step <;> subst step <;> rw [readEq]
  | wake t =>
    simp only [eventfdStep] at step
    split_ifs at step
    exact .inr (.inr (by rw [← Option.some.inj step]))
  | interrupt t =>
    simp only [eventfdStep] at step
    split_ifs at step
    exact .inr (.inr (by rw [← Option.some.inj step]))
  | write t count v =>
    simp only [eventfdStep] at step
    split_ifs at step
    exact .inr (.inl ⟨t, count, v, rfl, by rw [← Option.some.inj step]⟩)

/-- Every reachable state keeps the invariant. -/
theorem eventfdRun_inv : ∀ (ops : List EventfdOp) (s s' : EventfdSystem),
    EventfdInv s.eventfd → eventfdRun s ops = some s' → EventfdInv s'.eventfd
  | [], s, s', inv, run => by
    simp only [eventfdRun, Option.some.injEq] at run
    exact run ▸ inv
  | op :: ops, s, s', inv, run => by
    simp only [eventfdRun] at run
    cases step : eventfdStep s op with
    | none => simp only [step, reduceCtorEq] at run
    | some s₁ =>
      rw [step] at run
      apply eventfdRun_inv ops s₁ s' _ run
      rcases eventfdStep_eventfd step with ⟨t, count, -, read⟩ | ⟨t, count, v, -, write⟩ | same
      · exact read ▸ inv.of_eventfdRead count
      · exact write ▸ inv.of_eventfdWrite count v
      · exact same ▸ inv

theorem EventfdReachable.inv {count flags : UInt32} {s : EventfdSystem}
    (reached : EventfdReachable count flags s) : EventfdInv s.eventfd := by
  obtain ⟨ops, run⟩ := reached
  exact eventfdRun_inv ops _ s (EventfdInv.eventfd2 count flags) run

/-! ## A sleeping reader and a silent host -/

/-- The operations that neither write nor interrupt thread `t`. -/
def EventfdOp.quietFor (t : Nat) : EventfdOp → Bool
  | .write .. => false
  | .interrupt u => u != t
  | _ => true

theorem eventfdRead_hostVal_le (count : Nat) (e : Eventfd) : (eventfdRead count e).2.hostVal ≤ e.hostVal := by
  unfold eventfdRead
  split_ifs
  · exact Nat.le_refl _
  · by_cases zero : e.val = 0
    · simp only [readPass_of_zero zero, Nat.le_refl]
    · rw [readPass_of_pos (Nat.pos_of_ne_zero zero)]
      dsimp only
      split_ifs <;> omega

/-- While the host's count is zero, a sleeping reader stays asleep through any
step that neither writes nor interrupts it, and the host's count stays zero. -/
theorem eventfdStep_quiet {s s' : EventfdSystem} {op : EventfdOp} {t : Nat} (quiet : op.quietFor t = true)
    (asleep : s.waiting t = true) (silent : s.eventfd.hostVal = 0) (step : eventfdStep s op = some s') :
    s'.waiting t = true ∧ s'.eventfd.hostVal = 0 := by
  cases op with
  | read u count =>
    cases awake : s.waiting u with
    | true => simp only [eventfdStep, awake, if_true, reduceCtorEq] at step
    | false =>
      have other : u ≠ t := by
        rintro rfl
        rw [asleep] at awake
        cases awake
      simp only [eventfdStep, awake, Bool.false_eq_true, if_false] at step
      have cleared := eventfdRead_hostVal_le count s.eventfd
      generalize readEq : eventfdRead count s.eventfd = r at step cleared
      obtain ⟨outcome, e⟩ := r
      cases outcome <;> simp only [Option.some.injEq] at step <;> subst step <;>
        exact ⟨by simp only [Function.update_of_ne other.symm, asleep], by simp only at cleared ⊢; omega⟩
  | wake u =>
    simp only [eventfdStep, silent, Nat.lt_irrefl, and_false, if_false, reduceCtorEq] at step
  | interrupt u =>
    have other : u ≠ t := by simpa only [EventfdOp.quietFor, bne_iff_ne, ne_eq] using quiet
    simp only [eventfdStep] at step
    split_ifs at step
    rw [← Option.some.inj step]
    exact ⟨by simp only [Function.update_of_ne other.symm, asleep], silent⟩
  | write u count v => simp only [EventfdOp.quietFor, Bool.false_eq_true] at quiet

theorem eventfdRun_quiet {t : Nat} : ∀ (ops : List EventfdOp) (s s' : EventfdSystem),
    (∀ op ∈ ops, op.quietFor t = true) → s.waiting t = true → s.eventfd.hostVal = 0 →
    eventfdRun s ops = some s' → s'.waiting t = true ∧ s'.eventfd.hostVal = 0
  | [], s, s', _, asleep, silent, run => by
    simp only [eventfdRun, Option.some.injEq] at run
    exact run ▸ ⟨asleep, silent⟩
  | op :: ops, s, s', quiet, asleep, silent, run => by
    simp only [eventfdRun] at run
    cases step : eventfdStep s op with
    | none => simp only [step, reduceCtorEq] at run
    | some s₁ =>
      rw [step] at run
      obtain ⟨asleep₁, silent₁⟩ := eventfdStep_quiet (quiet op List.mem_cons_self) asleep silent step
      exact eventfdRun_quiet ops s₁ s' (fun op' later => quiet op' (List.mem_cons_of_mem op later))
        asleep₁ silent₁ run

/-- Linux's semantics of reads and writes hold, and the host's count is
`dummy_host_val` whenever the spinlock is free, but a positive counter does
not imply a positive `dummy_host_val`: creation with a count does not ring the
host, and in semaphore mode a read that leaves the counter positive clears the
host all the same. A reader asleep on an empty semaphore, a write of two that
rings the host once and a read by another thread that takes one and clears the
host leave the sleeper asleep over a counter of one, and nothing but a write or
an interruption wakes it. -/
theorem eventfd_loses_wakeup :
    (∀ (e : Eventfd) (count : Nat), 8 ≤ count → 0 < e.val →
      (eventfdRead count e).1 = .value (if e.isSemaphore then 1 else e.val) ∧
        (eventfdRead count e).2.val = if e.isSemaphore then e.val - 1 else 0) ∧
    (∀ count flags s, EventfdReachable count flags s → ∀ v : UInt64, 0 < v.toNat → v.toNat < UINT64_MAX →
      (s.eventfd.val + v.toNat ≤ UINT64_MAX - 1 →
        (eventfdWrite 8 v s.eventfd).1 = .written ∧ (eventfdWrite 8 v s.eventfd).2.val = s.eventfd.val + v.toNat) ∧
      (UINT64_MAX - 1 < s.eventfd.val + v.toNat →
        eventfdWrite 8 v s.eventfd = (if s.eventfd.nonblock then .eagain else .busy, s.eventfd))) ∧
    (∀ count flags s, EventfdReachable count flags s → s.eventfd.hostVal = s.eventfd.dummyHostVal) ∧
    ((eventfd2 1 0).val = 1 ∧ (eventfd2 1 0).dummyHostVal = 0) ∧
    ∃ s, EventfdReachable 0 EFD_SEMAPHORE s ∧ s.waiting 1 = true ∧ s.eventfd.val = 1 ∧
      ∀ ops s', (∀ op ∈ ops, op.quietFor 1 = true) → eventfdRun s ops = some s' → s'.waiting 1 = true := by
  refine ⟨fun e count large pos => eventfdRead_of_pos large pos, ?writes, ?host, ⟨rfl, rfl⟩, ?lost⟩
  case writes =>
    intro count flags s reached v positive below
    exact ⟨eventfdWrite_of_fits reached.inv positive, eventfdWrite_of_full positive below⟩
  case host => exact fun count flags s reached => reached.inv.host
  case lost =>
    let lost : EventfdSystem :=
      ⟨{ val := 1, dummyHostVal := 0, isSemaphore := true, nonblock := false, hostVal := 0 },
        Function.update (fun _ => false) 1 true⟩
    have run : eventfdRun ⟨eventfd2 0 EFD_SEMAPHORE, fun _ => false⟩
        [.read 1 8, .write 2 8 2, .read 3 8] = some lost := rfl
    have asleep : lost.waiting 1 = true := by simp only [lost, Function.update_self]
    refine ⟨lost, ⟨_, run⟩, asleep, rfl, fun ops s' quiet later => ?_⟩
    exact (eventfdRun_quiet ops lost s' quiet asleep rfl later).1

/-- Right after creation with a count of one, the host's count and
`dummy_host_val` agree, both zero. -/
theorem eventfd_loses_wakeup_created :
    (eventfd2 1 0).hostVal = (eventfd2 1 0).dummyHostVal :=
  eventfd_loses_wakeup.2.2.1 1 0 _ ⟨[], rfl⟩

end Gramine.LibOS.Fs
