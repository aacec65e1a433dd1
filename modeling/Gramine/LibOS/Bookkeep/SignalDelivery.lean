import Mathlib
import Gramine.LibOS.Bookkeep.SignalQueue
/-!
# What the signal queues deliver

Above the queues of `libos_signal.c` stands what they are for: per signal
number a list of signals, oldest first, on the thread's side and on the
process's. An append puts a signal at the back of its number's list when that
list has room (`appendHeld`: one standard signal, `MAX_SIGNAL_LOG` real-time
ones); a pop takes the oldest signal of the lowest number that is not masked
and that either side holds, the thread's before the process's.

`SignalState.Inv` ties the state the code keeps to those lists: both queues
are well formed (so `pending_mask` has a number's bit exactly when the queue
holds a signal of it) and each counter is the number of signals its queue
holds. Every call keeps it and returns what the lists return, so every run of
`append_thread_signal`, `append_process_signal` and `pop_unblocked_signal`
from the zeroed queues is a run of the lists.
-/

namespace Gramine.LibOS.Signal

variable {α : Type}

/-! ## The lists of signals -/

/-- Per number, the signals the thread's queue and the process's hold,
oldest first. -/
structure HeldSignals (α : Type) where
  thread : Nat → List (LibosSignal α)
  process : Nat → List (LibosSignal α)

namespace HeldSignals

def empty : HeldSignals α := ⟨fun _ => [], fun _ => []⟩

/-- Whether a pop takes a signal of the number `sig`: it is not masked and
either side holds one. -/
def pending (h : HeldSignals α) (mask : Nat → Bool) (sig : Nat) : Bool :=
  !mask sig && (!(h.thread sig).isEmpty || !(h.process sig).isEmpty)

/-- The oldest signal of the number `sig`, the thread's before the process's. -/
def take (h : HeldSignals α) (sig : Nat) : Option (LibosSignal α) × HeldSignals α :=
  match h.thread sig, h.process sig with
  | c :: rest, _ => (some c, { h with thread := Function.update h.thread sig rest })
  | [], c :: rest => (some c, { h with process := Function.update h.process sig rest })
  | [], [] => (none, h)

/-- A pop over the numbers `sigs`, in their order. -/
def popFrom (h : HeldSignals α) (mask : Nat → Bool) (sigs : List Nat) :
    Option (LibosSignal α) × HeldSignals α :=
  match sigs.find? (h.pending mask) with
  | none => (none, h)
  | some sig => h.take sig

/-- A pop: the lowest number from 1 to `SIGS_CNT`. -/
def pop (h : HeldSignals α) (mask : Nat → Bool) : Option (LibosSignal α) × HeldSignals α :=
  h.popFrom mask (List.range' 1 SIGS_CNT)

attribute [grind] pending take popFrom

theorem popFrom_cons (h : HeldSignals α) (mask : Nat → Bool) (sig : Nat) (sigs : List Nat) :
    h.popFrom mask (sig :: sigs) = if h.pending mask sig then h.take sig else h.popFrom mask sigs := by
  unfold popFrom
  rw [List.find?_cons]
  cases h.pending mask sig <;> rfl

theorem take_of_thread_cons {h : HeldSignals α} {c : LibosSignal α} {rest : List (LibosSignal α)}
    (thread : h.thread sig = c :: rest) :
    h.take sig = (some c, { h with thread := Function.update h.thread sig rest }) := by
  unfold take
  rw [thread]

theorem take_of_process_cons {h : HeldSignals α} {c : LibosSignal α} {rest : List (LibosSignal α)}
    (thread : h.thread sig = []) (process : h.process sig = c :: rest) :
    h.take sig = (some c, { h with process := Function.update h.process sig rest }) := by
  unfold take
  rw [thread, process]

end HeldSignals

/-- What a call returns: whether an append stored its signal, or the signal a
pop took (`none` is `si_signo = 0`). -/
inductive SignalResult (α : Type) where
  | appended (stored : Bool)
  | popped (signal : Option (LibosSignal α))

/-- The calls on the queues of one thread and of the process. -/
inductive SignalOp (α : Type) where
  | appendThread (signal : LibosSignal α)
  | appendProcess (signal : LibosSignal α)
  | popUnblocked (mask : Nat → Bool)

/-- What a call does to the lists. -/
def SignalOp.spec : SignalOp α → HeldSignals α → SignalResult α × HeldSignals α
  | .appendThread signal, h =>
    let (ret, thread) := appendHeld h.thread signal
    (.appended ret, { h with thread := thread })
  | .appendProcess signal, h =>
    let (ret, process) := appendHeld h.process signal
    (.appended ret, { h with process := process })
  | .popUnblocked mask, h =>
    let (signal, h) := h.pop mask
    (.popped signal, h)

/-- What a call does to the state the code keeps. -/
def SignalOp.exec : SignalOp α → SignalState α → SignalResult α × SignalState α
  | .appendThread signal, st =>
    let (ret, st) := appendThreadSignal st signal
    (.appended ret, st)
  | .appendProcess signal, st =>
    let (ret, st) := appendProcessSignal st signal
    (.appended ret, st)
  | .popUnblocked mask, st =>
    let (signal, st) := popUnblockedSignal mask st
    (.popped signal, st)

/-! ## The state the code keeps -/

/-- The signals a queue holds, all numbers together. -/
def SignalQueue.count (q : SignalQueue α) : Nat :=
  ∑ sig ∈ Finset.Icc 1 SIGS_CNT, (q.held sig).length

def SignalState.held (st : SignalState α) : HeldSignals α :=
  ⟨st.threadQueue.held, st.processQueue.held⟩

/-- Both queues are well formed and each counter is the number of signals its
queue holds. -/
structure SignalState.Inv (st : SignalState α) : Prop where
  thread : st.threadQueue.Ok
  process : st.processQueue.Ok
  threadCount : st.pendingSignals = st.threadQueue.count
  processCount : st.processPendingSignalsCnt = st.processQueue.count

/-- The queues as zeroed memory leaves them: no bit set, every slot's
`si_signo` 0, every ring's indices 0. -/
def SignalQueue.empty (blank : α) : SignalQueue α :=
  ⟨fun _ => false, fun _ => ⟨0, blank⟩, fun _ => ⟨0, 0, fun _ => none⟩⟩

def SignalState.initial (blank : α) : SignalState α :=
  ⟨.empty blank, 0, .empty blank, 0⟩

attribute [grind] SignalOp.spec SignalOp.exec SignalQueue.count SignalState.held SignalQueue.empty

section Count

variable {q q' : SignalQueue α} {sig : Nat} {l : List (LibosSignal α)}

/-- Changing the signals of one number changes the count by the difference. -/
theorem SignalQueue.count_update (low : 1 ≤ sig) (high : sig ≤ SIGS_CNT)
    (held : q'.held = Function.update q.held sig l) :
    q'.count + (q.held sig).length = q.count + l.length := by
  have mem : sig ∈ Finset.Icc 1 SIGS_CNT := Finset.mem_Icc.mpr ⟨low, high⟩
  have lengths : ∀ other, (q'.held other).length =
      Function.update (fun other => (q.held other).length) sig l.length other := by
    intro other
    rw [held]
    by_cases same : other = sig
    · subst same
      simp only [Function.update_self]
    · simp only [Function.update_of_ne same]
  unfold SignalQueue.count
  simp only [lengths]
  rw [Finset.sum_update_of_mem mem, Finset.sum_eq_add_sum_sdiff_singleton_of_mem mem]
  omega

/-- A queue that holds nothing of any number. -/
theorem SignalQueue.held_eq_nil_of_count (none : q.count = 0) (sig : Nat) : q.held sig = [] := by
  by_cases outside : sig < 1 ∨ SIGS_CNT < sig
  · exact held_of_outside outside
  · have mem : sig ∈ Finset.Icc 1 SIGS_CNT := Finset.mem_Icc.mpr (by omega)
    exact List.eq_nil_of_length_eq_zero (Finset.sum_eq_zero_iff.mp none sig mem)

end Count

theorem SignalQueue.held_empty (blank : α) : (SignalQueue.empty blank).held = fun _ => [] := by
  funext sig
  have vacant : hasStandardSignal ((SignalQueue.empty blank).standardSignals (sig - 1)) = false := rfl
  unfold SignalQueue.held
  simp only [vacant, Bool.false_eq_true, if_false]
  split_ifs <;> rfl

theorem SignalQueue.ok_empty (blank : α) : (SignalQueue.empty blank).Ok := by
  refine ⟨fun sig => ?_, fun sig => ?_, fun sig _ _ => ⟨Nat.le_refl 0, Nat.zero_le _, fun i lt => ?_⟩⟩
  · rw [SignalQueue.held_empty]
    simp [SignalQueue.empty]
  · simp [SignalQueue.held_empty]
  · exact absurd lt (Nat.not_lt_zero i)

theorem SignalState.inv_initial (blank : α) : (SignalState.initial blank).Inv := by
  have none : (SignalQueue.empty blank).count = 0 := by
    simp [SignalQueue.count, SignalQueue.held_empty]
  exact ⟨SignalQueue.ok_empty blank, SignalQueue.ok_empty blank, none.symm, none.symm⟩

/-! ## The calls keep the invariant and compute the lists -/

section Calls

variable {st : SignalState α} {q : SignalQueue α} {signal : LibosSignal α}

/-- An append that stores its signal raises the count by one; one that fails
leaves it. -/
theorem count_queueAppendSignal (ok : q.Ok) :
    (queueAppendSignal q signal).2.count = q.count + if (queueAppendSignal q signal).1 then 1 else 0 := by
  obtain ⟨spec, _⟩ := @queueAppendSignal_spec _ _ signal ok
  unfold appendHeld at spec
  split at spec
  · rename_i room
    obtain ⟨stored, held⟩ := Prod.mk.inj spec
    have count := SignalQueue.count_update room.1 room.2.1 held
    rw [List.length_append, List.length_singleton] at count
    rw [stored, if_pos rfl]
    omega
  · obtain ⟨failed, held⟩ := Prod.mk.inj spec
    rw [failed]
    simp only [SignalQueue.count, held, Bool.false_eq_true, if_false, Nat.add_zero]

/-- Taking the oldest signal of a number lowers the count by one. -/
theorem count_pop {q' : SignalQueue α} {sig : Nat} {c : LibosSignal α} {rest : List (LibosSignal α)}
    (low : 1 ≤ sig) (high : sig ≤ SIGS_CNT) (held : q.held sig = c :: rest)
    (popped : q'.held = Function.update q.held sig rest) : q'.count = q.count - 1 := by
  have count := SignalQueue.count_update low high popped
  rw [held, List.length_cons] at count
  omega

theorem exec_appendThread_refines (inv : st.Inv) :
    ((SignalOp.appendThread signal).exec st).1 = ((SignalOp.appendThread signal).spec st.held).1 ∧
      ((SignalOp.appendThread signal).exec st).2.held = ((SignalOp.appendThread signal).spec st.held).2 ∧
      ((SignalOp.appendThread signal).exec st).2.Inv := by
  obtain ⟨spec, ok⟩ := @queueAppendSignal_spec _ _ signal inv.thread
  have count := @count_queueAppendSignal _ _ signal inv.thread
  simp only [SignalOp.exec, SignalOp.spec, appendThreadSignal, SignalState.held]
  rw [← spec]
  generalize queueAppendSignal st.threadQueue signal = appended at ok count
  obtain ⟨stored, queue⟩ := appended
  dsimp only at ok count ⊢
  refine ⟨rfl, rfl, ok, inv.process, ?_, inv.processCount⟩
  dsimp only
  rw [count, inv.threadCount]
  cases stored
  · simp only [Bool.false_eq_true, if_false, Nat.add_zero]
  · simp only [if_true]

theorem exec_appendProcess_refines (inv : st.Inv) :
    ((SignalOp.appendProcess signal).exec st).1 = ((SignalOp.appendProcess signal).spec st.held).1 ∧
      ((SignalOp.appendProcess signal).exec st).2.held = ((SignalOp.appendProcess signal).spec st.held).2 ∧
      ((SignalOp.appendProcess signal).exec st).2.Inv := by
  obtain ⟨spec, ok⟩ := @queueAppendSignal_spec _ _ signal inv.process
  have count := @count_queueAppendSignal _ _ signal inv.process
  simp only [SignalOp.exec, SignalOp.spec, appendProcessSignal, SignalState.held]
  rw [← spec]
  generalize queueAppendSignal st.processQueue signal = appended at ok count
  obtain ⟨stored, queue⟩ := appended
  dsimp only at ok count ⊢
  refine ⟨rfl, rfl, inv.thread, ok, inv.threadCount, ?_⟩
  dsimp only
  rw [count, inv.processCount]
  cases stored
  · simp only [Bool.false_eq_true, if_false, Nat.add_zero]
  · simp only [if_true]

/-- The loop of `pop_unblocked_signal` over any numbers from 1 to `SIGS_CNT`
pops what the lists pop over them: at each number not masked it takes from the
thread's queue if that holds a signal of it, else from the process's, else it
goes on. -/
theorem popUnblockedLoop_refines (mask : Nat → Bool) :
    ∀ (sigs : List Nat) (st : SignalState α), st.Inv → (∀ sig ∈ sigs, 1 ≤ sig ∧ sig ≤ SIGS_CNT) →
      ((popUnblockedLoop mask sigs st).1, (popUnblockedLoop mask sigs st).2.held) =
          st.held.popFrom mask sigs ∧
        (popUnblockedLoop mask sigs st).2.Inv
  | [], st, inv, _ => ⟨rfl, inv⟩
  | sig :: sigs, st, inv, inRange => by
    obtain ⟨low, high⟩ := inRange sig List.mem_cons_self
    have later := popUnblockedLoop_refines mask sigs st inv fun other mem =>
      inRange other (List.mem_cons_of_mem _ mem)
    rw [HeldSignals.popFrom_cons]
    unfold popUnblockedLoop
    by_cases masked : mask sig = true
    · have skipped : st.held.pending mask sig = false := by simp [HeldSignals.pending, masked]
      rw [if_pos masked, skipped, if_neg Bool.false_ne_true]
      exact later
    rw [if_neg masked]
    cases thread : st.threadQueue.held sig with
    | cons c rest =>
      -- the thread's queue holds a signal of this number: it is taken
      have taken : st.held.pending mask sig = true := by
        simp [HeldSignals.pending, masked, SignalState.held, thread]
      rw [taken, if_pos rfl, HeldSignals.take_of_thread_cons (show st.held.thread sig = c :: rest from thread)]
      obtain ⟨got, signal, held, ok⟩ := popSignal_of_held_cons inv.thread low high thread
      generalize popSignal st.threadQueue sig = popped at got signal held ok
      obtain ⟨got', signal', queue⟩ := popped
      dsimp only at got signal held ok ⊢
      subst got signal
      rw [if_pos rfl]
      refine ⟨?_, ok, inv.process, ?_, inv.processCount⟩
      · simp only [SignalState.held, held]
      · rw [count_pop low high thread held, inv.threadCount]
    | nil =>
      have vacant := popSignal_of_held_nil inv.thread low high thread
      generalize popSignal st.threadQueue sig = first at vacant
      obtain ⟨got', signal', queue'⟩ := first
      dsimp only at vacant ⊢
      subst vacant
      simp only [Bool.false_eq_true, if_false]
      cases process : st.processQueue.held sig with
      | cons c rest =>
        -- only the process's queue holds a signal of this number
        have taken : st.held.pending mask sig = true := by
          simp [HeldSignals.pending, masked, SignalState.held, process]
        rw [taken, if_pos rfl, HeldSignals.take_of_process_cons (show st.held.thread sig = [] from thread)
          (show st.held.process sig = c :: rest from process)]
        obtain ⟨got, signal, held, ok⟩ := popSignal_of_held_cons inv.process low high process
        generalize popSignal st.processQueue sig = popped at got signal held ok
        obtain ⟨got', signal', queue⟩ := popped
        dsimp only at got signal held ok ⊢
        subst got signal
        rw [if_pos rfl]
        refine ⟨?_, inv.thread, ok, inv.threadCount, ?_⟩
        · simp only [SignalState.held, held]
        · rw [count_pop low high process held, inv.processCount]
      | nil =>
        -- neither holds one: the loop goes on
        have vacant := popSignal_of_held_nil inv.process low high process
        generalize popSignal st.processQueue sig = second at vacant
        obtain ⟨got', signal', queue'⟩ := second
        dsimp only at vacant ⊢
        subst vacant
        have skipped : st.held.pending mask sig = false := by
          simp [HeldSignals.pending, SignalState.held, thread, process]
        rw [skipped, if_neg Bool.false_ne_true]
        simpa only [Bool.false_eq_true, if_false] using later

theorem exec_popUnblocked_refines (inv : st.Inv) (mask : Nat → Bool) :
    ((SignalOp.popUnblocked mask).exec st).1 = ((SignalOp.popUnblocked mask).spec st.held).1 ∧
      ((SignalOp.popUnblocked mask).exec st).2.held = ((SignalOp.popUnblocked mask).spec st.held).2 ∧
      ((SignalOp.popUnblocked mask).exec st).2.Inv := by
  have popped : ((popUnblockedSignal mask st).1, (popUnblockedSignal mask st).2.held) = st.held.pop mask ∧
      (popUnblockedSignal mask st).2.Inv := by
    unfold popUnblockedSignal
    split
    · exact popUnblockedLoop_refines mask _ st inv fun sig mem => by
        rw [List.mem_range'_1] at mem
        omega
    · -- both counters are zero, so both queues are empty: the lock-free path finds nothing
      rename_i idle
      have thread := SignalQueue.held_eq_nil_of_count (inv.threadCount ▸ (by omega : st.pendingSignals = 0))
      have process := SignalQueue.held_eq_nil_of_count
        (inv.processCount ▸ (by omega : st.processPendingSignalsCnt = 0))
      refine ⟨?_, inv⟩
      unfold HeldSignals.pop HeldSignals.popFrom
      rw [List.find?_eq_none.mpr fun sig _ => by
        simp [HeldSignals.pending, SignalState.held, thread sig, process sig]]
  simp only [SignalOp.exec, SignalOp.spec]
  rw [← popped.1]
  generalize popUnblockedSignal mask st = result at popped
  exact ⟨rfl, rfl, popped.2⟩

/-- Every call keeps the invariant and does to the signals what the lists do. -/
theorem exec_refines (inv : st.Inv) :
    ∀ op : SignalOp α, (op.exec st).1 = (op.spec st.held).1 ∧ (op.exec st).2.held = (op.spec st.held).2 ∧
      (op.exec st).2.Inv
  | .appendThread _ => exec_appendThread_refines inv
  | .appendProcess _ => exec_appendProcess_refines inv
  | .popUnblocked mask => exec_popUnblocked_refines inv mask

end Calls

/-! ## Every thread and the process -/

/-- The queue and counter of every thread, by thread id, and the process's. -/
structure SignalSystem (α : Type) where
  threadQueue : Nat → SignalQueue α
  pendingSignals : Nat → Nat
  processQueue : SignalQueue α
  processPendingSignalsCnt : Nat

/-- Per thread and number, the signals each thread's queue holds, and per
number the process's. -/
structure HeldSystem (α : Type) where
  thread : Nat → Nat → List (LibosSignal α)
  process : Nat → List (LibosSignal α)

namespace SignalSystem

/-- What a call on the thread `tid` reads: its queue and the process's. -/
def view (sys : SignalSystem α) (tid : Nat) : SignalState α :=
  ⟨sys.threadQueue tid, sys.pendingSignals tid, sys.processQueue, sys.processPendingSignalsCnt⟩

def store (sys : SignalSystem α) (tid : Nat) (st : SignalState α) : SignalSystem α :=
  ⟨Function.update sys.threadQueue tid st.threadQueue, Function.update sys.pendingSignals tid st.pendingSignals,
    st.processQueue, st.processPendingSignalsCnt⟩

/-- A call on the thread `tid`: `append_thread_signal` to it, or
`pop_unblocked_signal` by it; `append_process_signal` reads no thread's
queue. -/
def exec (sys : SignalSystem α) (tid : Nat) (op : SignalOp α) : SignalResult α × SignalSystem α :=
  let (r, st) := op.exec (sys.view tid)
  (r, sys.store tid st)

def held (sys : SignalSystem α) : HeldSystem α :=
  ⟨fun tid => (sys.threadQueue tid).held, sys.processQueue.held⟩

def Inv (sys : SignalSystem α) : Prop :=
  ∀ tid, (sys.view tid).Inv

def initial (blank : α) : SignalSystem α :=
  ⟨fun _ => .empty blank, fun _ => 0, .empty blank, 0⟩

end SignalSystem

namespace HeldSystem

def view (h : HeldSystem α) (tid : Nat) : HeldSignals α :=
  ⟨h.thread tid, h.process⟩

def store (h : HeldSystem α) (tid : Nat) (v : HeldSignals α) : HeldSystem α :=
  ⟨Function.update h.thread tid v.thread, v.process⟩

def spec (h : HeldSystem α) (tid : Nat) (op : SignalOp α) : SignalResult α × HeldSystem α :=
  let (r, v) := op.spec (h.view tid)
  (r, h.store tid v)

def empty : HeldSystem α := ⟨fun _ _ => [], fun _ => []⟩

end HeldSystem

/-- The calls in order, each on its thread, and what they return. -/
def runSignalSystem : List (Nat × SignalOp α) → SignalSystem α → List (SignalResult α) × SignalSystem α
  | [], sys => ([], sys)
  | call :: calls, sys =>
    let step := sys.exec call.1 call.2
    let rest := runSignalSystem calls step.2
    (step.1 :: rest.1, rest.2)

def runHeldSystem : List (Nat × SignalOp α) → HeldSystem α → List (SignalResult α) × HeldSystem α
  | [], h => ([], h)
  | call :: calls, h =>
    let step := h.spec call.1 call.2
    let rest := runHeldSystem calls step.2
    (step.1 :: rest.1, rest.2)

section System

variable {sys : SignalSystem α} {tid : Nat} {st : SignalState α}

theorem SignalSystem.held_view : (sys.view tid).held = sys.held.view tid := rfl

theorem SignalSystem.held_store : (sys.store tid st).held = sys.held.store tid st.held := by
  simp only [SignalSystem.held, SignalSystem.store, HeldSystem.store, SignalState.held, HeldSystem.mk.injEq,
    and_true]
  funext other
  by_cases same : other = tid
  · subst same
    simp only [Function.update_self]
  · simp only [Function.update_of_ne same]

/-- Writing back what one call left keeps every thread's view well formed:
the caller's is the call's state, another's pairs its own queue with the
process's new one. -/
theorem SignalSystem.Inv.store (inv : sys.Inv) (stInv : st.Inv) : (sys.store tid st).Inv := by
  intro other
  by_cases same : other = tid
  · subst same
    simpa [SignalSystem.view, SignalSystem.store] using stInv
  · have own := inv other
    refine ⟨?_, stInv.process, ?_, stInv.processCount⟩
    · simpa [SignalSystem.view, SignalSystem.store, Function.update_of_ne same] using own.thread
    · simpa [SignalSystem.view, SignalSystem.store, Function.update_of_ne same] using own.threadCount

theorem SignalSystem.exec_refines (inv : sys.Inv) (op : SignalOp α) :
    (sys.exec tid op).1 = (sys.held.spec tid op).1 ∧ (sys.exec tid op).2.held = (sys.held.spec tid op).2 ∧
      (sys.exec tid op).2.Inv := by
  obtain ⟨result, held, next⟩ := Signal.exec_refines (inv tid) op
  simp only [SignalSystem.exec, HeldSystem.spec]
  rw [SignalSystem.held_view] at result held
  rw [← result, ← held]
  generalize op.exec (sys.view tid) = stepped at next
  obtain ⟨r, st'⟩ := stepped
  exact ⟨rfl, SignalSystem.held_store, inv.store next⟩

theorem runSignalSystem_refines :
    ∀ (calls : List (Nat × SignalOp α)) (sys : SignalSystem α), sys.Inv →
      (runSignalSystem calls sys).1 = (runHeldSystem calls sys.held).1 ∧
        (runSignalSystem calls sys).2.held = (runHeldSystem calls sys.held).2 ∧
        (runSignalSystem calls sys).2.Inv
  | [], _, inv => ⟨rfl, rfl, inv⟩
  | call :: calls, sys, inv => by
    obtain ⟨result, held, next⟩ := @SignalSystem.exec_refines _ sys call.1 inv call.2
    obtain ⟨results, heldRest, invRest⟩ := runSignalSystem_refines calls _ next
    simp only [runSignalSystem, runHeldSystem]
    rw [← result, ← held, results]
    exact ⟨rfl, heldRest, invRest⟩

theorem SignalSystem.held_initial (blank : α) : (SignalSystem.initial blank).held = HeldSystem.empty := by
  simp only [SignalSystem.held, SignalSystem.initial, SignalQueue.held_empty]
  rfl

theorem SignalSystem.inv_initial (blank : α) : (SignalSystem.initial blank).Inv :=
  fun _ => SignalState.inv_initial blank

end System

/-- From the zeroed queues, every sequence of calls on any threads returns what
the per-number lists return, and leaves every queue's mask and counter in
step with the signals it holds. -/
theorem signalQueues_run_as_perSignalLists (blank : α) (calls : List (Nat × SignalOp α)) :
    (runSignalSystem calls (SignalSystem.initial blank)).1 = (runHeldSystem calls HeldSystem.empty).1 ∧
      (runSignalSystem calls (SignalSystem.initial blank)).2.held = (runHeldSystem calls HeldSystem.empty).2 ∧
      (runSignalSystem calls (SignalSystem.initial blank)).2.Inv := by
  rw [← SignalSystem.held_initial blank]
  exact runSignalSystem_refines calls _ (SignalSystem.inv_initial blank)

end Gramine.LibOS.Signal
