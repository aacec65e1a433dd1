import Mathlib
/-!
# The signal queues of `libos_signal.c`

A thread and the process each have a `struct libos_signal_queue`: one slot per
standard signal number (below `SIGRTMIN`), one ring of `MAX_SIGNAL_LOG` cells
per real-time number, and `pending_mask`. Beside each queue a counter
(`thread->pending_signals`, `g_process_pending_signals_cnt`) is raised by
every append that succeeds and lowered by every pop. The siginfo of a signal is
kept abstract, but for `si_signo`, which the queues read.

The ring of a real-time number has two unbounded indices: `get_idx` and
`put_idx` index the cells modulo `MAX_SIGNAL_LOG`, and `append_rt_signal` moves
both back by `MAX_SIGNAL_LOG` once `get_idx` has passed it. The indices are
`uint64_t`; they are modelled as naturals, which no run of the queue can tell
apart.

`pop_unblocked_signal` is modelled without the host-injected `SIGTERM` it
reports when both counters are zero.
-/

namespace Gramine.LibOS.Signal

def SIGRTMIN : Nat := 32
def SIGS_CNT : Nat := 64
def MAX_SIGNAL_LOG : Nat := 32

variable {α : Type}

/-- `struct libos_signal`: the `si_signo` of its `siginfo`, and the rest. -/
structure LibosSignal (α : Type) where
  signo : Nat
  info : α
  deriving DecidableEq, Repr

/-- `struct libos_rt_signal_queue`: the cells hold pointers, `none` for `NULL`. -/
structure RtSignalQueue (α : Type) where
  putIdx : Nat
  getIdx : Nat
  queue : Nat → Option (LibosSignal α)

/-- `struct libos_signal_queue`: `standardSignals (sig - 1)` is the slot of a
standard `sig`, `rtSignalQueues (sig - SIGRTMIN)` the ring of a real-time one. -/
structure SignalQueue (α : Type) where
  pendingMask : Nat → Bool
  standardSignals : Nat → LibosSignal α
  rtSignalQueues : Nat → RtSignalQueue α

/-- `__sigaddset`. -/
def SignalQueue.sigaddset (q : SignalQueue α) (sig : Nat) : SignalQueue α :=
  { q with pendingMask := Function.update q.pendingMask sig true }

/-- `__sigdelset`. -/
def SignalQueue.sigdelset (q : SignalQueue α) (sig : Nat) : SignalQueue α :=
  { q with pendingMask := Function.update q.pendingMask sig false }

def isRtSqEmpty (q : RtSignalQueue α) : Bool :=
  q.getIdx == q.putIdx

def hasStandardSignal (slot : LibosSignal α) : Bool :=
  slot.signo != 0

def recalcPendingMask (queue : SignalQueue α) (sig : Nat) : SignalQueue α :=
  if sig < SIGRTMIN then
    if !hasStandardSignal (queue.standardSignals (sig - 1)) then queue.sigdelset sig else queue
  else if isRtSqEmpty (queue.rtSignalQueues (sig - SIGRTMIN)) then queue.sigdelset sig else queue

/-- `append_standard_signal`: whether it stored `signal`, and the slot. -/
def appendStandardSignal (slot signal : LibosSignal α) : Bool × LibosSignal α :=
  if hasStandardSignal slot then (false, slot) else (true, signal)

/-- `append_rt_signal`: whether it stored `signal`, and the ring, whose indices
are moved back even when it is full. -/
def appendRtSignal (q : RtSignalQueue α) (signal : LibosSignal α) : Bool × RtSignalQueue α :=
  let q := if MAX_SIGNAL_LOG ≤ q.getIdx then
      { q with getIdx := q.getIdx - MAX_SIGNAL_LOG, putIdx := q.putIdx - MAX_SIGNAL_LOG }
    else q
  if MAX_SIGNAL_LOG ≤ q.putIdx - q.getIdx then (false, q)
  else (true, { q with queue := Function.update q.queue (q.putIdx % MAX_SIGNAL_LOG) (some signal),
                       putIdx := q.putIdx + 1 })

def queueAppendSignal (queue : SignalQueue α) (signal : LibosSignal α) : Bool × SignalQueue α :=
  let sig := signal.signo
  let (ret, queue) :=
    if sig < 1 ∨ SIGS_CNT < sig then (false, queue)
    else if sig < SIGRTMIN then
      let (ret, slot) := appendStandardSignal (queue.standardSignals (sig - 1)) signal
      (ret, { queue with standardSignals := Function.update queue.standardSignals (sig - 1) slot })
    else
      let (ret, q) := appendRtSignal (queue.rtSignalQueues (sig - SIGRTMIN)) signal
      (ret, { queue with rtSignalQueues := Function.update queue.rtSignalQueues (sig - SIGRTMIN) q })
  (ret, if ret then queue.sigaddset sig else queue)

/-- `pop_standard_signal`: the signal in the slot, if any, and the slot marked
empty. -/
def popStandardSignal (slot : LibosSignal α) : Option (LibosSignal α) × LibosSignal α :=
  if hasStandardSignal slot then (some slot, { slot with signo := 0 }) else (none, slot)

/-- `pop_rt_signal`: whether the ring held a signal, the pointer in its oldest
cell, and the ring. -/
def popRtSignal (q : RtSignalQueue α) : Bool × Option (LibosSignal α) × RtSignalQueue α :=
  if q.getIdx < q.putIdx then (true, q.queue (q.getIdx % MAX_SIGNAL_LOG), { q with getIdx := q.getIdx + 1 })
  else (false, none, q)

/-- What `pop_unblocked_signal` does to one queue for `sig`: the standard slot
or the real-time ring of that number. -/
def popSignal (queue : SignalQueue α) (sig : Nat) : Bool × Option (LibosSignal α) × SignalQueue α :=
  if sig < SIGRTMIN then
    let (signal, slot) := popStandardSignal (queue.standardSignals (sig - 1))
    (signal.isSome, signal, { queue with standardSignals := Function.update queue.standardSignals (sig - 1) slot })
  else
    let (got, signal, q) := popRtSignal (queue.rtSignalQueues (sig - SIGRTMIN))
    (got, signal, { queue with rtSignalQueues := Function.update queue.rtSignalQueues (sig - SIGRTMIN) q })

/-- A thread's queue and counter, and the process's. -/
structure SignalState (α : Type) where
  threadQueue : SignalQueue α
  pendingSignals : Nat
  processQueue : SignalQueue α
  processPendingSignalsCnt : Nat

def appendThreadSignal (st : SignalState α) (signal : LibosSignal α) : Bool × SignalState α :=
  let (ret, queue) := queueAppendSignal st.threadQueue signal
  (ret, { st with threadQueue := queue,
                  pendingSignals := if ret then st.pendingSignals + 1 else st.pendingSignals })

def appendProcessSignal (st : SignalState α) (signal : LibosSignal α) : Bool × SignalState α :=
  let (ret, queue) := queueAppendSignal st.processQueue signal
  (ret, { st with processQueue := queue,
                  processPendingSignalsCnt :=
                    if ret then st.processPendingSignalsCnt + 1 else st.processPendingSignalsCnt })

/-- The loop of `pop_unblocked_signal` over the signal numbers `sigs`: the
first one not in `mask` that either queue holds, the thread's first. -/
def popUnblockedLoop (mask : Nat → Bool) : List Nat → SignalState α → Option (LibosSignal α) × SignalState α
  | [], st => (none, st)
  | sig :: sigs, st =>
    if mask sig then popUnblockedLoop mask sigs st
    else
      let (got, signal, queue) := popSignal st.threadQueue sig
      if got then
        (signal, { st with threadQueue := recalcPendingMask queue sig, pendingSignals := st.pendingSignals - 1 })
      else
        let (got, signal, queue) := popSignal st.processQueue sig
        if got then
          (signal, { st with processQueue := recalcPendingMask queue sig,
                              processPendingSignalsCnt := st.processPendingSignalsCnt - 1 })
        else popUnblockedLoop mask sigs st

/-- `pop_unblocked_signal(mask, signal)`: `none` is `si_signo = 0`. -/
def popUnblockedSignal (mask : Nat → Bool) (st : SignalState α) : Option (LibosSignal α) × SignalState α :=
  if st.pendingSignals ≠ 0 ∨ st.processPendingSignalsCnt ≠ 0 then
    popUnblockedLoop mask (List.range' 1 SIGS_CNT) st
  else (none, st)

attribute [grind] isRtSqEmpty hasStandardSignal recalcPendingMask appendStandardSignal appendRtSignal
  queueAppendSignal popStandardSignal popRtSignal popSignal

/-! ## What a queue holds -/

/-- The signals of a ring, oldest first: the cells from `get_idx` to
`put_idx`. -/
def RtSignalQueue.contents (q : RtSignalQueue α) : List (LibosSignal α) :=
  (List.range (q.putIdx - q.getIdx)).filterMap fun i => q.queue ((q.getIdx + i) % MAX_SIGNAL_LOG)

/-- The signals a queue holds of the number `sig`, oldest first. -/
def SignalQueue.held (q : SignalQueue α) (sig : Nat) : List (LibosSignal α) :=
  if sig < 1 ∨ SIGS_CNT < sig then []
  else if sig < SIGRTMIN then
    if hasStandardSignal (q.standardSignals (sig - 1)) then [q.standardSignals (sig - 1)] else []
  else (q.rtSignalQueues (sig - SIGRTMIN)).contents

/-- A ring is well formed: `get_idx` is at most `put_idx`, at most
`MAX_SIGNAL_LOG` apart, and the cells between them are set. -/
structure RtSignalQueue.Ok (q : RtSignalQueue α) : Prop where
  ordered : q.getIdx ≤ q.putIdx
  bounded : q.putIdx - q.getIdx ≤ MAX_SIGNAL_LOG
  set : ∀ i, i < q.putIdx - q.getIdx → (q.queue ((q.getIdx + i) % MAX_SIGNAL_LOG)).isSome

/-- A queue is well formed: `pending_mask` has the bit of a number exactly
when the queue holds a signal of that number, every signal it holds is of the
number it is held under, and its rings are well formed. -/
structure SignalQueue.Ok (q : SignalQueue α) : Prop where
  mask : ∀ sig, q.pendingMask sig = true ↔ q.held sig ≠ []
  signo : ∀ sig, ∀ s ∈ q.held sig, s.signo = sig
  rings : ∀ sig, SIGRTMIN ≤ sig → sig ≤ SIGS_CNT → (q.rtSignalQueues (sig - SIGRTMIN)).Ok

attribute [grind] SIGRTMIN SIGS_CNT MAX_SIGNAL_LOG RtSignalQueue.contents SignalQueue.held

/-! ## The rings -/

section Rings

variable {q : RtSignalQueue α} {signal : LibosSignal α}

/-- Cells that are all set keep every index of a `filterMap`. -/
theorem length_filterMap_range_of_isSome {β : Type} {f : Nat → Option β} :
    ∀ n, (∀ i, i < n → (f i).isSome) → ((List.range n).filterMap f).length = n
  | 0, _ => rfl
  | n + 1, set => by
    obtain ⟨c, cell⟩ := Option.isSome_iff_exists.mp (set n (Nat.lt_succ_self n))
    rw [List.range_succ, List.filterMap_append, List.length_append,
      length_filterMap_range_of_isSome n fun i lt => set i (Nat.lt_succ_of_lt lt)]
    simp [cell]

theorem RtSignalQueue.Ok.length_contents (ok : q.Ok) : q.contents.length = q.putIdx - q.getIdx :=
  length_filterMap_range_of_isSome _ ok.set

/-- Moving both indices back by `MAX_SIGNAL_LOG` keeps the cells they name. -/
theorem contents_moveBack (past : MAX_SIGNAL_LOG ≤ q.getIdx) :
    ({ q with getIdx := q.getIdx - MAX_SIGNAL_LOG, putIdx := q.putIdx - MAX_SIGNAL_LOG } :
      RtSignalQueue α).contents = q.contents := by
  unfold RtSignalQueue.contents
  have same : q.putIdx - MAX_SIGNAL_LOG - (q.getIdx - MAX_SIGNAL_LOG) = q.putIdx - q.getIdx := by omega
  simp only [same]
  refine List.filterMap_congr fun i _ => ?_
  congr 1
  simp only [MAX_SIGNAL_LOG] at past ⊢
  omega

theorem RtSignalQueue.Ok.moveBack (ok : q.Ok) (past : MAX_SIGNAL_LOG ≤ q.getIdx) :
    ({ q with getIdx := q.getIdx - MAX_SIGNAL_LOG, putIdx := q.putIdx - MAX_SIGNAL_LOG } :
      RtSignalQueue α).Ok := by
  obtain ⟨ordered, bounded, set⟩ := ok
  refine ⟨by dsimp only; omega, by dsimp only; omega, fun i lt => ?_⟩
  have cell : (q.getIdx - MAX_SIGNAL_LOG + i) % MAX_SIGNAL_LOG = (q.getIdx + i) % MAX_SIGNAL_LOG := by
    simp only [MAX_SIGNAL_LOG] at past ⊢
    omega
  dsimp only at lt ⊢
  rw [cell]
  exact set i (by omega)

/-- Storing at `put_idx` appends to the ring's signals, when it is not full. -/
theorem contents_push (ordered : q.getIdx ≤ q.putIdx) (room : q.putIdx - q.getIdx < MAX_SIGNAL_LOG) :
    ({ q with queue := Function.update q.queue (q.putIdx % MAX_SIGNAL_LOG) (some signal),
              putIdx := q.putIdx + 1 } : RtSignalQueue α).contents = q.contents ++ [signal] := by
  unfold RtSignalQueue.contents
  have count : q.putIdx + 1 - q.getIdx = (q.putIdx - q.getIdx) + 1 := by omega
  simp only [count, List.range_succ, List.filterMap_append]
  congr 1
  · -- the cells before `put_idx` are other cells
    refine List.filterMap_congr fun i mem => ?_
    rw [List.mem_range] at mem
    rw [Function.update_of_ne]
    simp only [MAX_SIGNAL_LOG] at room ⊢
    omega
  · have cell : (q.getIdx + (q.putIdx - q.getIdx)) % MAX_SIGNAL_LOG = q.putIdx % MAX_SIGNAL_LOG := by
      congr 1
      omega
    simp [cell]

theorem RtSignalQueue.Ok.push (ok : q.Ok) (room : q.putIdx - q.getIdx < MAX_SIGNAL_LOG) :
    ({ q with queue := Function.update q.queue (q.putIdx % MAX_SIGNAL_LOG) (some signal),
              putIdx := q.putIdx + 1 } : RtSignalQueue α).Ok := by
  obtain ⟨ordered, bounded, set⟩ := ok
  refine ⟨by dsimp only; omega, by dsimp only; omega, fun i lt => ?_⟩
  dsimp only at lt ⊢
  by_cases last : i = q.putIdx - q.getIdx
  · subst last
    have cell : (q.getIdx + (q.putIdx - q.getIdx)) % MAX_SIGNAL_LOG = q.putIdx % MAX_SIGNAL_LOG := by
      congr 1
      omega
    simp [cell]
  · rw [Function.update_of_ne]
    · exact set i (by omega)
    · simp only [MAX_SIGNAL_LOG] at room ⊢
      omega

/-- Taking the cell at `get_idx` takes the oldest signal of the ring. -/
theorem RtSignalQueue.Ok.pop (ok : q.Ok) (nonempty : q.getIdx < q.putIdx) :
    ∃ c, q.queue (q.getIdx % MAX_SIGNAL_LOG) = some c ∧
      q.contents = c :: ({ q with getIdx := q.getIdx + 1 } : RtSignalQueue α).contents ∧
      ({ q with getIdx := q.getIdx + 1 } : RtSignalQueue α).Ok := by
  obtain ⟨ordered, bounded, set⟩ := ok
  obtain ⟨c, cell⟩ := Option.isSome_iff_exists.mp (set 0 (by omega))
  rw [Nat.add_zero] at cell
  refine ⟨c, cell, ?_, by dsimp only; omega, by dsimp only; omega, fun i lt => ?_⟩
  · unfold RtSignalQueue.contents
    have count : q.putIdx - q.getIdx = (q.putIdx - (q.getIdx + 1)) + 1 := by omega
    rw [count, List.range_succ_eq_map, List.filterMap_cons_some (by simpa using cell),
      List.filterMap_map]
    congr 1
    refine List.filterMap_congr fun i _ => ?_
    simp only [Function.comp_apply]
    congr 2
    omega
  · dsimp only at lt ⊢
    have shifted := set (i + 1) (by omega)
    rwa [← Nat.add_assoc, Nat.add_right_comm] at shifted

end Rings

/-! ## The queues -/

/-- How many signals of the number `sig` a queue keeps at most: one standard
signal, `MAX_SIGNAL_LOG` real-time ones. -/
def capacity (sig : Nat) : Nat :=
  if sig < SIGRTMIN then 1 else MAX_SIGNAL_LOG

section Queues

variable {q : SignalQueue α} {signal : LibosSignal α} {sig : Nat}

@[simp] theorem held_sigaddset : (q.sigaddset sig).held = q.held := rfl

@[simp] theorem held_sigdelset : (q.sigdelset sig).held = q.held := rfl

theorem held_of_outside (outside : sig < 1 ∨ SIGS_CNT < sig) : q.held sig = [] := by
  unfold SignalQueue.held
  rw [if_pos outside]

/-- A standard slot written: only its number's signals change. -/
theorem held_updateStandard (low : 1 ≤ sig) (standard : sig < SIGRTMIN) (slot : LibosSignal α) :
    ({ q with standardSignals := Function.update q.standardSignals (sig - 1) slot } : SignalQueue α).held =
      Function.update q.held sig (if hasStandardSignal slot then [slot] else []) := by
  funext other
  by_cases same : other = sig
  · subst same
    have inside : ¬ (other < 1 ∨ SIGS_CNT < other) := by
      simp only [SIGRTMIN, SIGS_CNT] at standard ⊢
      omega
    unfold SignalQueue.held
    rw [Function.update_self, if_neg inside, if_pos standard]
    simp only [Function.update_self]
  · rw [Function.update_of_ne same]
    by_cases outside : other < 1 ∨ SIGS_CNT < other
    · rw [held_of_outside outside, held_of_outside outside]
    · have slotKept : Function.update q.standardSignals (sig - 1) slot (other - 1) =
          q.standardSignals (other - 1) :=
        Function.update_of_ne (by omega) _ _
      simp only [SignalQueue.held, if_neg outside, slotKept]

/-- A real-time ring written: only its number's signals change. -/
theorem held_updateRt (low : SIGRTMIN ≤ sig) (high : sig ≤ SIGS_CNT) (r : RtSignalQueue α) :
    ({ q with rtSignalQueues := Function.update q.rtSignalQueues (sig - SIGRTMIN) r } : SignalQueue α).held =
      Function.update q.held sig r.contents := by
  have inside : ¬ (sig < 1 ∨ SIGS_CNT < sig) := by simp only [SIGRTMIN, SIGS_CNT] at low high ⊢; omega
  funext other
  by_cases same : other = sig
  · subst same
    unfold SignalQueue.held
    rw [Function.update_self, if_neg inside, if_neg (Nat.not_lt.mpr low)]
    simp only [Function.update_self]
  · rw [Function.update_of_ne same]
    by_cases outside : other < 1 ∨ SIGS_CNT < other
    · rw [held_of_outside outside, held_of_outside outside]
    · by_cases standardOther : other < SIGRTMIN
      · simp only [SignalQueue.held, if_neg outside, if_pos standardOther]
      · have ringKept : Function.update q.rtSignalQueues (sig - SIGRTMIN) r (other - SIGRTMIN) =
            q.rtSignalQueues (other - SIGRTMIN) :=
          Function.update_of_ne (by simp only [SIGRTMIN] at low standardOther ⊢; omega) _ _
        simp only [SignalQueue.held, if_neg outside, if_neg standardOther, ringKept]

theorem held_rt (low : SIGRTMIN ≤ sig) (high : sig ≤ SIGS_CNT) :
    q.held sig = (q.rtSignalQueues (sig - SIGRTMIN)).contents := by
  have inside : ¬ (sig < 1 ∨ SIGS_CNT < sig) := by simp only [SIGRTMIN, SIGS_CNT] at low high ⊢; omega
  unfold SignalQueue.held
  rw [if_neg inside, if_neg (Nat.not_lt.mpr low)]

theorem held_standard (low : 1 ≤ sig) (standard : sig < SIGRTMIN) :
    q.held sig = if hasStandardSignal (q.standardSignals (sig - 1)) then [q.standardSignals (sig - 1)] else [] := by
  have inside : ¬ (sig < 1 ∨ SIGS_CNT < sig) := by simp only [SIGRTMIN, SIGS_CNT] at standard ⊢; omega
  unfold SignalQueue.held
  rw [if_neg inside, if_pos standard]

/-- A well-formed queue holds at most `capacity sig` signals of each number:
a standard one at most once. -/
theorem SignalQueue.Ok.length_held_le (ok : q.Ok) (sig : Nat) : (q.held sig).length ≤ capacity sig := by
  by_cases outside : sig < 1 ∨ SIGS_CNT < sig
  · rw [held_of_outside outside]
    exact Nat.zero_le _
  by_cases standard : sig < SIGRTMIN
  · rw [held_standard (by omega) standard, capacity, if_pos standard]
    split <;> simp
  · have low := Nat.not_lt.mp standard
    have high : sig ≤ SIGS_CNT := by omega
    rw [held_rt low high, (ok.rings sig low high).length_contents, capacity, if_neg standard]
    exact (ok.rings sig low high).bounded

/-- A queue changed in the signals of one number: it stays well formed when
its mask bit follows the new list, the list is of that number, and the rings
stay well formed. -/
theorem SignalQueue.Ok.of_update {q' : SignalQueue α} (ok : q.Ok) (l : List (LibosSignal α)) (b : Bool)
    (held : q'.held = Function.update q.held sig l)
    (mask : q'.pendingMask = Function.update q.pendingMask sig b) (maskHeld : b = true ↔ l ≠ [])
    (signo : ∀ s ∈ l, s.signo = sig)
    (rings : ∀ other, SIGRTMIN ≤ other → other ≤ SIGS_CNT → (q'.rtSignalQueues (other - SIGRTMIN)).Ok) :
    q'.Ok := by
  refine ⟨fun other => ?_, fun other => ?_, rings⟩
  · rw [held, mask]
    by_cases same : other = sig
    · subst same
      simpa only [Function.update_self] using maskHeld
    · simpa only [Function.update_of_ne same] using ok.mask other
  · rw [held]
    by_cases same : other = sig
    · subst same
      simpa only [Function.update_self] using signo
    · simpa only [Function.update_of_ne same] using ok.signo other

/-- What an append does to the signals a queue holds: the signal goes to the
back of its number's list when the number is valid and the list has room. -/
def appendHeld (held : Nat → List (LibosSignal α)) (signal : LibosSignal α) :
    Bool × (Nat → List (LibosSignal α)) :=
  if 1 ≤ signal.signo ∧ signal.signo ≤ SIGS_CNT ∧ (held signal.signo).length < capacity signal.signo then
    (true, Function.update held signal.signo (held signal.signo ++ [signal]))
  else (false, held)

theorem queueAppendSignal_outside (outside : signal.signo < 1 ∨ SIGS_CNT < signal.signo) :
    queueAppendSignal q signal = (false, q) := by
  simp only [queueAppendSignal, if_pos outside, Bool.false_eq_true, if_false]

theorem queueAppendSignal_standard (low : 1 ≤ signal.signo) (standard : signal.signo < SIGRTMIN) :
    queueAppendSignal q signal =
      if hasStandardSignal (q.standardSignals (signal.signo - 1)) then (false, q)
      else (true, ({ q with
                      standardSignals := Function.update q.standardSignals (signal.signo - 1) signal } :
                    SignalQueue α).sigaddset signal.signo) := by
  have inside : ¬ (signal.signo < 1 ∨ SIGS_CNT < signal.signo) := by
    simp only [SIGRTMIN, SIGS_CNT] at standard ⊢
    omega
  unfold queueAppendSignal appendStandardSignal
  simp only [if_neg inside, if_pos standard]
  split
  · simp [Function.update_eq_self]
  · rfl

theorem queueAppendSignal_rt (low : SIGRTMIN ≤ signal.signo) (high : signal.signo ≤ SIGS_CNT) :
    queueAppendSignal q signal =
      let r := appendRtSignal (q.rtSignalQueues (signal.signo - SIGRTMIN)) signal
      let queue : SignalQueue α :=
        { q with rtSignalQueues := Function.update q.rtSignalQueues (signal.signo - SIGRTMIN) r.2 }
      (r.1, if r.1 then queue.sigaddset signal.signo else queue) := by
  have inside : ¬ (signal.signo < 1 ∨ SIGS_CNT < signal.signo) := by
    simp only [SIGRTMIN, SIGS_CNT] at low high ⊢
    omega
  unfold queueAppendSignal
  simp only [if_neg inside, if_neg (Nat.not_lt.mpr low)]

/-- `append_rt_signal` on a well-formed ring: it stores the signal exactly
when fewer than `MAX_SIGNAL_LOG` are there, and the ring stays well formed. -/
theorem appendRtSignal_spec {r : RtSignalQueue α} (ok : r.Ok) :
    (appendRtSignal r signal).1 = decide (r.contents.length < MAX_SIGNAL_LOG) ∧
      (appendRtSignal r signal).2.contents =
        (if (appendRtSignal r signal).1 then r.contents ++ [signal] else r.contents) ∧
      (appendRtSignal r signal).2.Ok := by
  unfold appendRtSignal
  dsimp only
  -- the ring after `get_idx` is moved back holds the same signals
  generalize moved : (if MAX_SIGNAL_LOG ≤ r.getIdx then
      ({ r with getIdx := r.getIdx - MAX_SIGNAL_LOG, putIdx := r.putIdx - MAX_SIGNAL_LOG } : RtSignalQueue α)
    else r) = m
  have same : m.contents = r.contents := by
    subst moved
    split
    · exact contents_moveBack ‹_›
    · rfl
  have movedOk : m.Ok := by
    subst moved
    split
    · exact ok.moveBack ‹_›
    · exact ok
  have length := movedOk.length_contents
  rw [← same]
  split
  · rename_i full
    simp only [decide_eq_false (show ¬ m.contents.length < MAX_SIGNAL_LOG by omega)]
    exact ⟨trivial, rfl, movedOk⟩
  · rename_i room
    simp only [decide_eq_true (show m.contents.length < MAX_SIGNAL_LOG by omega), if_true]
    exact ⟨trivial, contents_push movedOk.ordered (by omega), movedOk.push (by omega)⟩

/-- Writing a well-formed ring of a real-time number keeps every ring well
formed. -/
theorem SignalQueue.Ok.rings_update (ok : q.Ok) {r : RtSignalQueue α} (rOk : r.Ok)
    (low : SIGRTMIN ≤ sig) (high : sig ≤ SIGS_CNT) :
    ∀ other, SIGRTMIN ≤ other → other ≤ SIGS_CNT →
      (Function.update q.rtSignalQueues (sig - SIGRTMIN) r (other - SIGRTMIN)).Ok := by
  intro other lowOther highOther
  by_cases same : other = sig
  · subst same
    rwa [Function.update_self]
  · rw [Function.update_of_ne (by simp only [SIGRTMIN] at low lowOther ⊢; omega)]
    exact ok.rings other lowOther highOther

theorem queueAppendSignal_standard_spec (ok : q.Ok) (low : 1 ≤ signal.signo) (standard : signal.signo < SIGRTMIN) :
    ((queueAppendSignal q signal).1, (queueAppendSignal q signal).2.held) = appendHeld q.held signal ∧
      (queueAppendSignal q signal).2.Ok := by
  have high : signal.signo ≤ SIGS_CNT := by simp only [SIGRTMIN, SIGS_CNT] at standard ⊢; omega
  have one : capacity signal.signo = 1 := if_pos standard
  rw [queueAppendSignal_standard low standard, appendHeld, one, held_standard low standard]
  by_cases occupied : hasStandardSignal (q.standardSignals (signal.signo - 1))
  · -- the slot is taken: nothing changes
    simp only [if_pos occupied, List.length_singleton, Nat.lt_irrefl, and_false, if_false]
    exact ⟨trivial, ok⟩
  · simp only [if_neg occupied, List.length_nil, Nat.zero_lt_one, and_true, if_pos (And.intro low high),
      List.nil_append]
    have stored : hasStandardSignal signal = true := by
      simp only [hasStandardSignal, bne_iff_ne, ne_eq]
      omega
    have held := held_updateStandard (q := q) low standard signal
    rw [if_pos stored] at held
    refine ⟨by rw [held_sigaddset, held], ok.of_update [signal] true held rfl (by simp) (by simp) ok.rings⟩

theorem queueAppendSignal_rt_spec (ok : q.Ok) (low : SIGRTMIN ≤ signal.signo) (high : signal.signo ≤ SIGS_CNT) :
    ((queueAppendSignal q signal).1, (queueAppendSignal q signal).2.held) = appendHeld q.held signal ∧
      (queueAppendSignal q signal).2.Ok := by
  have positive : 1 ≤ signal.signo := by simp only [SIGRTMIN] at low; omega
  have ring : MAX_SIGNAL_LOG = capacity signal.signo := (if_neg (Nat.not_lt.mpr low)).symm
  obtain ⟨ret, contents, pushedOk⟩ := @appendRtSignal_spec _ signal _ (ok.rings _ low high)
  have held := held_updateRt (q := q) low high
    (appendRtSignal (q.rtSignalQueues (signal.signo - SIGRTMIN)) signal).2
  have rings := ok.rings_update pushedOk low high
  rw [queueAppendSignal_rt low high, appendHeld]
  dsimp only
  rw [ret, ← held_rt low high, ring] at contents ⊢
  by_cases fits : (q.held signal.signo).length < capacity signal.signo
  · -- the ring has room: the signal is stored behind the others
    simp only [decide_eq_true fits, if_true] at contents ⊢
    rw [contents] at held
    rw [if_pos ⟨positive, high, fits⟩]
    refine ⟨by rw [held_sigaddset, held], ok.of_update _ true held rfl (by simp) ?_ rings⟩
    intro s mem
    rcases List.mem_append.mp mem with old | new
    · exact ok.signo _ s old
    · rw [List.mem_singleton.mp new]
  · -- the ring is full: only its indices may have moved
    simp only [decide_eq_false fits, Bool.false_eq_true, if_false] at contents ⊢
    rw [contents, Function.update_eq_self] at held
    rw [if_neg fun inside => fits inside.2.2]
    refine ⟨by rw [held], ok.of_update (q.held signal.signo) (q.pendingMask signal.signo) ?_
      (Function.update_eq_self _ _).symm (ok.mask _) (ok.signo _) rings⟩
    rw [held, Function.update_eq_self]

/-- `queue_append_signal` on a well-formed queue does to the signals it holds
what `appendHeld` says, and keeps the queue well formed. -/
theorem queueAppendSignal_spec (ok : q.Ok) :
    ((queueAppendSignal q signal).1, (queueAppendSignal q signal).2.held) = appendHeld q.held signal ∧
      (queueAppendSignal q signal).2.Ok := by
  by_cases outside : signal.signo < 1 ∨ SIGS_CNT < signal.signo
  · rw [queueAppendSignal_outside outside, appendHeld, if_neg (by omega)]
    exact ⟨rfl, ok⟩
  by_cases standard : signal.signo < SIGRTMIN
  · exact queueAppendSignal_standard_spec ok (by omega) standard
  · exact queueAppendSignal_rt_spec ok (Nat.not_lt.mp standard) (by omega)

@[simp] theorem held_recalcPendingMask : (recalcPendingMask q sig).held = q.held := by
  unfold recalcPendingMask
  split_ifs <;> rfl

/-- A pop of a number the queue holds nothing of finds nothing. -/
theorem popSignal_of_held_nil (ok : q.Ok) (low : 1 ≤ sig) (high : sig ≤ SIGS_CNT) (empty : q.held sig = []) :
    (popSignal q sig).1 = false := by
  by_cases standard : sig < SIGRTMIN
  · rw [held_standard low standard] at empty
    have vacant : hasStandardSignal (q.standardSignals (sig - 1)) = false := by
      by_contra occupied
      rw [if_pos (Bool.of_not_eq_false occupied)] at empty
      exact List.cons_ne_nil _ _ empty
    simp only [popSignal, if_pos standard, popStandardSignal, vacant, Bool.false_eq_true, if_false,
      Option.isSome_none]
  · have rt := Nat.not_lt.mp standard
    have count := (ok.rings sig rt high).length_contents
    rw [← held_rt rt high, empty, List.length_nil] at count
    have drained : ¬ (q.rtSignalQueues (sig - SIGRTMIN)).getIdx < (q.rtSignalQueues (sig - SIGRTMIN)).putIdx := by
      omega
    simp only [popSignal, if_neg standard, popRtSignal, if_neg drained]

/-- A pop of a standard number the queue holds a signal of takes that signal,
and `recalc_pending_mask` clears the number's bit. -/
theorem popSignal_standard_of_held_cons (ok : q.Ok) (low : 1 ≤ sig) (standard : sig < SIGRTMIN)
    {c : LibosSignal α} {rest : List (LibosSignal α)} (held : q.held sig = c :: rest) :
    (popSignal q sig).1 = true ∧ (popSignal q sig).2.1 = some c ∧
      (recalcPendingMask (popSignal q sig).2.2 sig).held = Function.update q.held sig rest ∧
      (recalcPendingMask (popSignal q sig).2.2 sig).Ok := by
  rw [held_standard low standard] at held
  have occupied : hasStandardSignal (q.standardSignals (sig - 1)) = true := by
    by_contra vacant
    rw [if_neg vacant] at held
    exact List.cons_ne_nil _ _ held.symm
  rw [if_pos occupied, List.cons_eq_cons] at held
  obtain ⟨rfl, rfl⟩ := held
  have emptied : hasStandardSignal { q.standardSignals (sig - 1) with signo := 0 } = false := rfl
  have held := held_updateStandard (q := q) low standard { q.standardSignals (sig - 1) with signo := 0 }
  rw [if_neg (Bool.eq_false_iff.mp emptied)] at held
  simp only [popSignal, if_pos standard, popStandardSignal, occupied, if_true, Option.isSome_some,
    true_and]
  unfold recalcPendingMask
  simp only [if_pos standard, Function.update_self, emptied, Bool.not_false, if_true, held_sigdelset]
  exact ⟨held, ok.of_update [] false held rfl (by simp) (by simp) ok.rings⟩

/-- A pop of a real-time number the queue holds signals of takes the oldest,
and `recalc_pending_mask` clears the number's bit when no other is left. -/
theorem popSignal_rt_of_held_cons (ok : q.Ok) (low : SIGRTMIN ≤ sig) (high : sig ≤ SIGS_CNT)
    {c : LibosSignal α} {rest : List (LibosSignal α)} (held : q.held sig = c :: rest) :
    (popSignal q sig).1 = true ∧ (popSignal q sig).2.1 = some c ∧
      (recalcPendingMask (popSignal q sig).2.2 sig).held = Function.update q.held sig rest ∧
      (recalcPendingMask (popSignal q sig).2.2 sig).Ok := by
  have ringOk := ok.rings sig low high
  have count := ringOk.length_contents
  rw [← held_rt low high, held, List.length_cons] at count
  have waiting : (q.rtSignalQueues (sig - SIGRTMIN)).getIdx < (q.rtSignalQueues (sig - SIGRTMIN)).putIdx := by
    omega
  obtain ⟨c', cell, contents, poppedOk⟩ := ringOk.pop waiting
  rw [← held_rt low high, held, List.cons_eq_cons] at contents
  obtain ⟨rfl, rest_eq⟩ := contents
  have left := poppedOk.length_contents
  rw [← rest_eq] at left
  have heldPopped := held_updateRt (q := q) low high
    ({ q.rtSignalQueues (sig - SIGRTMIN) with getIdx := (q.rtSignalQueues (sig - SIGRTMIN)).getIdx + 1 })
  rw [← rest_eq] at heldPopped
  have rings := ok.rings_update poppedOk low high
  simp only [popSignal, if_neg (Nat.not_lt.mpr low), popRtSignal, if_pos waiting, cell, true_and]
  unfold recalcPendingMask
  simp only [if_neg (Nat.not_lt.mpr low), Function.update_self]
  split
  · -- the ring is now empty: the bit goes
    rename_i emptied
    have none : rest = [] := by
      simp only [isRtSqEmpty, beq_iff_eq] at emptied
      exact List.eq_nil_of_length_eq_zero (by omega)
    refine ⟨heldPopped, ok.of_update rest false heldPopped rfl (by simp [none]) ?_ rings⟩
    simp [none]
  · -- signals are left: the bit stays
    rename_i kept
    have some : rest ≠ [] := by
      simp only [isRtSqEmpty, beq_iff_eq] at kept
      exact List.ne_nil_of_length_pos (by omega)
    have bit : q.pendingMask sig = true := (ok.mask sig).mpr (by rw [held]; exact List.cons_ne_nil _ _)
    refine ⟨heldPopped, ok.of_update rest true heldPopped ?_ (by simp [some]) ?_ rings⟩
    · rw [← bit, Function.update_eq_self]
    · intro s mem
      exact ok.signo sig s (by rw [held]; exact List.mem_cons_of_mem _ mem)

/-- A pop of a number the queue holds signals of takes the oldest, and after
`recalc_pending_mask` the queue holds the rest and stays well formed. -/
theorem popSignal_of_held_cons (ok : q.Ok) (low : 1 ≤ sig) (high : sig ≤ SIGS_CNT)
    {c : LibosSignal α} {rest : List (LibosSignal α)} (held : q.held sig = c :: rest) :
    (popSignal q sig).1 = true ∧ (popSignal q sig).2.1 = some c ∧
      (recalcPendingMask (popSignal q sig).2.2 sig).held = Function.update q.held sig rest ∧
      (recalcPendingMask (popSignal q sig).2.2 sig).Ok := by
  by_cases standard : sig < SIGRTMIN
  · exact popSignal_standard_of_held_cons ok low standard held
  · exact popSignal_rt_of_held_cons ok (Nat.not_lt.mp standard) high held

end Queues

end Gramine.LibOS.Signal
