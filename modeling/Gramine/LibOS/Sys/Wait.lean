import Mathlib
import Gramine.Common.Errno
import Gramine.LibOS.Lock

/-!
# `waitid` and the exit of a child

`do_waitid` looks for a matching child under `g_process.children_lock`. When
it has to sleep, it links a node on its stack into `g_process.wait_queue`,
drops the lock and sleeps; `mark_child_exited` takes the whole queue under
the lock and, once it has dropped the lock, clears each node's `in_use` and
wakes the node's thread. `add_child_process` takes the lock as well.

The model runs the threads of one process on what these functions share:
the lists of children and zombies, the wait queue (a node named by the
thread whose stack holds it), `children_lock` as `libos_lock.h` has it (an
auto-clear event and an owner, with no check of the owner in `unlock`), the
`in_use` flags, the wake-ups not yet consumed, the thread references the
nodes take, and whether a signal is pending for the process. A thread's
program counter says where in its call it is; `waitStep` runs one thread up
to its next access to that state. What `do_waitid` writes to `infop` is left
out, as are the checks of its flags before the loop, which take no lock.
-/

namespace Gramine.LibOS.Sys

/-- `SIGCHLD`. -/
def SIGCHLD : Nat := 17

/-- `P_ALL`, `P_PID` and `P_PGID`. -/
inductive IdType
  | all
  | pid
  | pgid
  deriving DecidableEq, Repr

/-- `struct libos_child_process`, with the fields these functions use. -/
structure LibosChildProcess where
  pid : Nat
  childTerminationSignal : Nat
  exitCode : Nat
  termSignal : Nat
  uid : Nat
  deriving DecidableEq, Repr

/-- The options `do_waitid` acts on in its loop. -/
structure WaitOptions where
  wall : Bool
  wclone : Bool
  wnohang : Bool
  wnowait : Bool
  deriving DecidableEq, Repr

/-- `child_matches_flags(child, flags)`. -/
def childMatchesFlags (child : LibosChildProcess) (options : WaitOptions) : Bool :=
  options.wall || (options.wclone != (child.childTerminationSignal == SIGCHLD))

/-- `child_matches(child, which, id, flags)`. -/
def childMatches (which : IdType) (id : Nat) (options : WaitOptions) (child : LibosChildProcess) :
    Bool :=
  childMatchesFlags child options &&
    match which with
    | .pid => child.pid == id
    | .pgid => false
    | .all => true

/-- What the threads of the process share. -/
structure WaitProcess where
  children : List LibosChildProcess
  zombies : List LibosChildProcess
  waitQueue : List Nat
  childrenLock : LibosLock
  inUse : Nat → Bool
  wakeup : Nat → Bool
  refs : Nat → Nat
  pendingSignals : Bool

/-- Where `do_waitid` is. -/
inductive WaitPc
  /-- `lock(&g_process.children_lock)` at the top of the loop. -/
  | top
  /-- Under the lock: the zombies, the children, `WNOHANG`, the node. -/
  | scan
  /-- `thread_prepare_wait()` and the check of `qnode.in_use`. -/
  | check
  /-- `thread_wait(NULL, false)`. -/
  | sleep
  /-- The `lock` of `remove_qnode_from_wait_queue(&qnode)`; `err` is the
  error of a failed `thread_wait`. -/
  | removeLock (err : Option Int)
  /-- Under that lock: the node unlinked if it is on the queue; `unlock`. -/
  | removeUnlink (err : Option Int)
  /-- The node was not on the queue: waiting for `in_use` to clear. -/
  | removeDrain (err : Option Int)
  /-- `while (!have_pending_signals())`. -/
  | loopTest
  /-- `out: unlock(&g_process.children_lock)`, to return `ret`. -/
  | out (ret : Int)
  | done (ret : Int)
  deriving DecidableEq, Repr

/-- Where `mark_child_exited` is. -/
inductive ExitPc
  | top
  | scan
  /-- Releasing the nodes it took off the queue: the next store to `in_use`. -/
  | wake (queue : List Nat)
  /-- `thread_wakeup(thread)` and `put_thread(thread)` for a node already
  released. -/
  | put (thread : Nat) (queue : List Nat)
  | done
  deriving DecidableEq, Repr

/-- Where `add_child_process` is. -/
inductive AddPc
  | top
  | add
  | done
  deriving DecidableEq, Repr

/-- A thread with the call it runs. -/
inductive WaitThread
  /-- `do_waitid(which, id, infop, options)`. -/
  | waitid (which : IdType) (id : Nat) (options : WaitOptions) (pc : WaitPc)
  /-- `mark_child_exited_by_pid(pid, child_uid, exit_code, signal)`. -/
  | markChildExited (pid uid exitCode signal : Nat) (pc : ExitPc)
  /-- `add_child_process(child)`. -/
  | addChildProcess (child : LibosChildProcess) (pc : AddPc)
  deriving DecidableEq, Repr

/-- Where `do_waitid` goes once its node is off the queue: to `out` after a
failed `thread_wait`, else to the loop test. -/
def afterRemove : Option Int → WaitPc
  | some err => .out err
  | none => .loopTest

section Thread

variable (tid : Nat)

/-- One step of `do_waitid(which, id, infop, options)` in the thread `tid`. -/
def waitidStep (which : IdType) (id : Nat) (options : WaitOptions) :
    WaitPc → WaitProcess → Option (WaitPc × WaitProcess)
  | .top, p => (p.childrenLock.lock tid).map fun l => (.scan, { p with childrenLock := l })
  | .scan, p =>
    match p.zombies.find? (childMatches which id options) with
    | some child =>
      some (.out 0, if options.wnowait then p else { p with zombies := p.zombies.erase child })
    | none =>
      if !p.children.any (childMatches which id options) then some (.out (-ECHILD), p)
      else if options.wnohang then some (.out 0, p)
      else
        -- the node goes on the queue with a reference to the thread, then the lock is dropped
        some (.check, { p with waitQueue := tid :: p.waitQueue, inUse := Function.update p.inUse tid true,
                               refs := Function.update p.refs tid (p.refs tid + 1),
                               childrenLock := p.childrenLock.unlock })
  | .check, p =>
    let p := { p with wakeup := Function.update p.wakeup tid false }
    -- a node that is no longer in use means the exit path took it: `break`
    if p.inUse tid then some (.sleep, p) else some (.out (-ERESTARTSYS), p)
  | .sleep, p =>
    if p.wakeup tid || p.pendingSignals then
      some (.removeLock none, { p with wakeup := Function.update p.wakeup tid false })
    else none
  | .removeLock err, p => (p.childrenLock.lock tid).map fun l => (.removeUnlink err, { p with childrenLock := l })
  | .removeUnlink err, p =>
    let unlinked := { p with waitQueue := p.waitQueue.erase tid, childrenLock := p.childrenLock.unlock }
    if tid ∈ p.waitQueue then
      some (afterRemove err, { unlinked with refs := Function.update p.refs tid (p.refs tid - 1) })
    else some (.removeDrain err, unlinked)
  | .removeDrain err, p => if p.inUse tid then none else some (afterRemove err, p)
  | .loopTest, p => if p.pendingSignals then some (.out (-ERESTARTSYS), p) else some (.top, p)
  | .out ret, p => some (.done ret, { p with childrenLock := p.childrenLock.unlock })
  | .done _, _ => none

/-- One step of `mark_child_exited_by_pid(pid, child_uid, exit_code, signal)`
in the thread `tid`: the child becomes a zombie, the parent's signal is sent
and the queue is taken under the lock; the nodes are released after it. -/
def markChildExitedStep (pid uid exitCode signal : Nat) :
    ExitPc → WaitProcess → Option (ExitPc × WaitProcess)
  | .top, p => (p.childrenLock.lock tid).map fun l => (.scan, { p with childrenLock := l })
  | .scan, p =>
    match p.children.find? (·.pid == pid) with
    | some child =>
      some (.wake p.waitQueue,
        { p with children := p.children.erase child,
                 zombies := { child with exitCode, termSignal := signal, uid } :: p.zombies,
                 waitQueue := [],
                 pendingSignals := p.pendingSignals || child.childTerminationSignal != 0,
                 childrenLock := p.childrenLock.unlock })
    | none => some (.wake [], { p with childrenLock := p.childrenLock.unlock })
  | .wake [], p => some (.done, p)
  | .wake (qnode :: rest), p => some (.put qnode rest, { p with inUse := Function.update p.inUse qnode false })
  -- the node may be gone by now: the thread was read before the store to `in_use`
  | .put thread rest, p =>
    some (.wake rest, { p with wakeup := Function.update p.wakeup thread true,
                               refs := Function.update p.refs thread (p.refs thread - 1) })
  | .done, _ => none

/-- One step of `add_child_process(child)` in the thread `tid`. -/
def addChildProcessStep (child : LibosChildProcess) : AddPc → WaitProcess → Option (AddPc × WaitProcess)
  | .top, p => (p.childrenLock.lock tid).map fun l => (.add, { p with childrenLock := l })
  | .add, p => some (.done, { p with children := child :: p.children, childrenLock := p.childrenLock.unlock })
  | .done, _ => none

/-- One step of the thread `tid` running `thread`. -/
def WaitThread.step : WaitThread → WaitProcess → Option (WaitThread × WaitProcess)
  | .waitid which id options pc, p =>
    (waitidStep tid which id options pc p).map fun next => (.waitid which id options next.1, next.2)
  | .markChildExited pid uid exitCode signal pc, p =>
    (markChildExitedStep tid pid uid exitCode signal pc p).map fun next =>
      (.markChildExited pid uid exitCode signal next.1, next.2)
  | .addChildProcess child pc, p =>
    (addChildProcessStep tid child pc p).map fun next => (.addChildProcess child next.1, next.2)

attribute [grind] WaitThread.step

end Thread

/-- The process and the call each of its threads runs. -/
structure WaitSystem where
  process : WaitProcess
  threads : Nat → Option WaitThread

/-- What happens next: a thread takes its next step, or the `thread_wait` of
a thread fails with `err`. -/
inductive WaitOp
  | run (tid : Nat)
  | waitFails (tid : Nat) (err : Int)
  deriving DecidableEq, Repr

def waitStep : WaitOp → WaitSystem → Option WaitSystem
  | .run tid, s =>
    match s.threads tid with
    | some thread =>
      (thread.step tid s.process).map fun next =>
        ⟨next.2, Function.update s.threads tid (some next.1)⟩
    | none => none
  | .waitFails tid err, s =>
    match s.threads tid with
    | some (.waitid which id options .sleep) =>
      if err < 0 ∧ err ≠ -EINTR then
        some { s with threads := Function.update s.threads tid (some (.waitid which id options (.removeLock err))) }
      else none
    | _ => none

/-- A call at its start. -/
def WaitThread.AtStart : WaitThread → Prop
  | .waitid _ _ _ pc => pc = .top
  | .markChildExited _ _ _ _ pc => pc = .top
  | .addChildProcess _ pc => pc = .top

/-- A process with `children_lock` free and no thread waiting, whose threads,
none numbered `0`, are at the start of their calls. -/
structure WaitSystem.Initial (s : WaitSystem) : Prop where
  lockFree : s.process.childrenLock = ⟨true, 0⟩
  noQueue : s.process.waitQueue = []
  noThreadZero : s.threads 0 = none
  atStart : ∀ tid thread, s.threads tid = some thread → thread.AtStart

/-- The states the threads reach, in any interleaving of their steps. -/
inductive WaitRun : WaitSystem → Prop
  | init {s : WaitSystem} : s.Initial → WaitRun s
  | step {s s' : WaitSystem} (op : WaitOp) : WaitRun s → waitStep op s = some s' → WaitRun s'

def waitSteps : List WaitOp → WaitSystem → Option WaitSystem
  | [], s => some s
  | op :: ops, s => (waitStep op s).bind (waitSteps ops)

attribute [grind] waitStep

theorem WaitRun.steps : ∀ {ops : List WaitOp} {s s' : WaitSystem}, WaitRun s → waitSteps ops s = some s' →
    WaitRun s'
  | [], _, _, run, h => by
    cases h
    exact run
  | op :: ops, s, s', run, h => by
    rw [waitSteps] at h
    obtain ⟨next, stepped, rest⟩ := Option.bind_eq_some_iff.mp h
    exact (run.step op stepped).steps rest

/-! ## Who owns `children_lock`

`unlock` does not look at `l->owner`, so the lock is only as good as the
calls that unlock it. The owner of a held lock is always a thread past its
`lock` and before the `unlock` that follows on some path (`waitRun_lockOwned`);
but `do_waitid` reaches `out:`, and its `unlock`, from paths that hold the
lock and from paths that do not. -/

/-- The positions of `do_waitid` from which the next access to
`children_lock` on some path is an `unlock`. -/
def WaitPc.beforeUnlock : WaitPc → Bool
  | .scan | .removeUnlink _ | .out _ => true
  | _ => false

def ExitPc.beforeUnlock (pc : ExitPc) : Bool := pc == .scan

def AddPc.beforeUnlock (pc : AddPc) : Bool := pc == .add

/-- Where the owner of `children_lock` can be. -/
def WaitThread.beforeUnlock : WaitThread → Bool
  | .waitid _ _ _ pc => pc.beforeUnlock
  | .markChildExited _ _ _ _ pc => pc.beforeUnlock
  | .addChildProcess _ pc => pc.beforeUnlock

/-- What one step of the thread `tid` does to `children_lock`, with whether
the thread is before an unlock before and after the step: it leaves the lock
alone and stays before its unlock if it was, or takes the lock while it is
set, or unlocks it. -/
inductive LockEffect (tid : Nat) (l : LibosLock) (before : Bool) : LibosLock → Bool → Prop
  | keep {after : Bool} : (before = true → after = true) → LockEffect tid l before l after
  | lock : l.set = true → LockEffect tid l before ⟨false, tid⟩ true
  | unlock {after : Bool} : LockEffect tid l before ⟨true, 0⟩ after

/-- A step that takes the lock moves to a position before its unlock. -/
theorem LockEffect.of_lock {tid : Nat} {l l' : LibosLock} {before : Bool} (h : l.lock tid = some l') :
    LockEffect tid l before l' true := by
  obtain ⟨set, rfl⟩ := LibosLock.lock_eq_some h
  exact .lock set

theorem LockEffect.of_eq {tid : Nat} {l l' : LibosLock} {before after : Bool} (same : l' = l)
    (stays : before = true → after = true) : LockEffect tid l before l' after :=
  same ▸ .keep stays

section Effects

variable {tid : Nat} {p p' : WaitProcess}

/-- A step that only takes `children_lock`, to go on before its unlock. -/
theorem lockEffect_of_map_lock {σ : Type} {before : Bool} {next : σ}
    {mk : LibosLock → σ × WaitProcess} {after : σ → Bool} (lockOf : ∀ l, (mk l).2.childrenLock = l)
    (afterOf : ∀ l, after (mk l).1 = true) (h : (p.childrenLock.lock tid).map mk = some (next, p')) :
    LockEffect tid p.childrenLock before p'.childrenLock (after next) := by
  obtain ⟨l, locked, stepped⟩ := Option.map_eq_some_iff.mp h
  have lockIs : p'.childrenLock = l := by rw [← lockOf l, stepped]
  have afterIs : after next = true := by rw [← afterOf l, stepped]
  rw [lockIs, afterIs]
  exact .of_lock locked

theorem waitidStep_lockEffect {which : IdType} {id : Nat} {options : WaitOptions} {pc pc' : WaitPc}
    (h : waitidStep tid which id options pc p = some (pc', p')) :
    LockEffect tid p.childrenLock pc.beforeUnlock p'.childrenLock pc'.beforeUnlock := by
  cases pc with
  | top => exact lockEffect_of_map_lock (fun _ => rfl) (fun _ => rfl) h
  | scan =>
    -- the paths to `out` keep the lock; the one to `check` drops it
    simp only [waitidStep] at h
    split at h
    · obtain ⟨rfl, rfl⟩ := Prod.mk.inj (Option.some.inj h)
      exact .of_eq (by split <;> rfl) fun _ => rfl
    · split_ifs at h <;> obtain ⟨rfl, rfl⟩ := Prod.mk.inj (Option.some.inj h)
      · exact .keep fun _ => rfl
      · exact .keep fun _ => rfl
      · exact .unlock
  | check =>
    simp only [waitidStep] at h
    split_ifs at h <;> obtain ⟨rfl, rfl⟩ := Prod.mk.inj (Option.some.inj h) <;>
      exact .keep fun before => by cases before
  | sleep =>
    simp only [waitidStep] at h
    split_ifs at h
    obtain ⟨rfl, rfl⟩ := Prod.mk.inj (Option.some.inj h)
    exact .keep fun before => by cases before
  | removeLock err => exact lockEffect_of_map_lock (fun _ => rfl) (fun _ => rfl) h
  | removeUnlink err =>
    simp only [waitidStep] at h
    split_ifs at h <;> obtain ⟨rfl, rfl⟩ := Prod.mk.inj (Option.some.inj h) <;> exact .unlock
  | removeDrain err =>
    simp only [waitidStep] at h
    split_ifs at h
    obtain ⟨rfl, rfl⟩ := Prod.mk.inj (Option.some.inj h)
    exact .keep fun before => by cases before
  | loopTest =>
    simp only [waitidStep] at h
    split_ifs at h <;> obtain ⟨rfl, rfl⟩ := Prod.mk.inj (Option.some.inj h) <;>
      exact .keep fun before => by cases before
  | out ret =>
    obtain ⟨rfl, rfl⟩ := Prod.mk.inj (Option.some.inj h)
    exact .unlock
  | done ret => cases h

theorem markChildExitedStep_lockEffect {pid uid exitCode signal : Nat} {pc pc' : ExitPc}
    (h : markChildExitedStep tid pid uid exitCode signal pc p = some (pc', p')) :
    LockEffect tid p.childrenLock pc.beforeUnlock p'.childrenLock pc'.beforeUnlock := by
  cases pc with
  | top => exact lockEffect_of_map_lock (fun _ => rfl) (fun _ => rfl) h
  | scan =>
    simp only [markChildExitedStep] at h
    split at h <;> obtain ⟨rfl, rfl⟩ := Prod.mk.inj (Option.some.inj h) <;> exact .unlock
  | wake queue =>
    cases queue with
    | nil =>
      obtain ⟨rfl, rfl⟩ := Prod.mk.inj (Option.some.inj h)
      exact .keep fun before => by cases before
    | cons qnode rest =>
      obtain ⟨rfl, rfl⟩ := Prod.mk.inj (Option.some.inj h)
      exact .keep fun before => by cases before
  | put thread rest =>
    obtain ⟨rfl, rfl⟩ := Prod.mk.inj (Option.some.inj h)
    exact .keep fun before => by cases before
  | done => cases h

theorem addChildProcessStep_lockEffect {child : LibosChildProcess} {pc pc' : AddPc}
    (h : addChildProcessStep tid child pc p = some (pc', p')) :
    LockEffect tid p.childrenLock pc.beforeUnlock p'.childrenLock pc'.beforeUnlock := by
  cases pc with
  | top => exact lockEffect_of_map_lock (fun _ => rfl) (fun _ => rfl) h
  | add =>
    obtain ⟨rfl, rfl⟩ := Prod.mk.inj (Option.some.inj h)
    exact .unlock
  | done => cases h

theorem WaitThread.step_lockEffect {t t' : WaitThread} (h : t.step tid p = some (t', p')) :
    LockEffect tid p.childrenLock t.beforeUnlock p'.childrenLock t'.beforeUnlock := by
  cases t with
  | waitid which id options pc =>
    obtain ⟨⟨pc', p''⟩, stepped, next⟩ := Option.map_eq_some_iff.mp h
    obtain ⟨rfl, rfl⟩ := Prod.mk.inj next
    exact waitidStep_lockEffect stepped
  | markChildExited pid uid exitCode signal pc =>
    obtain ⟨⟨pc', p''⟩, stepped, next⟩ := Option.map_eq_some_iff.mp h
    obtain ⟨rfl, rfl⟩ := Prod.mk.inj next
    exact markChildExitedStep_lockEffect stepped
  | addChildProcess child pc =>
    obtain ⟨⟨pc', p''⟩, stepped, next⟩ := Option.map_eq_some_iff.mp h
    obtain ⟨rfl, rfl⟩ := Prod.mk.inj next
    exact addChildProcessStep_lockEffect stepped

end Effects

/-- `children_lock` is set exactly while it has no owner, and its owner is a
thread before its unlock; no thread is numbered `0`, the owner of none. -/
structure WaitSystem.LockOwned (s : WaitSystem) : Prop where
  noThreadZero : s.threads 0 = none
  setIff : s.process.childrenLock.set = true ↔ s.process.childrenLock.owner = 0
  owner : s.process.childrenLock.owner ≠ 0 →
    ∃ t, s.threads s.process.childrenLock.owner = some t ∧ t.beforeUnlock = true

theorem WaitSystem.Initial.lockOwned {s : WaitSystem} (init : s.Initial) : s.LockOwned where
  noThreadZero := init.noThreadZero
  setIff := by
    rw [init.lockFree]
    exact ⟨fun _ => rfl, fun _ => rfl⟩
  owner := by
    rw [init.lockFree]
    intro owned
    exact absurd rfl owned

/-- A step of the thread `tid` keeps the lock owned: the owner is `tid` only
if `tid` was before its unlock, or took the lock; any other owner is left as
it was. -/
theorem WaitSystem.LockOwned.run {s : WaitSystem} (inv : s.LockOwned) {tid : Nat} {t t' : WaitThread}
    {p' : WaitProcess} (thread : s.threads tid = some t) (stepped : t.step tid s.process = some (t', p')) :
    WaitSystem.LockOwned ⟨p', Function.update s.threads tid (some t')⟩ := by
  have tidPos : tid ≠ 0 := by
    rintro rfl
    rw [inv.noThreadZero] at thread
    cases thread
  have noThreadZero : Function.update s.threads tid (some t') 0 = none := by
    rw [Function.update_of_ne (Ne.symm tidPos), inv.noThreadZero]
  have effect := WaitThread.step_lockEffect stepped
  generalize lockAfter : p'.childrenLock = l', afterIs : t'.beforeUnlock = after at effect
  cases effect with
  | keep stays =>
    refine ⟨noThreadZero, ?_, fun owned => ?_⟩
    · dsimp only
      rw [lockAfter]
      exact inv.setIff
    · dsimp only at owned ⊢
      rw [lockAfter] at owned ⊢
      by_cases self : s.process.childrenLock.owner = tid
      · obtain ⟨t₀, owner, before⟩ := inv.owner owned
        rw [self, thread] at owner
        cases owner
        exact ⟨t', by rw [self, Function.update_self], afterIs.trans (stays before)⟩
      · rw [Function.update_of_ne self]
        exact inv.owner owned
  | lock set =>
    refine ⟨noThreadZero, ?_, fun _ => ?_⟩
    · dsimp only
      rw [lockAfter]
      exact ⟨fun set => absurd set Bool.false_ne_true, fun owner => absurd owner tidPos⟩
    · dsimp only
      rw [lockAfter]
      exact ⟨t', Function.update_self .., afterIs⟩
  | unlock =>
    refine ⟨noThreadZero, ?_, fun owned => ?_⟩
    · dsimp only
      rw [lockAfter]
      exact ⟨fun _ => rfl, fun _ => rfl⟩
    · dsimp only at owned
      rw [lockAfter] at owned
      exact absurd rfl owned

/-- A failed `thread_wait` only moves a sleeping waiter to its removal. -/
theorem waitStep_waitFails {s s' : WaitSystem} {tid : Nat} {err : Int}
    (h : waitStep (.waitFails tid err) s = some s') :
    ∃ which id options, s.threads tid = some (.waitid which id options .sleep) ∧
      s' = { s with threads := Function.update s.threads tid (some (.waitid which id options (.removeLock err))) } := by
  simp only [waitStep] at h
  split at h
  · rename_i which id options sleeping
    split_ifs at h
    exact ⟨which, id, options, sleeping, (Option.some.inj h).symm⟩
  · cases h

theorem WaitSystem.LockOwned.step {s s' : WaitSystem} (inv : s.LockOwned) {op : WaitOp}
    (h : waitStep op s = some s') : s'.LockOwned := by
  cases op with
  | run tid =>
    cases thread : s.threads tid with
    | none => simp [waitStep, thread] at h
    | some t =>
      simp only [waitStep, thread] at h
      obtain ⟨⟨t', p'⟩, stepped, rfl⟩ := Option.map_eq_some_iff.mp h
      exact inv.run thread stepped
  | waitFails tid err =>
    -- only a sleeping waiter's position changes, and a sleeping waiter owns nothing
    obtain ⟨which, id, options, sleeping, rfl⟩ := waitStep_waitFails h
    have tidPos : tid ≠ 0 := by
      rintro rfl
      rw [inv.noThreadZero] at sleeping
      cases sleeping
    have notOwner : s.process.childrenLock.owner ≠ tid := by
      intro self
      obtain ⟨t₀, owner, before⟩ := inv.owner (self ▸ tidPos)
      rw [self, sleeping] at owner
      cases owner
      cases before
    refine ⟨by dsimp only; rw [Function.update_of_ne (Ne.symm tidPos), inv.noThreadZero], inv.setIff, ?_⟩
    intro owned
    dsimp only
    rw [Function.update_of_ne notOwner]
    exact inv.owner owned

theorem waitRun_lockOwned {s : WaitSystem} (run : WaitRun s) : s.LockOwned := by
  induction run with
  | init init => exact init.lockOwned
  | step op _ stepped inv => exact inv.step stepped

/-- In every run, a waiter at `out:` that does not own `children_lock` while
another thread does frees the lock under that thread: the owner is still
before its unlock, and the lock is set for any thread to take. -/
theorem waitRun_out_frees_owned_lock {s : WaitSystem} (run : WaitRun s) {tid : Nat} {which : IdType}
    {id : Nat} {options : WaitOptions} {ret : Int}
    (waiter : s.threads tid = some (.waitid which id options (.out ret)))
    (owned : s.process.childrenLock.owner ≠ 0) (other : s.process.childrenLock.owner ≠ tid) :
    ∃ s', waitStep (.run tid) s = some s' ∧ s'.process.childrenLock = ⟨true, 0⟩ ∧
      ∃ t, s'.threads s.process.childrenLock.owner = some t ∧ t.beforeUnlock = true := by
  obtain ⟨t, owner, before⟩ := (waitRun_lockOwned run).owner owned
  refine ⟨_, by simp only [waitStep, waiter]; rfl, rfl, t, ?_, before⟩
  dsimp only
  rw [Function.update_of_ne other, owner]

/-! ## A run that breaks `children_lock` -/

/-- The options of `wait4(-1, &status, 0, NULL)` in the loop: none. -/
def waitOptionsNone : WaitOptions := ⟨false, false, false, false⟩

/-- A child numbered `pid` that signals its exit with `SIGCHLD`. -/
def sigchldChild (pid : Nat) : LibosChildProcess := ⟨pid, SIGCHLD, 0, 0, 0⟩

/-- A process with one running child, `2`: thread `1` waits for any child,
thread `2` reports the exit of `2`, threads `3` and `4` add the children `3`
and `4`. -/
def childrenLockRaceStart : WaitSystem where
  process := ⟨[sigchldChild 2], [], [], ⟨true, 0⟩, fun _ => false, fun _ => false, fun _ => 0, false⟩
  threads := fun
    | 1 => some (.waitid .all 0 waitOptionsNone .top)
    | 2 => some (.markChildExited 2 0 0 0 .top)
    | 3 => some (.addChildProcess (sigchldChild 3) .top)
    | 4 => some (.addChildProcess (sigchldChild 4) .top)
    | _ => none

theorem childrenLockRaceStart_initial : childrenLockRaceStart.Initial where
  lockFree := rfl
  noQueue := rfl
  noThreadZero := rfl
  atStart := by
    intro tid thread started
    rcases tid with _ | _ | _ | _ | _ | tid <;> cases started <;> rfl

/-- The waiter queues its node and drops the lock; the exit takes the queue
and releases the node; thread `3` takes the lock; the waiter, finding its
node released, breaks out of the loop to `out:`. -/
def childrenLockRace : List WaitOp :=
  [.run 1, .run 1, .run 2, .run 2, .run 2, .run 2, .run 2, .run 3, .run 1]

theorem childrenLockRace_isSome : (waitSteps childrenLockRace childrenLockRaceStart).isSome = true := by
  decide +kernel

/-- Where `childrenLockRace` leaves the threads. -/
def childrenLockRaceState : WaitSystem :=
  (waitSteps childrenLockRace childrenLockRaceStart).getD childrenLockRaceStart

theorem waitRun_childrenLockRaceState : WaitRun childrenLockRaceState := by
  obtain ⟨s, ran⟩ := Option.isSome_iff_exists.mp childrenLockRace_isSome
  have reached : childrenLockRaceState = s := by rw [childrenLockRaceState, ran, Option.getD_some]
  exact reached ▸ WaitRun.steps (.init childrenLockRaceStart_initial) ran

theorem waitid_out_unlocks_children_lock_of_other :
    ∃ s, WaitRun s ∧ s.threads 1 = some (.waitid .all 0 waitOptionsNone (.out (-ERESTARTSYS))) ∧
      s.process.childrenLock = ⟨false, 3⟩ ∧
      ∃ s', waitSteps [.run 1, .run 4] s = some s' ∧
        s'.threads 3 = some (.addChildProcess (sigchldChild 3) .add) ∧
        s'.threads 4 = some (.addChildProcess (sigchldChild 4) .add) := by
  -- the waiter leaves through `out:` while thread 3 holds the lock; thread 4 then takes it too
  have next : (waitSteps [.run 1, .run 4] childrenLockRaceState).map (fun s' => (s'.threads 3, s'.threads 4)) =
      some (some (.addChildProcess (sigchldChild 3) .add), some (.addChildProcess (sigchldChild 4) .add)) := by
    decide +kernel
  obtain ⟨s', ran, both⟩ := Option.map_eq_some_iff.mp next
  obtain ⟨third, fourth⟩ := Prod.mk.inj both
  exact ⟨childrenLockRaceState, waitRun_childrenLockRaceState, by decide +kernel, by decide +kernel,
    s', ran, third, fourth⟩

theorem waitRun_out_frees_owned_lock_race :
    ∃ s', waitStep (.run 1) childrenLockRaceState = some s' ∧ s'.process.childrenLock = ⟨true, 0⟩ ∧
      ∃ t, s'.threads childrenLockRaceState.process.childrenLock.owner = some t ∧ t.beforeUnlock = true :=
  waitRun_out_frees_owned_lock waitRun_childrenLockRaceState
    (show childrenLockRaceState.threads 1 = some (.waitid .all 0 waitOptionsNone (.out (-ERESTARTSYS))) by
      decide +kernel)
    (by decide +kernel) (by decide +kernel)

end Gramine.LibOS.Sys
