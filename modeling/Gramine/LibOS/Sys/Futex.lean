import Mathlib
import Gramine.Common.Errno
/-!
# `libos_futex.c`

The futexes of one process, told apart by their address. A `struct libos_futex`
is a record in a heap, its index standing for its pointer, and `g_futex_tree`
is the list of the futexes in the tree. Each thread has its
`struct futex_waiter` (on the stack of `futex_wait`), its `scheduler_event` and
whether it is on a wake queue. The futex words are user memory, which any
thread may store to.

A thread inside `futex_wait`, `futex_wake`, `futex_wake_op` or `futex_requeue`
is at a position between two steps. A step is a section of the code from
taking `g_futex_tree_lock` or a futex's lock to releasing the last lock it
took, or a lock-free action: `create_new_futex`, the `put_futex` calls,
`thread_wait`, `wake_queue`. Thread reference counts are left out.

`LISTP_FOR_EACH_ENTRY_SAFE` over a futex's waiters is modelled by what it does
there. In `move_to_wake_queue` the body removes at most the cursor, and the
loop visits the waiters in order once. In `futex_requeue` every pass removes
or moves the first waiter, so the loop goes on with the new first waiter,
ending after a pass over a one-waiter list; when `futex1` is `futex2` a moved
waiter goes to the tail of the same list, and is met again.
-/

namespace Gramine.LibOS

/-- `struct libos_futex`: its address, its waiters (as their threads, in list
order), `in_tree` and `_ref_count`. A futex whose count falls to zero is
freed. -/
structure LibosFutex where
  uaddr : Nat
  waiters : List Nat
  inTree : Bool
  refCount : Nat
  deriving DecidableEq, Repr, Inhabited

/-- `struct futex_waiter`: its `bitset`, its `futex`, and whether it is linked
into a waiters list (`!LIST_EMPTY(&waiter, list)`). -/
structure FutexWaiter where
  bitset : UInt32
  futex : Nat
  linked : Bool
  deriving DecidableEq, Repr, Inhabited

/-- Where a thread is in the futex calls; each position keeps the locals the
rest of the call reads. `tmp` is the futex `create_new_futex` made and the
call did not enqueue, `queue` the wake queue, as its threads. -/
inductive FutexPc
  | idle
  | waitLookup (uaddr : Nat) (val : UInt32) (timeout : Bool) (bitset : UInt32)
  | waitCreate (uaddr : Nat) (val : UInt32) (timeout : Bool) (bitset : UInt32)
  | waitRelookup (uaddr : Nat) (val : UInt32) (timeout : Bool) (bitset : UInt32) (tmp : Nat)
  | waitPut (futex : Nat) (tmp : Option Nat) (timeout : Bool)
  | waitSleep (tmp : Option Nat) (timeout : Bool)
  | waitWake (tmp : Option Nat) (ret : Int)
  | waitDequeue (futex : Nat) (tmp : Option Nat) (ret : Int)
  | waitRelease (futex : Nat) (tmp : Option Nat) (ret : Int)
  | wakeLookup (uaddr : Nat) (toWake : Int) (bitset : UInt32)
  | wakeDequeue (futex : Nat) (woken : Nat) (queue : List Nat)
  | wakeQueue (futex : Nat) (woken : Nat) (queue : List Nat)
  | wakePut (futex : Nat) (woken : Nat)
  | wakeOpLookup (uaddr1 uaddr2 : Nat) (toWake1 toWake2 : Int) (val3 : UInt32)
  | wakeOpDequeue (futex1 futex2 : Option Nat) (ret : Int) (queue : List Nat)
  | wakeOpQueue (futex1 futex2 : Option Nat) (ret : Int) (queue : List Nat)
  | wakeOpPut (futex1 futex2 : Option Nat) (ret : Int)
  | requeueLookup (uaddr1 uaddr2 : Nat) (toWake toRequeue : Int) (val : Option UInt32)
  | requeueCreate (uaddr1 uaddr2 : Nat) (toWake toRequeue : Int) (val : Option UInt32)
  | requeueRelookup (uaddr1 uaddr2 : Nat) (toWake toRequeue : Int) (val : Option UInt32) (tmp : Nat)
  | requeueDequeue (futex1 : Option Nat) (futex2 : Nat) (tmp : Option Nat) (woken : Nat) (ret : Int)
      (queue : List Nat)
  | requeueQueue (futex1 : Option Nat) (futex2 : Nat) (tmp : Option Nat) (woken : Nat) (ret : Int)
      (queue : List Nat)
  | requeuePut (futex1 : Option Nat) (futex2 : Nat) (tmp : Option Nat) (ret : Int)
  | returned (ret : Int)
  deriving DecidableEq, Repr, Inhabited

/-- Outside any futex call. -/
def FutexPc.outside : FutexPc → Bool
  | .idle | .returned _ => true
  | _ => false

/-- A thread: where it is, its waiter, whether its `scheduler_event` is set,
and whether it is on a wake queue (`wake_queue.next` is not `NULL`). -/
structure FutexThread where
  pc : FutexPc
  waiter : FutexWaiter
  event : Bool
  queued : Bool
  deriving DecidableEq, Repr, Inhabited

/-- The futex heap, `g_futex_tree`, the futex words and the threads. -/
structure FutexSystem where
  futexes : List LibosFutex
  tree : List Nat
  words : List UInt32
  threads : List FutexThread
  deriving DecidableEq, Repr

attribute [grind] FutexPc.outside

namespace FutexSystem

variable (s : FutexSystem)

def futex (f : Nat) : LibosFutex := s.futexes.getD f default

def thread (tid : Nat) : FutexThread := s.threads.getD tid default

def word (uaddr : Nat) : UInt32 := s.words.getD uaddr 0

def modifyFutex (f : Nat) (g : LibosFutex → LibosFutex) : FutexSystem :=
  { s with futexes := s.futexes.modify f g }

def modifyThread (tid : Nat) (g : FutexThread → FutexThread) : FutexSystem :=
  { s with threads := s.threads.modify tid g }

def setPc (tid : Nat) (pc : FutexPc) : FutexSystem :=
  s.modifyThread tid fun th => { th with pc }

/-- `get_futex`. -/
def getFutex (f : Nat) : FutexSystem :=
  s.modifyFutex f fun x => { x with refCount := x.refCount + 1 }

/-- `put_futex`: the futex is freed when its count reaches zero. -/
def putFutex (f : Nat) : FutexSystem :=
  s.modifyFutex f fun x => { x with refCount := x.refCount - 1 }

/-- `put_futex` of a futex a call may not have. -/
def putFutexOpt : Option Nat → FutexSystem
  | some f => s.putFutex f
  | none => s

/-- `find_futex`: the futex of the tree at `uaddr`, with a reference taken. -/
def findFutex (uaddr : Nat) : Option Nat × FutexSystem :=
  match s.tree.find? fun f => (s.futex f).uaddr == uaddr with
  | some f => (some f, s.getFutex f)
  | none => (none, s)

/-- `create_new_futex`: a futex at `uaddr` with no waiters and one reference. -/
def createNewFutex (uaddr : Nat) : Nat × FutexSystem :=
  (s.futexes.length,
    { s with futexes := s.futexes ++ [{ uaddr, waiters := [], inTree := false, refCount := 1 }] })

/-- `enqueue_futex`. -/
def enqueueFutex (f : Nat) : FutexSystem :=
  ({ s.getFutex f with tree := s.tree ++ [f] }).modifyFutex f fun x => { x with inTree := true }

/-- `check_dequeue_futex`. -/
def checkDequeueFutex (f : Nat) : Bool :=
  (s.futex f).waiters.isEmpty && (s.futex f).inTree

/-- `_maybe_dequeue_futex`, and `maybe_dequeue_futex`, which takes the locks it
needs around it. -/
def maybeDequeueFutex (f : Nat) : FutexSystem :=
  if s.checkDequeueFutex f then
    ({ s with tree := s.tree.erase f }.modifyFutex f fun x => { x with inTree := false }).putFutex f
  else s

/-- `maybe_dequeue_two_futexes`. -/
def maybeDequeueTwoFutexes (futex1 futex2 : Option Nat) : FutexSystem :=
  let s := match futex1 with
    | some f => s.maybeDequeueFutex f
    | none => s
  match futex2 with
  | some f => s.maybeDequeueFutex f
  | none => s

/-- `add_futex_waiter` by the thread `tid`. -/
def addFutexWaiter (tid f : Nat) (bitset : UInt32) : FutexSystem :=
  ((s.getFutex f).modifyThread tid fun th => { th with waiter := ⟨bitset, f, true⟩ }).modifyFutex f
    fun x => { x with waiters := x.waiters ++ [tid] }

/-- `remove_futex_waiter`: `LISTP_DEL_INIT` of the waiter of `tid`. -/
def removeFutexWaiter (tid f : Nat) : FutexSystem :=
  (s.modifyFutex f fun x => { x with waiters := x.waiters.erase tid }).modifyThread tid
    fun th => { th with waiter := { th.waiter with linked := false } }

/-- `move_futex_waiter`. -/
def moveFutexWaiter (tid futex1 futex2 : Nat) : FutexSystem :=
  let s := (s.removeFutexWaiter tid futex1).getFutex futex2
  let s := s.putFutex (s.thread tid).waiter.futex
  (s.modifyThread tid fun th => { th with waiter := { th.waiter with futex := futex2, linked := true } }).modifyFutex
    futex2 fun x => { x with waiters := x.waiters ++ [tid] }

/-- `add_thread_to_queue`: a thread already on a wake queue is not added. -/
def addThreadToQueue (tid : Nat) (queue : List Nat) : List Nat × FutexSystem :=
  if (s.thread tid).queued then (queue, s)
  else (tid :: queue, s.modifyThread tid fun th => { th with queued := true })

/-- `wake_queue`. -/
def wakeQueue (queue : List Nat) : FutexSystem :=
  queue.foldl (fun s tid => s.modifyThread tid fun th => { th with queued := false, event := true }) s

attribute [grind] futex thread modifyFutex modifyThread removeFutexWaiter addThreadToQueue

end FutexSystem

open FutexSystem

/-- `move_to_wake_queue(futex, bitset, to_wake, queue)` over the waiters it
visits, with the count so far: a waiter whose bitset misses a nonzero
`bitset` is passed, the others are woken until `to_wake` are, and at least
one. -/
def moveToWakeQueue (f : Nat) (bitset : UInt32) (toWake : Int) :
    List Nat → Nat → List Nat → FutexSystem → Nat × List Nat × FutexSystem
  | [], woken, queue, s => (woken, queue, s)
  | tid :: rest, woken, queue, s =>
    if bitset != 0 && (s.thread tid).waiter.bitset &&& bitset == 0 then
      moveToWakeQueue f bitset toWake rest woken queue s
    else
      let next := (s.removeFutexWaiter tid f).addThreadToQueue tid queue
      if toWake ≤ (woken + 1 : Nat) then (woken + 1, next.1, next.2)
      else moveToWakeQueue f bitset toWake rest (woken + 1) next.1 next.2

/-- The passes of the loop of `futex_requeue` that wake: each wakes the first
waiter of `futex1`, `n` more at most. Whether the loop goes on. -/
def requeueWake (f1 : Nat) : Nat → Nat → List Nat → FutexSystem → Nat × List Nat × FutexSystem × Bool
  | 0, woken, queue, s => (woken, queue, s, true)
  | n + 1, woken, queue, s =>
    match (s.futex f1).waiters with
    | [] => (woken, queue, s, false)
    | tid :: rest =>
      let next := (s.removeFutexWaiter tid f1).addThreadToQueue tid queue
      if rest = [] then (woken + 1, next.1, next.2, false)
      else requeueWake f1 n (woken + 1) next.1 next.2

/-- The passes of the loop of `futex_requeue` that requeue: each moves the
first waiter of `futex1` to `futex2`, `n` more at most. -/
def requeueMove (f1 f2 : Nat) : Nat → Nat → FutexSystem → Nat × FutexSystem
  | 0, requeued, s => (requeued, s)
  | n + 1, requeued, s =>
    match (s.futex f1).waiters with
    | [] => (requeued, s)
    | tid :: rest =>
      let s := s.moveFutexWaiter tid f1 f2
      if rest = [] then (requeued + 1, s) else requeueMove f1 f2 n (requeued + 1) s

def FUTEX_OP_SET : UInt32 := 0
def FUTEX_OP_ADD : UInt32 := 1
def FUTEX_OP_OR : UInt32 := 2
def FUTEX_OP_ANDN : UInt32 := 3
def FUTEX_OP_XOR : UInt32 := 4
def FUTEX_OP_OPARG_SHIFT : UInt32 := 8
def FUTEX_OP_CMP_EQ : UInt32 := 0
def FUTEX_OP_CMP_NE : UInt32 := 1
def FUTEX_OP_CMP_LT : UInt32 := 2
def FUTEX_OP_CMP_LE : UInt32 := 3
def FUTEX_OP_CMP_GT : UInt32 := 4
def FUTEX_OP_CMP_GE : UInt32 := 5

/-- `wakeop_arg_extend`: the 12-bit argument sign-extended. -/
def wakeopArgExtend (x : UInt32) : Int :=
  if 0x800 ≤ x then (0xfffff000 ||| x).toBitVec.toInt else x.toNat

/-- The `oparg` of `futex_wake_op` with `FUTEX_OP_OPARG_SHIFT`. -/
def wakeOpShiftedArg (oparg : Int) : Int :=
  let oparg := if oparg < 0 ∨ 31 < oparg then (BitVec.ofInt 32 oparg &&& 0x1f).toInt else oparg
  if oparg = 31 then -2147483648 else 2 ^ oparg.toNat

/-- The new value of `*uaddr2` in `futex_wake_op`; `none` for an unknown op. -/
def wakeOpApply (op : UInt32) (oparg : Int) (old : UInt32) : Option UInt32 :=
  if op = FUTEX_OP_SET then some (UInt32.ofInt oparg)
  else if op = FUTEX_OP_ADD then some (old + UInt32.ofInt oparg)
  else if op = FUTEX_OP_OR then some (old ||| UInt32.ofInt oparg)
  else if op = FUTEX_OP_ANDN then some (old &&& ~~~(UInt32.ofInt oparg))
  else if op = FUTEX_OP_XOR then some (old ^^^ UInt32.ofInt oparg)
  else none

/-- `cmpval` of `futex_wake_op`; `none` for an unknown comparison. -/
def wakeOpCompare (cmp : UInt32) (oldval cmparg : Int) : Option Bool :=
  if cmp = FUTEX_OP_CMP_EQ then some (oldval == cmparg)
  else if cmp = FUTEX_OP_CMP_NE then some (oldval != cmparg)
  else if cmp = FUTEX_OP_CMP_LT then some (decide (oldval < cmparg))
  else if cmp = FUTEX_OP_CMP_LE then some (decide (oldval ≤ cmparg))
  else if cmp = FUTEX_OP_CMP_GT then some (decide (cmparg < oldval))
  else if cmp = FUTEX_OP_CMP_GE then some (decide (cmparg ≤ oldval))
  else none

attribute [grind] moveToWakeQueue

namespace FutexSystem

variable (s : FutexSystem) (tid : Nat)

/-- `futex_wait` from `spinlock_lock(&futex->lock)` to its unlock: `-EAGAIN`
if the word moved, else the waiter is added. -/
def waitLocked (f : Nat) (tmp : Option Nat) (uaddr : Nat) (val : UInt32) (timeout : Bool)
    (bitset : UInt32) : FutexSystem :=
  if s.word uaddr ≠ val then
    s.setPc tid (if s.checkDequeueFutex f then .waitDequeue f tmp (-EAGAIN) else .waitRelease f tmp (-EAGAIN))
  else
    -- `thread_prepare_wait` clears the event
    let s := s.modifyThread tid fun th => { th with event := false }
    (s.addFutexWaiter tid f bitset).setPc tid (.waitPut f tmp timeout)

/-- `futex_wait` after `thread_wait`, from taking `g_futex_tree_lock` to the
unlock of the futex its waiter is on: a waiter still linked was not woken. -/
def waitWoken (tmp : Option Nat) (ret : Int) : FutexSystem :=
  let f := (s.thread tid).waiter.futex
  let s := s.getFutex f
  let (s, ret) :=
    if (s.thread tid).waiter.linked then
      (s.removeFutexWaiter tid f, if ret = 0 ∨ ret = -EINTR then -ERESTARTSYS else ret)
    else (s, if ret = -EINTR then 0 else ret)
  let s := s.putFutex (s.thread tid).waiter.futex
  s.setPc tid (if s.checkDequeueFutex f then .waitDequeue f tmp ret else .waitRelease f tmp ret)

/-- `futex_wake` from taking `g_futex_tree_lock` to the unlock of the futex. -/
def wakeLocked (uaddr : Nat) (toWake : Int) (bitset : UInt32) : FutexSystem :=
  if bitset = 0 then s.setPc tid (.returned (-EINVAL))
  else
    match s.findFutex uaddr with
    | (none, s) => s.setPc tid (.returned 0)
    | (some f, s) =>
      let (woken, queue, s) := moveToWakeQueue f bitset toWake (s.futex f).waiters 0 [] s
      s.setPc tid (if s.checkDequeueFutex f then .wakeDequeue f woken queue else .wakeQueue f woken queue)

/-- `futex_wake_op` from taking `g_futex_tree_lock` to the unlock of the
futexes. -/
def wakeOpLocked (uaddr1 uaddr2 : Nat) (toWake1 toWake2 : Int) (val3 : UInt32) : FutexSystem :=
  let (futex1, s) := s.findFutex uaddr1
  let (futex2, s) := s.findFutex uaddr2
  let op := (val3 >>> 28) &&& 0x7
  let cmp := (val3 >>> 24) &&& 0xf
  let oparg := wakeopArgExtend ((val3 >>> 12) &&& 0xfff)
  let cmparg := wakeopArgExtend (val3 &&& 0xfff)
  let oparg := if (val3 >>> 28) &&& FUTEX_OP_OPARG_SHIFT ≠ 0 then wakeOpShiftedArg oparg else oparg
  let old := s.word uaddr2
  match wakeOpApply op oparg old with
  | none => s.setPc tid (.wakeOpQueue futex1 futex2 (-ENOSYS) [])
  | some new =>
    let s := { s with words := s.words.set uaddr2 new }
    match wakeOpCompare cmp old.toBitVec.toInt cmparg with
    | none => s.setPc tid (.wakeOpQueue futex1 futex2 (-ENOSYS) [])
    | some cmpval =>
      let (ret, queue, s, needs1) : Nat × List Nat × FutexSystem × Bool := match futex1 with
        | some f =>
          let (woken, queue, s) := moveToWakeQueue f 0 toWake1 (s.futex f).waiters 0 [] s
          (woken, queue, s, s.checkDequeueFutex f)
        | none => (0, [], s, false)
      let (ret, queue, s, needs2) : Nat × List Nat × FutexSystem × Bool := match futex2 with
        | some f =>
          if cmpval then
            let (woken, queue, s) := moveToWakeQueue f 0 toWake2 (s.futex f).waiters 0 queue s
            (ret + woken, queue, s, s.checkDequeueFutex f)
          else (ret, queue, s, false)
        | none => (ret, queue, s, false)
      s.setPc tid (if needs1 || needs2 then .wakeOpDequeue futex1 futex2 ret queue
        else .wakeOpQueue futex1 futex2 ret queue)

/-- `futex_requeue` from finding `futex1` to the unlock of the locks, with
`futex2`, the `tmp` it did not enqueue and `needs_dequeue2` so far. -/
def requeueLocked (uaddr1 f2 : Nat) (tmp : Option Nat) (needs2 : Bool) (toWake toRequeue : Int)
    (val : Option UInt32) : FutexSystem :=
  let (futex1, s) := s.findFutex uaddr1
  let next (s : FutexSystem) (woken : Nat) (ret : Int) (queue : List Nat) (needs : Bool) :=
    s.setPc tid (if needs then .requeueDequeue futex1 f2 tmp woken ret queue
      else .requeueQueue futex1 f2 tmp woken ret queue)
  if val.any (fun v => s.word uaddr1 != v) then next s 0 (-EAGAIN) [] needs2
  else
    match futex1 with
    | none => next s 0 0 [] needs2
    | some f1 =>
      let (woken, queue, s, more) := requeueWake f1 toWake.toNat 0 [] s
      let (requeued, s) := if more then requeueMove f1 f2 toRequeue.toNat 0 s else (0, s)
      next s woken (woken + requeued) queue (s.checkDequeueFutex f1 || s.checkDequeueFutex f2)

/-- The step of the thread `tid` at `pc`, when it can take one: a
`thread_wait` takes a set event, and `create_new_futex` succeeds. -/
def run : FutexPc → Option FutexSystem
  | .waitLookup uaddr val timeout bitset =>
    match s.findFutex uaddr with
    | (some f, s) => some (s.waitLocked tid f none uaddr val timeout bitset)
    | (none, s) => some (s.setPc tid (.waitCreate uaddr val timeout bitset))
  | .waitCreate uaddr val timeout bitset =>
    let (tmp, s) := s.createNewFutex uaddr
    some (s.setPc tid (.waitRelookup uaddr val timeout bitset tmp))
  | .waitRelookup uaddr val timeout bitset tmp =>
    match s.findFutex uaddr with
    | (some f, s) => some (s.waitLocked tid f (some tmp) uaddr val timeout bitset)
    | (none, s) => some ((s.enqueueFutex tmp).waitLocked tid tmp none uaddr val timeout bitset)
  | .waitPut f tmp timeout => some ((s.putFutex f).setPc tid (.waitSleep tmp timeout))
  | .waitSleep tmp _ =>
    if (s.thread tid).event then
      some ((s.modifyThread tid fun th => { th with event := false }).setPc tid (.waitWake tmp 0))
    else none
  | .waitWake tmp ret => some (s.waitWoken tid tmp ret)
  | .waitDequeue f tmp ret => some ((s.maybeDequeueFutex f).setPc tid (.waitRelease f tmp ret))
  | .waitRelease f tmp ret => some (((s.putFutex f).putFutexOpt tmp).setPc tid (.returned ret))
  | .wakeLookup uaddr toWake bitset => some (s.wakeLocked tid uaddr toWake bitset)
  | .wakeDequeue f woken queue => some ((s.maybeDequeueFutex f).setPc tid (.wakeQueue f woken queue))
  | .wakeQueue f woken queue => some ((s.wakeQueue queue).setPc tid (.wakePut f woken))
  | .wakePut f woken => some ((s.putFutex f).setPc tid (.returned woken))
  | .wakeOpLookup uaddr1 uaddr2 toWake1 toWake2 val3 =>
    some (s.wakeOpLocked tid uaddr1 uaddr2 toWake1 toWake2 val3)
  | .wakeOpDequeue futex1 futex2 ret queue =>
    some ((s.maybeDequeueTwoFutexes futex1 futex2).setPc tid (.wakeOpQueue futex1 futex2 ret queue))
  | .wakeOpQueue futex1 futex2 ret queue =>
    some ((if 0 < ret then s.wakeQueue queue else s).setPc tid (.wakeOpPut futex1 futex2 ret))
  | .wakeOpPut futex1 futex2 ret => some (((s.putFutexOpt futex1).putFutexOpt futex2).setPc tid (.returned ret))
  | .requeueLookup uaddr1 uaddr2 toWake toRequeue val =>
    if toWake < 0 ∨ toRequeue < 0 then some (s.setPc tid (.returned (-EINVAL)))
    else
      match s.findFutex uaddr2 with
      | (some f2, s) => some (s.requeueLocked tid uaddr1 f2 none false toWake toRequeue val)
      | (none, s) => some (s.setPc tid (.requeueCreate uaddr1 uaddr2 toWake toRequeue val))
  | .requeueCreate uaddr1 uaddr2 toWake toRequeue val =>
    let (tmp, s) := s.createNewFutex uaddr2
    some (s.setPc tid (.requeueRelookup uaddr1 uaddr2 toWake toRequeue val tmp))
  | .requeueRelookup uaddr1 uaddr2 toWake toRequeue val tmp =>
    match s.findFutex uaddr2 with
    | (some f2, s) => some (s.requeueLocked tid uaddr1 f2 (some tmp) true toWake toRequeue val)
    | (none, s) => some ((s.enqueueFutex tmp).requeueLocked tid uaddr1 tmp none true toWake toRequeue val)
  | .requeueDequeue futex1 f2 tmp woken ret queue =>
    some ((s.maybeDequeueTwoFutexes futex1 (some f2)).setPc tid (.requeueQueue futex1 f2 tmp woken ret queue))
  | .requeueQueue futex1 f2 tmp woken ret queue =>
    some ((if 0 < woken then s.wakeQueue queue else s).setPc tid (.requeuePut futex1 f2 tmp ret))
  | .requeuePut futex1 f2 tmp ret =>
    some ((((s.putFutexOpt futex1).putFutex f2).putFutexOpt tmp).setPc tid (.returned ret))
  | .idle | .returned _ => none

attribute [grind] waitWoken run

end FutexSystem

/-- What happens next: a thread outside any call makes one, a thread takes its
next step, `create_new_futex` fails, a `thread_wait` times out or is
interrupted, or user code stores to a futex word. -/
inductive FutexOp
  | wait (tid uaddr : Nat) (val : UInt32) (timeout : Bool) (bitset : UInt32)
  | wake (tid uaddr : Nat) (toWake : Int) (bitset : UInt32)
  | wakeOp (tid uaddr1 uaddr2 : Nat) (toWake1 toWake2 : Int) (val3 : UInt32)
  | requeue (tid uaddr1 uaddr2 : Nat) (toWake toRequeue : Int) (val : Option UInt32)
  | run (tid : Nat)
  | noMemory (tid : Nat)
  | timeOut (tid : Nat)
  | interrupt (tid : Nat)
  | store (uaddr : Nat) (v : UInt32)
  deriving DecidableEq, Repr

/-- A call by a thread outside any call, on valid futex words. -/
def FutexSystem.call (s : FutexSystem) (tid : Nat) (uaddrs : List Nat) (pc : FutexPc) :
    Option FutexSystem :=
  if tid < s.threads.length ∧ (s.thread tid).pc.outside ∧ ∀ uaddr ∈ uaddrs, uaddr < s.words.length then
    some (s.setPc tid pc)
  else none

def futexStep : FutexOp → FutexSystem → Option FutexSystem
  | .wait tid uaddr val timeout bitset, s => s.call tid [uaddr] (.waitLookup uaddr val timeout bitset)
  | .wake tid uaddr toWake bitset, s => s.call tid [uaddr] (.wakeLookup uaddr toWake bitset)
  | .wakeOp tid uaddr1 uaddr2 toWake1 toWake2 val3, s =>
    s.call tid [uaddr1, uaddr2] (.wakeOpLookup uaddr1 uaddr2 toWake1 toWake2 val3)
  | .requeue tid uaddr1 uaddr2 toWake toRequeue val, s =>
    s.call tid [uaddr1, uaddr2] (.requeueLookup uaddr1 uaddr2 toWake toRequeue val)
  | .run tid, s => if tid < s.threads.length then s.run tid (s.thread tid).pc else none
  | .noMemory tid, s =>
    match (s.thread tid).pc with
    | .waitCreate .. | .requeueCreate .. => some (s.setPc tid (.returned (-ENOMEM)))
    | _ => none
  | .timeOut tid, s =>
    match (s.thread tid).pc with
    | .waitSleep tmp true => some (s.setPc tid (.waitWake tmp (-ETIMEDOUT)))
    | _ => none
  | .interrupt tid, s =>
    match (s.thread tid).pc with
    | .waitSleep tmp _ => some (s.setPc tid (.waitWake tmp (-EINTR)))
    | _ => none
  | .store uaddr v, s => if uaddr < s.words.length then some { s with words := s.words.set uaddr v } else none

def futexSteps : List FutexOp → FutexSystem → Option FutexSystem
  | [], s => some s
  | op :: ops, s => (futexStep op s).bind (futexSteps ops)

/-- No futex, `n` threads outside any call, and the futex words `words`. -/
def FutexSystem.initial (n : Nat) (words : List UInt32) : FutexSystem :=
  ⟨[], [], words, List.replicate n ⟨.idle, default, false, false⟩⟩

/-- The states of the runs from `FutexSystem.initial`. -/
inductive FutexReach : FutexSystem → Prop
  | initial (n : Nat) (words : List UInt32) : FutexReach (.initial n words)
  | step {s s' : FutexSystem} (op : FutexOp) : FutexReach s → futexStep op s = some s' → FutexReach s'

attribute [grind] futexStep futexSteps

theorem FutexReach.steps : ∀ {ops : List FutexOp} {s s' : FutexSystem}, FutexReach s →
    futexSteps ops s = some s' → FutexReach s'
  | [], _, _, reach, steps => by
    cases steps
    exact reach
  | op :: ops, s, s', reach, steps => by
    simp only [futexSteps, Option.bind_eq_some_iff] at steps
    obtain ⟨mid, stepped, rest⟩ := steps
    exact FutexReach.steps (.step op reach stepped) rest

/-! ## What the helpers change -/

namespace FutexSystem

variable {s : FutexSystem} {t u f g : Nat}

@[simp] theorem threads_length_modifyThread {h : FutexThread → FutexThread} :
    (s.modifyThread t h).threads.length = s.threads.length :=
  List.length_modify ..

@[simp] theorem thread_modifyFutex {h : LibosFutex → LibosFutex} : (s.modifyFutex f h).thread u = s.thread u :=
  rfl

@[simp] theorem futex_modifyThread {h : FutexThread → FutexThread} : (s.modifyThread t h).futex f = s.futex f :=
  rfl

@[simp] theorem tree_modifyThread {h : FutexThread → FutexThread} : (s.modifyThread t h).tree = s.tree :=
  rfl

@[simp] theorem tree_modifyFutex {h : LibosFutex → LibosFutex} : (s.modifyFutex f h).tree = s.tree :=
  rfl

@[simp] theorem threads_modifyFutex {h : LibosFutex → LibosFutex} : (s.modifyFutex f h).threads = s.threads :=
  rfl

theorem thread_modifyThread_self {h : FutexThread → FutexThread} (inside : t < s.threads.length) :
    (s.modifyThread t h).thread t = h (s.thread t) := by
  simp [thread, modifyThread, List.getD_eq_getElem?_getD, inside]

theorem thread_modifyThread_ne {h : FutexThread → FutexThread} (other : t ≠ u) :
    (s.modifyThread t h).thread u = s.thread u := by
  simp [thread, modifyThread, List.getD_eq_getElem?_getD, other]

theorem futex_modifyFutex_self {h : LibosFutex → LibosFutex} (inside : f < s.futexes.length) :
    (s.modifyFutex f h).futex f = h (s.futex f) := by
  simp [futex, modifyFutex, List.getD_eq_getElem?_getD, inside]

theorem futex_modifyFutex_ne {h : LibosFutex → LibosFutex} (other : f ≠ g) :
    (s.modifyFutex f h).futex g = s.futex g := by
  simp [futex, modifyFutex, List.getD_eq_getElem?_getD, other]

/-- A reference taken leaves the futex's waiters. -/
@[simp] theorem waiters_getFutex : ((s.getFutex f).futex g).waiters = (s.futex g).waiters := by
  by_cases same : f = g
  · subst same
    by_cases inside : f < s.futexes.length
    · simp only [getFutex, futex_modifyFutex_self inside]
    · simp [getFutex, futex, modifyFutex, List.getD_eq_getElem?_getD, inside]
  · simp only [getFutex, futex_modifyFutex_ne same]

@[simp] theorem pc_setPc_self {pc : FutexPc} (inside : t < s.threads.length) : ((s.setPc t pc).thread t).pc = pc := by
  rw [setPc, thread_modifyThread_self inside]

theorem thread_setPc_ne {pc : FutexPc} (other : t ≠ u) : (s.setPc t pc).thread u = s.thread u :=
  thread_modifyThread_ne other

@[simp] theorem threads_length_setPc {pc : FutexPc} : (s.setPc t pc).threads.length = s.threads.length :=
  threads_length_modifyThread

@[simp] theorem thread_getFutex : (s.getFutex f).thread u = s.thread u :=
  rfl

@[simp] theorem thread_putFutex : (s.putFutex f).thread u = s.thread u :=
  rfl

@[simp] theorem threads_getFutex : (s.getFutex f).threads = s.threads :=
  rfl

@[simp] theorem threads_putFutex : (s.putFutex f).threads = s.threads :=
  rfl

@[simp] theorem threads_putFutexOpt {tmp : Option Nat} : (s.putFutexOpt tmp).threads = s.threads := by
  cases tmp <;> rfl

@[simp] theorem threads_maybeDequeueFutex : (s.maybeDequeueFutex f).threads = s.threads := by
  unfold maybeDequeueFutex
  split <;> rfl

@[simp] theorem threads_length_wakeQueue {queue : List Nat} : (s.wakeQueue queue).threads.length = s.threads.length := by
  induction queue generalizing s with
  | nil => rfl
  | cons tid rest ih =>
    simp only [wakeQueue, List.foldl_cons] at ih ⊢
    rw [ih, threads_length_modifyThread]

@[simp] theorem threads_length_removeFutexWaiter : (s.removeFutexWaiter t f).threads.length = s.threads.length := by
  simp [removeFutexWaiter]

@[simp] theorem threads_length_waitWoken {tmp : Option Nat} {ret : Int} :
    (s.waitWoken t tmp ret).threads.length = s.threads.length := by
  unfold waitWoken
  by_cases linked : (s.thread t).waiter.linked = true <;> simp [linked]

theorem findFutex_of_find? {uaddr : Nat} (found : s.tree.find? (fun f => (s.futex f).uaddr == uaddr) = some f) :
    s.findFutex uaddr = (some f, s.getFutex f) := by
  simp only [findFutex, found]

end FutexSystem

/-- How a thread's record may change under a step of another thread that
wakes: its position, its waiter's futex and bitset stay, and its waiter may be
unlinked, not linked. -/
def FutexThread.Unlinks (th th' : FutexThread) : Prop :=
  th'.pc = th.pc ∧ th'.waiter.futex = th.waiter.futex ∧ th'.waiter.bitset = th.waiter.bitset ∧
    (th'.waiter.linked = true → th.waiter.linked = true)

theorem FutexThread.Unlinks.refl (th : FutexThread) : th.Unlinks th :=
  ⟨rfl, rfl, rfl, id⟩

theorem FutexThread.Unlinks.trans {th th' th'' : FutexThread} (first : th.Unlinks th')
    (second : th'.Unlinks th'') : th.Unlinks th'' := by
  obtain ⟨pc, futex, bitset, linked⟩ := first
  obtain ⟨pc', futex', bitset', linked'⟩ := second
  exact ⟨pc'.trans pc, futex'.trans futex, bitset'.trans bitset, fun now => linked (linked' now)⟩

namespace FutexSystem

variable {s : FutexSystem} {t u f : Nat}

theorem removeFutexWaiter_unlinks (s : FutexSystem) (t f u : Nat) :
    (s.thread u).Unlinks ((s.removeFutexWaiter t f).thread u) := by
  by_cases same : t = u
  · subst same
    by_cases inside : t < s.threads.length
    · rw [removeFutexWaiter, thread_modifyThread_self (by simpa using inside), thread_modifyFutex]
      exact ⟨rfl, rfl, rfl, nofun⟩
    · simp only [removeFutexWaiter, thread, modifyThread, modifyFutex, List.getD_eq_getElem?_getD,
        List.getElem?_modify, List.getElem?_eq_none (Nat.le_of_not_lt inside)]
      exact .refl _
  · simp only [removeFutexWaiter, thread_modifyThread_ne same, thread_modifyFutex]
    exact .refl _

theorem removeFutexWaiter_linked (inside : t < s.threads.length) :
    ((s.removeFutexWaiter t f).thread t).waiter.linked = false := by
  rw [removeFutexWaiter, thread_modifyThread_self (by simpa using inside)]

theorem addThreadToQueue_unlinks (s : FutexSystem) (t : Nat) (queue : List Nat) (u : Nat) :
    (s.thread u).Unlinks ((s.addThreadToQueue t queue).2.thread u) := by
  unfold addThreadToQueue
  split
  · exact .refl _
  · by_cases same : t = u
    · subst same
      by_cases inside : t < s.threads.length
      · rw [thread_modifyThread_self inside]
        exact .refl _
      · simp only [thread, modifyThread, List.getD_eq_getElem?_getD, List.getElem?_modify,
          List.getElem?_eq_none (Nat.le_of_not_lt inside)]
        exact .refl _
    · rw [thread_modifyThread_ne same]
      exact .refl _

@[simp] theorem threads_length_addThreadToQueue {queue : List Nat} :
    (s.addThreadToQueue t queue).2.threads.length = s.threads.length := by
  unfold addThreadToQueue
  split <;> simp

end FutexSystem

open FutexSystem in
/-- `move_to_wake_queue` only unlinks waiters. -/
theorem moveToWakeQueue_unlinks (f : Nat) (bitset : UInt32) (toWake : Int) (u : Nat) :
    ∀ (l : List Nat) (woken : Nat) (queue : List Nat) (s : FutexSystem),
      (s.thread u).Unlinks ((moveToWakeQueue f bitset toWake l woken queue s).2.2.thread u) ∧
        (moveToWakeQueue f bitset toWake l woken queue s).2.2.threads.length = s.threads.length
  | [], _, _, _ => ⟨.refl _, rfl⟩
  | tid :: rest, woken, queue, s => by
    have removed := (removeFutexWaiter_unlinks s tid f u).trans (addThreadToQueue_unlinks _ tid queue u)
    have length : ((s.removeFutexWaiter tid f).addThreadToQueue tid queue).2.threads.length = s.threads.length := by
      simp
    unfold moveToWakeQueue
    split
    · exact moveToWakeQueue_unlinks f bitset toWake u rest woken queue s
    · split
      · exact ⟨removed, length⟩
      · obtain ⟨later, laterLength⟩ := moveToWakeQueue_unlinks f bitset toWake u rest (woken + 1) _ _
        exact ⟨removed.trans later, laterLength.trans length⟩

/-- `move_to_wake_queue` counts on from the count it is given. -/
theorem le_moveToWakeQueue {f : Nat} {bitset : UInt32} {toWake : Int} :
    ∀ (l : List Nat) (woken : Nat) (queue : List Nat) (s : FutexSystem),
      woken ≤ (moveToWakeQueue f bitset toWake l woken queue s).1
  | [], _, _, _ => Nat.le_refl _
  | tid :: rest, woken, queue, s => by
    unfold moveToWakeQueue
    split
    · exact le_moveToWakeQueue rest woken queue s
    · split
      · exact Nat.le_succ woken
      · exact Nat.le_of_succ_le (le_moveToWakeQueue rest (woken + 1) _ _)

open FutexSystem in
/-- `move_to_wake_queue` wakes a first waiter whose bitset meets `bitset`. -/
theorem moveToWakeQueue_first (f : Nat) (bitset : UInt32) (toWake : Int) (rest queue : List Nat)
    (woken : Nat) {tid : Nat} {s : FutexSystem} (inside : tid < s.threads.length)
    (meets : (s.thread tid).waiter.bitset &&& bitset ≠ 0) :
    woken < (moveToWakeQueue f bitset toWake (tid :: rest) woken queue s).1 ∧
      ((moveToWakeQueue f bitset toWake (tid :: rest) woken queue s).2.2.thread tid).waiter.linked = false := by
  set woke := (s.removeFutexWaiter tid f).addThreadToQueue tid queue
  have unlinked : (woke.2.thread tid).waiter.linked = false := by
    have kept := (addThreadToQueue_unlinks (s.removeFutexWaiter tid f) tid queue tid).2.2.2
    rw [removeFutexWaiter_linked inside] at kept
    cases now : (woke.2.thread tid).waiter.linked
    · rfl
    · exact absurd (kept now) nofun
  have passes : ¬ (bitset != 0 && (s.thread tid).waiter.bitset &&& bitset == 0) = true := by
    simp [meets]
  unfold moveToWakeQueue
  rw [if_neg passes]
  split
  · exact ⟨Nat.lt_succ_self woken, unlinked⟩
  · refine ⟨Nat.lt_of_succ_le (le_moveToWakeQueue rest (woken + 1) woke.1 woke.2), ?_⟩
    have later := ((moveToWakeQueue_unlinks f bitset toWake tid rest (woken + 1) woke.1 woke.2).1).2.2.2
    cases now : ((moveToWakeQueue f bitset toWake rest (woken + 1) woke.1 woke.2).2.2.thread tid).waiter.linked
    · rfl
    · rw [unlinked] at later
      exact absurd (later now) nofun

end Gramine.LibOS
