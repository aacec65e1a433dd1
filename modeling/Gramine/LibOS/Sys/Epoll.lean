import Mathlib
import Gramine.LibOS.Sys.Poll

/-!
# epoll

`libos_epoll.c` keeps, for each epoll instance, the list of its items: a
descriptor and its handle, the interest mask and the user's data. Three
operations edit the list under the epoll's lock. `do_epoll_add` appends an item
after dropping the read (write) events of a handle not open for reading
(writing), and fails with `-EEXIST` for a pair already there. `do_epoll_mod`
replaces the first matching item's mask, taken as the caller gives it, and
data. `do_epoll_del` unlinks the item.

`do_epoll_wait` gathers the items whose handle has a PAL handle and that do not
wait to be re-armed, waits in `PalStreamsWaitEvents` without the lock, and then
walks the gathered items round robin, from the one after the position it
stopped at last time, writing one event for each item whose reported events
meet its mask, until `maxevents` are written. A one-shot item that is reported
is marked `EPOLL_NEEDS_REARM`, a bit no epoll event uses, and is skipped until
`EPOLL_CTL_MOD` gives it a new mask. When no event is written the wait starts
over.

The model is of one epoll instance used by one thread at a time: each call is
atomic, and a run is a sequence of calls. The PAL's answer to each wait is an
input: an error, already an errno (`-EAGAIN` is the timeout and `-EINTR` a
signal), or the events of each gathered position together with what each
handle's `post_poll` makes of them. The waiters list, the references the wait
holds across the PAL call, the descriptor lookups of `epoll_ctl` and
`epoll_wait`, and the failures of `malloc` are left out.
-/

namespace Gramine.LibOS.Epoll

open BitMask
open Gramine.LibOS.Poll (PAL_WAIT_READ PAL_WAIT_WRITE PAL_WAIT_ERROR PAL_WAIT_HANG_UP restartNoHand)

/-! Linux's event bits, `uapi/linux/eventpoll.h`. -/

def EPOLLIN : UInt32 := 0x001
def EPOLLOUT : UInt32 := 0x004
def EPOLLERR : UInt32 := 0x008
def EPOLLHUP : UInt32 := 0x010
def EPOLLRDNORM : UInt32 := 0x040
def EPOLLWRNORM : UInt32 := 0x100
def EPOLLRDHUP : UInt32 := 0x2000
def EPOLLEXCLUSIVE : UInt32 := 0x10000000
def EPOLLWAKEUP : UInt32 := 0x20000000
def EPOLLONESHOT : UInt32 := 0x40000000
def EPOLLET : UInt32 := 0x80000000

/-- `EPOLL_NEEDS_REARM`, bit 24, which no epoll event uses. -/
def EPOLL_NEEDS_REARM : UInt32 := 0x01000000

/-- `WITHIN_MASK(val, mask)` of `api.h`. -/
def WITHIN_MASK (val mask : UInt32) : Bool :=
  val ||| mask == mask

/-- `struct epoll_event`. -/
structure EpollEvent where
  events : UInt32
  data : UInt64
  deriving DecidableEq, Repr

/-- What epoll reads and writes of a handle it watches: the access mode,
whether there is a PAL handle to wait on (an unconnected UNIX socket has none),
and the flags that ask the PAL to poll an edge-triggered handle again. -/
structure Watched where
  mayRead : Bool
  mayWrite : Bool
  hasPalHandle : Bool
  needsEtPollIn : Bool
  needsEtPollOut : Bool
  deriving DecidableEq, Repr

/-- `struct libos_epoll_item`, its handle named by a number. -/
structure EpollItem where
  fd : Int
  handle : Nat
  events : UInt32
  data : UInt64
  deriving DecidableEq, Repr, Inhabited

/-- An epoll instance, `struct libos_epoll_handle`, with the handles it
watches. -/
structure EpollState where
  items : List EpollItem
  lastReturnedIndex : UInt64
  handles : Nat → Watched

/-- The instance `libos_syscall_epoll_create1` makes. -/
def epollCreate (handles : Nat → Watched) : EpollState :=
  ⟨[], -1, handles⟩

/-- Both edge-trigger flags of `handle` set. -/
def EpollState.setEt (st : EpollState) (handle : Nat) : EpollState :=
  let watched := st.handles handle
  let watched := { watched with needsEtPollIn := true, needsEtPollOut := true }
  { st with handles := Function.update st.handles handle watched }

/-- The position of the first item of `handle` at `fd`, the search of
`LISTP_FOR_EACH_ENTRY` in add, mod and del. -/
def findItem (items : List EpollItem) (handle : Nat) (fd : Int) : Option Nat :=
  items.findIdx? fun item => item.fd == fd && item.handle == handle

/-- The mask `do_epoll_add` stores: without `EPOLL_NEEDS_REARM`, and without
the read (write) events of a handle not open for reading (writing). -/
def addEvents (watched : Watched) (events : UInt32) : UInt32 :=
  let events := events &&& ~~~EPOLL_NEEDS_REARM
  let events := if watched.mayRead then events else events &&& ~~~(EPOLLIN ||| EPOLLRDNORM)
  if watched.mayWrite then events else events &&& ~~~(EPOLLOUT ||| EPOLLWRNORM)

/-- `do_epoll_add(epoll_handle, handle, fd, event)`. -/
def doEpollAdd (st : EpollState) (handle : Nat) (fd : Int) (event : EpollEvent) : Except Int EpollState :=
  if event.events &&& EPOLLEXCLUSIVE != 0 &&
      !WITHIN_MASK event.events (EPOLLIN ||| EPOLLOUT ||| EPOLLHUP ||| EPOLLERR ||| EPOLLWAKEUP ||| EPOLLET |||
        EPOLLEXCLUSIVE) then
    .error (-EINVAL)
  else
    let events := addEvents (st.handles handle) event.events
    match findItem st.items handle fd with
    | some _ => .error (-EEXIST)
    | none =>
      let st := { st with items := st.items ++ [⟨fd, handle, events, event.data⟩] }
      .ok (if events &&& EPOLLET != 0 then st.setEt handle else st)

/-- `do_epoll_mod(epoll_handle, handle, fd, event)`. -/
def doEpollMod (st : EpollState) (handle : Nat) (fd : Int) (event : EpollEvent) : Except Int EpollState :=
  if event.events &&& EPOLLEXCLUSIVE != 0 then .error (-EINVAL)
  else
    match findItem st.items handle fd with
    | none => .error (-ENOENT)
    | some j =>
      let item := st.items.getD j default
      if item.events &&& EPOLLEXCLUSIVE != 0 then .error (-EINVAL)
      else
        -- the caller's mask, not filtered by the access mode as on ADD
        let events := event.events &&& ~~~EPOLL_NEEDS_REARM
        let st := { st with items := st.items.set j { item with events := events, data := event.data } }
        .ok (if events &&& EPOLLET != 0 then st.setEt handle else st)

/-- `do_epoll_del(epoll_handle, handle, fd)`. -/
def doEpollDel (st : EpollState) (handle : Nat) (fd : Int) : Except Int EpollState :=
  match findItem st.items handle fd with
  | none => .error (-ENOENT)
  | some j => .ok { st with items := st.items.eraseIdx j }

/-! ## do_epoll_wait -/

/-- The positions of the items a wait gathers, in list order. -/
def gatherItems (st : EpollState) : List Nat :=
  (List.range st.items.length).filter fun j =>
    let item := st.items.getD j default
    (st.handles item.handle).hasPalHandle && item.events &&& EPOLL_NEEDS_REARM == 0

/-- The PAL events asked for an item: reading for `EPOLLIN` or `EPOLLRDNORM`,
writing for `EPOLLOUT` or `EPOLLWRNORM`, and for an edge-triggered item only
what its handle still needs. -/
def palWaitEvents (watched : Watched) (events : UInt32) : UInt32 :=
  let flags := (if events &&& (EPOLLIN ||| EPOLLRDNORM) != 0 then PAL_WAIT_READ else 0) |||
    (if events &&& (EPOLLOUT ||| EPOLLWRNORM) != 0 then PAL_WAIT_WRITE else 0)
  if events &&& EPOLLET != 0 then
    let flags := if watched.needsEtPollIn then flags else flags &&& ~~~PAL_WAIT_READ
    if watched.needsEtPollOut then flags else flags &&& ~~~PAL_WAIT_WRITE
  else flags

/-- The `pal_events` array of the gathered positions. -/
def palRequest (st : EpollState) (gathered : List Nat) : List UInt32 :=
  gathered.map fun j =>
    let item := st.items.getD j default
    palWaitEvents (st.handles item.handle) item.events

/-- What `PalStreamsWaitEvents` reports for each gathered position, and what
the handle's `post_poll` makes of a report. -/
structure PalReady where
  retEvents : Nat → UInt32
  postPoll : Nat → UInt32 → UInt32

/-- One `PalStreamsWaitEvents` of a wait, given the events asked for: an
errno, or what it reports. -/
abbrev PalAnswer := List UInt32 → Except Int PalReady

/-- `this_item_events`: what an item with mask `events` reports when the PAL
reports `ret`. -/
def itemEvents (events ret : UInt32) : UInt32 :=
  (if ret &&& PAL_WAIT_ERROR != 0 then EPOLLERR else 0) |||
    (if ret &&& PAL_WAIT_HANG_UP != 0 then EPOLLHUP ||| (events &&& EPOLLRDHUP) else 0) |||
    (if ret &&& PAL_WAIT_READ != 0 then events &&& (EPOLLIN ||| EPOLLRDNORM) else 0) |||
    (if ret &&& PAL_WAIT_WRITE != 0 then events &&& (EPOLLOUT ||| EPOLLWRNORM) else 0)

/-- An edge-triggered item's handle stops asking for what was reported. -/
def EpollState.clearEt (st : EpollState) (handle : Nat) (reported : UInt32) : EpollState :=
  let watched := st.handles handle
  let watched := { watched with
    needsEtPollIn := watched.needsEtPollIn && reported &&& (EPOLLIN ||| EPOLLRDNORM) == 0
    needsEtPollOut := watched.needsEtPollOut && reported &&& (EPOLLOUT ||| EPOLLWRNORM) == 0 }
  { st with handles := Function.update st.handles handle watched }

/-- What writing the event `reported` of the item at position `j` changes. -/
def reportItem (st : EpollState) (j : Nat) (reported : UInt32) : EpollState :=
  let item := st.items.getD j default
  let st := if item.events &&& EPOLLET != 0 then st.clearEt item.handle reported else st
  if item.events &&& EPOLLONESHOT != 0 then
    { st with items := st.items.set j { item with events := item.events ||| EPOLL_NEEDS_REARM } }
  else st

/-- Where the round-robin loop of `do_epoll_wait` is: the state, the events
written with the positions of their items, and `counter`. -/
structure Reporting where
  st : EpollState
  reported : List (Nat × EpollEvent)
  counter : Nat

/-- The round-robin loop over the gathered positions from `start`, with `fuel`
turns left. -/
def roundRobin (maxevents : Nat) (gathered : List Nat) (ready : PalReady) (start : Nat) :
    Nat → Reporting → Reporting
  | 0, r => r
  | fuel + 1, r =>
    let i := (start + r.counter) % gathered.length
    let j := gathered.getD i 0
    let item := r.st.items.getD j default
    let next := roundRobin maxevents gathered ready start fuel { r with counter := r.counter + 1 }
    -- nothing reported, or a one-shot item another waiter reported meanwhile
    if ready.retEvents i == 0 || item.events &&& EPOLL_NEEDS_REARM != 0 then next
    else
      let ev := itemEvents item.events (ready.postPoll i (ready.retEvents i))
      -- the item was probably updated meanwhile
      if ev == 0 then next
      else
        let r := { r with st := reportItem r.st j ev, reported := r.reported ++ [(j, ⟨ev, item.data⟩)] }
        if r.reported.length = maxevents then r
        else roundRobin maxevents gathered ready start fuel { r with counter := r.counter + 1 }

/-- Where one pass of the wait's loop ends. -/
inductive PassOutcome where
  /-- the call returns `ret`, the events written being those of `reported` -/
  | done (ret : Int) (reported : List (Nat × EpollEvent))
  /-- nothing was written: gather again -/
  | again

/-- The round robin's first position: the one after the last returned,
`last_returned_index` being a `size_t`. -/
def startIndex (st : EpollState) (count : Nat) : Nat :=
  if count ≠ 0 then (st.lastReturnedIndex + 1).toNat % count else 0

/-- One pass of `do_epoll_wait`'s loop, on the PAL's answer. -/
def epollWaitPass (maxevents : Nat) (st : EpollState) (answer : PalAnswer) : PassOutcome × EpollState :=
  let gathered := gatherItems st
  match answer (palRequest st gathered) with
  | .error e => (.done (restartNoHand (if e = -EAGAIN then 0 else e)) [], st)
  | .ok ready =>
    let count := gathered.length
    let start := startIndex st count
    let r := roundRobin maxevents gathered ready start count ⟨st, [], 0⟩
    if r.reported = [] then (.again, r.st)
    else
      let last : UInt64 := if r.counter = count then -1 else UInt64.ofNat ((start + r.counter) % count)
      (.done r.reported.length r.reported, { r.st with lastReturnedIndex := last })

/-- What a wait returns: the value, and the events written with the positions
their items had when the call began. -/
structure Waited where
  ret : Int
  reported : List (Nat × EpollEvent)
  st : EpollState

/-- The events written to the user's array. -/
def Waited.events (w : Waited) : List EpollEvent :=
  w.reported.map Prod.snd

/-- The passes of the wait's loop, one PAL answer each; `none` while the
answers run out before the call returns. -/
def epollWaitLoop (maxevents : Nat) (st : EpollState) : List PalAnswer → Option Waited
  | [] => none
  | answer :: answers =>
    match epollWaitPass maxevents st answer with
    | (.done ret reported, st) => some ⟨ret, reported, st⟩
    | (.again, st) => epollWaitLoop maxevents st answers

/-- `do_epoll_wait(epfd, events, maxevents, timeout_ms)` on the instance. -/
def doEpollWait (maxevents : Int) (st : EpollState) (answers : List PalAnswer) : Option Waited :=
  if maxevents ≤ 0 then some ⟨-EINVAL, [], st⟩ else epollWaitLoop maxevents.toNat st answers

/-! ## What each edit touches -/

section Fields

variable (st : EpollState) (handle h j : Nat) (reported : UInt32)

@[simp] theorem setEt_items : (st.setEt handle).items = st.items := rfl

@[simp] theorem setEt_lastReturnedIndex : (st.setEt handle).lastReturnedIndex = st.lastReturnedIndex := rfl

@[simp] theorem clearEt_items : (st.clearEt handle reported).items = st.items := rfl

@[simp] theorem clearEt_lastReturnedIndex :
    (st.clearEt handle reported).lastReturnedIndex = st.lastReturnedIndex := rfl

/-- Setting the edge-trigger flags changes nothing else of any handle. -/
theorem setEt_handles : (st.setEt handle).handles h =
    if h = handle then { st.handles h with needsEtPollIn := true, needsEtPollOut := true } else st.handles h := by
  unfold EpollState.setEt
  dsimp only
  rw [Function.update_apply]
  split
  · rename_i same
    rw [same]
  · rfl

/-- Clearing the edge-trigger flags changes nothing else of any handle. -/
theorem clearEt_handles : (st.clearEt handle reported).handles h =
    if h = handle then
      { st.handles h with
        needsEtPollIn := (st.handles h).needsEtPollIn && reported &&& (EPOLLIN ||| EPOLLRDNORM) == 0
        needsEtPollOut := (st.handles h).needsEtPollOut && reported &&& (EPOLLOUT ||| EPOLLWRNORM) == 0 }
    else st.handles h := by
  unfold EpollState.clearEt
  dsimp only
  rw [Function.update_apply]
  split
  · rename_i same
    rw [same]
  · rfl

/-- The access mode and the PAL handle of a watched handle, which epoll never
changes. -/
def Watched.access (watched : Watched) : Bool × Bool × Bool :=
  (watched.mayRead, watched.mayWrite, watched.hasPalHandle)

@[simp] theorem setEt_access : ((st.setEt handle).handles h).access = (st.handles h).access := by
  rw [setEt_handles]
  split <;> rfl

@[simp] theorem clearEt_access : ((st.clearEt handle reported).handles h).access = (st.handles h).access := by
  rw [clearEt_handles]
  split <;> rfl

/-- The items after a report: a one-shot item is marked to be re-armed. -/
theorem reportItem_items : (reportItem st j reported).items =
    if (st.items.getD j default).events &&& EPOLLONESHOT != 0 then
      st.items.set j { st.items.getD j default with events := (st.items.getD j default).events ||| EPOLL_NEEDS_REARM }
    else st.items := by
  unfold reportItem
  dsimp only
  split_ifs <;> rfl

@[simp] theorem reportItem_lastReturnedIndex : (reportItem st j reported).lastReturnedIndex = st.lastReturnedIndex := by
  unfold reportItem
  dsimp only
  split_ifs <;> rfl

@[simp] theorem reportItem_access : ((reportItem st j reported).handles h).access = (st.handles h).access := by
  unfold reportItem
  dsimp only
  split_ifs <;> simp only [clearEt_access]

@[simp] theorem length_reportItem_items : (reportItem st j reported).items.length = st.items.length := by
  rw [reportItem_items]
  split <;> simp only [List.length_set]

/-- A report changes no other item. -/
theorem reportItem_getD_of_ne {j' : Nat} (other : j' ≠ j) :
    (reportItem st j reported).items.getD j' default = st.items.getD j' default := by
  rw [reportItem_items]
  split
  · simp only [List.getD_eq_getElem?_getD, List.getElem?_set_ne other.symm]
  · rfl

end Fields

/-! ## The search and the keys -/

/-- The key of an item, its handle and descriptor: `do_epoll_add` refuses a
second item of a key. -/
def EpollItem.key (item : EpollItem) : Nat × Int :=
  (item.handle, item.fd)

/-- No two items share a key. -/
def KeysUnique (st : EpollState) : Prop :=
  (st.items.map EpollItem.key).Nodup

section Search

variable {items : List EpollItem} {handle : Nat} {fd : Int}

theorem findItem_some {j : Nat} (found : findItem items handle fd = some j) :
    ∃ inside : j < items.length, items[j].key = (handle, fd) := by
  obtain ⟨inside, hit, -⟩ := List.findIdx?_eq_some_iff_getElem.mp found
  simp only [Bool.and_eq_true, beq_iff_eq] at hit
  exact ⟨inside, by rw [EpollItem.key, hit.1, hit.2]⟩

theorem findItem_none (missing : findItem items handle fd = none) :
    ∀ item ∈ items, item.key ≠ (handle, fd) := by
  intro item mem same
  have refused := List.findIdx?_eq_none_iff.mp missing item mem
  simp only [EpollItem.key, Prod.mk.injEq] at same
  simp only [same, beq_self_eq_true, Bool.and_self, Bool.true_eq_false] at refused

end Search

/-! ## The events an item reports -/

/-- The events of an item are some of its mask, with `EPOLLERR` and
`EPOLLHUP`. -/
theorem itemEvents_within (events ret : UInt32) :
    Within32 (itemEvents events ret) (events ||| EPOLLERR ||| EPOLLHUP) := by
  have err : Within32 EPOLLERR (events ||| EPOLLERR ||| EPOLLHUP) :=
    (within32_or_right _ _).trans (within32_or_left _ _)
  have hup : Within32 EPOLLHUP (events ||| EPOLLERR ||| EPOLLHUP) := within32_or_right _ _
  have masked : ∀ m, Within32 (events &&& m) (events ||| EPOLLERR ||| EPOLLHUP) := fun m =>
    (within32_and_left _ _).trans ((within32_or_left _ _).trans (within32_or_left _ _))
  unfold itemEvents
  exact within32_or (within32_or (within32_or (within32_ite err) (within32_ite (within32_or hup (masked _))))
    (within32_ite (masked _))) (within32_ite (masked _))

/-- An item reports no event of a mask that its read events, its write events
and `EPOLLERR`, `EPOLLHUP` and `EPOLLRDHUP` all miss. -/
theorem itemEvents_and_eq_zero {events m : UInt32} (ret : UInt32)
    (fixed : (EPOLLERR ||| EPOLLHUP ||| EPOLLRDHUP) &&& m = 0)
    (read : events &&& (EPOLLIN ||| EPOLLRDNORM) &&& m = 0) (write : events &&& (EPOLLOUT ||| EPOLLWRNORM) &&& m = 0) :
    itemEvents events ret &&& m = 0 := by
  have err : EPOLLERR &&& m = 0 :=
    ((within32_or_left EPOLLERR EPOLLHUP).trans (within32_or_left _ EPOLLRDHUP)).and_eq_zero fixed
  have hup : (EPOLLHUP ||| (events &&& EPOLLRDHUP)) &&& m = 0 := by
    refine (within32_or ?_ ?_).and_eq_zero fixed
    · exact (within32_or_right EPOLLERR EPOLLHUP).trans (within32_or_left _ EPOLLRDHUP)
    · exact (within32_and_right events EPOLLRDHUP).trans (within32_or_right _ EPOLLRDHUP)
  have piece : ∀ {p : Prop} [Decidable p] {a : UInt32}, a &&& m = 0 → (if p then a else 0) &&& m = 0 := by
    intro p _ a missing
    split
    · exact missing
    · exact UInt32.zero_and
  unfold itemEvents
  exact or_and_eq_zero (or_and_eq_zero (or_and_eq_zero (piece err) (piece hup)) (piece read)) (piece write)

/-- An item whose mask has no read event reports none. -/
theorem itemEvents_unread {events : UInt32} (unread : events &&& (EPOLLIN ||| EPOLLRDNORM) = 0) (ret : UInt32) :
    itemEvents events ret &&& (EPOLLIN ||| EPOLLRDNORM) = 0 := by
  apply itemEvents_and_eq_zero ret (by decide)
  · rw [unread, UInt32.zero_and]
  · rw [UInt32.and_assoc, show (EPOLLOUT ||| EPOLLWRNORM) &&& (EPOLLIN ||| EPOLLRDNORM) = 0 by decide, UInt32.and_zero]

/-- An item whose mask has no write event reports none. -/
theorem itemEvents_unwritten {events : UInt32} (unwritten : events &&& (EPOLLOUT ||| EPOLLWRNORM) = 0) (ret : UInt32) :
    itemEvents events ret &&& (EPOLLOUT ||| EPOLLWRNORM) = 0 := by
  apply itemEvents_and_eq_zero ret (by decide)
  · rw [UInt32.and_assoc, show (EPOLLIN ||| EPOLLRDNORM) &&& (EPOLLOUT ||| EPOLLWRNORM) = 0 by decide, UInt32.and_zero]
  · rw [unwritten, UInt32.zero_and]

/-! ## The round robin

Each turn of the loop reads only the item it visits, and writes only that
item and its handle's edge-trigger flags. The turns of one pass visit distinct
positions, so every turn reads its item as the pass found it: the loop writes
the events that `candidate` picks on the state before the pass, the first
`maxevents` of them, and leaves that state with those reports applied
(`roundRobin_spec`). -/

/-- The instance after the events of `reported` are written, in order. -/
def applyReports (st : EpollState) (reported : List (Nat × EpollEvent)) : EpollState :=
  reported.foldl (fun st p => reportItem st p.1 p.2.events) st

/-- The position the round robin visits at turn `c`. -/
def turnPosition (gathered : List Nat) (start c : Nat) : Nat :=
  gathered.getD ((start + c) % gathered.length) 0

/-- The event the round robin writes at turn `c` of a pass over `st`, if any:
the body of the loop, read on `st`. -/
def candidate (st : EpollState) (gathered : List Nat) (ready : PalReady) (start c : Nat) :
    Option (Nat × EpollEvent) :=
  let i := (start + c) % gathered.length
  let item := st.items.getD (turnPosition gathered start c) default
  if ready.retEvents i == 0 || item.events &&& EPOLL_NEEDS_REARM != 0 then none
  else
    let ev := itemEvents item.events (ready.postPoll i (ready.retEvents i))
    if ev == 0 then none else some (turnPosition gathered start c, ⟨ev, item.data⟩)

section Reports

variable {st : EpollState} {ps : List (Nat × EpollEvent)}

@[simp] theorem applyReports_nil (st : EpollState) : applyReports st [] = st := rfl

theorem applyReports_cons (st : EpollState) (p : Nat × EpollEvent) (ps : List (Nat × EpollEvent)) :
    applyReports st (p :: ps) = applyReports (reportItem st p.1 p.2.events) ps := rfl

theorem applyReports_append_single (st : EpollState) (ps : List (Nat × EpollEvent)) (p : Nat × EpollEvent) :
    applyReports st (ps ++ [p]) = reportItem (applyReports st ps) p.1 p.2.events := by
  simp only [applyReports, List.foldl_append, List.foldl_cons, List.foldl_nil]

@[simp] theorem applyReports_lastReturnedIndex :
    ∀ (st : EpollState) (ps : List (Nat × EpollEvent)), (applyReports st ps).lastReturnedIndex = st.lastReturnedIndex
  | _, [] => rfl
  | st, p :: ps => by
    rw [applyReports_cons, applyReports_lastReturnedIndex, reportItem_lastReturnedIndex]

@[simp] theorem applyReports_access (h : Nat) :
    ∀ (st : EpollState) (ps : List (Nat × EpollEvent)), ((applyReports st ps).handles h).access = (st.handles h).access
  | _, [] => rfl
  | st, p :: ps => by
    rw [applyReports_cons, applyReports_access, reportItem_access]

@[simp] theorem length_applyReports_items :
    ∀ (st : EpollState) (ps : List (Nat × EpollEvent)), (applyReports st ps).items.length = st.items.length
  | _, [] => rfl
  | st, p :: ps => by
    rw [applyReports_cons, length_applyReports_items, length_reportItem_items]

/-- Reports elsewhere leave an item alone. -/
theorem applyReports_getD_of_not_mem {j : Nat} :
    ∀ {st : EpollState} {ps : List (Nat × EpollEvent)}, j ∉ ps.map Prod.fst →
      (applyReports st ps).items.getD j default = st.items.getD j default
  | _, [], _ => rfl
  | st, p :: ps, fresh => by
    simp only [List.map_cons, List.mem_cons, not_or] at fresh
    rw [applyReports_cons, applyReports_getD_of_not_mem fresh.2, reportItem_getD_of_ne _ _ _ fresh.1]

end Reports

section RoundRobin

variable (maxevents : Nat) (gathered : List Nat) (ready : PalReady) (start : Nat)

/-- One turn of the loop is the candidate of the state it is in. -/
theorem roundRobin_succ (fuel : Nat) (r : Reporting) :
    roundRobin maxevents gathered ready start (fuel + 1) r =
      match candidate r.st gathered ready start r.counter with
      | none => roundRobin maxevents gathered ready start fuel { r with counter := r.counter + 1 }
      | some p =>
        if r.reported.length + 1 = maxevents then
          { r with st := reportItem r.st p.1 p.2.events, reported := r.reported ++ [p] }
        else
          roundRobin maxevents gathered ready start fuel
            ⟨reportItem r.st p.1 p.2.events, r.reported ++ [p], r.counter + 1⟩ := by
  simp only [roundRobin, candidate, turnPosition]
  split_ifs <;> simp_all

/-- The turns from `counter` on visit distinct positions, none of them
reported yet. -/
def FreshTurns (reported : List (Nat × EpollEvent)) (counter fuel : Nat) : Prop :=
  ((List.range' counter fuel).map (turnPosition gathered start)).Nodup ∧
    ∀ c ∈ List.range' counter fuel, turnPosition gathered start c ∉ reported.map Prod.fst

/-- A turn on a state with reports elsewhere picks what it picks on the state
before them. -/
theorem candidate_applyReports {st : EpollState} {ps : List (Nat × EpollEvent)} {c : Nat}
    (fresh : turnPosition gathered start c ∉ ps.map Prod.fst) :
    candidate (applyReports st ps) gathered ready start c = candidate st gathered ready start c := by
  unfold candidate
  rw [applyReports_getD_of_not_mem fresh]

theorem FreshTurns.tail {reported : List (Nat × EpollEvent)} {counter fuel : Nat}
    (fresh : FreshTurns gathered start reported counter (fuel + 1)) :
    FreshTurns gathered start reported (counter + 1) fuel := by
  obtain ⟨distinct, unreported⟩ := fresh
  rw [List.range'_succ, List.map_cons, List.nodup_cons] at distinct
  refine ⟨distinct.2, fun c later => unreported c ?_⟩
  rw [List.range'_succ]
  exact List.mem_cons_of_mem _ later

/-- After a report at the turn's position, the later turns are still fresh. -/
theorem FreshTurns.report {reported : List (Nat × EpollEvent)} {counter fuel : Nat} {p : Nat × EpollEvent}
    (fresh : FreshTurns gathered start reported counter (fuel + 1)) (at_turn : p.1 = turnPosition gathered start counter) :
    FreshTurns gathered start (reported ++ [p]) (counter + 1) fuel := by
  have rest := fresh.tail
  obtain ⟨distinct, unreported⟩ := fresh
  rw [List.range'_succ, List.map_cons, List.nodup_cons] at distinct
  refine ⟨rest.1, fun c later => ?_⟩
  simp only [List.map_append, List.map_cons, List.map_nil, List.mem_append, List.mem_singleton, not_or]
  refine ⟨rest.2 c later, fun same => distinct.1 ?_⟩
  rw [at_turn] at same
  rw [← same]
  exact List.mem_map_of_mem later

/-- The loop writes the first events the candidates pick, up to `maxevents`,
and leaves the state before the pass with those reports applied. -/
theorem roundRobin_spec (st : EpollState) :
    ∀ (fuel : Nat) (r : Reporting), r.st = applyReports st r.reported → r.reported.length < maxevents →
      FreshTurns gathered start r.reported r.counter fuel →
      (roundRobin maxevents gathered ready start fuel r).reported =
          r.reported ++ ((List.range' r.counter fuel).filterMap (candidate st gathered ready start)).take
            (maxevents - r.reported.length) ∧
        (roundRobin maxevents gathered ready start fuel r).st =
          applyReports st ((roundRobin maxevents gathered ready start fuel r).reported)
  | 0, r, applied, _, _ =>
    ⟨by simp only [roundRobin, List.range'_zero, List.filterMap_nil, List.take_nil, List.append_nil], applied⟩
  | fuel + 1, r, applied, below, fresh => by
    have unreported := fresh.2 r.counter (by rw [List.range'_succ]; exact List.mem_cons_self)
    have same : candidate r.st gathered ready start r.counter = candidate st gathered ready start r.counter := by
      rw [applied]
      exact candidate_applyReports gathered ready start unreported
    rw [roundRobin_succ, same, List.range'_succ, List.filterMap_cons]
    cases picked : candidate st gathered ready start r.counter with
    | none =>
      -- nothing written at this turn
      exact roundRobin_spec st fuel { r with counter := r.counter + 1 } applied below fresh.tail
    | some p =>
      have at_turn : p.1 = turnPosition gathered start r.counter := by
        unfold candidate at picked
        dsimp only at picked
        split_ifs at picked
        cases picked
        rfl
      have applied' : reportItem r.st p.1 p.2.events = applyReports st (r.reported ++ [p]) := by
        rw [applyReports_append_single, applied]
      have room : maxevents - r.reported.length = (maxevents - (r.reported.length + 1)) + 1 := by omega
      dsimp only
      split
      · -- the event fills the array
        rw [room, List.take_succ_cons, show maxevents - (r.reported.length + 1) = 0 by omega, List.take_zero]
        exact ⟨rfl, applied'⟩
      · rename_i notFull
        have below' : (r.reported ++ [p]).length < maxevents := by
          rw [List.length_append, List.length_singleton]
          omega
        obtain ⟨reported, state⟩ := roundRobin_spec st fuel
          ⟨reportItem r.st p.1 p.2.events, r.reported ++ [p], r.counter + 1⟩ applied' below'
          (fresh.report gathered start at_turn)
        refine ⟨?_, state⟩
        rw [reported, room, List.take_succ_cons, List.length_append, List.length_singleton, List.append_assoc]
        rfl

/-- Over the positions of a list without repeats, the turns of one pass are
fresh: `(start + c) % n` takes each value below `n` once. -/
theorem freshTurns_start (distinct : gathered.Nodup) :
    FreshTurns gathered start [] 0 gathered.length := by
  refine ⟨?_, fun c _ => by simp only [List.map_nil, List.not_mem_nil, not_false_eq_true]⟩
  apply List.Nodup.map_on _ (List.nodup_range' 1 Nat.one_pos)
  intro c inC c' inC' same
  rw [List.mem_range'_1] at inC inC'
  have pos : 0 < gathered.length := by omega
  unfold turnPosition at same
  rw [List.getD_eq_getElem _ _ (Nat.mod_lt _ pos), List.getD_eq_getElem _ _ (Nat.mod_lt _ pos)] at same
  have residues := (distinct.getElem_inj_iff).mp same
  exact Nat.ModEq.eq_of_lt_of_lt (Nat.ModEq.add_left_cancel' start residues) (by omega) (by omega)

/-- The positions of the picked events come from distinct turns. -/
theorem filterMap_candidate_positions (st : EpollState) :
    ∀ turns : List Nat, ((turns.filterMap (candidate st gathered ready start)).map Prod.fst).Sublist
      (turns.map (turnPosition gathered start))
  | [] => List.Sublist.slnil
  | c :: turns => by
    rw [List.filterMap_cons, List.map_cons]
    cases picked : candidate st gathered ready start c with
    | none => exact (filterMap_candidate_positions st turns).cons _
    | some p =>
      have at_turn : p.1 = turnPosition gathered start c := by
        unfold candidate at picked
        dsimp only at picked
        split_ifs at picked
        cases picked
        rfl
      rw [List.map_cons, at_turn]
      exact (filterMap_candidate_positions st turns).cons_cons _

/-- When every turn picks an event, the loop stops at the turn that fills the
array. -/
theorem roundRobin_counter (st : EpollState) :
    ∀ (fuel : Nat) (r : Reporting), r.st = applyReports st r.reported → r.reported.length < maxevents →
      FreshTurns gathered start r.reported r.counter fuel →
      (∀ c ∈ List.range' r.counter fuel, (candidate st gathered ready start c).isSome) →
      maxevents - r.reported.length ≤ fuel →
      (roundRobin maxevents gathered ready start fuel r).counter = r.counter + (maxevents - r.reported.length) - 1
  | 0, r, _, below, _, _, enough => absurd enough (by omega)
  | fuel + 1, r, applied, below, fresh, picks, enough => by
    have unreported := fresh.2 r.counter (by rw [List.range'_succ]; exact List.mem_cons_self)
    have same : candidate r.st gathered ready start r.counter = candidate st gathered ready start r.counter := by
      rw [applied]
      exact candidate_applyReports gathered ready start unreported
    have here := picks r.counter (by rw [List.range'_succ]; exact List.mem_cons_self)
    rw [roundRobin_succ, same]
    obtain ⟨p, picked⟩ := Option.isSome_iff_exists.mp here
    rw [picked]
    dsimp only
    split
    · -- the event fills the array at this turn
      dsimp only
      omega
    · rename_i notFull
      have at_turn : p.1 = turnPosition gathered start r.counter := by
        unfold candidate at picked
        dsimp only at picked
        split_ifs at picked
        cases picked
        rfl
      have later := roundRobin_counter st fuel ⟨reportItem r.st p.1 p.2.events, r.reported ++ [p], r.counter + 1⟩
        (by rw [applyReports_append_single, applied])
        (by rw [List.length_append, List.length_singleton]; omega) (fresh.report gathered start at_turn)
        (fun c mem => picks c (by rw [List.range'_succ]; exact List.mem_cons_of_mem _ mem))
        (by rw [List.length_append, List.length_singleton]; omega)
      rw [later]
      dsimp only
      rw [List.length_append, List.length_singleton]
      omega

end RoundRobin

/-! ## One pass -/

/-- What a written event is: for an item of the instance at the start of the
pass that did not wait to be re-armed, with the item's data and events it
reports for some answer of the PAL. -/
structure ReportOk (st : EpollState) (p : Nat × EpollEvent) : Prop where
  inside : p.1 < st.items.length
  armed : (st.items.getD p.1 default).events &&& EPOLL_NEEDS_REARM = 0
  data : p.2.data = (st.items.getD p.1 default).data
  nonzero : p.2.events ≠ 0
  events : ∃ ret, p.2.events = itemEvents (st.items.getD p.1 default).events ret

theorem mem_gatherItems {st : EpollState} {j : Nat} :
    j ∈ gatherItems st ↔ j < st.items.length ∧
      (st.handles (st.items.getD j default).handle).hasPalHandle = true ∧
      (st.items.getD j default).events &&& EPOLL_NEEDS_REARM = 0 := by
  simp only [gatherItems, List.mem_filter, List.mem_range, Bool.and_eq_true, beq_iff_eq]

theorem gatherItems_nodup (st : EpollState) : (gatherItems st).Nodup :=
  List.nodup_range.filter _

theorem turnPosition_mem {gathered : List Nat} (nonempty : 0 < gathered.length) (start c : Nat) :
    turnPosition gathered start c ∈ gathered := by
  unfold turnPosition
  rw [List.getD_eq_getElem _ _ (Nat.mod_lt _ nonempty)]
  exact List.getElem_mem _

/-- Every event a turn of a pass picks is one the pass may write. -/
theorem candidate_reportOk {st : EpollState} {ready : PalReady} {start c : Nat} {p : Nat × EpollEvent}
    (nonempty : 0 < (gatherItems st).length) (picked : candidate st (gatherItems st) ready start c = some p) :
    ReportOk st p := by
  have gathered := mem_gatherItems.mp (turnPosition_mem nonempty start c)
  unfold candidate at picked
  dsimp only at picked
  split_ifs at picked with skipped silent
  cases picked
  exact ⟨gathered.1, gathered.2.2, rfl, by simpa only [beq_iff_eq] using silent, ⟨_, rfl⟩⟩

/-- The events a pass writes when the PAL answers: the candidates of all
turns, the first `maxevents` of them. -/
def passReports (maxevents : Nat) (st : EpollState) (ready : PalReady) : List (Nat × EpollEvent) :=
  let gathered := gatherItems st
  ((List.range' 0 gathered.length).filterMap (candidate st gathered ready (startIndex st gathered.length))).take
    maxevents

section Pass

variable {maxevents : Nat} {st : EpollState} {ready : PalReady}

theorem length_passReports_le : (passReports maxevents st ready).length ≤ maxevents :=
  List.length_take_le _ _

theorem passReports_reportOk {p : Nat × EpollEvent} (mem : p ∈ passReports maxevents st ready) : ReportOk st p := by
  unfold passReports at mem
  obtain ⟨c, turn, picked⟩ := List.mem_filterMap.mp (List.mem_of_mem_take mem)
  rw [List.mem_range'_1] at turn
  exact candidate_reportOk (by omega) picked

/-- No item is written twice. -/
theorem passReports_nodup : ((passReports maxevents st ready).map Prod.fst).Nodup := by
  unfold passReports
  dsimp only
  refine (((List.take_sublist _ _).map Prod.fst).trans (filterMap_candidate_positions _ _ _ _ _)).nodup ?_
  exact (freshTurns_start _ _ (gatherItems_nodup st)).1

variable {answer : PalAnswer}

theorem epollWaitPass_error {e : Int} (failed : answer (palRequest st (gatherItems st)) = .error e) :
    epollWaitPass maxevents st answer = (.done (restartNoHand (if e = -EAGAIN then 0 else e)) [], st) := by
  unfold epollWaitPass
  dsimp only
  rw [failed]

/-- A pass on an answer of the PAL writes the events `passReports` picks and
applies them, or writes none and gathers again. -/
theorem epollWaitPass_ok (pos : 0 < maxevents) (answered : answer (palRequest st (gatherItems st)) = .ok ready) :
    (passReports maxevents st ready = [] ∧ epollWaitPass maxevents st answer = (.again, st)) ∨
      (passReports maxevents st ready ≠ [] ∧ ∃ last : UInt64, epollWaitPass maxevents st answer =
        (.done (passReports maxevents st ready).length (passReports maxevents st ready),
          { applyReports st (passReports maxevents st ready) with lastReturnedIndex := last })) := by
  obtain ⟨reported, state⟩ := roundRobin_spec maxevents (gatherItems st) ready (startIndex st (gatherItems st).length)
    st (gatherItems st).length ⟨st, [], 0⟩ rfl pos (freshTurns_start _ _ (gatherItems_nodup st))
  simp only [List.nil_append, List.length_nil, Nat.sub_zero] at reported
  have picked : (roundRobin maxevents (gatherItems st) ready (startIndex st (gatherItems st).length)
      (gatherItems st).length ⟨st, [], 0⟩).reported = passReports maxevents st ready := reported
  unfold epollWaitPass
  dsimp only
  rw [answered]
  dsimp only
  rw [picked] at state ⊢
  split
  · rename_i nothing
    rw [nothing] at state
    exact .inl ⟨nothing, by rw [state, applyReports_nil]⟩
  · rename_i something
    exact .inr ⟨something, _, by rw [state]⟩

/-- A pass that writes nothing leaves the instance as it was. -/
theorem epollWaitPass_again {st' : EpollState} (pos : 0 < maxevents)
    (pass : epollWaitPass maxevents st answer = (.again, st')) : st' = st := by
  cases answered : answer (palRequest st (gatherItems st)) with
  | error e =>
    rw [epollWaitPass_error answered] at pass
    cases pass
  | ok ready =>
    rcases epollWaitPass_ok pos answered with ⟨-, again⟩ | ⟨-, last, done⟩
    · rw [again] at pass
      cases pass
      rfl
    · rw [done] at pass
      cases pass

/-- The loop returns the outcome of its last pass, made on the instance as
the call found it. -/
theorem epollWaitLoop_some (pos : 0 < maxevents) :
    ∀ {st : EpollState} {answers : List PalAnswer} {w : Waited}, epollWaitLoop maxevents st answers = some w →
      ∃ answer ∈ answers, epollWaitPass maxevents st answer = (.done w.ret w.reported, w.st)
  | _, [], _, loop => by cases loop
  | st, answer :: answers, w, loop => by
    unfold epollWaitLoop at loop
    split at loop
    · rename_i ret reported st' pass
      cases loop
      exact ⟨answer, List.mem_cons_self, pass⟩
    · rename_i st' pass
      obtain ⟨later, mem, done⟩ := epollWaitLoop_some pos loop
      rw [epollWaitPass_again pos pass] at done
      exact ⟨later, List.mem_cons_of_mem _ mem, done⟩

end Pass

/-! ## How reports change the items

A report keeps an item's key and data and at most adds `EPOLL_NEEDS_REARM` to
its mask (`Grows`); a one-shot item that is reported gets it. -/

/-- `after` is `before`, possibly marked to be re-armed. -/
def Grows (before after : EpollItem) : Prop :=
  after.key = before.key ∧ after.data = before.data ∧
    (after.events = before.events ∨ after.events = before.events ||| EPOLL_NEEDS_REARM)

theorem grows_refl (item : EpollItem) : Grows item item :=
  ⟨rfl, rfl, .inl rfl⟩

theorem Grows.trans {a b c : EpollItem} (first : Grows a b) (second : Grows b c) : Grows a c := by
  obtain ⟨key₁, data₁, events₁⟩ := first
  obtain ⟨key₂, data₂, events₂⟩ := second
  refine ⟨key₂.trans key₁, data₂.trans data₁, ?_⟩
  rcases events₁ with same₁ | marked₁ <;> rcases events₂ with same₂ | marked₂
  · exact .inl (same₂.trans same₁)
  · exact .inr (by rw [marked₂, same₁])
  · exact .inr (by rw [same₂, marked₁])
  · exact .inr (by rw [marked₂, marked₁, UInt32.or_assoc, UInt32.or_self])

/-- A grown item has what it had of any mask without `EPOLL_NEEDS_REARM`. -/
theorem Grows.events_and {before after : EpollItem} {m : UInt32} (grows : Grows before after)
    (missing : EPOLL_NEEDS_REARM &&& m = 0) : after.events &&& m = before.events &&& m := by
  rcases grows.2.2 with same | marked
  · rw [same]
  · rw [marked, or_and_of_and_eq_zero missing]

/-- A grown item still waits to be re-armed if it did. -/
theorem Grows.rearming {before after : EpollItem} (grows : Grows before after)
    (waiting : before.events &&& EPOLL_NEEDS_REARM ≠ 0) : after.events &&& EPOLL_NEEDS_REARM ≠ 0 := by
  rcases grows.2.2 with same | marked
  · rw [same]
    exact waiting
  · rw [marked, or_and_cancel_right]
    decide

section Grow

variable {st : EpollState}

theorem reportItem_grows (j j' : Nat) (reported : UInt32) :
    Grows (st.items.getD j' default) ((reportItem st j reported).items.getD j' default) := by
  by_cases same : j' = j
  · subst same
    rw [reportItem_items]
    split
    · by_cases inside : j' < st.items.length
      · rw [List.getD_eq_getElem (st.items.set _ _) _ (by rw [List.length_set]; exact inside), List.getElem_set_self]
        exact ⟨rfl, rfl, .inr rfl⟩
      · have outside : st.items.getD j' default = default := List.getD_eq_default _ _ (by omega)
        rw [List.getD_eq_default (st.items.set _ _) _ (by rw [List.length_set]; omega), outside]
        exact grows_refl _
    · exact grows_refl _
  · rw [reportItem_getD_of_ne _ _ _ same]
    exact grows_refl _

theorem applyReports_grows (j : Nat) :
    ∀ (st : EpollState) (ps : List (Nat × EpollEvent)),
      Grows (st.items.getD j default) ((applyReports st ps).items.getD j default)
  | st, [] => grows_refl _
  | st, p :: ps => by
    rw [applyReports_cons]
    exact (reportItem_grows p.1 j p.2.events).trans (applyReports_grows j _ ps)

/-- Reports keep the keys of all items, position by position. -/
theorem applyReports_keys (st : EpollState) (ps : List (Nat × EpollEvent)) :
    (applyReports st ps).items.map EpollItem.key = st.items.map EpollItem.key := by
  apply List.ext_getElem (by simp only [List.length_map, length_applyReports_items])
  intro j inside inside'
  simp only [List.getElem_map]
  have grows := applyReports_grows j st ps
  rw [List.getD_eq_getElem st.items _ (by simpa only [List.length_map] using inside'),
    List.getD_eq_getElem (applyReports st ps).items _ (by simpa only [List.length_map] using inside)] at grows
  exact grows.1

/-- Every item after the reports grew from the item at its position. -/
theorem mem_applyReports_items {item : EpollItem} {ps : List (Nat × EpollEvent)}
    (mem : item ∈ (applyReports st ps).items) : ∃ j, ∃ inside : j < st.items.length, Grows st.items[j] item := by
  obtain ⟨j, inside, at_j⟩ := List.getElem_of_mem mem
  have grows := applyReports_grows j st ps
  rw [List.getD_eq_getElem _ _ inside, at_j, List.getD_eq_getElem _ _ (by simpa only [length_applyReports_items] using inside)]
    at grows
  exact ⟨j, _, grows⟩

/-- A reported one-shot item waits to be re-armed after the reports. -/
theorem applyReports_rearms {j : Nat} (inside : j < st.items.length)
    (oneShot : (st.items.getD j default).events &&& EPOLLONESHOT ≠ 0) :
    ∀ {ps : List (Nat × EpollEvent)}, j ∈ ps.map Prod.fst →
      ((applyReports st ps).items.getD j default).events &&& EPOLL_NEEDS_REARM ≠ 0 := by
  intro ps
  induction ps generalizing st with
  | nil => intro mem; cases mem
  | cons p ps ih =>
    intro mem
    rw [applyReports_cons]
    by_cases later : j ∈ ps.map Prod.fst
    · have grown : Grows (st.items.getD j default) ((reportItem st p.1 p.2.events).items.getD j default) :=
        reportItem_grows p.1 j p.2.events
      refine ih (by rw [length_reportItem_items]; exact inside) ?_ later
      rw [grown.events_and (by decide)]
      exact oneShot
    · have here : j = p.1 := by
        simp only [List.map_cons, List.mem_cons] at mem
        exact mem.resolve_right later
      rw [applyReports_getD_of_not_mem later, here, reportItem_items]
      rw [here] at oneShot inside
      rw [if_pos (by simpa only [bne_iff_ne, ne_eq] using oneShot), List.getD_eq_getElem _ _ (by rw [List.length_set]; exact inside),
        List.getElem_set_self]
      dsimp only
      rw [or_and_cancel_right]
      decide

end Grow

/-! ## What a wait returns -/

/-- `do_epoll_wait` writes nothing and leaves the instance alone, returning
`-EINVAL` or what the failed PAL wait gives (zero for a timeout); or it writes
between one and `maxevents` events, of distinct items, each as `ReportOk`
says, returns their number and leaves the instance with them applied. -/
theorem doEpollWait_spec {maxevents : Int} {st : EpollState} {answers : List PalAnswer} {w : Waited}
    (waited : doEpollWait maxevents st answers = some w) :
    (w.reported = [] ∧ w.st = st ∧ (w.ret = -EINVAL ∨ ∃ e, w.ret = restartNoHand (if e = -EAGAIN then 0 else e))) ∨
      (w.reported ≠ [] ∧ w.ret = w.reported.length ∧ w.reported.length ≤ maxevents ∧
        (w.reported.map Prod.fst).Nodup ∧ (∀ p ∈ w.reported, ReportOk st p) ∧
        ∃ last : UInt64, w.st = { applyReports st w.reported with lastReturnedIndex := last }) := by
  obtain ⟨ret, reported, st'⟩ := w
  unfold doEpollWait at waited
  split at waited
  · cases waited
    exact .inl ⟨rfl, rfl, .inl rfl⟩
  rename_i positive
  have pos : 0 < maxevents.toNat := by omega
  obtain ⟨answer, -, pass⟩ := epollWaitLoop_some pos waited
  cases answered : answer (palRequest st (gatherItems st)) with
  | error e =>
    rw [epollWaitPass_error answered] at pass
    cases pass
    exact .inl ⟨rfl, rfl, .inr ⟨e, rfl⟩⟩
  | ok ready =>
    rcases epollWaitPass_ok pos answered with ⟨-, again⟩ | ⟨something, last, done⟩
    · rw [again] at pass
      cases pass
    · rw [done] at pass
      cases pass
      refine .inr ⟨something, rfl, ?_, passReports_nodup, fun p mem => passReports_reportOk mem, last, rfl⟩
      have atMost := @length_passReports_le maxevents.toNat st ready
      show ((passReports maxevents.toNat st ready).length : Int) ≤ maxevents
      omega

/-! ## What each edit does -/

section Edits

variable {st st' : EpollState} {handle : Nat} {fd : Int} {event : EpollEvent}

/-- A successful `EPOLL_CTL_ADD` appends an item of a key not there yet. -/
theorem doEpollAdd_ok (added : doEpollAdd st handle fd event = .ok st') :
    findItem st.items handle fd = none ∧
      st'.items = st.items ++ [⟨fd, handle, addEvents (st.handles handle) event.events, event.data⟩] ∧
      ∀ h, (st'.handles h).access = (st.handles h).access := by
  unfold doEpollAdd at added
  split at added
  · cases added
  dsimp only at added
  split at added
  · cases added
  · rename_i missing
    split at added <;> cases added
    · exact ⟨missing, rfl, fun h => setEt_access _ _ _⟩
    · exact ⟨missing, rfl, fun _ => rfl⟩

/-- A successful `EPOLL_CTL_MOD` gives the first item of the key the caller's
mask, without `EPOLL_NEEDS_REARM`, and data. -/
theorem doEpollMod_ok (modified : doEpollMod st handle fd event = .ok st') :
    ∃ j, findItem st.items handle fd = some j ∧
      st'.items = st.items.set j
        { st.items.getD j default with events := event.events &&& ~~~EPOLL_NEEDS_REARM, data := event.data } ∧
      ∀ h, (st'.handles h).access = (st.handles h).access := by
  unfold doEpollMod at modified
  split at modified
  · cases modified
  split at modified
  · cases modified
  · rename_i j found
    dsimp only at modified
    split at modified
    · cases modified
    · split at modified <;> cases modified
      · exact ⟨j, found, rfl, fun h => setEt_access _ _ _⟩
      · exact ⟨j, found, rfl, fun _ => rfl⟩

/-- A successful `EPOLL_CTL_DEL` removes the first item of the key. -/
theorem doEpollDel_ok (deleted : doEpollDel st handle fd = .ok st') :
    ∃ j, findItem st.items handle fd = some j ∧ st' = { st with items := st.items.eraseIdx j } := by
  unfold doEpollDel at deleted
  split at deleted
  · cases deleted
  · rename_i j found
    cases deleted
    exact ⟨j, found, rfl⟩

/-- A mask `EPOLL_CTL_MOD` stores waits for no re-arming. -/
theorem modEvents_armed (events : UInt32) : events &&& ~~~EPOLL_NEEDS_REARM &&& EPOLL_NEEDS_REARM = 0 := by
  rw [UInt32.and_assoc, show ~~~EPOLL_NEEDS_REARM &&& EPOLL_NEEDS_REARM = 0 by decide, UInt32.and_zero]

end Edits

/-! ## Runs of calls -/

/-- A call on the instance by the thread using it. -/
inductive EpollCall where
  | add (handle : Nat) (fd : Int) (event : EpollEvent)
  | mod (handle : Nat) (fd : Int) (event : EpollEvent)
  | del (handle : Nat) (fd : Int)
  | wait (maxevents : Int) (answers : List PalAnswer)

/-- The key a call edits, if it is an `epoll_ctl`. -/
def EpollCall.edits : EpollCall → Option (Nat × Int)
  | .add handle fd _ => some (handle, fd)
  | .mod handle fd _ => some (handle, fd)
  | .del handle fd => some (handle, fd)
  | .wait .. => none

/-- The instance after a call: a failed edit, and a wait that has not
returned, leave it as it was. -/
def epollCall (st : EpollState) : EpollCall → EpollState
  | .add handle fd event =>
    match doEpollAdd st handle fd event with
    | .ok st' => st'
    | .error _ => st
  | .mod handle fd event =>
    match doEpollMod st handle fd event with
    | .ok st' => st'
    | .error _ => st
  | .del handle fd =>
    match doEpollDel st handle fd with
    | .ok st' => st'
    | .error _ => st
  | .wait maxevents answers =>
    match doEpollWait maxevents st answers with
    | some w => w.st
    | none => st

/-- The items a call writes events for, as they were when it began. -/
def callReports (st : EpollState) : EpollCall → List EpollItem
  | .wait maxevents answers =>
    match doEpollWait maxevents st answers with
    | some w => w.reported.map fun p => st.items.getD p.1 default
    | none => []
  | _ => []

/-- The items each call of a run writes events for. -/
def runReports : EpollState → List EpollCall → List (List EpollItem)
  | _, [] => []
  | st, call :: calls => callReports st call :: runReports (epollCall st call) calls

/-- After a wait, the instance is the one before with the wait's reports
applied, up to `last_returned_index`. -/
theorem doEpollWait_items {maxevents : Int} {st : EpollState} {answers : List PalAnswer} {w : Waited}
    (waited : doEpollWait maxevents st answers = some w) :
    w.st.items = (applyReports st w.reported).items ∧ ∀ h, (w.st.handles h).access = (st.handles h).access := by
  rcases doEpollWait_spec waited with ⟨nothing, same, -⟩ | ⟨-, -, -, -, -, last, state⟩
  · rw [nothing, same]
    exact ⟨rfl, fun _ => rfl⟩
  · rw [state]
    exact ⟨rfl, fun h => applyReports_access h st w.reported⟩

/-! ## Keys stay unique -/

theorem KeysUnique.getElem_inj {st : EpollState} (uniq : KeysUnique st) {j j' : Nat} (inside : j < st.items.length)
    (inside' : j' < st.items.length) (same : st.items[j].key = st.items[j'].key) : j = j' := by
  unfold KeysUnique at uniq
  have insideKeys : j < (st.items.map EpollItem.key).length := by simpa only [List.length_map] using inside
  have insideKeys' : j' < (st.items.map EpollItem.key).length := by simpa only [List.length_map] using inside'
  have mapped : (st.items.map EpollItem.key)[j] = (st.items.map EpollItem.key)[j'] := by
    simpa only [List.getElem_map] using same
  exact (uniq.getElem_inj_iff).mp mapped

/-- No call makes two items of one key: `do_epoll_add` refuses a key that is
there, and the other calls keep the keys or drop one. -/
theorem KeysUnique.call {st : EpollState} (uniq : KeysUnique st) : ∀ call, KeysUnique (epollCall st call)
  | .add handle fd event => by
    cases added : doEpollAdd st handle fd event with
    | error e => simpa only [epollCall, added] using uniq
    | ok st' =>
      simp only [epollCall, added]
      obtain ⟨missing, items, -⟩ := doEpollAdd_ok added
      unfold KeysUnique
      rw [items, List.map_append, List.nodup_append]
      refine ⟨uniq, List.nodup_singleton _, ?_⟩
      intro key old key' new same
      obtain ⟨item, mem, rfl⟩ := List.mem_map.mp old
      obtain ⟨added, addedMem, rfl⟩ := List.mem_map.mp new
      rw [List.mem_singleton] at addedMem
      subst addedMem
      exact findItem_none missing item mem same
  | .mod handle fd event => by
    cases modified : doEpollMod st handle fd event with
    | error e => simpa only [epollCall, modified] using uniq
    | ok st' =>
      simp only [epollCall, modified]
      obtain ⟨j, found, items, -⟩ := doEpollMod_ok modified
      obtain ⟨inside, -⟩ := findItem_some found
      unfold KeysUnique
      -- the new item has the key of the one it replaces
      have keys : st'.items.map EpollItem.key = st.items.map EpollItem.key := by
        rw [items, List.map_set, List.getD_eq_getElem _ _ inside]
        have insideKeys : j < (st.items.map EpollItem.key).length := by simpa only [List.length_map] using inside
        have same : EpollItem.key { st.items[j] with events := event.events &&& ~~~EPOLL_NEEDS_REARM, data := event.data } =
            (st.items.map EpollItem.key)[j] := by
          rw [List.getElem_map]
          rfl
        rw [same, List.set_getElem_self]
      rw [keys]
      exact uniq
  | .del handle fd => by
    cases deleted : doEpollDel st handle fd with
    | error e => simpa only [epollCall, deleted] using uniq
    | ok st' =>
      simp only [epollCall, deleted]
      obtain ⟨j, -, rfl⟩ := doEpollDel_ok deleted
      exact ((List.eraseIdx_sublist _ j).map EpollItem.key).nodup uniq
  | .wait maxevents answers => by
    cases waited : doEpollWait maxevents st answers with
    | none => simpa only [epollCall, waited] using uniq
    | some w =>
      simp only [epollCall, waited]
      unfold KeysUnique
      rw [(doEpollWait_items waited).1, applyReports_keys]
      exact uniq

/-! ## Masks and the access mode -/

/-- No item asks for read (write) events of a handle not open for reading
(writing). -/
def AccessFiltered (st : EpollState) : Prop :=
  ∀ item ∈ st.items,
    ((st.handles item.handle).mayRead = false → item.events &&& (EPOLLIN ||| EPOLLRDNORM) = 0) ∧
    ((st.handles item.handle).mayWrite = false → item.events &&& (EPOLLOUT ||| EPOLLWRNORM) = 0)

theorem addEvents_unread {watched : Watched} (unreadable : watched.mayRead = false) (events : UInt32) :
    addEvents watched events &&& (EPOLLIN ||| EPOLLRDNORM) = 0 := by
  have dropped : events &&& ~~~EPOLL_NEEDS_REARM &&& ~~~(EPOLLIN ||| EPOLLRDNORM) &&& (EPOLLIN ||| EPOLLRDNORM) = 0 := by
    rw [UInt32.and_assoc, show ~~~(EPOLLIN ||| EPOLLRDNORM) &&& (EPOLLIN ||| EPOLLRDNORM) = 0 by decide, UInt32.and_zero]
  unfold addEvents
  simp only [unreadable, Bool.false_eq_true, if_false]
  split
  · exact dropped
  · exact (within32_and_left _ _).and_eq_zero dropped

theorem addEvents_unwritten {watched : Watched} (unwritable : watched.mayWrite = false) (events : UInt32) :
    addEvents watched events &&& (EPOLLOUT ||| EPOLLWRNORM) = 0 := by
  unfold addEvents
  simp only [unwritable, Bool.false_eq_true, if_false]
  rw [UInt32.and_assoc, show ~~~(EPOLLOUT ||| EPOLLWRNORM) &&& (EPOLLOUT ||| EPOLLWRNORM) = 0 by decide, UInt32.and_zero]

/-- The masks stay filtered when every item grows from one before and the
access modes stay. -/
theorem AccessFiltered.of_grows {st st' : EpollState} (filtered : AccessFiltered st)
    (grown : ∀ item' ∈ st'.items, ∃ item ∈ st.items, Grows item item')
    (access : ∀ h, (st'.handles h).access = (st.handles h).access) : AccessFiltered st' := by
  intro item' mem'
  obtain ⟨item, mem, grows⟩ := grown item' mem'
  have handle : item'.handle = item.handle := congrArg Prod.fst grows.1
  have readable : (st'.handles item'.handle).mayRead = (st.handles item.handle).mayRead := by
    rw [handle]
    exact congrArg Prod.fst (access item.handle)
  have writable : (st'.handles item'.handle).mayWrite = (st.handles item.handle).mayWrite := by
    rw [handle]
    exact congrArg (fun a => a.2.1) (access item.handle)
  rw [readable, writable, grows.events_and (by decide), grows.events_and (by decide)]
  exact filtered item mem

/-- Every call but `EPOLL_CTL_MOD` keeps the masks filtered. -/
theorem AccessFiltered.call {st : EpollState} (filtered : AccessFiltered st) :
    ∀ call, (∀ handle fd event, call ≠ .mod handle fd event) → AccessFiltered (epollCall st call)
  | .add handle fd event, _ => by
    cases added : doEpollAdd st handle fd event with
    | error e => simpa only [epollCall, added] using filtered
    | ok st' =>
      simp only [epollCall, added]
      obtain ⟨-, items, access⟩ := doEpollAdd_ok added
      intro item mem
      rw [items, List.mem_append, List.mem_singleton] at mem
      have readable : ∀ h, (st'.handles h).mayRead = (st.handles h).mayRead := fun h => congrArg Prod.fst (access h)
      have writable : ∀ h, (st'.handles h).mayWrite = (st.handles h).mayWrite :=
        fun h => congrArg (fun a => a.2.1) (access h)
      rw [readable, writable]
      rcases mem with old | rfl
      · exact filtered item old
      · exact ⟨fun unreadable => addEvents_unread unreadable _, fun unwritable => addEvents_unwritten unwritable _⟩
  | .mod handle fd event, notMod => absurd rfl (notMod handle fd event)
  | .del handle fd, _ => by
    cases deleted : doEpollDel st handle fd with
    | error e => simpa only [epollCall, deleted] using filtered
    | ok st' =>
      simp only [epollCall, deleted]
      obtain ⟨j, -, rfl⟩ := doEpollDel_ok deleted
      exact fun item mem => filtered item (List.mem_of_mem_eraseIdx mem)
  | .wait maxevents answers, _ => by
    cases waited : doEpollWait maxevents st answers with
    | none => simpa only [epollCall, waited] using filtered
    | some w =>
      simp only [epollCall, waited]
      obtain ⟨items, access⟩ := doEpollWait_items waited
      refine filtered.of_grows (fun item' mem' => ?_) access
      rw [items] at mem'
      obtain ⟨j, inside, grows⟩ := mem_applyReports_items mem'
      exact ⟨st.items[j], List.getElem_mem _, grows⟩

/-- While the masks are filtered, a wait reports no read event for a handle
not open for reading and no write event for one not open for writing. -/
theorem AccessFiltered.wait_reports {st : EpollState} (filtered : AccessFiltered st) {maxevents : Int}
    {answers : List PalAnswer} {w : Waited} (waited : doEpollWait maxevents st answers = some w) :
    ∀ p ∈ w.reported,
      ((st.handles (st.items.getD p.1 default).handle).mayRead = false → p.2.events &&& (EPOLLIN ||| EPOLLRDNORM) = 0) ∧
      ((st.handles (st.items.getD p.1 default).handle).mayWrite = false →
        p.2.events &&& (EPOLLOUT ||| EPOLLWRNORM) = 0) := by
  intro p mem
  rcases doEpollWait_spec waited with ⟨nothing, -⟩ | ⟨-, -, -, -, reportsOk, -⟩
  · rw [nothing] at mem
    cases mem
  obtain ⟨inside, -, -, -, ret, events⟩ := reportsOk p mem
  have asked := filtered (st.items.getD p.1 default) (by rw [List.getD_eq_getElem _ _ inside]; exact List.getElem_mem _)
  rw [events]
  exact ⟨fun unreadable => itemEvents_unread (asked.1 unreadable) ret,
    fun unwritable => itemEvents_unwritten (asked.2 unwritable) ret⟩

/-! ## One-shot items

A reported one-shot item is marked `EPOLL_NEEDS_REARM`; a wait skips a marked
item, and only `EPOLL_CTL_MOD` of its key clears the mark. So along a run
with no edit of the key, the item is reported at most once
(`runReports_oneShot`). -/

/-- Every item of key `k` is one-shot. -/
def OneShot (k : Nat × Int) (st : EpollState) : Prop :=
  ∀ item ∈ st.items, item.key = k → item.events &&& EPOLLONESHOT ≠ 0

/-- Every item of key `k` waits to be re-armed. -/
def Disarmed (k : Nat × Int) (st : EpollState) : Prop :=
  ∀ item ∈ st.items, item.key = k → item.events &&& EPOLL_NEEDS_REARM ≠ 0

section OneShot

variable {st : EpollState} {k : Nat × Int}

/-- After a call that does not edit `k`, each item of key `k` grew from an
item before the call. -/
theorem epollCall_grows : ∀ call : EpollCall, call.edits ≠ some k →
    ∀ item' ∈ (epollCall st call).items, item'.key = k → ∃ item ∈ st.items, Grows item item'
  | .add handle fd event, other => by
    intro item' mem' key
    cases added : doEpollAdd st handle fd event with
    | error e =>
      simp only [epollCall, added] at mem'
      exact ⟨item', mem', grows_refl _⟩
    | ok st' =>
      simp only [epollCall, added] at mem'
      obtain ⟨-, items, -⟩ := doEpollAdd_ok added
      rw [items, List.mem_append, List.mem_singleton] at mem'
      rcases mem' with old | rfl
      · exact ⟨item', old, grows_refl _⟩
      · -- the new item has the key the call edits
        exact absurd (congrArg some key) other
  | .mod handle fd event, other => by
    intro item' mem' key
    cases modified : doEpollMod st handle fd event with
    | error e =>
      simp only [epollCall, modified] at mem'
      exact ⟨item', mem', grows_refl _⟩
    | ok st' =>
      simp only [epollCall, modified] at mem'
      obtain ⟨j, found, items, -⟩ := doEpollMod_ok modified
      obtain ⟨inside, atJ⟩ := findItem_some found
      rw [items] at mem'
      rcases List.mem_or_eq_of_mem_set mem' with old | rfl
      · exact ⟨item', old, grows_refl _⟩
      · -- the replaced item has the key the call edits
        refine absurd (congrArg some ?_) other
        rw [← key, ← atJ, List.getD_eq_getElem _ _ inside]
        rfl
  | .del handle fd, _ => by
    intro item' mem' _
    cases deleted : doEpollDel st handle fd with
    | error e =>
      simp only [epollCall, deleted] at mem'
      exact ⟨item', mem', grows_refl _⟩
    | ok st' =>
      simp only [epollCall, deleted] at mem'
      obtain ⟨j, -, rfl⟩ := doEpollDel_ok deleted
      exact ⟨item', List.mem_of_mem_eraseIdx mem', grows_refl _⟩
  | .wait maxevents answers, _ => by
    intro item' mem' _
    cases waited : doEpollWait maxevents st answers with
    | none =>
      simp only [epollCall, waited] at mem'
      exact ⟨item', mem', grows_refl _⟩
    | some w =>
      simp only [epollCall, waited] at mem'
      rw [(doEpollWait_items waited).1] at mem'
      obtain ⟨j, inside, grows⟩ := mem_applyReports_items mem'
      exact ⟨st.items[j], List.getElem_mem _, grows⟩

theorem OneShot.call (oneShot : OneShot k st) (call : EpollCall) (other : call.edits ≠ some k) :
    OneShot k (epollCall st call) := by
  intro item' mem' key
  obtain ⟨item, mem, grows⟩ := epollCall_grows call other item' mem' key
  rw [grows.events_and (by decide)]
  exact oneShot item mem (grows.1.symm.trans key)

theorem Disarmed.call (disarmed : Disarmed k st) (call : EpollCall) (other : call.edits ≠ some k) :
    Disarmed k (epollCall st call) := by
  intro item' mem' key
  obtain ⟨item, mem, grows⟩ := epollCall_grows call other item' mem' key
  exact grows.rearming (disarmed item mem (grows.1.symm.trans key))

/-- The reports of a call are those of a wait that returned. -/
theorem mem_callReports {call : EpollCall} {item : EpollItem} (mem : item ∈ callReports st call) :
    ∃ maxevents answers w, call = .wait maxevents answers ∧ doEpollWait maxevents st answers = some w ∧
      ∃ p ∈ w.reported, item = st.items.getD p.1 default := by
  cases call with
  | wait maxevents answers =>
    cases waited : doEpollWait maxevents st answers with
    | none => simp only [callReports, waited, List.not_mem_nil] at mem
    | some w =>
      simp only [callReports, waited] at mem
      obtain ⟨p, reported, rfl⟩ := List.mem_map.mp mem
      exact ⟨maxevents, answers, w, rfl, waited, p, reported, rfl⟩
  | add => simp only [callReports, List.not_mem_nil] at mem
  | mod => simp only [callReports, List.not_mem_nil] at mem
  | del => simp only [callReports, List.not_mem_nil] at mem

/-- A wait reports no item that waits to be re-armed. -/
theorem Disarmed.not_reported (disarmed : Disarmed k st) (call : EpollCall) :
    ∀ item ∈ callReports st call, item.key ≠ k := by
  intro item mem key
  obtain ⟨maxevents, answers, w, -, waited, p, reported, rfl⟩ := mem_callReports mem
  rcases doEpollWait_spec waited with ⟨nothing, -⟩ | ⟨-, -, -, -, reportsOk, -⟩
  · rw [nothing] at reported
    cases reported
  obtain ⟨inside, armed, -⟩ := reportsOk p reported
  exact disarmed _ (by rw [List.getD_eq_getElem _ _ inside]; exact List.getElem_mem _) key armed

/-- A wait that reports the one-shot item of key `k` leaves it waiting to be
re-armed. -/
theorem Disarmed.of_reported (uniq : KeysUnique st) (oneShot : OneShot k st) {call : EpollCall}
    (reported : ∃ item ∈ callReports st call, item.key = k) : Disarmed k (epollCall st call) := by
  obtain ⟨item, mem, key⟩ := reported
  obtain ⟨maxevents, answers, w, rfl, waited, p, reportedP, rfl⟩ := mem_callReports mem
  rcases doEpollWait_spec waited with ⟨nothing, -⟩ | ⟨-, -, -, -, reportsOk, -⟩
  · rw [nothing] at reportedP
    cases reportedP
  have inside := (reportsOk p reportedP).inside
  rw [List.getD_eq_getElem _ _ inside] at key
  intro item' mem' key'
  simp only [epollCall, waited] at mem'
  rw [(doEpollWait_items waited).1] at mem'
  obtain ⟨j, insideJ, at_j⟩ := List.getElem_of_mem mem'
  -- the only item of key `k` is the reported one
  have grows := applyReports_grows j st w.reported
  have insideJ' : j < st.items.length := by rwa [length_applyReports_items] at insideJ
  rw [List.getD_eq_getElem _ _ insideJ', List.getD_eq_getElem _ _ insideJ, at_j] at grows
  have same : j = p.1 := uniq.getElem_inj insideJ' inside (grows.1.symm.trans (key'.trans key.symm))
  subst same
  have rearmed := applyReports_rearms inside
    (by rw [List.getD_eq_getElem _ _ inside]; exact oneShot _ (List.getElem_mem _) key)
    (List.mem_map_of_mem reportedP)
  rwa [List.getD_eq_getElem _ _ insideJ, at_j] at rearmed

/-- From a state where the items of key `k` wait to be re-armed, no call of a
run that does not edit `k` reports one. -/
theorem runReports_disarmed : ∀ (calls : List EpollCall) (st : EpollState), Disarmed k st →
    (∀ call ∈ calls, call.edits ≠ some k) → ∀ items ∈ runReports st calls, ∀ item ∈ items, item.key ≠ k
  | [], _, _, _ => fun _ mem => by cases mem
  | call :: calls, st, disarmed, others => by
    intro items mem
    rw [runReports, List.mem_cons] at mem
    rcases mem with rfl | later
    · exact disarmed.not_reported call
    · exact runReports_disarmed calls _ (disarmed.call call (others call List.mem_cons_self))
        (fun call' mem' => others call' (List.mem_cons_of_mem _ mem')) items later

/-- Along a run that does not edit `k`, at most one call reports the one-shot
item of key `k`. -/
theorem runReports_oneShot : ∀ (calls : List EpollCall) (st : EpollState), KeysUnique st → OneShot k st →
    (∀ call ∈ calls, call.edits ≠ some k) →
    ((runReports st calls).filter fun items => items.any fun item => item.key == k).length ≤ 1
  | [], _, _, _, _ => Nat.zero_le _
  | call :: calls, st, uniq, oneShot, others => by
    have other := others call List.mem_cons_self
    have later : ∀ call' ∈ calls, call'.edits ≠ some k := fun call' mem' => others call' (List.mem_cons_of_mem _ mem')
    rw [runReports, List.filter_cons]
    split
    · -- this call reports the item: none after it does
      rename_i reports
      obtain ⟨item, mem, key⟩ := List.any_eq_true.mp reports
      have disarmed := Disarmed.of_reported uniq oneShot ⟨item, mem, beq_iff_eq.mp key⟩
      have none : (runReports (epollCall st call) calls).filter (fun items => items.any fun item => item.key == k) = [] := by
        rw [List.filter_eq_nil_iff]
        intro items mem' reports'
        obtain ⟨item', mem'', key'⟩ := List.any_eq_true.mp reports'
        exact runReports_disarmed calls _ disarmed later items mem' item' mem'' (beq_iff_eq.mp key')
      rw [none]
      exact Nat.le_refl _
    · exact runReports_oneShot calls _ (uniq.call call) (oneShot.call call other) later

end OneShot

/-- `EPOLL_CTL_MOD` re-arms: the item it edits no longer waits to be re-armed. -/
theorem doEpollMod_rearms {st st' : EpollState} {handle : Nat} {fd : Int} {event : EpollEvent}
    (modified : doEpollMod st handle fd event = .ok st') :
    ∃ j, ∃ inside : j < st'.items.length, st'.items[j].key = (handle, fd) ∧
      st'.items[j].events &&& EPOLL_NEEDS_REARM = 0 := by
  obtain ⟨j, found, items, -⟩ := doEpollMod_ok modified
  obtain ⟨inside, atJ⟩ := findItem_some found
  have inside' : j < st'.items.length := by rw [items, List.length_set]; exact inside
  refine ⟨j, inside', ?_⟩
  simp only [items, List.getElem_set_self]
  refine ⟨?_, modEvents_armed _⟩
  rw [← atJ, List.getD_eq_getElem _ _ inside]
  rfl

/-! ## Round robin over ready items

When every item is gathered and stays ready, a wait writes the `maxevents`
items from its start position on, and the next wait starts after them: the
`ceil(n / maxevents)` waits after any state write every item
(`waitPositions_cover`). -/

/-- Every wait gathers every item: its handle has a PAL handle, and the item
is neither one-shot nor waiting to be re-armed. -/
def Plain (st : EpollState) : Prop :=
  ∀ item ∈ st.items, (st.handles item.handle).hasPalHandle = true ∧ item.events &&& EPOLLONESHOT = 0 ∧
    item.events &&& EPOLL_NEEDS_REARM = 0

/-- The events a PAL answer reports keep every item of `items` ready. -/
def ReadyAll (items : List EpollItem) (ready : PalReady) : Prop :=
  ∀ i < items.length,
    ready.retEvents i ≠ 0 ∧ itemEvents (items.getD i default).events (ready.postPoll i (ready.retEvents i)) ≠ 0

/-- Whatever is asked, the PAL answers with every item of `items` ready. -/
def AllReady (items : List EpollItem) (answer : PalAnswer) : Prop :=
  ∀ request, ∃ ready, answer request = .ok ready ∧ ReadyAll items ready

/-- The positions each wait of a sequence, one PAL answer each, writes events
for. -/
def waitPositions (maxevents : Int) : EpollState → List PalAnswer → List (List Nat)
  | _, [] => []
  | st, answer :: answers =>
    match doEpollWait maxevents st [answer] with
    | some w => w.reported.map Prod.fst :: waitPositions maxevents w.st answers
    | none => []

section Ready

variable {st : EpollState} {ready : PalReady}

theorem Plain.gatherItems (plain : Plain st) : gatherItems st = List.range st.items.length := by
  unfold Epoll.gatherItems
  rw [List.filter_eq_self]
  intro j mem
  rw [List.mem_range] at mem
  have item := plain (st.items.getD j default) (by rw [List.getD_eq_getElem _ _ mem]; exact List.getElem_mem _)
  simp only [item.1, item.2.2, beq_self_eq_true, Bool.and_self]

theorem turnPosition_range {n : Nat} (pos : 0 < n) (start c : Nat) :
    turnPosition (List.range n) start c = (start + c) % n := by
  unfold turnPosition
  rw [List.length_range, List.getD_eq_getElem _ _ (by rw [List.length_range]; exact Nat.mod_lt _ pos),
    List.getElem_range]

/-- Over plain items that are all ready, every turn picks its position. -/
theorem candidate_of_ready (plain : Plain st) (each : ReadyAll st.items ready) (pos : 0 < st.items.length)
    (start c : Nat) :
    ∃ ev, candidate st (List.range st.items.length) ready start c = some ((start + c) % st.items.length, ev) := by
  have inside : (start + c) % st.items.length < st.items.length := Nat.mod_lt _ pos
  have item := plain (st.items.getD ((start + c) % st.items.length) default)
    (by rw [List.getD_eq_getElem _ _ inside]; exact List.getElem_mem _)
  obtain ⟨reports, keeps⟩ := each _ inside
  unfold candidate
  simp only [turnPosition_range pos, List.length_range, item.2.2, reports, keeps, beq_iff_eq, bne_self_eq_false,
    Bool.or_false, if_false]
  exact ⟨_, rfl⟩

/-- Picks at every turn give the turns' positions. -/
theorem filterMap_positions {f : Nat → Option (Nat × EpollEvent)} {g : Nat → Nat} :
    ∀ {turns : List Nat}, (∀ c ∈ turns, ∃ ev, f c = some (g c, ev)) → (turns.filterMap f).map Prod.fst = turns.map g
  | [], _ => rfl
  | c :: turns, picks => by
    obtain ⟨ev, picked⟩ := picks c List.mem_cons_self
    rw [List.filterMap_cons, picked, List.map_cons, List.map_cons,
      filterMap_positions fun c' mem => picks c' (List.mem_cons_of_mem _ mem)]

/-- A ready pass writes the `maxevents` positions from its start on. -/
theorem passReports_of_ready (plain : Plain st) (each : ReadyAll st.items ready) {maxevents : Nat}
    (fewer : maxevents ≤ st.items.length) :
    (passReports maxevents st ready).map Prod.fst =
      (List.range' 0 maxevents).map fun c => (startIndex st st.items.length + c) % st.items.length := by
  unfold passReports
  dsimp only
  rw [plain.gatherItems, List.length_range, List.map_take]
  by_cases empty : st.items.length = 0
  · have none : maxevents = 0 := by omega
    rw [none, empty]
    rfl
  rw [filterMap_positions fun c _ => candidate_of_ready plain each (by omega) _ c, ← List.map_take,
    List.take_range'_of_length_ge fewer]

/-- Without one-shot items, reports change no item. -/
theorem applyReports_items_of_plain (plain : ∀ item ∈ st.items, item.events &&& EPOLLONESHOT = 0) :
    ∀ ps : List (Nat × EpollEvent), (applyReports st ps).items = st.items := by
  intro ps
  induction ps generalizing st with
  | nil => rfl
  | cons p ps ih =>
    have unchanged : (reportItem st p.1 p.2.events).items = st.items := by
      rw [reportItem_items, if_neg]
      by_cases inside : p.1 < st.items.length
      · rw [List.getD_eq_getElem _ _ inside, plain _ (List.getElem_mem _)]
        decide
      · rw [List.getD_eq_default _ _ (by omega)]
        decide
    rw [applyReports_cons, ih (by rw [unchanged]; exact plain), unchanged]

theorem Plain.of_same {st' : EpollState} (plain : Plain st) (items : st'.items = st.items)
    (access : ∀ h, (st'.handles h).access = (st.handles h).access) : Plain st' := by
  intro item mem
  rw [items] at mem
  have palHandle : (st'.handles item.handle).hasPalHandle = (st.handles item.handle).hasPalHandle :=
    congrArg (fun a => a.2.2) (access item.handle)
  rw [palHandle]
  exact plain item mem

/-- A ready pass over plain items stops at the turn that fills the array,
so the next pass starts right after the last position written. -/
theorem epollWaitPass_ready (plain : Plain st) {answer : PalAnswer}
    (answered : answer (palRequest st (gatherItems st)) = .ok ready) (each : ReadyAll st.items ready)
    {maxevents : Nat} (pos : 0 < maxevents) (fewer : maxevents < st.items.length) :
    epollWaitPass maxevents st answer =
      (.done (passReports maxevents st ready).length (passReports maxevents st ready),
        { applyReports st (passReports maxevents st ready) with
          lastReturnedIndex := UInt64.ofNat ((startIndex st st.items.length + (maxevents - 1)) % st.items.length) }) := by
  have count : (gatherItems st).length = st.items.length := by rw [plain.gatherItems, List.length_range]
  have fresh := freshTurns_start (gatherItems st) (startIndex st (gatherItems st).length) (gatherItems_nodup st)
  have picks : ∀ c ∈ List.range' 0 (gatherItems st).length,
      (candidate st (gatherItems st) ready (startIndex st (gatherItems st).length) c).isSome := by
    intro c _
    rw [plain.gatherItems]
    obtain ⟨ev, picked⟩ := candidate_of_ready plain each (by omega) (startIndex st (List.range st.items.length).length) c
    rw [picked]
    rfl
  obtain ⟨reported, state⟩ := roundRobin_spec maxevents (gatherItems st) ready (startIndex st (gatherItems st).length)
    st (gatherItems st).length ⟨st, [], 0⟩ rfl pos fresh
  have counter := roundRobin_counter maxevents (gatherItems st) ready (startIndex st (gatherItems st).length)
    st (gatherItems st).length ⟨st, [], 0⟩ rfl pos fresh picks (by rw [count]; omega)
  simp only [List.nil_append, List.length_nil, Nat.sub_zero, Nat.zero_add] at reported counter
  have picked : (roundRobin maxevents (gatherItems st) ready (startIndex st (gatherItems st).length)
      (gatherItems st).length ⟨st, [], 0⟩).reported = passReports maxevents st ready := reported
  have nonempty : passReports maxevents st ready ≠ [] := by
    intro empty
    have lengths := congrArg (fun ps => (ps.map Prod.fst).length) empty
    simp only [passReports_of_ready plain each fewer.le, List.length_map, List.length_range', List.map_nil,
      List.length_nil] at lengths
    omega
  unfold epollWaitPass
  dsimp only
  rw [answered]
  dsimp only
  rw [picked] at state ⊢
  rw [if_neg nonempty, counter, if_neg (by rw [count]; omega), state, count]

/-- With `n` below `2 ^ 64` (`items_count` is a `size_t`), the index stored
after writing `maxevents` positions from `start` makes the next pass start
right after them. -/
theorem startIndex_after {n start maxevents : Nat} (pos : 0 < maxevents) (fewer : maxevents ≤ n) (fits : n < 2 ^ 64)
    {st' : EpollState} (last : st'.lastReturnedIndex = UInt64.ofNat ((start + (maxevents - 1)) % n)) :
    startIndex st' n = (start + maxevents) % n := by
  have below : (start + (maxevents - 1)) % n < n := Nat.mod_lt _ (by omega)
  have stored : (st'.lastReturnedIndex + 1).toNat = (start + (maxevents - 1)) % n + 1 := by
    rw [last, UInt64.toNat_add, UInt64.toNat_ofNat', Nat.mod_eq_of_lt (by omega : (start + (maxevents - 1)) % n < 2 ^ 64)]
    exact Nat.mod_eq_of_lt (by simp only [UInt64.reduceToNat]; omega)
  unfold startIndex
  rw [if_pos (by omega), stored, Nat.mod_add_mod]
  congr 1
  omega

/-- One wait over plain, ready items writes the `maxevents` positions from its
start on, changes no item, and makes the next wait start after them. -/
theorem doEpollWait_ready (plain : Plain st) {answer : PalAnswer} (allReady : AllReady st.items answer)
    {maxevents : Int} (pos : 0 < maxevents) (fewer : maxevents < st.items.length) (fits : st.items.length < 2 ^ 64) :
    ∃ w, doEpollWait maxevents st [answer] = some w ∧
      w.reported.map Prod.fst =
        (List.range' 0 maxevents.toNat).map (fun c => (startIndex st st.items.length + c) % st.items.length) ∧
      Plain w.st ∧ w.st.items = st.items ∧
      startIndex w.st st.items.length = (startIndex st st.items.length + maxevents.toNat) % st.items.length := by
  obtain ⟨ready, answered, each⟩ := allReady (palRequest st (gatherItems st))
  have pass := epollWaitPass_ready plain answered each (by omega : 0 < maxevents.toNat) (by omega)
  have items : (applyReports st (passReports maxevents.toNat st ready)).items = st.items :=
    applyReports_items_of_plain (fun item mem => (plain item mem).2.1) _
  let w : Waited := ⟨(passReports maxevents.toNat st ready).length, passReports maxevents.toNat st ready,
    { applyReports st (passReports maxevents.toNat st ready) with
      lastReturnedIndex := UInt64.ofNat ((startIndex st st.items.length + (maxevents.toNat - 1)) % st.items.length) }⟩
  refine ⟨w, ?_, passReports_of_ready plain each (by omega), plain.of_same items
    (fun h => applyReports_access h st _), items, startIndex_after (by omega) (by omega) fits rfl⟩
  unfold doEpollWait epollWaitLoop
  rw [if_neg (by omega), pass]

/-- Over plain items that stay ready, the waits write `maxevents` consecutive
positions each, round robin from where the first starts. -/
theorem waitPositions_cover {maxevents : Int} (pos : 0 < maxevents) :
    ∀ (answers : List PalAnswer) (st : EpollState), Plain st → (∀ answer ∈ answers, AllReady st.items answer) →
      maxevents < st.items.length → st.items.length < 2 ^ 64 →
      ∀ t < answers.length * maxevents.toNat,
        ∃ ps ∈ waitPositions maxevents st answers, (startIndex st st.items.length + t) % st.items.length ∈ ps
  | [], _, _, _, _, _, t, few => absurd few (by simp only [List.length_nil, Nat.zero_mul, Nat.not_lt_zero, not_false_eq_true])
  | answer :: answers, st, plain, allReady, fewer, fits, t, few => by
    obtain ⟨w, waited, positions, plain', items, next⟩ :=
      doEpollWait_ready plain (allReady answer List.mem_cons_self) pos fewer fits
    rw [waitPositions, waited]
    by_cases first : t < maxevents.toNat
    · -- the first wait writes it
      refine ⟨_, List.mem_cons_self, ?_⟩
      rw [positions]
      exact List.mem_map_of_mem (List.mem_range'_1.mpr ⟨Nat.zero_le _, by omega⟩)
    · -- a later wait writes it, from where the first stopped
      have later := waitPositions_cover pos answers w.st plain'
        (fun answer' mem' => by rw [items]; exact allReady answer' (List.mem_cons_of_mem _ mem'))
        (by rw [items]; exact fewer) (by rw [items]; exact fits) (t - maxevents.toNat)
        (by rw [List.length_cons, Nat.succ_mul] at few; omega)
      obtain ⟨ps, mem, position⟩ := later
      rw [items, next, Nat.mod_add_mod, show startIndex st st.items.length + maxevents.toNat + (t - maxevents.toNat) =
        startIndex st st.items.length + t by omega] at position
      exact ⟨ps, List.mem_cons_of_mem _ mem, position⟩

/-- Every residue is reached from any start by a step below the modulus. -/
theorem exists_add_mod_eq {n : Nat} (pos : 0 < n) (start : Nat) {j : Nat} (below : j < n) :
    ∃ t < n, (start + t) % n = j := by
  refine ⟨(j + (n - start % n)) % n, Nat.mod_lt _ pos, ?_⟩
  have rest : start % n < n := Nat.mod_lt _ pos
  rw [← Nat.mod_add_mod, Nat.add_mod_mod, show start % n + (j + (n - start % n)) = j + n by omega,
    Nat.add_mod_right, Nat.mod_eq_of_lt below]

end Ready

/-! ## What epoll_wait reports -/

/-- A pipe's write end: open for writing only, with a PAL handle. -/
def writeEnd : Watched :=
  ⟨false, true, true, false, false⟩

/-- A PAL that reports every gathered position readable. -/
def readableAnswer : PalAnswer :=
  fun _ => .ok ⟨fun _ => PAL_WAIT_READ, fun _ ret => ret⟩

/-- `EPOLL_CTL_ADD` of descriptor 3 of a write end for `EPOLLOUT`, then
`EPOLL_CTL_MOD` of it to `EPOLLIN`. -/
def modToRead : Except Int EpollState := do
  let st ← doEpollAdd (epollCreate fun _ => writeEnd) 0 3 ⟨EPOLLOUT, 7⟩
  doEpollMod st 0 3 ⟨EPOLLIN, 7⟩

/-- Four readable items of distinct handles, the first one-shot. -/
def fourItems : EpollState :=
  ⟨[⟨0, 0, EPOLLIN ||| EPOLLONESHOT, 0⟩, ⟨1, 1, EPOLLIN, 1⟩, ⟨2, 2, EPOLLIN, 2⟩, ⟨3, 3, EPOLLIN, 3⟩], -1,
    fun _ => ⟨true, true, true, false, false⟩⟩

/-- A wait writes nothing, or between one and `maxevents` events of distinct
items with their data and events of their masks with `EPOLLERR` and
`EPOLLHUP`. The masks `EPOLL_CTL_ADD` stores drop what the access mode
forbids, and every call but `EPOLL_CTL_MOD` keeps that, so no wait reports a
read event of a handle not open for reading; but `EPOLL_CTL_MOD` stores the
caller's mask, and after it a wait reports `EPOLLIN` for a write end. A
reported one-shot item is not reported again along a run that does not edit
its key, and `EPOLL_CTL_MOD` re-arms it. Over items that are gathered and
stay ready, `ceil(n / maxevents)` waits write every item; with a one-shot
item among four, two waits of two events write the first item, the second
twice and the fourth, and never the third. -/
theorem doEpollWait_mask_and_round_robin :
    (∀ (maxevents : Int) (st : EpollState) (answers : List PalAnswer) (w : Waited),
      doEpollWait maxevents st answers = some w →
        (w.reported = [] ∧ w.st = st ∧ (w.ret = -EINVAL ∨ ∃ e, w.ret = restartNoHand (if e = -EAGAIN then 0 else e))) ∨
        (w.ret = w.reported.length ∧ 1 ≤ w.reported.length ∧ w.reported.length ≤ maxevents ∧
          (w.reported.map Prod.fst).Nodup ∧
          ∀ p ∈ w.reported, p.1 < st.items.length ∧ p.2.data = (st.items.getD p.1 default).data ∧
            Within32 p.2.events ((st.items.getD p.1 default).events ||| EPOLLERR ||| EPOLLHUP))) ∧
    (∀ handles, AccessFiltered (epollCreate handles)) ∧
    (∀ st call, AccessFiltered st → (∀ handle fd event, call ≠ .mod handle fd event) →
      AccessFiltered (epollCall st call)) ∧
    (∀ (st : EpollState) maxevents answers w, AccessFiltered st → doEpollWait maxevents st answers = some w →
      ∀ p ∈ w.reported,
        ((st.handles (st.items.getD p.1 default).handle).mayRead = false →
          p.2.events &&& (EPOLLIN ||| EPOLLRDNORM) = 0) ∧
        ((st.handles (st.items.getD p.1 default).handle).mayWrite = false →
          p.2.events &&& (EPOLLOUT ||| EPOLLWRNORM) = 0)) ∧
    (∃ st, modToRead = .ok st ∧ (st.handles 0).mayRead = false ∧
      (doEpollWait 1 st [readableAnswer]).map Waited.events = some [⟨EPOLLIN, 7⟩]) ∧
    (∀ handles, KeysUnique (epollCreate handles)) ∧
    (∀ st call, KeysUnique st → KeysUnique (epollCall st call)) ∧
    (∀ k calls st, KeysUnique st → OneShot k st → (∀ call ∈ calls, call.edits ≠ some k) →
      ((runReports st calls).filter fun items => items.any fun item => item.key == k).length ≤ 1) ∧
    (∀ (st st' : EpollState) handle fd event, doEpollMod st handle fd event = .ok st' →
      ∃ j, ∃ inside : j < st'.items.length, st'.items[j].key = (handle, fd) ∧
        st'.items[j].events &&& EPOLL_NEEDS_REARM = 0) ∧
    (∀ (maxevents : Int) (st : EpollState) (answers : List PalAnswer), 0 < maxevents →
      maxevents < st.items.length → st.items.length < 2 ^ 64 → Plain st →
      (∀ answer ∈ answers, AllReady st.items answer) →
      answers.length = (st.items.length + maxevents.toNat - 1) / maxevents.toNat →
      ∀ j < st.items.length, ∃ ps ∈ waitPositions maxevents st answers, j ∈ ps) ∧
    (AllReady fourItems.items readableAnswer ∧
      waitPositions 2 fourItems [readableAnswer, readableAnswer] = [[0, 1], [3, 1]]) := by
  refine ⟨?returns, (fun _ item mem => absurd mem List.not_mem_nil),
    (fun st call filtered notMod => filtered.call call notMod),
    (fun st maxevents answers w filtered waited => filtered.wait_reports waited), ⟨_, rfl, rfl, by decide⟩,
    (fun _ => List.nodup_nil), (fun st call uniq => uniq.call call),
    (fun k calls st uniq oneShot others => runReports_oneShot calls st uniq oneShot others),
    (fun st st' handle fd event modified => doEpollMod_rearms modified), ?cover, ?ready, by decide⟩
  case returns =>
    intro maxevents st answers w waited
    rcases doEpollWait_spec waited with empty | ⟨nonempty, ret, atMost, distinct, reportsOk, -⟩
    · exact .inl empty
    · refine .inr ⟨ret, List.length_pos_iff.mpr nonempty, atMost, distinct, fun p mem => ?_⟩
      obtain ⟨inside, -, data, -, reported, events⟩ := reportsOk p mem
      exact ⟨inside, data, events ▸ itemEvents_within _ _⟩
  case cover =>
    intro maxevents st answers pos fewer fits plain allReady calls j below
    have enough : st.items.length ≤ answers.length * maxevents.toNat := by
      have ceiling : st.items.length + maxevents.toNat - 1 <
          (st.items.length + maxevents.toNat - 1) / maxevents.toNat * maxevents.toNat + maxevents.toNat :=
        Nat.lt_div_mul_add (by omega)
      rw [← calls] at ceiling
      omega
    obtain ⟨t, small, reaches⟩ := exists_add_mod_eq (by omega) (startIndex st st.items.length) below
    obtain ⟨ps, mem, position⟩ := waitPositions_cover pos answers st plain allReady fewer fits t (by omega)
    rw [reaches] at position
    exact ⟨ps, mem, position⟩
  case ready =>
    intro request
    refine ⟨_, rfl, ?_⟩
    unfold ReadyAll
    decide

/-- Adding descriptor 3 of a write end keeps the keys unique. -/
theorem doEpollWait_mask_and_round_robin_add :
    KeysUnique (epollCall (epollCreate fun _ => writeEnd) (.add 0 3 ⟨EPOLLOUT, 7⟩)) :=
  doEpollWait_mask_and_round_robin.2.2.2.2.2.2.1 _ _ List.nodup_nil

end Gramine.LibOS.Epoll
