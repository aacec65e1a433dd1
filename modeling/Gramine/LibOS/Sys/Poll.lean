import Gramine.Common.Errno
import Gramine.Library.BitMask
/-!
# poll and select

`do_poll` of `libos_poll.c` makes two passes over the `pollfd` array. The
first settles what it can at once: negative descriptors (`revents = 0`),
descriptors with no handle (`POLLNVAL`), handles whose filesystem answers
through its own `poll` callback, and handles with no PAL handle. It leaves
the rest for `PalStreamsWaitEvents`. The second pass turns what the PAL
reported for each of those into `revents`. `do_select` translates its three
bitmaps into a `pollfd` array, calls `do_poll`, and clears each bit whose
descriptor reported nothing of the bit's class.

The PAL's answer, after each handle's `post_poll`, is an input of the model:
an error, or the events of each array position. The model takes the
allocations to succeed and leaves out the handle references taken and
dropped around the wait.
-/

namespace Gramine.LibOS.Poll

open BitMask

def POLLIN : UInt16 := 0x0001
def POLLPRI : UInt16 := 0x0002
def POLLOUT : UInt16 := 0x0004
def POLLERR : UInt16 := 0x0008
def POLLHUP : UInt16 := 0x0010
def POLLNVAL : UInt16 := 0x0020
def POLLRDNORM : UInt16 := 0x0040
def POLLRDBAND : UInt16 := 0x0080
def POLLWRNORM : UInt16 := 0x0100
def POLLWRBAND : UInt16 := 0x0200
def POLLRDHUP : UInt16 := 0x2000

def POLLIN_SET : UInt16 := POLLRDNORM ||| POLLRDBAND ||| POLLIN ||| POLLHUP ||| POLLERR
def POLLOUT_SET : UInt16 := POLLWRBAND ||| POLLWRNORM ||| POLLOUT ||| POLLERR
def POLLEX_SET : UInt16 := POLLPRI

def PAL_WAIT_READ : UInt32 := 1
def PAL_WAIT_WRITE : UInt32 := 2
def PAL_WAIT_ERROR : UInt32 := 4
def PAL_WAIT_HANG_UP : UInt32 := 8

/-- `struct pollfd`. -/
structure PollFd where
  fd : Int
  events : UInt16
  revents : UInt16
  deriving DecidableEq, Repr

/-- The `poll` callback of a handle's filesystem. -/
inductive PollCallback where
  /-- No callback (pipes, sockets, eventfds): the PAL polls the handle. -/
  | noCallback
  /-- `generic_inode_poll` (chroot, encrypted and tmpfs files). -/
  | genericInode (regular : Bool)
  /-- `pseudo_poll` on a string node: `mem_file_poll`, readable while the
  position is below the size. -/
  | memFile (readable : Bool)
  /-- `pseudo_poll` on a device without a `poll` of its own. -/
  | pseudoDev (hasRead hasWrite : Bool)
  /-- `dev_tty_poll`, which hands the console back to the PAL. -/
  | devTty
  /-- `pseudo_poll` on any other node. -/
  | pseudoOther
  deriving DecidableEq, Repr

/-- `ret = fs_ops->poll(handle, events, &events)`: the return value and
`events` after the call; `none` when there is no callback. -/
def PollCallback.run : PollCallback → UInt16 → Option (Int × UInt16)
  | .noCallback, _ => none
  | .genericInode regular, events =>
    if regular then some (0, events &&& (POLLIN ||| POLLRDNORM ||| POLLOUT ||| POLLWRNORM))
    else some (-EAGAIN, events)
  | .memFile readable, events =>
    some (0, (events &&& (POLLOUT ||| POLLWRNORM)) ||| (if readable then events &&& (POLLIN ||| POLLRDNORM) else 0))
  | .pseudoDev hasRead hasWrite, events =>
    some (0, (if hasRead then events &&& (POLLIN ||| POLLRDNORM) else 0) |||
      (if hasWrite then events &&& (POLLOUT ||| POLLWRNORM) else 0))
  | .devTty, events => some (-ENOSYS, events)
  | .pseudoOther, events => some (-ENOSYS, events)

/-- What `do_poll` reads of an open handle. -/
structure PollHandle where
  mayRead : Bool
  mayWrite : Bool
  callback : PollCallback
  isSock : Bool
  hasPalHandle : Bool
  deriving DecidableEq, Repr

/-- The events asked of a handle once those its access mode forbids are
dropped. -/
def accessEvents (handle : PollHandle) (events : UInt16) : UInt16 :=
  let events := if handle.mayRead then events else events &&& ~~~(POLLIN ||| POLLRDNORM)
  if handle.mayWrite then events else events &&& ~~~(POLLOUT ||| POLLWRNORM)

def palWaitFlags (events : UInt16) : UInt32 :=
  (if events &&& (POLLIN ||| POLLRDNORM) != 0 then PAL_WAIT_READ else 0) |||
    (if events &&& (POLLOUT ||| POLLWRNORM) != 0 then PAL_WAIT_WRITE else 0)

/-- What the first pass makes of an entry: its final `revents`, or the
events to wait for in the PAL. -/
inductive PollEntry where
  | done (revents : UInt16)
  | pal (palEvents : UInt32)
  deriving DecidableEq, Repr

/-- The first pass on one entry; an error is a callback's failure, which ends
`do_poll`. -/
def pollPrepare (handles : Int → Option PollHandle) (pfd : PollFd) : Except Int PollEntry :=
  if pfd.fd < 0 then .ok (.done 0)
  else
    match handles pfd.fd with
    | none => .ok (.done POLLNVAL)
    | some handle =>
      -- a handle with no PAL handle: an unconnected UNIX socket hangs up
      let viaPal (events : UInt16) : PollEntry :=
        if !handle.hasPalHandle then .done (if handle.isSock then POLLHUP else POLLNVAL)
        else .pal (palWaitFlags events)
      match handle.callback.run (accessEvents handle pfd.events) with
      | none => .ok (viaPal (accessEvents handle pfd.events))
      | some (ret, events) =>
        if ret < 0 ∧ ret ≠ -ENOSYS then .error ret
        else if ret ≠ -ENOSYS then .ok (.done events)
        else .ok (viaPal events)

def PollEntry.write (pfd : PollFd) : PollEntry → PollFd
  | .done revents => { pfd with revents := revents }
  | .pal _ => pfd

@[simp] theorem PollEntry.write_done (pfd : PollFd) (revents : UInt16) :
    (PollEntry.done revents).write pfd = { pfd with revents := revents } := rfl

@[simp] theorem PollEntry.write_pal (pfd : PollFd) (flags : UInt32) : (PollEntry.pal flags).write pfd = pfd := rfl

/-- `ret_events_count++` of the first pass. -/
def PollEntry.counted : PollEntry → Bool
  | .done revents => revents != 0
  | .pal _ => false

/-- The first pass: the array with the settled entries written, and the
entries, or the error of the callback that failed (the entries before it are
written). -/
def pollFirstPass (handles : Int → Option PollHandle) : List PollFd → List PollFd × Except Int (List PollEntry)
  | [] => ([], .ok [])
  | pfd :: fds =>
    match pollPrepare handles pfd with
    | .error e => (pfd :: fds, .error e)
    | .ok entry =>
      let rest := pollFirstPass handles fds
      (entry.write pfd :: rest.1, rest.2.map (entry :: ·))

/-- `revents` from what the PAL reported for a handle. -/
def palRevents (events : UInt16) (ret : UInt32) : UInt16 :=
  (if ret &&& PAL_WAIT_ERROR != 0 then POLLERR else 0) |||
    (if ret &&& PAL_WAIT_HANG_UP != 0 then POLLHUP ||| (events &&& POLLRDHUP) else 0) |||
    (if ret &&& PAL_WAIT_READ != 0 then events &&& (POLLIN ||| POLLRDNORM) else 0) |||
    (if ret &&& PAL_WAIT_WRITE != 0 then events &&& (POLLOUT ||| POLLWRNORM) else 0)

/-- The second pass from position `i`: the entries waited for get their
`revents`, and those that are nonzero are counted. -/
def pollSecondPass (retEvents : Nat → UInt32) : Nat → List (PollFd × PollEntry) → List PollFd × Nat
  | _, [] => ([], 0)
  | i, (pfd, .done _) :: rest =>
    let r := pollSecondPass retEvents (i + 1) rest
    (pfd :: r.1, r.2)
  | i, (pfd, .pal _) :: rest =>
    let revents := palRevents pfd.events (retEvents i)
    let r := pollSecondPass retEvents (i + 1) rest
    ({ pfd with revents := revents } :: r.1, (if revents != 0 then 1 else 0) + r.2)

/-- `poll` and `select` are not restarted after a signal handler. -/
def restartNoHand (ret : Int) : Int :=
  if ret = -EINTR then -ERESTARTNOHAND else ret

/-- `do_poll(fds, fds_len, timeout_us)`. `wait` is what `PalStreamsWaitEvents`
does, its error already an errno (`-EAGAIN` is the timeout), or the events of
each position after `post_poll`. -/
def doPoll (handles : Int → Option PollHandle) (wait : Except Int (Nat → UInt32)) (fds : List PollFd) :
    Int × List PollFd :=
  match pollFirstPass handles fds with
  | (fds, .error e) => (restartNoHand e, fds)
  | (fds, .ok entries) =>
    let count := (entries.filter PollEntry.counted).length
    match wait with
    -- a timeout returns the events already seen
    | .error e => (restartNoHand (if e = -EAGAIN then count else e), fds)
    | .ok retEvents =>
      let second := pollSecondPass retEvents 0 (fds.zip entries)
      (count + second.2, second.1)

/-! ## select -/

/-- A `struct linux_fd_set*` argument: `none` for `NULL`, otherwise its bits. -/
abbrev FdSet := Option (Nat → Bool)

/-- `set && __FD_ISSET(i, set)`. -/
def FdSet.isSet (set : FdSet) (i : Nat) : Bool :=
  match set with
  | none => false
  | some bits => bits i

/-- `__FD_CLR(fd, set)`. -/
def FdSet.clear (set : FdSet) (fd : Nat) : FdSet :=
  set.map fun bits => Function.update bits fd false

def selectEvents (readSet writeSet exceptSet : FdSet) (i : Nat) : UInt16 :=
  (if readSet.isSet i then POLLIN_SET else 0) ||| (if writeSet.isSet i then POLLOUT_SET else 0) |||
    (if exceptSet.isSet i then POLLEX_SET else 0)

/-- The first loop of `do_select`: the descriptors below `nfds` in some set. -/
def selectTotal (nfds : Nat) (readSet writeSet exceptSet : FdSet) : Nat :=
  ((List.range nfds).filter fun i => readSet.isSet i || writeSet.isSet i || exceptSet.isSet i).length

/-- The second loop: a `pollfd` for each descriptor below `nfds` with events. -/
def selectPollFds (nfds : Nat) (readSet writeSet exceptSet : FdSet) : List PollFd :=
  (List.range nfds).filterMap fun i =>
    let events := selectEvents readSet writeSet exceptSet i
    if events = 0 then none else some ⟨i, events, 0⟩

/-- The loop after `do_poll`: an invalid descriptor makes the result
`-EBADF` and keeps its bits; otherwise each bit whose class the descriptor did
not report is cleared. -/
def selectUpdate : List PollFd → Int → FdSet × FdSet × FdSet → Int × FdSet × FdSet × FdSet
  | [], ret, sets => (ret, sets)
  | pfd :: rest, ret, (readSet, writeSet, exceptSet) =>
    if pfd.revents &&& POLLNVAL != 0 then selectUpdate rest (-EBADF) (readSet, writeSet, exceptSet)
    else
      let fd := pfd.fd.toNat
      selectUpdate rest ret
        (if pfd.revents &&& POLLIN_SET = 0 then readSet.clear fd else readSet,
          if pfd.revents &&& POLLOUT_SET = 0 then writeSet.clear fd else writeSet,
          if pfd.revents &&& POLLEX_SET = 0 then exceptSet.clear fd else exceptSet)

/-- `do_select(nfds, read_set, write_set, except_set, timeout_us)`. -/
def doSelect (handles : Int → Option PollHandle) (wait : Except Int (Nat → UInt32)) (nfds : Nat)
    (readSet writeSet exceptSet : FdSet) : Int × FdSet × FdSet × FdSet :=
  let pollFds := selectPollFds nfds readSet writeSet exceptSet
  -- the two loops disagree only if the application changed the sets meanwhile
  if pollFds.length ≠ selectTotal nfds readSet writeSet exceptSet then (-EAGAIN, readSet, writeSet, exceptSet)
  else
    let polled := doPoll handles wait pollFds
    if polled.1 < 0 then (polled.1, readSet, writeSet, exceptSet)
    else selectUpdate polled.2 polled.1 (readSet, writeSet, exceptSet)

attribute [grind] PollCallback.run accessEvents palWaitFlags pollPrepare PollEntry.write PollEntry.counted
  pollFirstPass palRevents pollSecondPass restartNoHand doPoll FdSet.isSet FdSet.clear selectEvents selectTotal
  selectPollFds selectUpdate doSelect

/-! ## What poll reports -/

/-- A pipe open for reading and writing, which the PAL polls. -/
def pipeHandle : PollHandle :=
  ⟨true, true, .noCallback, false, true⟩

/-- A descriptor table holding the pipe at descriptor 0. -/
def pipeAtZero (fd : Int) : Option PollHandle :=
  if fd = 0 then some pipeHandle else none

section Reports

variable {handles : Int → Option PollHandle}

/-- What `poll` may report for an entry: nothing for a negative descriptor,
`POLLNVAL` for one with no handle, and otherwise `POLLNVAL` or some of the
events asked for with `POLLERR` and `POLLHUP`. -/
def ReventsOk (handles : Int → Option PollHandle) (pfd : PollFd) (revents : UInt16) : Prop :=
  (pfd.fd < 0 → revents = 0) ∧ (0 ≤ pfd.fd → handles pfd.fd = none → revents = POLLNVAL) ∧
    (revents = POLLNVAL ∨ Within revents (pfd.events ||| POLLERR ||| POLLHUP))

/-- What the first pass may make of an entry: `revents` as `poll` may report
them, or a wait on the PAL for a descriptor with a handle. -/
def EntryOk (handles : Int → Option PollHandle) (pfd : PollFd) : PollEntry → Prop
  | .done revents => ReventsOk handles pfd revents
  | .pal _ => 0 ≤ pfd.fd ∧ handles pfd.fd ≠ none

theorem accessEvents_within (handle : PollHandle) (events : UInt16) : Within (accessEvents handle events) events := by
  have readable : Within (if handle.mayRead then events else events &&& ~~~(POLLIN ||| POLLRDNORM)) events := by
    split
    · exact within_refl _
    · exact within_and_left _ _
  unfold accessEvents
  dsimp only
  split
  · exact readable
  · exact (within_and_left _ _).trans readable

/-- A callback reports only events it was asked about. -/
theorem PollCallback.run_within {callback : PollCallback} {events out : UInt16} {ret : Int}
    (run : callback.run events = some (ret, out)) : Within out events := by
  cases callback with
  | noCallback => cases run
  | genericInode regular =>
    cases regular with
    | true =>
      simp only [PollCallback.run, ↓reduceIte, Option.some.injEq, Prod.mk.injEq] at run
      rw [← run.2]
      exact within_and_left _ _
    | false =>
      simp only [PollCallback.run, Bool.false_eq_true, ↓reduceIte, Option.some.injEq, Prod.mk.injEq] at run
      rw [← run.2]
      exact within_refl _
  | memFile readable =>
    cases run
    exact within_or (within_and_left _ _) (within_ite (within_and_left _ _))
  | pseudoDev hasRead hasWrite =>
    cases run
    exact within_or (within_ite (within_and_left _ _)) (within_ite (within_and_left _ _))
  | devTty => cases run; exact within_refl _
  | pseudoOther => cases run; exact within_refl _

theorem within_reported {r events : UInt16} (asked : Within r events) : Within r (events ||| POLLERR ||| POLLHUP) :=
  asked.trans ((within_or_left _ _).trans (within_or_left _ _))

theorem palRevents_within (events : UInt16) (ret : UInt32) :
    Within (palRevents events ret) (events ||| POLLERR ||| POLLHUP) := by
  have err : Within POLLERR (events ||| POLLERR ||| POLLHUP) := (within_or_right _ _).trans (within_or_left _ _)
  have hup : Within POLLHUP (events ||| POLLERR ||| POLLHUP) := within_or_right _ _
  unfold palRevents
  refine within_or (within_or (within_or (within_ite err) (within_ite (within_or hup ?_))) ?_) ?_
  · exact within_reported ((within_and_left _ _))
  · exact within_ite (within_reported (within_and_left _ _))
  · exact within_ite (within_reported (within_and_left _ _))

/-- Every entry the first pass settles or hands to the PAL is as `poll` may
report it. -/
theorem pollPrepare_ok {pfd : PollFd} {entry : PollEntry} (prepared : pollPrepare handles pfd = .ok entry) :
    EntryOk handles pfd entry := by
  unfold pollPrepare at prepared
  split at prepared
  · -- a negative descriptor
    rename_i negative
    cases prepared
    exact ⟨fun _ => rfl, fun nonneg => absurd nonneg (by omega), .inr (within_zero _)⟩
  rename_i nonneg
  split at prepared
  · rename_i missing
    cases prepared
    exact ⟨fun negative => absurd negative nonneg, fun _ _ => rfl, .inl rfl⟩
  rename_i handle found
  dsimp only at prepared
  -- the settled answers of a handle that reaches no PAL handle
  have viaPal : ∀ events, EntryOk handles pfd
      (if !handle.hasPalHandle then .done (if handle.isSock then POLLHUP else POLLNVAL)
        else .pal (palWaitFlags events)) := by
    intro events
    split
    · refine ⟨fun negative => absurd negative nonneg, fun _ missing => by simp [found] at missing, ?_⟩
      split
      · exact .inr (within_or_right _ _)
      · exact .inl rfl
    · exact ⟨by omega, by simp [found]⟩
  rcases run : handle.callback.run (accessEvents handle pfd.events) with _ | ⟨ret, events⟩
  · -- no callback: the PAL polls
    rw [run] at prepared
    cases prepared
    exact viaPal _
  rw [run] at prepared
  dsimp only at prepared
  by_cases failed : ret < 0 ∧ ret ≠ -ENOSYS
  · rw [if_pos failed] at prepared
    cases prepared
  rw [if_neg failed] at prepared
  by_cases answered : ret ≠ -ENOSYS
  · -- the callback's answer is final
    rw [if_pos answered] at prepared
    cases prepared
    refine ⟨fun negative => absurd negative nonneg, fun _ missing => by simp [found] at missing, .inr ?_⟩
    exact within_reported ((PollCallback.run_within run).trans (accessEvents_within _ _))
  · rw [if_neg answered] at prepared
    cases prepared
    exact viaPal _

/-- The first pass fails only with a callback's error, which is negative. -/
theorem pollFirstPass_error : ∀ {fds fds₁ : List PollFd} {e : Int},
    pollFirstPass handles fds = (fds₁, .error e) → e < 0
  | [], _, _, pass => by cases pass
  | pfd :: fds, fds₁, e, pass => by
    unfold pollFirstPass at pass
    split at pass
    · rename_i e' prepared
      cases pass
      unfold pollPrepare at prepared
      split at prepared
      · cases prepared
      split at prepared
      · cases prepared
      dsimp only at prepared
      split at prepared
      · cases prepared
      · split_ifs at prepared with failed
        · cases prepared
          exact failed.1
        all_goals cases prepared
    · rename_i entry prepared
      rcases rest : pollFirstPass handles fds with ⟨fds₂, e₂ | entries₂⟩
      · rw [rest] at pass
        cases pass
        exact pollFirstPass_error rest
      · rw [rest] at pass
        cases pass

/-- The first pass writes each entry it settles, and every entry is one `poll`
may report or one handed to the PAL. -/
theorem pollFirstPass_ok : ∀ {fds fds₁ : List PollFd} {entries : List PollEntry},
    pollFirstPass handles fds = (fds₁, .ok entries) →
      List.Forall₂ (EntryOk handles) fds entries ∧ fds₁ = List.zipWith (fun pfd e => e.write pfd) fds entries
  | [], _, _, pass => by
    cases pass
    exact ⟨.nil, rfl⟩
  | pfd :: fds, fds₁, entries, pass => by
    unfold pollFirstPass at pass
    split at pass
    · cases pass
    rename_i entry prepared
    rcases rest : pollFirstPass handles fds with ⟨fds₂, e₂ | entries₂⟩
    · rw [rest] at pass
      cases pass
    rw [rest] at pass
    cases pass
    obtain ⟨all, written⟩ := pollFirstPass_ok rest
    exact ⟨.cons (pollPrepare_ok prepared) all, by rw [written]; rfl⟩

/-- The second pass, on the first pass's output: every entry is reported as
`poll` may report it, and the entries it counts are the nonzero ones the
first pass did not count. -/
theorem pollSecondPass_reports (retEvents : Nat → UInt32) :
    ∀ (i : Nat) {fds : List PollFd} {entries : List PollEntry}, List.Forall₂ (EntryOk handles) fds entries →
      List.Forall₂ (fun pfd pfd' => pfd'.fd = pfd.fd ∧ pfd'.events = pfd.events ∧ ReventsOk handles pfd pfd'.revents)
          fds (pollSecondPass retEvents i ((List.zipWith (fun pfd e => e.write pfd) fds entries).zip entries)).1 ∧
        ((pollSecondPass retEvents i ((List.zipWith (fun pfd e => e.write pfd) fds entries).zip entries)).1.filter
            (·.revents != 0)).length =
          (entries.filter PollEntry.counted).length +
            (pollSecondPass retEvents i ((List.zipWith (fun pfd e => e.write pfd) fds entries).zip entries)).2
  | _, [], [], .nil => ⟨.nil, rfl⟩
  | i, pfd :: fds, entry :: entries, .cons ok rest => by
    obtain ⟨reported, counted⟩ := pollSecondPass_reports retEvents (i + 1) rest
    cases entry with
    | done revents =>
      -- settled by the first pass: written there, counted there
      refine ⟨.cons ⟨rfl, rfl, ok⟩ reported, ?_⟩
      simp only [List.zipWith_cons_cons, List.zip_cons_cons, pollSecondPass, PollEntry.write_done, List.filter_cons,
        PollEntry.counted]
      by_cases nonzero : (revents != 0) = true
      · simp only [nonzero, ↓reduceIte, List.length_cons, counted]
        omega
      · simp only [nonzero, Bool.false_eq_true, ↓reduceIte, counted]
    | pal flags =>
      -- handed to the PAL: written and counted here
      obtain ⟨nonneg, found⟩ := ok
      refine ⟨.cons ⟨rfl, rfl, fun negative => absurd negative (by omega), fun _ missing => absurd missing found,
        .inr (palRevents_within _ _)⟩ reported, ?_⟩
      simp only [List.zipWith_cons_cons, List.zip_cons_cons, pollSecondPass, PollEntry.write_pal, List.filter_cons,
        PollEntry.counted, Bool.false_eq_true, ↓reduceIte]
      by_cases nonzero : (palRevents pfd.events (retEvents i) != 0) = true
      · simp only [nonzero, ↓reduceIte, List.length_cons, counted]
        omega
      · simp only [nonzero, Bool.false_eq_true, ↓reduceIte, counted]
        omega

theorem restartNoHand_neg {e : Int} (negative : e < 0) : restartNoHand e < 0 := by
  unfold restartNoHand ERESTARTNOHAND
  split <;> omega

/-- When the PAL wait returns, `do_poll` reports every entry as `poll` may,
and returns the number of entries with nonzero `revents`. -/
theorem doPoll_reports {retEvents : Nat → UInt32} {fds fds' : List PollFd} {ret : Int}
    (polled : doPoll handles (.ok retEvents) fds = (ret, fds')) (returned : 0 ≤ ret) :
    List.Forall₂ (fun pfd pfd' => pfd'.fd = pfd.fd ∧ pfd'.events = pfd.events ∧ ReventsOk handles pfd pfd'.revents)
        fds fds' ∧
      ret = (fds'.filter (·.revents != 0)).length := by
  unfold doPoll at polled
  rcases first : pollFirstPass handles fds with ⟨fds₁, e | entries⟩
  · rw [first] at polled
    cases polled
    exact absurd returned (Int.not_le.mpr (restartNoHand_neg (pollFirstPass_error first)))
  rw [first] at polled
  obtain ⟨all, rfl⟩ := pollFirstPass_ok first
  obtain ⟨reported, counted⟩ := pollSecondPass_reports retEvents 0 all
  cases polled
  exact ⟨reported, by rw [counted]; push_cast; rfl⟩

theorem doPoll_reports_ready_pipe :
    doPoll pipeAtZero (.ok fun _ => PAL_WAIT_READ) [⟨0, POLLIN, 0⟩] = (1, [⟨0, POLLIN, POLLIN⟩]) ∧
      (1 : Int) = (([⟨0, POLLIN, POLLIN⟩] : List PollFd).filter (·.revents != 0)).length :=
  ⟨rfl, (@doPoll_reports pipeAtZero (fun _ => PAL_WAIT_READ) [⟨0, POLLIN, 0⟩] [⟨0, POLLIN, POLLIN⟩] 1 rfl
    (by decide)).2⟩

end Reports

/-! ## Counts and stale entries -/

/-- A set holding descriptor 0 only. -/
def onlyZero : FdSet :=
  some fun i => i == 0

/-- `select` on descriptor 0 in the read and the write set, ready for both:
it leaves both bits set and returns 1, the number of descriptors, not of
bits. -/
theorem select_counts_descriptors_not_bits :
    (doSelect pipeAtZero (.ok fun _ => PAL_WAIT_READ ||| PAL_WAIT_WRITE) 1 onlyZero onlyZero none).1 = 1 ∧
      (doSelect pipeAtZero (.ok fun _ => PAL_WAIT_READ ||| PAL_WAIT_WRITE) 1 onlyZero onlyZero none).2.1.isSet 0 ∧
      (doSelect pipeAtZero (.ok fun _ => PAL_WAIT_READ ||| PAL_WAIT_WRITE) 1 onlyZero onlyZero none).2.2.1.isSet 0 := by
  decide

/-- A `poll` that times out leaves the `revents` of the entries it waited for
as the caller passed them: a stale `POLLIN` stays, beside a result of 0. -/
theorem poll_timeout_keeps_stale_revents :
    doPoll pipeAtZero (.error (-EAGAIN)) [⟨0, POLLIN, POLLIN⟩] = (0, [⟨0, POLLIN, POLLIN⟩]) := by
  decide

end Gramine.LibOS.Poll
