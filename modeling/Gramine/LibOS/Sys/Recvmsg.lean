import Gramine.Common.Errno
import Gramine.Library.ChunkedStream
/-!
# Receiving from a stream socket

`do_recvmsg` of `libos_socket.c` serves a receive from one of three places.
A `MSG_PEEK` receive on a stream socket first tops up `sock->peek`, growing
the buffer to the request's size and receiving into its free room (without
blocking once it holds data), then copies from it and keeps it. A receive
that is not a peek copies from the peek buffer while it holds anything and
drops what it copied; otherwise it receives from the host straight into the
caller's iovecs, and only this path rewrites the flags word, which
`libos_syscall_recvmsg` copies into `msg_flags`.

The host's side of the socket is a `ChunkedStream.Host`: each receive gets
some of the pending bytes, a retry (`-EAGAIN`), or nothing once the peer has
closed the stream; a receive that would block, on a blocking call, is `none`.
The bytes the socket holds for the caller are the peek buffer followed by the
host's pending bytes; every call is a faithful read of them
(`doRecvmsg_faithful`), and so is every run of calls (`recvCalls_reads`),
which returns whenever its calls pass `MSG_DONTWAIT` (`recvCalls_isSome`).
-/

namespace Gramine.LibOS.Socket

open ChunkedStream

variable {β : Type}

def MSG_PEEK : UInt32 := 0x02
def MSG_TRUNC : UInt32 := 0x20
def MSG_DONTWAIT : UInt32 := 0x40

/-- `WITHIN_MASK(val, mask)`. -/
def withinMask (val mask : UInt32) : Bool :=
  (val ||| mask) == mask

/-- `sock->peek`: the bytes received and not yet consumed, and the size of the
buffer holding them. -/
structure PeekBuffer (β : Type) where
  data : List β
  bufSize : Nat

/-- The receiving side of a stream socket: whether it is still connecting,
`sock->last_error`, the peek buffer, and the host's side. -/
structure RecvSocket (β : Type) where
  connecting : Bool
  lastError : Nat
  peek : PeekBuffer β
  host : Host β

/-- The bytes the socket still holds for the caller. -/
def RecvSocket.unread (s : RecvSocket β) : List β :=
  s.peek.data ++ s.host.pending

/-- What a call returns: its return value, the bytes it wrote into each
iovec, and the flags word after it. -/
structure RecvResult (β : Type) where
  ret : Int
  written : List (List β)
  flags : UInt32

/-- Copying `data` into iovecs of lengths `lens`: each iovec takes what is
left, up to its length. -/
def scatter : List Nat → List β → List (List β)
  | [], _ => []
  | len :: lens, data => data.take len :: scatter lens (data.drop len)

/-- The `MSG_PEEK` top-up: when the buffer holds less than `totalSize`, grow
it to `totalSize` (`malloc` is taken to succeed) and receive into its free
room, without blocking if it holds data. `-EAGAIN` with data buffered is not
an error. -/
def fillPeekBuffer (s : RecvSocket β) (totalSize : Nat) (forceNonblocking : Bool) :
    Option (Int × RecvSocket β) :=
  if totalSize ≤ s.peek.data.length then some (0, s)
  else
    let bufSize := if s.peek.bufSize < totalSize then totalSize else s.peek.bufSize
    let peek := { s.peek with bufSize := bufSize }
    match s.host.tryRead (bufSize - peek.data.length) (forceNonblocking || !peek.data.isEmpty) with
    | none => none
    | some (.again, h) =>
      some (if peek.data.isEmpty then -EAGAIN else 0, { s with peek := peek, host := h })
    | some (.data elements, h) => some (0, { s with peek := { peek with data := peek.data ++ elements }, host := h })

/-- The copy loop from the peek buffer; a receive that is not a peek drops
what it copied (the `memmove`). -/
def copyFromPeekBuffer (s : RecvSocket β) (iov : List Nat) (flags : UInt32) (peek : Bool) :
    RecvResult β × RecvSocket β :=
  let size := min s.peek.data.length iov.sum
  (⟨size, scatter iov s.peek.data, flags⟩,
    if peek then s else { s with peek := { s.peek with data := s.peek.data.drop size } })

/-- `sock->ops->recv` straight into the iovecs, and the flags rewritten. -/
def recvDirect (s : RecvSocket β) (iov : List Nat) (flags : UInt32) (forceNonblocking : Bool) :
    Option (RecvResult β × RecvSocket β) :=
  let totalSize := iov.sum
  match s.host.tryRead totalSize forceNonblocking with
  | none => none
  | some (.again, h) => some (⟨-EAGAIN, scatter iov [], flags⟩, { s with host := h })
  | some (.data elements, h) =>
    let size := elements.length
    some (⟨if flags &&& MSG_TRUNC != 0 then size else min size totalSize, scatter iov elements,
      if size > totalSize then MSG_TRUNC else 0⟩, { s with host := h })

/-- `do_recvmsg(handle, iov, iov_len, ..., &flags, emulate_recv_error_semantics)`
on a stream socket. -/
def doRecvmsg (s : RecvSocket β) (iov : List Nat) (flags : UInt32) (emulateRecvErrorSemantics : Bool) :
    Option (RecvResult β × RecvSocket β) :=
  let fail (ret : Int) (s : RecvSocket β) : Option (RecvResult β × RecvSocket β) :=
    some (⟨ret, scatter iov [], flags⟩, s)
  if !withinMask flags (MSG_PEEK ||| MSG_DONTWAIT ||| MSG_TRUNC) then fail (-EOPNOTSUPP) s
  else if s.connecting then fail (-EAGAIN) s
  -- `ret = -last_error; last_error = 0`
  else if s.lastError ≠ 0 then fail (-s.lastError) { s with lastError := 0 }
  else
    let forceNonblocking := flags &&& MSG_DONTWAIT != 0
    let totalSize := iov.sum
    if totalSize = 0 ∧ !emulateRecvErrorSemantics then fail 0 s
    else if flags &&& MSG_PEEK != 0 then
      match fillPeekBuffer s totalSize forceNonblocking with
      | none => none
      | some (ret, s) =>
        if ret < 0 ∨ s.peek.data = [] then fail ret s
        else some (copyFromPeekBuffer s iov flags true)
    else if s.peek.data ≠ [] then some (copyFromPeekBuffer s iov flags false)
    else recvDirect s iov flags forceNonblocking

/-- `libos_syscall_recvmsg`: `do_recvmsg` on the message's iovecs, then
`msg->msg_flags = flags` when it succeeded. -/
def syscallRecvmsg (s : RecvSocket β) (iov : List Nat) (flags : UInt32) :
    Option (Int × List (List β) × Option UInt32 × RecvSocket β) :=
  (doRecvmsg s iov flags true).map fun (r, s) => (r.ret, r.written, if 0 ≤ r.ret then some r.flags else none, s)

/-- One call of `do_recvmsg`. -/
structure RecvCall where
  iov : List Nat
  flags : UInt32
  emulateRecvErrorSemantics : Bool

def RecvCall.peek (call : RecvCall) : Bool :=
  call.flags &&& MSG_PEEK != 0

/-- Calls one after another; `none` when one blocks. -/
def recvCalls : List RecvCall → RecvSocket β → Option (List (RecvResult β) × RecvSocket β)
  | [], s => some ([], s)
  | call :: calls, s =>
    match doRecvmsg s call.iov call.flags call.emulateRecvErrorSemantics with
    | none => none
    | some (r, s) =>
      match recvCalls calls s with
      | none => none
      | some (rs, s) => some (r :: rs, s)

attribute [grind] withinMask RecvSocket.unread scatter fillPeekBuffer copyFromPeekBuffer recvDirect doRecvmsg
  syscallRecvmsg RecvCall.peek recvCalls

/-! ## Scattering over iovecs -/

section Scatter

/-- The iovecs receive the front of the data, as much as they hold in all. -/
theorem flatten_scatter : ∀ (lens : List Nat) (data : List β), (scatter lens data).flatten = data.take lens.sum
  | [], _ => by simp [scatter]
  | len :: lens, data => by
    rw [scatter, List.flatten_cons, flatten_scatter lens, List.sum_cons, List.take_add]

/-- What lies beyond the iovecs' total length reaches none of them. -/
theorem scatter_take_sum : ∀ (lens : List Nat) (data : List β), scatter lens (data.take lens.sum) = scatter lens data
  | [], _ => rfl
  | len :: lens, data => by
    have kept : (data.take (len + lens.sum)).take len = data.take len := by
      rw [List.take_take, Nat.min_eq_left (Nat.le_add_right _ _)]
    have rest : (data.take (len + lens.sum)).drop len = (data.drop len).take lens.sum := by
      rw [List.drop_take, Nat.add_sub_cancel_left]
    rw [scatter, scatter, List.sum_cons, kept, rest, scatter_take_sum lens]

/-- The iovecs are filled in order: what they received, put back together
and scattered again, is what they received. -/
theorem scatter_flatten_scatter (lens : List Nat) (data : List β) :
    scatter lens (scatter lens data).flatten = scatter lens data := by
  rw [flatten_scatter, scatter_take_sum]

end Scatter

/-! ## One call -/

section Call

variable {s s' : RecvSocket β} {iov : List Nat} {flags : UInt32} {r : RecvResult β}

/-- A call that reads faithfully: it returns the front of what the socket
held for the caller and consumes it unless it peeked, it fills the iovecs in
order, and it returns the number of bytes it wrote, or an error having
written none. -/
structure RecvResult.Faithful (r : RecvResult β) (s s' : RecvSocket β) (iov : List Nat) (peek : Bool) :
    Prop where
  front : r.written.flatten <+: s.unread
  unread : s'.unread = if peek then s.unread else s.unread.drop r.written.flatten.length
  inOrder : r.written = scatter iov r.written.flatten
  counted : 0 ≤ r.ret → r.ret = r.written.flatten.length
  failed : r.ret < 0 → r.written.flatten = []

/-- A call that writes nothing and leaves the bytes where they were. -/
theorem faithful_fail {peek : Bool} {ret : Int} (nonpos : ret ≤ 0) (same : s'.unread = s.unread) :
    RecvResult.Faithful ⟨ret, scatter iov [], flags⟩ s s' iov peek := by
  have empty : (scatter iov ([] : List β)).flatten = [] := by simp [flatten_scatter]
  refine ⟨by simp [empty], ?_, by rw [empty], fun nonneg => ?_, fun _ => empty⟩
  · rw [same, empty]
    split <;> rfl
  · dsimp only at nonneg ⊢
    rw [empty, List.length_nil]
    omega

/-- The top-up leaves the bytes held for the caller as they were, fails with
nothing but a retry, and keeps the data within the buffer: the source's
assertion that the host wrote no more than the free room. -/
theorem fillPeekBuffer_spec {totalSize : Nat} {nonblocking : Bool} {ret : Int}
    (fill : fillPeekBuffer s totalSize nonblocking = some (ret, s')) :
    s'.unread = s.unread ∧ ret ≤ 0 ∧
      (s.peek.data.length ≤ s.peek.bufSize → s'.peek.data.length ≤ s'.peek.bufSize) := by
  unfold fillPeekBuffer at fill
  by_cases enough : totalSize ≤ s.peek.data.length
  · rw [if_pos enough] at fill
    cases fill
    exact ⟨rfl, Int.le_refl _, id⟩
  rw [if_neg enough] at fill
  dsimp only at fill
  -- the buffer, grown to the request if it was smaller, has room
  generalize grown : (if s.peek.bufSize < totalSize then totalSize else s.peek.bufSize) = bufSize at fill
  have room : s.peek.data.length < bufSize := by
    rw [← grown]
    split <;> omega
  split at fill
  · cases fill
  · -- a retry: nothing moved
    rename_i h read
    obtain ⟨stream, -, -⟩ := Host.tryRead_spec read
    cases fill
    refine ⟨by simp only [RecvSocket.unread, ← stream, Outcome.elements, List.nil_append], ?_, fun _ => ?_⟩
    · unfold EAGAIN
      split <;> omega
    · exact Nat.le_of_lt room
  · -- the bytes received go behind the buffered ones
    rename_i elements h read
    obtain ⟨stream, -, asked⟩ := Host.tryRead_spec read
    cases fill
    simp only [Outcome.elements] at stream asked
    refine ⟨by simp only [RecvSocket.unread, ← stream, List.append_assoc], Int.le_refl _, fun _ => ?_⟩
    simp only [List.length_append]
    omega

theorem fillPeekBuffer_isSome {totalSize : Nat} {nonblocking : Bool}
    (ready : nonblocking = true ∨ s.host.pending ≠ [] ∨ s.host.closed = true) :
    (fillPeekBuffer s totalSize nonblocking).isSome := by
  unfold fillPeekBuffer
  by_cases enough : totalSize ≤ s.peek.data.length
  · rw [if_pos enough]
    rfl
  rw [if_neg enough]
  dsimp only
  generalize (if s.peek.bufSize < totalSize then totalSize else s.peek.bufSize) = bufSize
  have read : (s.host.tryRead (bufSize - s.peek.data.length) (nonblocking || !s.peek.data.isEmpty)).isSome :=
    Host.tryRead_isSome (by rcases ready with nonblocking | ready <;> simp_all)
  obtain ⟨⟨o, h⟩, returned⟩ := Option.isSome_iff_exists.mp read
  rw [returned]
  cases o <;> rfl

theorem copyFromPeekBuffer_faithful (peek : Bool) :
    (copyFromPeekBuffer s iov flags peek).1.Faithful s (copyFromPeekBuffer s iov flags peek).2 iov peek := by
  have written : (scatter iov s.peek.data).flatten = s.peek.data.take iov.sum := flatten_scatter _ _
  have size : (s.peek.data.take iov.sum).length = min s.peek.data.length iov.sum := by
    rw [List.length_take, Nat.min_comm]
  refine ⟨?_, ?_, (scatter_flatten_scatter _ _).symm, fun _ => ?_, fun negative => ?_⟩
  · show (scatter iov s.peek.data).flatten <+: s.unread
    rw [written]
    exact (List.take_prefix _ _).trans (List.prefix_append _ _)
  · cases peek with
    | true => rfl
    | false =>
      simp only [copyFromPeekBuffer, RecvSocket.unread, written, size, Bool.false_eq_true, ↓reduceIte]
      rw [List.drop_append_of_le_length (Nat.min_le_left _ _)]
  · simp only [copyFromPeekBuffer, written, size]
  · simp only [copyFromPeekBuffer] at negative
    omega

/-- A receive straight from the host, made when the peek buffer is empty. -/
theorem recvDirect_faithful {nonblocking : Bool} (empty : s.peek.data = [])
    (call : recvDirect s iov flags nonblocking = some (r, s')) : r.Faithful s s' iov false := by
  unfold recvDirect at call
  dsimp only at call
  split at call
  · cases call
  · cases call
    rename_i h read
    obtain ⟨stream, -, -⟩ := Host.tryRead_spec read
    refine faithful_fail (by unfold EAGAIN; omega) ?_
    simp only [RecvSocket.unread, ← stream, Outcome.elements, List.nil_append]
  · cases call
    rename_i elements h read
    obtain ⟨stream, -, asked⟩ := Host.tryRead_spec read
    simp only [Outcome.elements] at stream asked
    have written : (scatter iov elements).flatten = elements := by
      rw [flatten_scatter, List.take_of_length_le asked]
    refine ⟨?_, ?_, (scatter_flatten_scatter _ _).symm, fun _ => ?_, fun negative => ?_⟩
    · simp only [written, RecvSocket.unread, empty, ← stream, List.nil_append]
      exact List.prefix_append _ _
    · simp [written, RecvSocket.unread, empty, ← stream]
    · simp only [written]
      split <;> omega
    · simp only at negative
      split at negative <;> omega

/-- Every call of `do_recvmsg` reads the socket faithfully. -/
theorem doRecvmsg_faithful {emulate : Bool} (call : doRecvmsg s iov flags emulate = some (r, s')) :
    r.Faithful s s' iov (flags &&& MSG_PEEK != 0) := by
  unfold doRecvmsg at call
  dsimp only at call
  -- the early returns: bad flags, connecting, a pending error, an empty read
  split_ifs at call with badFlags connecting lastError empty peek buffered
  · cases call
    exact faithful_fail (by unfold EOPNOTSUPP; omega) rfl
  · cases call
    exact faithful_fail (by unfold EAGAIN; omega) rfl
  · cases call
    exact faithful_fail (by omega) rfl
  · cases call
    exact faithful_fail (Int.le_refl _) rfl
  · -- a peek: top up the buffer, then copy from it
    split at call
    · cases call
    rename_i ret s₁ fill
    obtain ⟨same, nonpos, -⟩ := fillPeekBuffer_spec fill
    split_ifs at call with nothing
    · cases call
      exact faithful_fail nonpos same
    · cases call
      have copied : (copyFromPeekBuffer s₁ iov flags true).1.Faithful s₁ (copyFromPeekBuffer s₁ iov flags true).2 iov
          true := copyFromPeekBuffer_faithful true
      rw [peek]
      refine ⟨same ▸ copied.front, ?_, copied.inOrder, copied.counted, copied.failed⟩
      rw [if_pos rfl, if_pos rfl]
      exact same
  · cases call
    rw [Bool.not_eq_true] at peek
    rw [peek]
    exact copyFromPeekBuffer_faithful false
  · rw [Bool.not_eq_true] at peek
    rw [peek]
    exact recvDirect_faithful (not_not.mp buffered) call

/-- A call returns unless it must wait for the peer: it passes
`MSG_DONTWAIT`, or the host holds bytes, or the peer has closed the stream. -/
theorem doRecvmsg_isSome {emulate : Bool}
    (ready : (flags &&& MSG_DONTWAIT != 0) = true ∨ s.host.pending ≠ [] ∨ s.host.closed = true) :
    (doRecvmsg s iov flags emulate).isSome := by
  unfold doRecvmsg
  dsimp only
  split_ifs with badFlags connecting lastError empty peek buffered
  -- the early returns, and the copy from a buffer holding data
  any_goals rfl
  · -- a peek tops up the buffer, which returns
    have topUp : (fillPeekBuffer s iov.sum (flags &&& MSG_DONTWAIT != 0)).isSome := fillPeekBuffer_isSome ready
    obtain ⟨⟨ret, s₁⟩, topped⟩ := Option.isSome_iff_exists.mp topUp
    rw [topped]
    dsimp only
    split_ifs <;> rfl
  · -- an empty buffer: the host serves the call
    unfold recvDirect
    have read : (s.host.tryRead iov.sum (flags &&& MSG_DONTWAIT != 0)).isSome := Host.tryRead_isSome ready
    obtain ⟨⟨o, h⟩, returned⟩ := Option.isSome_iff_exists.mp read
    dsimp only
    rw [returned]
    cases o <;> rfl

/-- Only the receive straight from the host rewrites the flags word: a call
served from the peek buffer, or one that fails before, hands back the flags it
was passed. -/
theorem doRecvmsg_flags_of_peek_buffer {emulate : Bool}
    (fromBuffer : (flags &&& MSG_PEEK != 0) = true ∨ s.peek.data ≠ [])
    (call : doRecvmsg s iov flags emulate = some (r, s')) : r.flags = flags := by
  unfold doRecvmsg at call
  dsimp only at call
  split_ifs at call with badFlags connecting lastError empty peek buffered
  · cases call; rfl
  · cases call; rfl
  · cases call; rfl
  · cases call; rfl
  · -- a peek copies from the buffer, or returns before
    split at call
    · cases call
    split_ifs at call <;> (cases call; rfl)
  · cases call; rfl
  · -- the only call the host serves directly reads an empty buffer
    exact absurd (fromBuffer.resolve_left peek) buffered

/-- On a stream the host never returns more than asked, so the receive
straight from the host clears the flags word. -/
theorem recvDirect_flags {nonblocking : Bool} (call : recvDirect s iov flags nonblocking = some (r, s'))
    (ok : 0 ≤ r.ret) : r.flags = 0 := by
  unfold recvDirect at call
  dsimp only at call
  split at call
  · cases call
  · cases call
    simp only at ok
    unfold EAGAIN at ok
    omega
  · cases call
    rename_i elements h read
    have asked := (Host.tryRead_spec read).2.2
    simp only [Outcome.elements] at asked
    simp only [gt_iff_lt, Nat.not_lt.mpr asked, ↓reduceIte]

/-- `recvmsg` served from the peek buffer reports in `msg_flags` the flags the
caller passed, `MSG_PEEK` among them. -/
theorem recvmsg_reports_flags_from_peek_buffer (s : RecvSocket β) (iov : List Nat) (flags : UInt32)
    (fromBuffer : (flags &&& MSG_PEEK != 0) = true ∨ s.peek.data ≠ []) {ret : Int} {written : List (List β)}
    {msgFlags : UInt32} (call : syscallRecvmsg s iov flags = some (ret, written, some msgFlags, s')) :
    msgFlags = flags := by
  unfold syscallRecvmsg at call
  obtain ⟨⟨r, s₁⟩, done, result⟩ := Option.map_eq_some_iff.mp call
  simp only [Prod.mk.injEq] at result
  obtain ⟨-, -, reported, -⟩ := result
  rw [doRecvmsg_flags_of_peek_buffer fromBuffer done] at reported
  split at reported
  · exact (Option.some.inj reported).symm
  · cases reported

/-- A socket whose host holds two bytes. -/
def twoPending : RecvSocket Nat :=
  ⟨false, 0, ⟨[], 0⟩, ⟨[1, 2], false, []⟩⟩

theorem recvmsg_peek_of_two_bytes_reports_peek :
    ∃ s', syscallRecvmsg twoPending [3] MSG_PEEK = some (2, [[1, 2]], some MSG_PEEK, s') ∧ MSG_PEEK = MSG_PEEK :=
  ⟨_, rfl, recvmsg_reports_flags_from_peek_buffer twoPending [3] MSG_PEEK (.inl (by decide)) rfl⟩

end Call

/-! ## Runs of calls -/

section Run

/-- The calls of a run and their results, as reads of the stream: whether
each peeked, and what it wrote. -/
def reads (calls : List RecvCall) (rs : List (RecvResult β)) : List (Bool × List β) :=
  List.zipWith (fun call r => (call.peek, r.written.flatten)) calls rs

/-- Every run of calls reads the socket faithfully, and each call fills its
iovecs in order and returns what it wrote. -/
theorem recvCalls_reads : ∀ {calls : List RecvCall} {s s' : RecvSocket β} {rs : List (RecvResult β)},
    recvCalls calls s = some (rs, s') →
      ReadsOf s.unread (reads calls rs) s'.unread ∧
        ∀ call r, (call, r) ∈ calls.zip rs →
          r.written = scatter call.iov r.written.flatten ∧ (0 ≤ r.ret → r.ret = r.written.flatten.length)
  | [], s, s', rs, run => by
    cases run
    exact ⟨.nil _, by simp⟩
  | call :: calls, s, s', rs, run => by
    unfold recvCalls at run
    split at run
    · cases run
    rename_i r s₁ first
    split at run
    · cases run
    rename_i rs₁ s₂ rest
    cases run
    have faithful := doRecvmsg_faithful first
    obtain ⟨later, each⟩ := recvCalls_reads rest
    refine ⟨.cons faithful.front (faithful.unread ▸ later), fun call' r' mem => ?_⟩
    rcases List.mem_cons.mp mem with here | there
    · cases here
      exact ⟨faithful.inOrder, faithful.counted⟩
    · exact each call' r' there

/-- A run of calls that all pass `MSG_DONTWAIT` returns. -/
theorem recvCalls_isSome : ∀ {calls : List RecvCall} {s : RecvSocket β},
    (∀ call ∈ calls, (call.flags &&& MSG_DONTWAIT != 0) = true) → (recvCalls calls s).isSome
  | [], _, _ => rfl
  | call :: calls, s, dontWait => by
    have first : (doRecvmsg s call.iov call.flags call.emulateRecvErrorSemantics).isSome :=
      doRecvmsg_isSome (.inl (dontWait call List.mem_cons_self))
    obtain ⟨⟨r, s₁⟩, done⟩ := Option.isSome_iff_exists.mp first
    have rest := recvCalls_isSome (s := s₁) fun call' mem => dontWait call' (List.mem_cons_of_mem _ mem)
    obtain ⟨⟨rs, s₂⟩, ran⟩ := Option.isSome_iff_exists.mp rest
    simp only [recvCalls, done, ran, Option.isSome_some]

/-- What a run of receives returns: the receives that are not peeks return the
stream, in order, with nothing lost or repeated; each peek returns the front of
what the receives after it return; and each call fills its iovecs in order and
returns the number of bytes it wrote. -/
theorem recvCalls_lose_nothing {calls : List RecvCall} {s s' : RecvSocket β} {rs : List (RecvResult β)}
    (run : recvCalls calls s = some (rs, s')) :
    consumed (reads calls rs) ++ s'.unread = s.unread ∧
      (∀ pre post r, reads calls rs = pre ++ (true, r) :: post → r <+: consumed post ++ s'.unread) ∧
      ∀ call r, (call, r) ∈ calls.zip rs →
        r.written = scatter call.iov r.written.flatten ∧ (0 ≤ r.ret → r.ret = r.written.flatten.length) := by
  obtain ⟨faithful, each⟩ := recvCalls_reads run
  refine ⟨faithful.consumed_append_unread, fun pre post r split => ?_, each⟩
  rw [split] at faithful
  exact faithful.peek_prefix

/-- A peek of three bytes, then a receive into iovecs of one and four. -/
def peekThenReceive : List RecvCall :=
  [⟨[3], MSG_PEEK, true⟩, ⟨[1, 4], 0, true⟩]

theorem recvCalls_lose_nothing_after_peek :
    ∃ rs s', recvCalls peekThenReceive twoPending = some (rs, s') ∧ rs.map (·.ret) = [2, 2] ∧
      consumed (reads peekThenReceive rs) ++ s'.unread = twoPending.unread :=
  ⟨_, _, rfl, rfl, (recvCalls_lose_nothing rfl).1⟩

end Run

end Gramine.LibOS.Socket
