import Gramine.Common.Errno
import Gramine.Library.ChunkedStream
import Gramine.Library.LittleEndian
/-!
# Receiving IPC messages

A LibOS process writes each IPC message to a connection with one
`write_exact` of `struct ipc_msg_header` (`size`, `seq`, `code`, packed,
little-endian) and the payload; `size` counts both. The IPC worker polls the
connection and, whenever it is readable, calls `receive_ipc_messages`, which
reads ahead into a stack buffer of a header and `READAHEAD_SIZE` more bytes,
carves whole messages out of it, and reads the rest of a longer one with
`read_exact`. Each message goes to the callback its code selects.

`PalStreamRead` is the host of `ChunkedStream`: any non-empty part of what is
pending, up to what is asked, or a retry. The worker hands every message of the
stream to a callback once and in order, and ends with 1 when the stream closes
at a message boundary and with `-ENODATA` when it closes inside a message, in
its header or in its payload (`ipcWorker_receives_every_message`). `malloc`
of the payload is taken to succeed, and the log lines are left out.
-/

namespace Gramine.LibOS.Ipc

open ChunkedStream

/-- `sizeof(struct ipc_msg_header)`: `size` and `seq` of eight bytes and
`code` of one, packed. -/
def IPC_MSG_HEADER_SIZE : Nat := 17

/-- `sizeof(buf)` in `receive_ipc_messages`: a header and `READAHEAD_SIZE`,
which is `0x40` and a header. -/
def IPC_RECV_BUF_SIZE : Nat := IPC_MSG_HEADER_SIZE + (0x40 + IPC_MSG_HEADER_SIZE)

/-- What the callback of a message is handed: the code that selects it, the
sequence number and the payload. -/
structure IpcDelivery where
  code : UInt8
  seq : UInt64
  data : List UInt8
  deriving DecidableEq, Repr

/-- `GET_UNALIGNED(buf.msg_header.size)`. -/
def headerSize (buf : List UInt8) : Nat :=
  LittleEndian.value (buf.take 8)

/-- `GET_UNALIGNED(buf.msg_header.seq)`. -/
def headerSeq (buf : List UInt8) : UInt64 :=
  UInt64.ofNat (LittleEndian.value ((buf.drop 8).take 8))

/-- `GET_UNALIGNED(buf.msg_header.code)`. -/
def headerCode (buf : List UInt8) : UInt8 :=
  buf.getD 16 0

/-- `read_exact(handle, buf, size)` of `libos_utils.c`: `-ENODATA` when the
stream ends first. -/
def readExact (fuel : Nat) (h : Host UInt8) (size : Nat) : Option (Int × List UInt8 × Host UInt8) :=
  match fill size size fuel [] h with
  | none => none
  | some (.full, got, h) => some (0, got, h)
  | some (.closed, got, h) => some (-ENODATA, got, h)

/-- How one pass of the loop of `receive_ipc_messages` ends: the call returns,
or a message went to its callback with `buf` left buffered. -/
inductive IpcPass where
  | returned (ret : Int)
  | handled (delivery : IpcDelivery) (buf : List UInt8)

/-- One pass of the do-while loop of `receive_ipc_messages`, with `buf`
holding the `size` buffered bytes. -/
def ipcReceivePass (fuel : Nat) (buf : List UInt8) (h : Host UInt8) : Option (IpcPass × Host UInt8) :=
  -- receive at least the message header
  match fill IPC_MSG_HEADER_SIZE IPC_RECV_BUF_SIZE fuel buf h with
  | none => none
  | some (.closed, buf, h) =>
    -- EOF on a message boundary, or the remote closed early
    some (.returned (if buf.isEmpty then 1 else -ENODATA), h)
  | some (.full, buf, h) =>
    let msgSize := headerSize buf
    -- assert(msg_size >= sizeof(struct ipc_msg_header))
    if msgSize < IPC_MSG_HEADER_SIZE then none
    else
      let dataSize := msgSize - IPC_MSG_HEADER_SIZE
      let code := headerCode buf
      let seq := headerSeq buf
      if msgSize ≤ buf.length then
        -- the whole message is buffered, and possibly part of the next one
        some (.handled ⟨code, seq, (buf.drop IPC_MSG_HEADER_SIZE).take dataSize⟩ (buf.drop msgSize), h)
      else
        let current := buf.drop IPC_MSG_HEADER_SIZE
        match readExact fuel h (dataSize - current.length) with
        | none => none
        | some (ret, got, h) =>
          if ret < 0 then some (.returned ret, h)
          else some (.handled ⟨code, seq, current ++ got⟩ [], h)

/-- `receive_ipc_messages(conn)`: what it returns and the messages it hands to
callbacks. It loops while bytes stay buffered. -/
def receiveIpcMessages (fuel : Nat) (buf : List UInt8) (h : Host UInt8) :
    Option (Int × List IpcDelivery × Host UInt8) :=
  match fuel with
  | 0 => none
  | more + 1 =>
    match ipcReceivePass fuel buf h with
    | none => none
    | some (.returned ret, h) => some (ret, [], h)
    | some (.handled delivery buf, h) =>
      if buf.isEmpty then some (0, [delivery], h)
      else (receiveIpcMessages more buf h).map fun (ret, delivered, h) => (ret, delivery :: delivered, h)

/-- The calls `ipc_worker_main` makes on one connection: while the handle polls
readable (bytes pending, or the peer closed) it calls `receive_ipc_messages`
with an empty buffer, and drops the connection once a call returns other than
0. The result is the last call's return, 0 when the worker is left waiting. -/
def ipcWorkerReceive (fuel : Nat) : Nat → Host UInt8 → Option (Int × List IpcDelivery)
  | 0, _ => none
  | calls + 1, h =>
    if h.pending.isEmpty ∧ h.closed = false then some (0, [])
    else
      match receiveIpcMessages fuel [] h with
      | none => none
      | some (ret, delivered, h) =>
        if ret = 0 then (ipcWorkerReceive fuel calls h).map fun (ret, more) => (ret, delivered ++ more)
        else some (ret, delivered)

attribute [grind] headerSize headerSeq headerCode readExact ipcReceivePass receiveIpcMessages

/-! ## The messages a peer sends -/

/-- A message as `ipc_send_message_to_conn` writes it: `size` must fit its
eight bytes. -/
structure IpcMessage where
  code : UInt8
  seq : UInt64
  payload : List UInt8
  fits : IPC_MSG_HEADER_SIZE + payload.length < 2 ^ 64

/-- `get_ipc_msg_size(payload)`. -/
def IpcMessage.size (m : IpcMessage) : Nat :=
  IPC_MSG_HEADER_SIZE + m.payload.length

/-- The header `init_ipc_msg` (and `init_ipc_response`) fills in, as bytes. -/
def IpcMessage.header (m : IpcMessage) : List UInt8 :=
  LittleEndian.bytes 8 m.size ++ LittleEndian.bytes 8 m.seq.toNat ++ [m.code]

def IpcMessage.encode (m : IpcMessage) : List UInt8 :=
  m.header ++ m.payload

def IpcMessage.delivery (m : IpcMessage) : IpcDelivery :=
  ⟨m.code, m.seq, m.payload⟩

/-- The bytes of messages sent one after another. -/
def encodeAll (ms : List IpcMessage) : List UInt8 :=
  ms.flatMap IpcMessage.encode

attribute [grind] IpcMessage.size IpcMessage.header IpcMessage.encode encodeAll

section Header

variable (m : IpcMessage)

@[simp] theorem IpcMessage.length_header : m.header.length = IPC_MSG_HEADER_SIZE := by
  simp [IpcMessage.header, IPC_MSG_HEADER_SIZE]

theorem IpcMessage.length_encode : m.encode.length = m.size := by
  simp [IpcMessage.encode, IpcMessage.size]

theorem IpcMessage.header_le_size : IPC_MSG_HEADER_SIZE ≤ m.size :=
  Nat.le_add_right _ _

/-- The fields `receive_ipc_messages` reads lie in the first
`IPC_MSG_HEADER_SIZE` bytes. -/
theorem header_fields_take (buf : List UInt8) :
    headerSize (buf.take IPC_MSG_HEADER_SIZE) = headerSize buf ∧
      headerSeq (buf.take IPC_MSG_HEADER_SIZE) = headerSeq buf ∧
      headerCode (buf.take IPC_MSG_HEADER_SIZE) = headerCode buf := by
  refine ⟨?_, ?_, ?_⟩
  · simp [headerSize, List.take_take, IPC_MSG_HEADER_SIZE]
  · simp [headerSeq, List.drop_take, List.take_take, IPC_MSG_HEADER_SIZE]
  · simp [headerCode, IPC_MSG_HEADER_SIZE, List.getD_eq_getElem?_getD]

theorem header_fields_header :
    headerSize m.header = m.size ∧ headerSeq m.header = m.seq ∧ headerCode m.header = m.code := by
  have fits : m.size < 256 ^ 8 := m.fits
  have seqFits : m.seq.toNat < 256 ^ 8 := m.seq.toNat_lt
  refine ⟨?_, ?_, ?_⟩
  · simp [headerSize, IpcMessage.header, LittleEndian.value_bytes_of_lt fits]
  · simp [headerSeq, IpcMessage.header, LittleEndian.value_bytes_of_lt seqFits]
  · simp [headerCode, IpcMessage.header, List.getD_eq_getElem?_getD]

/-- A buffer that begins with a message's header reads that message's
fields. -/
theorem header_fields {buf : List UInt8} (front : buf.take IPC_MSG_HEADER_SIZE = m.header) :
    headerSize buf = m.size ∧ headerSeq buf = m.seq ∧ headerCode buf = m.code := by
  obtain ⟨size, seq, code⟩ := header_fields_take buf
  obtain ⟨size', seq', code'⟩ := header_fields_header m
  rw [front] at size seq code
  exact ⟨size.symm.trans size', seq.symm.trans seq', code.symm.trans code'⟩

end Header

/-! ## One read and one pass -/

section Pass

variable {fuel : Nat} {h : Host UInt8}

/-- `read_exact` of `size` bytes that are pending gets exactly them. -/
theorem readExact_of_pending {size : Nat} {front rest : List UInt8} (stream : h.pending = front ++ rest)
    (sized : front.length = size) (enough : h.size < fuel) :
    ∃ h', readExact fuel h size = some (0, front, h') ∧ h'.pending = rest ∧ h'.closed = h.closed ∧
      h'.replies.length ≤ h.replies.length := by
  have room : size ≤ ([] : List UInt8).length + h.pending.length := by
    simp [stream, ← sized]
  obtain ⟨⟨e, got, h'⟩, run⟩ :=
    Option.isSome_iff_exists.mp (fill_isSome (Nat.le_refl size) enough (.inr room))
  obtain ⟨stream', closed, fewer, -, bound, full, ended⟩ := fill_spec (Nat.le_refl size) run
  rw [List.nil_append, stream] at stream'
  cases e with
  | closed =>
    -- the stream cannot end while the bytes asked for are pending
    obtain ⟨short, drained, -⟩ := ended rfl
    rw [drained, List.append_nil] at stream'
    have := congrArg List.length stream'
    simp only [List.length_append] at this
    omega
  | full =>
    have exact : got.length = front.length := by
      have := full rfl
      simp only [List.length_nil, Nat.zero_max] at bound
      omega
    obtain ⟨mid, gotEq, restEq⟩ := frame_of_le stream' (Nat.le_of_eq exact.symm)
    have : mid = [] := by
      have := congrArg List.length gotEq
      rw [List.length_append] at this
      exact List.eq_nil_of_length_eq_zero (by omega)
    subst this
    rw [List.append_nil] at gotEq
    subst gotEq
    refine ⟨h', ?_, by simpa using restEq.symm, closed, fewer⟩
    simp only [readExact, run]

/-- `read_exact` of more bytes than a closed stream still holds returns
`-ENODATA`. -/
theorem readExact_of_closed {size : Nat} (closed : h.closed = true) (short : h.pending.length < size)
    (enough : h.size < fuel) :
    ∃ got h', readExact fuel h size = some (-ENODATA, got, h') := by
  have ready : (fill size size fuel ([] : List UInt8) h).isSome :=
    fill_isSome (Nat.le_refl size) enough (.inl closed)
  obtain ⟨⟨e, got, h'⟩, run⟩ := Option.isSome_iff_exists.mp ready
  obtain ⟨stream', -, -, -, -, full, -⟩ := fill_spec (Nat.le_refl size) run
  cases e with
  | full =>
    have := congrArg List.length stream'
    have := full rfl
    simp only [List.length_append, List.length_nil] at *
    omega
  | closed => exact ⟨got, h', by simp only [readExact, run]⟩

/-- A pass whose buffer and pending bytes begin with a whole message hands that
message to its callback and leaves the bytes after it, buffered or pending. -/
theorem ipcReceivePass_handled {m : IpcMessage} {buf rest : List UInt8}
    (stream : buf ++ h.pending = m.encode ++ rest) (enough : h.size < fuel) :
    ∃ buf' h', ipcReceivePass fuel buf h = some (.handled m.delivery buf', h') ∧
      buf' ++ h'.pending = rest ∧ h'.closed = h.closed ∧ h'.replies.length ≤ h.replies.length := by
  have fits : IPC_MSG_HEADER_SIZE ≤ IPC_RECV_BUF_SIZE := by decide
  have total := congrArg List.length stream
  simp only [List.length_append, m.length_encode] at total
  have atLeast := m.header_le_size
  have ready : (fill IPC_MSG_HEADER_SIZE IPC_RECV_BUF_SIZE fuel buf h).isSome :=
    fill_isSome fits enough (.inr (by omega))
  obtain ⟨⟨e, buf₁, h₁⟩, run⟩ := Option.isSome_iff_exists.mp ready
  obtain ⟨stream₁, closed₁, fewer₁, smaller₁, -, full, ended⟩ := fill_spec fits run
  rw [stream] at stream₁
  cases e with
  | closed =>
    obtain ⟨short, drained, -⟩ := ended rfl
    rw [drained, List.append_nil] at stream₁
    have := congrArg List.length stream₁
    simp only [List.length_append, m.length_encode] at this
    omega
  | full =>
    -- the buffer begins with the message's header
    have holds := full rfl
    have split : buf₁ ++ h₁.pending = m.header ++ (m.payload ++ rest) := by
      rw [stream₁, IpcMessage.encode, List.append_assoc]
    obtain ⟨afterHeader, bufHeader, -⟩ := frame_of_le split (by rw [m.length_header]; exact holds)
    have front : buf₁.take IPC_MSG_HEADER_SIZE = m.header := by
      rw [bufHeader, ← m.length_header, List.take_left]
    obtain ⟨sizeEq, seqEq, codeEq⟩ := header_fields m front
    unfold ipcReceivePass
    rw [run]
    dsimp only
    rw [sizeEq, codeEq, seqEq, if_neg (Nat.not_lt.mpr atLeast)]
    by_cases whole : m.size ≤ buf₁.length
    · -- the whole message is buffered
      rw [if_pos whole]
      obtain ⟨mid, bufEq, restEq⟩ := frame_of_le stream₁ (by rw [m.length_encode]; exact whole)
      refine ⟨mid, h₁, ?_, restEq.symm, closed₁, fewer₁⟩
      have payload : (buf₁.drop IPC_MSG_HEADER_SIZE).take (m.size - IPC_MSG_HEADER_SIZE) = m.payload := by
        rw [bufEq, IpcMessage.encode, List.append_assoc, ← m.length_header, List.drop_left,
          IpcMessage.size, m.length_header, Nat.add_sub_cancel_left, List.take_left]
      have left : buf₁.drop m.size = mid := by
        rw [bufEq, ← m.length_encode, List.drop_left]
      rw [payload, left]
      rfl
    · -- the rest of the payload is pending: read_exact reads it
      rw [if_neg whole]
      obtain ⟨mid, encodeEq, pendingEq⟩ := frame_of_ge stream₁ (by rw [m.length_encode]; omega)
      have request : m.size - IPC_MSG_HEADER_SIZE - (buf₁.drop IPC_MSG_HEADER_SIZE).length = mid.length := by
        have := congrArg List.length encodeEq
        simp only [List.length_append, m.length_encode, List.length_drop] at this ⊢
        omega
      obtain ⟨h₂, readEq, pending₂, closed₂, fewer₂⟩ :=
        readExact_of_pending pendingEq rfl (Nat.lt_of_le_of_lt smaller₁ enough)
      rw [request, readEq]
      dsimp only
      rw [if_neg (Int.lt_irrefl 0)]
      refine ⟨[], h₂, ?_, by rw [pending₂, List.nil_append], closed₂.trans closed₁, Nat.le_trans fewer₂ fewer₁⟩
      have payload : buf₁.drop IPC_MSG_HEADER_SIZE ++ mid = m.payload := by
        rw [← List.drop_append_of_le_length holds, ← encodeEq, IpcMessage.encode, ← m.length_header,
          List.drop_left]
      rw [payload]
      rfl

/-- A pass on a closed stream with nothing buffered or pending finds the end
on a message boundary. -/
theorem ipcReceivePass_boundary (drained : h.pending = []) (closed : h.closed = true) (enough : h.size < fuel) :
    ∃ h', ipcReceivePass fuel [] h = some (.returned 1, h') := by
  have fits : IPC_MSG_HEADER_SIZE ≤ IPC_RECV_BUF_SIZE := by decide
  have ready : (fill IPC_MSG_HEADER_SIZE IPC_RECV_BUF_SIZE fuel ([] : List UInt8) h).isSome :=
    fill_isSome fits enough (.inl closed)
  obtain ⟨⟨e, buf₁, h₁⟩, run⟩ := Option.isSome_iff_exists.mp ready
  obtain ⟨stream₁, -, -, -, -, full, -⟩ := fill_spec fits run
  rw [drained, List.append_nil, List.append_eq_nil_iff] at stream₁
  cases e with
  | full =>
    have := full rfl
    rw [stream₁.1] at this
    exact absurd this (by decide)
  | closed =>
    refine ⟨h₁, ?_⟩
    simp only [ipcReceivePass, run, stream₁.1, List.isEmpty_nil, if_true]

/-- A pass on a closed stream that holds only the first `k` bytes of a message,
buffered or pending, finds the end inside it. -/
theorem ipcReceivePass_partial {m : IpcMessage} {buf : List UInt8} {k : Nat}
    (stream : buf ++ h.pending = m.encode.take k) (inside : 0 < k) (short : k < m.encode.length)
    (closed : h.closed = true) (enough : h.size < fuel) :
    ∃ h', ipcReceivePass fuel buf h = some (.returned (-ENODATA), h') := by
  have fits : IPC_MSG_HEADER_SIZE ≤ IPC_RECV_BUF_SIZE := by decide
  have ready : (fill IPC_MSG_HEADER_SIZE IPC_RECV_BUF_SIZE fuel buf h).isSome :=
    fill_isSome fits enough (.inl closed)
  obtain ⟨⟨e, buf₁, h₁⟩, run⟩ := Option.isSome_iff_exists.mp ready
  obtain ⟨stream₁, closed₁, -, smaller₁, -, full, ended⟩ := fill_spec fits run
  rw [stream] at stream₁
  have total := congrArg List.length stream₁
  rw [List.length_append, List.length_take, Nat.min_eq_left (Nat.le_of_lt short)] at total
  cases e with
  | closed =>
    -- the end comes before a whole header: the buffer holds the bytes read
    obtain ⟨-, drained, -⟩ := ended rfl
    rw [drained, List.length_nil, Nat.add_zero] at total
    have held : buf₁.isEmpty = false := by
      rw [List.isEmpty_eq_false_iff_exists_mem]
      exact List.exists_mem_of_length_pos (by omega)
    refine ⟨h₁, ?_⟩
    simp only [ipcReceivePass, run, held, Bool.false_eq_true, if_false]
  | full =>
    -- the header is whole: its size reaches past the end, so read_exact meets it
    have holds := full rfl
    have front : buf₁.take IPC_MSG_HEADER_SIZE = m.header := by
      have := congrArg (List.take IPC_MSG_HEADER_SIZE) stream₁
      rw [List.take_append_of_le_length holds, List.take_take, Nat.min_eq_left (by omega),
        IpcMessage.encode, ← m.length_header, List.take_left] at this
      rwa [m.length_header] at this
    obtain ⟨sizeEq, -, -⟩ := header_fields m front
    have longer : buf₁.length < m.size := by
      rw [← m.length_encode]
      omega
    have rest : h₁.pending.length < m.size - IPC_MSG_HEADER_SIZE - (buf₁.drop IPC_MSG_HEADER_SIZE).length := by
      rw [List.length_drop, ← m.length_encode]
      omega
    obtain ⟨got, h₂, readEq⟩ :=
      readExact_of_closed (closed₁.trans closed) rest (Nat.lt_of_le_of_lt smaller₁ enough)
    refine ⟨h₂, ?_⟩
    unfold ipcReceivePass
    rw [run]
    dsimp only
    rw [sizeEq, if_neg (Nat.not_lt.mpr m.header_le_size), if_neg (Nat.not_le.mpr longer), readEq]
    dsimp only
    rw [if_pos (by simp [ENODATA])]

end Pass

/-! ## Calls and the worker -/

@[simp] theorem encodeAll_nil : encodeAll [] = [] := rfl

@[simp] theorem encodeAll_cons (m : IpcMessage) (ms : List IpcMessage) :
    encodeAll (m :: ms) = m.encode ++ encodeAll ms := rfl

theorem encodeAll_take_append_drop (ms : List IpcMessage) (j : Nat) :
    encodeAll (ms.take j) ++ encodeAll (ms.drop j) = encodeAll ms := by
  rw [encodeAll, encodeAll, ← List.flatMap_append, List.take_append_drop, encodeAll]

/-- Every message has its header: no message sends nothing. -/
theorem encodeAll_eq_nil {ms : List IpcMessage} (none : encodeAll ms = []) : ms = [] := by
  cases ms with
  | nil => rfl
  | cons m ms =>
    have := congrArg List.length none
    simp only [encodeAll_cons, List.length_append, m.length_encode, List.length_nil] at this
    have := m.header_le_size
    simp only [IPC_MSG_HEADER_SIZE] at this
    omega

section Call

variable (m₀ : IpcMessage) (k : Nat)

/-- One call of `receive_ipc_messages` on a stream of whole messages followed by
the first `k` bytes of `m₀`: it hands the first `j` messages over, and either
returns 0 with no byte buffered, the rest of the stream still pending, or it
meets the end of the stream, after the last whole message. -/
theorem receiveIpcMessages_spec (short : k < m₀.encode.length) :
    ∀ (ms : List IpcMessage) (fuel : Nat) (buf : List UInt8) (h : Host UInt8),
      buf ++ h.pending = encodeAll ms ++ m₀.encode.take k → (0 < k → h.closed = true) →
      (buf = [] → ms = [] → k = 0 → h.closed = true) →
      h.replies.length + buf.length + h.pending.length < fuel →
      ∃ j ret h', receiveIpcMessages fuel buf h = some (ret, (ms.take j).map IpcMessage.delivery, h') ∧
        ((ret = 0 ∧ 0 < j ∧ j ≤ ms.length ∧ h'.pending = encodeAll (ms.drop j) ++ m₀.encode.take k ∧
            h'.closed = h.closed ∧ h'.replies.length ≤ h.replies.length) ∨
          (j = ms.length ∧ h.closed = true ∧ ret = if k = 0 then 1 else -ENODATA))
  | [], fuel, buf, h, stream, closedInside, closedEnd, enough => by
    obtain ⟨more, rfl⟩ : ∃ more, fuel = more + 1 := ⟨fuel - 1, by omega⟩
    have enoughHost : h.size < more + 1 := by unfold Host.size; omega
    rw [encodeAll_nil, List.nil_append] at stream
    by_cases boundary : k = 0
    · -- the stream ends on a message boundary
      subst boundary
      rw [List.take_zero, List.append_eq_nil_iff] at stream
      obtain ⟨rfl, drained⟩ := stream
      have closed := closedEnd rfl rfl rfl
      obtain ⟨h', pass⟩ := ipcReceivePass_boundary drained closed enoughHost
      refine ⟨0, 1, h', ?_, .inr ⟨rfl, closed, rfl⟩⟩
      simp only [receiveIpcMessages, pass, List.take_zero, List.map_nil]
    · -- the stream ends inside `m₀`
      have closed := closedInside (Nat.pos_of_ne_zero boundary)
      obtain ⟨h', pass⟩ :=
        ipcReceivePass_partial stream (Nat.pos_of_ne_zero boundary) short closed enoughHost
      refine ⟨0, -ENODATA, h', ?_, .inr ⟨rfl, closed, by rw [if_neg boundary]⟩⟩
      simp only [receiveIpcMessages, pass, List.take_zero, List.map_nil]
  | m :: ms, fuel, buf, h, stream, closedInside, _, enough => by
    obtain ⟨more, rfl⟩ : ∃ more, fuel = more + 1 := ⟨fuel - 1, by omega⟩
    have enoughHost : h.size < more + 1 := by unfold Host.size; omega
    rw [encodeAll_cons, List.append_assoc] at stream
    obtain ⟨buf₁, h₁, pass, stream₁, closed₁, fewer₁⟩ := ipcReceivePass_handled stream enoughHost
    have lengths := congrArg List.length stream
    have lengths₁ := congrArg List.length stream₁
    simp only [List.length_append, m.length_encode] at lengths lengths₁
    have atLeast := m.header_le_size
    simp only [IPC_MSG_HEADER_SIZE] at atLeast
    by_cases emptied : buf₁.isEmpty
    · -- nothing is left buffered: the call returns after `m`
      rw [List.isEmpty_iff] at emptied
      subst emptied
      rw [List.nil_append] at stream₁
      refine ⟨1, 0, h₁, ?_, .inl ⟨rfl, Nat.one_pos, Nat.succ_le_succ (Nat.zero_le _), by rw [stream₁]; rfl,
        closed₁, fewer₁⟩⟩
      simp only [receiveIpcMessages, pass, List.isEmpty_nil, if_true]
      rfl
    · -- bytes of the next message are buffered: the loop goes on
      have notEmpty : buf₁ ≠ [] := fun e => emptied (e ▸ rfl)
      obtain ⟨j, ret, h', call, outcome⟩ := receiveIpcMessages_spec short ms more buf₁ h₁ stream₁
        (fun pos => closed₁.trans (closedInside pos)) (fun e => absurd e notEmpty) (by omega)
      refine ⟨j + 1, ret, h', ?_, ?_⟩
      · simp only [receiveIpcMessages, pass, emptied, Bool.false_eq_true, if_false, call, Option.map_some,
          List.take_succ_cons, List.map_cons]
      · rcases outcome with ⟨zero, taken, within, pending, closed', fewer'⟩ | ⟨all, closed', ended⟩
        · exact .inl ⟨zero, Nat.succ_pos j, Nat.succ_le_succ within, by rw [pending]; rfl,
            closed'.trans closed₁, Nat.le_trans fewer' fewer₁⟩
        · exact .inr ⟨by rw [all]; rfl, closed₁ ▸ closed', ended⟩

/-- The worker's calls on a connection hand every whole message over, in
order, and end as the stream does. -/
theorem ipcWorkerReceive_spec (short : k < m₀.encode.length) (fuel : Nat) :
    ∀ (calls : Nat) (ms : List IpcMessage) (h : Host UInt8),
      h.pending = encodeAll ms ++ m₀.encode.take k → (0 < k → h.closed = true) →
      h.replies.length + h.pending.length < fuel → ms.length < calls →
      ipcWorkerReceive fuel calls h =
        some (if h.closed then (if k = 0 then 1 else -ENODATA) else 0, ms.map IpcMessage.delivery)
  | 0, _, _, _, _, _, many => absurd many (Nat.not_lt_zero _)
  | calls + 1, ms, h, stream, closedInside, enough, many => by
    unfold ipcWorkerReceive
    by_cases idle : h.pending.isEmpty ∧ h.closed = false
    · -- nothing to read and the peer still there: the worker waits
      obtain ⟨drained, stillOpen⟩ := idle
      have boundary : k = 0 := by
        by_contra inside
        rw [closedInside (Nat.pos_of_ne_zero inside)] at stillOpen
        exact Bool.noConfusion stillOpen
      rw [List.isEmpty_iff] at drained
      rw [drained, boundary, List.take_zero, List.append_nil] at stream
      rw [if_pos ⟨by rw [drained]; rfl, stillOpen⟩, stillOpen, encodeAll_eq_nil stream.symm]
      rfl
    rw [if_neg idle]
    have ready : ms = [] → k = 0 → h.closed = true := by
      intro none boundary
      rw [none, boundary, encodeAll_nil, List.take_zero, List.append_nil] at stream
      by_contra stillOpen
      exact idle ⟨by rw [stream]; rfl, Bool.eq_false_iff.mpr stillOpen⟩
    obtain ⟨j, ret, h', call, outcome⟩ := receiveIpcMessages_spec m₀ k short ms fuel [] h
      (by rw [List.nil_append, stream]) closedInside (fun _ => ready) (by simp only [List.length_nil]; omega)
    rw [call]
    dsimp only
    rcases outcome with ⟨zero, taken, within, pending, closed', fewer'⟩ | ⟨all, closed, ended⟩
    · -- the call returned at a message boundary: the next one reads on
      rw [if_pos zero]
      have shorter : h'.pending.length ≤ h.pending.length := by
        rw [pending, stream, ← encodeAll_take_append_drop ms j]
        simp only [List.length_append]
        omega
      have next := ipcWorkerReceive_spec short fuel calls (ms.drop j) h' pending
        (fun pos => closed'.trans (closedInside pos)) (by omega) (by rw [List.length_drop]; omega)
      rw [next, closed', Option.map_some, ← List.map_append, List.take_append_drop]
    · -- the call met the end of the stream
      have stops : ret ≠ 0 := by
        rw [ended]
        split <;> simp [ENODATA]
      rw [if_neg stops, all, List.take_length, closed, if_pos rfl, ended]

end Call

/-- The worker hands each message of the stream to its callback exactly once
and in order, with its code, sequence number and payload, whatever the host's
chunks and retries; a call returns 1 exactly when the stream ends on a
message boundary, and `-ENODATA` exactly when it ends inside a message, in its
header or in its payload. -/
theorem ipcWorker_receives_every_message (ms : List IpcMessage) (m₀ : IpcMessage) (k : Nat)
    (short : k < m₀.encode.length) (closed : Bool) (stillOpen : closed = false → k = 0) (replies : List Reply)
    (fuel calls : Nat) (enough : replies.length + (encodeAll ms ++ m₀.encode.take k).length < fuel)
    (many : ms.length < calls) :
    ipcWorkerReceive fuel calls ⟨encodeAll ms ++ m₀.encode.take k, closed, replies⟩ =
      some (if closed then (if k = 0 then 1 else -ENODATA) else 0, ms.map IpcMessage.delivery) := by
  have closedInside : 0 < k → closed = true := by
    intro inside
    cases closed with
    | true => rfl
    | false => exact absurd (stillOpen rfl) (Nat.pos_iff_ne_zero.mp inside)
  exact ipcWorkerReceive_spec m₀ k short fuel calls ms _ rfl closedInside enough many


/-- An `IPC_MSG_RESP` message with two bytes of payload. -/
def twoByteResponse : IpcMessage :=
  ⟨0, 7, [0xAB, 0xCD], by decide⟩

theorem ipcWorker_receives_two_messages :
    ipcWorkerReceive 64 3
        ⟨encodeAll [twoByteResponse, twoByteResponse] ++ twoByteResponse.encode.take 0, true,
          [.upTo 0, .again, .upTo 20]⟩ =
      some (if true then (if 0 = 0 then 1 else -ENODATA) else 0,
        [twoByteResponse, twoByteResponse].map IpcMessage.delivery) :=
  ipcWorker_receives_every_message [twoByteResponse, twoByteResponse] twoByteResponse 0 (by decide) true
    (fun _ => rfl) [.upTo 0, .again, .upTo 20] 64 3 (by decide) (by decide)

/-- The stream ends one byte into a message's payload, past its whole header,
and the call still returns `-ENODATA`. -/
theorem ipcWorker_eof_in_payload_returns_enodata :
    IPC_MSG_HEADER_SIZE < 18 ∧ 18 < twoByteResponse.encode.length ∧
      ipcWorkerReceive 64 1 ⟨twoByteResponse.encode.take 18, true, []⟩ = some (-ENODATA, []) := by
  decide

end Gramine.LibOS.Ipc
