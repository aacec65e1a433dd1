import Mathlib
/-!
# Reading a stream in chunks

A reader of a stream (a pipe, a socket) asks for at most `want` elements and
gets what the host chooses to give: some of the pending elements, a request
to retry (an interrupted or would-block read), or, once the stream is closed
and drained, nothing. The host's choices are a schedule of replies; after the
schedule it gives all it can. A read that finds nothing pending on a stream
still open blocks, which is `none`.

`fill` is the loop readers build on it: read into a buffer until it holds a
target number of elements or the stream ends, asking each time for the room
left below a capacity. Whatever the schedule, the buffer and the elements
still pending are, together, the stream the loop started from (`fill_spec`),
and with fuel beyond the schedule and the pending elements the loop ends
(`fill_isSome`).
-/

namespace ChunkedStream

variable {β : Type}

/-- What the host does with one read. -/
inductive Reply where
  /-- The read fails with an error to retry on (interrupted, try again). -/
  | again
  /-- The read returns at most `k + 1` elements, and at least one. -/
  | upTo (k : Nat)
  deriving DecidableEq, Repr

/-- The stream as the reader sees it. -/
structure Host (β : Type) where
  pending : List β
  closed : Bool
  replies : List Reply

/-- What a read returns: a retry, or elements (none at the end of the
stream). -/
inductive Outcome (β : Type) where
  | again
  | data (elements : List β)

def Outcome.elements : Outcome β → List β
  | .again => []
  | .data elements => elements

/-- The next reply of the schedule, and all the host can give after it. -/
def Host.nextReply (h : Host β) (want : Nat) : Reply × List Reply :=
  match h.replies with
  | [] => (.upTo want, [])
  | reply :: rest => (reply, rest)

/-- One read of at most `want` elements. -/
def Host.read (h : Host β) (want : Nat) : Option (Outcome β × Host β) :=
  match h.nextReply want with
  | (.again, rest) => some (.again, { h with replies := rest })
  | (.upTo k, rest) =>
    if h.pending = [] then
      if h.closed then some (.data [], { h with replies := rest }) else none
    else
      let n := min (k + 1) (min want h.pending.length)
      some (.data (h.pending.take n), { h with pending := h.pending.drop n, replies := rest })

/-- How a `fill` ended: the buffer holds the target, or the stream ended
first. -/
inductive FillEnd where
  | full
  | closed
  deriving DecidableEq, Repr

/-- Read into `buf`, asking each time for `cap - buf.length` elements, until
it holds at least `target` of them or the stream ends. -/
def fill (target cap : Nat) : Nat → List β → Host β → Option (FillEnd × List β × Host β)
  | 0, _, _ => none
  | fuel + 1, buf, h =>
    if target ≤ buf.length then some (.full, buf, h)
    else
      match h.read (cap - buf.length) with
      | none => none
      | some (.again, h) => fill target cap fuel buf h
      | some (.data elements, h) =>
        if elements.isEmpty then some (.closed, buf, h)
        else fill target cap fuel (buf ++ elements) h

/-- A read that must not block: where it would block, it fails with a
retry. -/
def Host.tryRead (h : Host β) (want : Nat) (nonblocking : Bool) : Option (Outcome β × Host β) :=
  match h.read want, nonblocking with
  | none, true => some (.again, h)
  | r, _ => r

attribute [grind] Host.nextReply Host.read Host.tryRead fill

/-! ## One read -/

section Read

variable {h h' : Host β} {want : Nat} {o : Outcome β}

/-- The measure a read lowers: replies left and elements pending. -/
def Host.size (h : Host β) : Nat :=
  h.replies.length + h.pending.length

theorem Host.length_nextReply_snd (h : Host β) (want : Nat) :
    (h.nextReply want).2.length = h.replies.length - 1 := by
  unfold Host.nextReply
  split <;> simp_all

/-- A read takes its elements from the front of the stream, keeps whether it
is closed, and takes at most what was asked. -/
theorem Host.read_spec (read : h.read want = some (o, h')) :
    o.elements ++ h'.pending = h.pending ∧ h'.closed = h.closed ∧ o.elements.length ≤ want ∧
      h'.replies.length = h.replies.length - 1 := by
  have replies := h.length_nextReply_snd want
  rcases next : h.nextReply want with ⟨reply, rest⟩
  rw [next] at replies
  simp only [Host.read, next] at read
  cases reply with
  | again =>
    cases read
    exact ⟨rfl, rfl, Nat.zero_le _, replies⟩
  | upTo k =>
    dsimp only at read
    split at read
    · split at read
      · cases read
        exact ⟨by simp [Outcome.elements, *], rfl, Nat.zero_le _, replies⟩
      · cases read
    · cases read
      refine ⟨List.take_append_drop _ _, rfl, ?_, replies⟩
      simp only [Outcome.elements, List.length_take]
      omega

/-- A read that returns nothing found the stream closed and drained. -/
theorem Host.read_closed (positive : 0 < want) (read : h.read want = some (.data [], h')) :
    h.pending = [] ∧ h.closed = true := by
  unfold Host.read at read
  split at read
  · cases read
  · split at read
    · rename_i drained
      split at read
      · exact ⟨drained, ‹_›⟩
      · cases read
    · rename_i waiting
      simp only [Option.some.injEq, Prod.mk.injEq, Outcome.data.injEq, List.take_eq_nil_iff] at read
      have : 0 < h.pending.length := List.length_pos_of_ne_nil waiting
      rcases read.1 with zero | drained
      · omega
      · exact absurd drained waiting

/-- A retry is a reply of the schedule: after it the host always answers. -/
theorem Host.read_again (read : h.read want = some (.again, h')) : 0 < h.replies.length := by
  cases replies : h.replies with
  | cons reply rest => exact Nat.succ_pos _
  | nil =>
    simp only [Host.read, Host.nextReply, replies] at read
    split_ifs at read <;> simp at read

/-- A read that finds something pending, or the stream closed, returns. -/
theorem Host.read_isSome (ready : h.pending ≠ [] ∨ h.closed = true) : (h.read want).isSome := by
  unfold Host.read
  split
  · rfl
  · split
    · rename_i drained
      rw [if_pos (ready.resolve_left (not_not.mpr drained))]
      rfl
    · rfl

/-- A read that does not end the stream lowers the measure. -/
theorem Host.size_read_lt (read : h.read want = some (o, h')) (going : o ≠ .data []) :
    h'.size < h.size := by
  obtain ⟨stream, -, -, replies⟩ := Host.read_spec read
  unfold Host.size
  cases o with
  | again =>
    have scheduled := Host.read_again read
    simp only [Outcome.elements, List.nil_append] at stream
    rw [stream, replies]
    omega
  | data elements =>
    have nonempty : 0 < elements.length :=
      List.length_pos_of_ne_nil fun drained => going (drained ▸ rfl)
    rw [← stream, List.length_append, replies]
    simp only [Outcome.elements] at nonempty ⊢
    omega

theorem Host.replies_read_le (read : h.read want = some (o, h')) :
    h'.replies.length ≤ h.replies.length := by
  rw [(Host.read_spec read).2.2.2]
  exact Nat.sub_le _ _

theorem Host.size_read_le (read : h.read want = some (o, h')) : h'.size ≤ h.size := by
  obtain ⟨stream, -, -, replies⟩ := Host.read_spec read
  unfold Host.size
  rw [← stream, List.length_append, replies]
  omega

/-- A read that must not block takes from the front of the stream, as any
read does. -/
theorem Host.tryRead_spec {nonblocking : Bool} (read : h.tryRead want nonblocking = some (o, h')) :
    o.elements ++ h'.pending = h.pending ∧ h'.closed = h.closed ∧ o.elements.length ≤ want := by
  unfold Host.tryRead at read
  split at read
  · cases read
    exact ⟨rfl, rfl, Nat.zero_le _⟩
  · obtain ⟨stream, closed, asked, -⟩ := Host.read_spec read
    exact ⟨stream, closed, asked⟩

/-- A read that must not block returns; so does any read that finds something
pending or the stream closed. -/
theorem Host.tryRead_isSome {nonblocking : Bool}
    (ready : nonblocking = true ∨ h.pending ≠ [] ∨ h.closed = true) : (h.tryRead want nonblocking).isSome := by
  cases read : h.read want with
  | some o => cases nonblocking <;> simp [Host.tryRead, read]
  | none =>
    cases nonblocking with
    | true => simp [Host.tryRead, read]
    | false =>
      have returns : (h.read want).isSome := Host.read_isSome (ready.resolve_left Bool.false_ne_true)
      rw [read] at returns
      cases returns

end Read

/-! ## Filling a buffer -/

section Fill

variable {target cap : Nat}

/-- Whatever the host does, `fill` leaves the buffer and the pending elements
the stream it started from; it ends `full` with at least `target` elements,
or `closed` with the stream drained, and never buffers past `cap`. -/
theorem fill_spec (fits : target ≤ cap) :
    ∀ {fuel : Nat} {buf buf' : List β} {h h' : Host β} {e : FillEnd},
      fill target cap fuel buf h = some (e, buf', h') →
      buf' ++ h'.pending = buf ++ h.pending ∧ h'.closed = h.closed ∧
        h'.replies.length ≤ h.replies.length ∧ h'.size ≤ h.size ∧
        buf'.length ≤ max buf.length cap ∧
        (e = .full → target ≤ buf'.length) ∧
        (e = .closed → buf'.length < target ∧ h'.pending = [] ∧ h.closed = true)
  | 0, _, _, _, _, _, run => by simp [fill] at run
  | fuel + 1, buf, buf', h, h', e, run => by
    unfold fill at run
    split at run
    · -- the buffer already holds the target
      rename_i reached
      cases run
      refine ⟨rfl, rfl, Nat.le_refl _, Nat.le_refl _, Nat.le_max_left _ _, fun _ => reached, fun closed => ?_⟩
      cases closed
    rename_i short
    have positive : 0 < cap - buf.length := by omega
    split at run
    · cases run
    · -- a retry: the loop reads again
      rename_i h₁ read
      obtain ⟨stream, closed, -, -⟩ := Host.read_spec read
      obtain ⟨stream', closed', replies', size', bound, full, ended⟩ := fill_spec fits run
      simp only [Outcome.elements, List.nil_append] at stream
      refine ⟨by rw [stream', stream], closed'.trans closed,
        Nat.le_trans replies' (Host.replies_read_le read), Nat.le_trans size' (Host.size_read_le read), bound, full,
        fun end_ => ?_⟩
      obtain ⟨under, drained, wasClosed⟩ := ended end_
      exact ⟨under, drained, closed ▸ wasClosed⟩
    · rename_i elements h₁ read
      obtain ⟨stream, closed, asked, -⟩ := Host.read_spec read
      simp only [Outcome.elements] at stream asked
      split at run
      · -- nothing came: the stream is closed and drained
        rename_i drained
        rw [List.isEmpty_iff] at drained
        subst drained
        cases run
        obtain ⟨empty, wasClosed⟩ := Host.read_closed positive read
        simp only [List.nil_append] at stream
        refine ⟨by rw [stream], closed, Host.replies_read_le read, Host.size_read_le read, Nat.le_max_left _ _,
          fun full => ?_, fun _ => ⟨by omega, stream.trans empty, wasClosed⟩⟩
        cases full
      · -- elements came: they go behind the buffer
        rename_i got
        obtain ⟨stream', closed', replies', size', bound, full, ended⟩ := fill_spec fits run
        have fitsCap : (buf ++ elements).length ≤ cap := by
          rw [List.length_append]
          omega
        refine ⟨by rw [stream', List.append_assoc, stream], closed'.trans closed,
          Nat.le_trans replies' (Host.replies_read_le read), Nat.le_trans size' (Host.size_read_le read), by omega,
          full, fun end_ => ?_⟩
        obtain ⟨under, drained, wasClosed⟩ := ended end_
        exact ⟨under, drained, closed ▸ wasClosed⟩

/-- With more fuel than the measure, a `fill` that can end does: the stream
is closed, or enough is pending to reach the target. -/
theorem fill_isSome (fits : target ≤ cap) :
    ∀ {fuel : Nat} {buf : List β} {h : Host β}, h.size < fuel →
      (h.closed = true ∨ target ≤ buf.length + h.pending.length) → (fill target cap fuel buf h).isSome
  | 0, _, _, enough, _ => absurd enough (Nat.not_lt_zero _)
  | fuel + 1, buf, h, enough, ready => by
    unfold fill
    split
    · rfl
    rename_i short
    have readable : h.pending ≠ [] ∨ h.closed = true := by
      rcases ready with closed | room
      · exact .inr closed
      · exact .inl fun drained => by simp [drained] at room; omega
    have returns : (h.read (cap - buf.length)).isSome := Host.read_isSome readable
    obtain ⟨⟨o, h₁⟩, read⟩ := Option.isSome_iff_exists.mp returns
    rw [read]
    obtain ⟨stream, closed, -, -⟩ := Host.read_spec read
    cases o with
    | again =>
      simp only [Outcome.elements, List.nil_append] at stream
      exact fill_isSome fits (by have := Host.size_read_lt read (by simp); omega)
        (by rw [closed, stream]; exact ready)
    | data elements =>
      simp only [Outcome.elements] at stream
      dsimp only
      split
      · rfl
      · rename_i got
        have going : Outcome.data elements ≠ .data [] := by
          simpa [List.isEmpty_iff] using got
        refine fill_isSome fits (by have := Host.size_read_lt read going; omega) ?_
        rcases ready with wasClosed | room
        · exact .inl (closed.trans wasClosed)
        · refine .inr ?_
          have total := congrArg List.length stream
          rw [List.length_append] at total
          rw [List.length_append]
          omega

end Fill

/-! ## Frames in a buffered stream -/

section Frames

variable {buf rest frame tail : List β}

/-- A buffer that holds a whole frame of the stream holds it at its front;
what it holds beyond the frame comes before what is still pending. -/
theorem frame_of_le (stream : buf ++ rest = frame ++ tail) (holds : frame.length ≤ buf.length) :
    ∃ mid, buf = frame ++ mid ∧ tail = mid ++ rest := by
  rcases List.append_eq_append_iff.mp stream with ⟨more, frameEq, restEq⟩ | ⟨mid, bufEq, tailEq⟩
  · -- the frame reaches past the buffer only if it ends where the buffer does
    have : more = [] := by
      have := congrArg List.length frameEq
      rw [List.length_append] at this
      exact List.eq_nil_of_length_eq_zero (by omega)
    subst this
    exact ⟨[], by simpa using frameEq.symm, by simpa using restEq.symm⟩
  · exact ⟨mid, bufEq, tailEq⟩

/-- A buffer shorter than a frame holds its front; the rest of the frame is
pending. -/
theorem frame_of_ge (stream : buf ++ rest = frame ++ tail) (short : buf.length ≤ frame.length) :
    ∃ mid, frame = buf ++ mid ∧ rest = mid ++ tail := by
  obtain ⟨mid, frameEq, restEq⟩ := frame_of_le stream.symm short
  exact ⟨mid, frameEq, restEq⟩

end Frames

/-! ## Reads that lose nothing

A reader that may peek sees the stream through a run of reads, each a peek or
not, each returning some elements. The run is faithful when every read returns
a prefix of what is still unread and every read that is not a peek consumes
what it returned: then the reads that are not peeks return the stream in
order, with nothing lost, repeated or reordered, and a peek shows the front of
what they return next. -/

section Reads

/-- `ReadsOf s reads s'`: the reads, each with whether it was a peek and what
it returned, are faithful reads of `s` that leave `s'` unread. -/
inductive ReadsOf : List β → List (Bool × List β) → List β → Prop where
  | nil (s : List β) : ReadsOf s [] s
  | cons {s s' r : List β} {peek : Bool} {reads : List (Bool × List β)} (front : r <+: s)
      (rest : ReadsOf (if peek then s else s.drop r.length) reads s') : ReadsOf s ((peek, r) :: reads) s'

/-- What the reads that are not peeks returned, in order. -/
def consumed : List (Bool × List β) → List β
  | [] => []
  | (peek, r) :: reads => (if peek then [] else r) ++ consumed reads

@[simp] theorem consumed_nil : consumed ([] : List (Bool × List β)) = [] := rfl

@[simp] theorem consumed_cons (peek : Bool) (r : List β) (reads : List (Bool × List β)) :
    consumed ((peek, r) :: reads) = (if peek then [] else r) ++ consumed reads := rfl

/-- The reads that are not peeks, followed by what is left unread, are the
stream. -/
theorem ReadsOf.consumed_append_unread {s s' : List β} {reads : List (Bool × List β)}
    (faithful : ReadsOf s reads s') : consumed reads ++ s' = s := by
  induction faithful with
  | nil => rfl
  | @cons s s' r peek reads front rest ih =>
    cases peek with
    | true => simpa using ih
    | false =>
      obtain ⟨tail, rfl⟩ := front
      simpa using ih

/-- Two faithful runs, one after the other, are one. -/
theorem ReadsOf.append {s m s' : List β} {pre post : List (Bool × List β)}
    (first : ReadsOf s pre m) (second : ReadsOf m post s') : ReadsOf s (pre ++ post) s' := by
  induction first with
  | nil => exact second
  | cons front _ ih => exact .cons front (ih second)

/-- A faithful run splits at any read. -/
theorem ReadsOf.split {s s' : List β} {pre post : List (Bool × List β)}
    (faithful : ReadsOf s (pre ++ post) s') : ∃ m, ReadsOf s pre m ∧ ReadsOf m post s' := by
  induction pre generalizing s with
  | nil => exact ⟨s, .nil s, faithful⟩
  | cons read pre ih =>
    cases faithful with
    | cons front rest =>
      obtain ⟨m, first, second⟩ := ih rest
      exact ⟨m, .cons front first, second⟩

/-- A peek anywhere in a faithful run shows the front of what the reads after
it that are not peeks return, followed by what is left unread. -/
theorem ReadsOf.peek_prefix {s s' r : List β} {pre post : List (Bool × List β)}
    (faithful : ReadsOf s (pre ++ (true, r) :: post) s') : r <+: consumed post ++ s' := by
  obtain ⟨m, -, second⟩ := faithful.split
  cases second with
  | cons front rest =>
    rw [rest.consumed_append_unread]
    exact front

end Reads

end ChunkedStream
