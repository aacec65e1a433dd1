import Gramine.LibOS.Fs.FileLock

/-!
# The walk of `_posix_lock_set`

On a list of POSIX locks sorted by pid and start, where the locks of one pid
are apart and those of one type do not even touch (`PosixPrecedes` between
any two), `_posix_lock_set` gives such a list again (`posixLockSet_sorted`).
Each lock it leaves is a piece of a lock it found (`posixScan_pieces`), and
every byte of the new lock is a byte of the request or of a lock of the same
pid and type that it merged (`posixScan_spans`); so when the request
conflicts with no lock, no two locks of the result conflict
(`posixLockSet_conflictFree`).
-/

namespace Gramine.LibOS.Fs

/-- `x` is a byte of `l`'s range. -/
def LibosFileLock.Covers (l : LibosFileLock) (x : Nat) : Prop :=
  l.start ≤ x ∧ x ≤ l.rangeEnd

/-- `o` is `r` or a part of it: the same lock on a range inside `r`'s. -/
def LibosFileLock.PieceOf (o r : LibosFileLock) : Prop :=
  o.family = r.family ∧ o.type = r.type ∧ o.pid = r.pid ∧ r.start ≤ o.start ∧
    o.start ≤ o.rangeEnd ∧ o.rangeEnd ≤ r.rangeEnd

/-- `a` comes before `b` in the POSIX list of a dentry: a smaller pid, or the
same pid and a range that ends before `b`'s starts, with a byte between them
when the types are the same. -/
def PosixPrecedes (a b : LibosFileLock) : Prop :=
  a.pid < b.pid ∨ (a.pid = b.pid ∧ a.rangeEnd < b.start ∧ (a.type = b.type → a.rangeEnd + 1 < b.start))

/-- A POSIX lock as a dentry holds it. -/
structure LibosFileLock.PosixOk (l : LibosFileLock) : Prop where
  family : l.family = .posix
  type : l.type ≠ .unlck
  start_le : l.start ≤ l.rangeEnd
  le_eof : l.rangeEnd ≤ FS_LOCK_EOF

attribute [grind] LibosFileLock.Covers PosixPrecedes

theorem PosixPrecedes.trans {a b c : LibosFileLock} (first : PosixPrecedes a b)
    (second : PosixPrecedes b c) (nonempty : b.start ≤ b.rangeEnd) : PosixPrecedes a c := by
  unfold PosixPrecedes at *
  rcases first with below | ⟨samePid, before, gap⟩ <;>
    rcases second with below' | ⟨samePid', before', gap'⟩
  · exact .inl (by omega)
  · exact .inl (by omega)
  · exact .inl (by omega)
  · refine .inr ⟨by omega, by omega, fun sameType => ?_⟩
    omega

/-- What precedes a lock precedes a lock of the same pid and type that
starts later. -/
theorem PosixPrecedes.mono_start {q a b : LibosFileLock} (precedes : PosixPrecedes q a)
    (samePid : b.pid = a.pid) (sameType : b.type = a.type) (startLe : a.start ≤ b.start) :
    PosixPrecedes q b := by
  unfold PosixPrecedes at *
  rw [sameType, samePid]
  rcases precedes with below | ⟨pid, before, gap⟩
  · exact .inl below
  · exact .inr ⟨pid, by omega, fun same => by have := gap same; omega⟩

/-- A lock stays before the pieces of what it was before. -/
theorem PosixPrecedes.of_pieceOf {q o r : LibosFileLock} (precedes : PosixPrecedes q r)
    (piece : o.PieceOf r) : PosixPrecedes q o :=
  precedes.mono_start piece.2.2.1 piece.2.1 piece.2.2.2.1

/-- The pieces of a lock stay before what it was before. -/
theorem PosixPrecedes.of_pieceOf_left {o r c : LibosFileLock} (precedes : PosixPrecedes r c)
    (piece : o.PieceOf r) : PosixPrecedes o c := by
  obtain ⟨-, sameType, samePid, -, -, endLe⟩ := piece
  unfold PosixPrecedes at *
  rw [sameType, samePid]
  rcases precedes with below | ⟨pid, before, gap⟩
  · exact .inl below
  · exact .inr ⟨pid, by omega, fun same => by have := gap same; omega⟩

/-- A lock before the head of a sorted list is before all of it. -/
theorem pairwise_cons_of_precedes {a b : LibosFileLock} {rest : List LibosFileLock}
    (precedes : PosixPrecedes a b) (nonempty : b.start ≤ b.rangeEnd)
    (sorted : (b :: rest).Pairwise PosixPrecedes) : (a :: b :: rest).Pairwise PosixPrecedes := by
  refine List.Pairwise.cons (fun c mem => ?_) sorted
  rcases List.mem_cons.mp mem with rfl | later
  · exact precedes
  · exact precedes.trans (List.rel_of_pairwise_cons sorted later) nonempty

/-- The head of a sorted list may be cut down to a piece of it. -/
theorem pairwise_cons_of_pieceOf {o r : LibosFileLock} {rest : List LibosFileLock}
    (piece : o.PieceOf r) (sorted : (r :: rest).Pairwise PosixPrecedes) :
    (o :: rest).Pairwise PosixPrecedes := by
  obtain ⟨first, sortedRest⟩ := List.pairwise_cons.mp sorted
  exact List.Pairwise.cons (fun c mem => (first c mem).of_pieceOf_left piece) sortedRest

theorem LibosFileLock.pieceOf_refl {r : LibosFileLock} (nonempty : r.start ≤ r.rangeEnd) :
    r.PieceOf r :=
  ⟨rfl, rfl, rfl, Nat.le_refl _, nonempty, Nat.le_refl _⟩

/-! ## Where the walk leaves the list -/

@[simp] theorem PosixScan.keep_start (cur : LibosFileLock) (scan : PosixScan) :
    (scan.keep cur).start = scan.start := rfl

@[simp] theorem PosixScan.keep_rangeEnd (cur : LibosFileLock) (scan : PosixScan) :
    (scan.keep cur).rangeEnd = scan.rangeEnd := rfl

@[simp] theorem PosixScan.skip_start (cur : LibosFileLock) (scan : PosixScan) :
    (scan.skip cur).start = scan.start := by
  unfold PosixScan.skip
  split <;> rfl

@[simp] theorem PosixScan.skip_rangeEnd (cur : LibosFileLock) (scan : PosixScan) :
    (scan.skip cur).rangeEnd = scan.rangeEnd := by
  unfold PosixScan.skip
  split <;> rfl

theorem PosixScan.mem_keep {cur o : LibosFileLock} {scan : PosixScan} :
    o ∈ (scan.keep cur).before ++ (scan.keep cur).after ↔ o = cur ∨ o ∈ scan.before ++ scan.after := by
  simp [PosixScan.keep]

theorem PosixScan.mem_skip {cur o : LibosFileLock} {scan : PosixScan} :
    o ∈ (scan.skip cur).before ++ (scan.skip cur).after ↔ o = cur ∨ o ∈ scan.before ++ scan.after := by
  unfold PosixScan.skip
  split <;> simp only [List.mem_append, List.mem_cons] <;> tauto

theorem PosixScan.mem_result {o fl : LibosFileLock} {scan : PosixScan} :
    o ∈ scan.result fl ↔ o ∈ scan.before ++ scan.after ∨ (fl.type ≠ .unlck ∧ o = scan.newLock fl) := by
  unfold PosixScan.result
  split_ifs with unlock
  · simp [unlock]
  · simp only [List.mem_append, List.mem_cons, ne_eq, unlock, not_false_eq_true, true_and]
    tauto

/-! ## The range of the new lock -/

/-- The range the walk ends with holds the target `[start, rangeEnd]`, ends
by `FS_LOCK_EOF`, and each of its bytes is in the target or in a lock of
`locks` of the request's pid and type. -/
def PosixScan.Spans (scan : PosixScan) (fl : LibosFileLock) (start rangeEnd : Nat)
    (locks : List LibosFileLock) : Prop :=
  scan.start ≤ start ∧ rangeEnd ≤ scan.rangeEnd ∧ scan.rangeEnd ≤ FS_LOCK_EOF ∧
    ∀ x, scan.start ≤ x → x ≤ scan.rangeEnd →
      (start ≤ x ∧ x ≤ rangeEnd) ∨ ∃ r ∈ locks, r.pid = fl.pid ∧ r.type = fl.type ∧ r.Covers x

theorem PosixScan.Spans.cons {scan : PosixScan} {fl cur : LibosFileLock} {start rangeEnd : Nat}
    {rest : List LibosFileLock} (spans : scan.Spans fl start rangeEnd rest) :
    scan.Spans fl start rangeEnd (cur :: rest) := by
  obtain ⟨startLe, leEnd, eof, inside⟩ := spans
  refine ⟨startLe, leEnd, eof, fun x low high => ?_⟩
  rcases inside x low high with target | ⟨r, mem, merged⟩
  · exact .inl target
  · exact .inr ⟨r, List.mem_cons_of_mem cur mem, merged⟩

theorem PosixScan.spans_stop (fl : LibosFileLock) {start rangeEnd : Nat}
    (locks before after : List LibosFileLock) (eof : rangeEnd ≤ FS_LOCK_EOF) :
    PosixScan.Spans ⟨before, start, rangeEnd, after⟩ fl start rangeEnd locks :=
  ⟨Nat.le_refl _, Nat.le_refl _, eof, fun _ low high => .inl ⟨low, high⟩⟩

theorem PosixScan.Spans.keep {scan : PosixScan} {fl cur kept : LibosFileLock}
    {start rangeEnd : Nat} {rest : List LibosFileLock} (spans : scan.Spans fl start rangeEnd rest) :
    (scan.keep kept).Spans fl start rangeEnd (cur :: rest) :=
  spans.cons

theorem PosixScan.Spans.skip {scan : PosixScan} {fl cur : LibosFileLock} {start rangeEnd : Nat}
    {rest : List LibosFileLock} (spans : scan.Spans fl start rangeEnd rest) :
    (scan.skip cur).Spans fl start rangeEnd (cur :: rest) := by
  have spansCons : scan.Spans fl start rangeEnd (cur :: rest) := spans.cons
  obtain ⟨startLe, leEnd, eof, inside⟩ := spansCons
  exact ⟨by simpa using startLe, by simpa using leEnd, by simpa using eof,
    fun x low high => inside x (by simpa using low) (by simpa using high)⟩

/-- Merging `cur` into the target: every byte of the larger range is in the
target or in `cur`, since `cur` overlaps or touches the target. -/
theorem PosixScan.Spans.merge {scan : PosixScan} {fl cur : LibosFileLock} {start rangeEnd : Nat}
    {rest : List LibosFileLock}
    (spans : scan.Spans fl (min start cur.start) (max rangeEnd cur.rangeEnd) rest)
    (samePid : cur.pid = fl.pid) (sameType : cur.type = fl.type) (curEof : cur.rangeEnd ≤ FS_LOCK_EOF)
    (notBefore : ¬(0 < start ∧ cur.rangeEnd < start - 1))
    (notAfter : ¬(rangeEnd < FS_LOCK_EOF ∧ rangeEnd + 1 < cur.start)) (eof : rangeEnd ≤ FS_LOCK_EOF) :
    scan.Spans fl start rangeEnd (cur :: rest) := by
  obtain ⟨startLe, leEnd, scanEof, inside⟩ := spans
  refine ⟨by omega, by omega, scanEof, fun x low high => ?_⟩
  rcases inside x low high with ⟨targetLow, targetHigh⟩ | ⟨r, mem, merged⟩
  · by_cases inTarget : start ≤ x ∧ x ≤ rangeEnd
    · exact .inl inTarget
    · -- the byte is outside the target, so it is in `cur`
      refine .inr ⟨cur, List.mem_cons_self, samePid, sameType, ?_, ?_⟩ <;> omega
  · exact .inr ⟨r, List.mem_cons_of_mem cur mem, merged⟩

/-- The walk from a target of locks that end by `FS_LOCK_EOF` spans it. -/
theorem posixScan_spans (fl : LibosFileLock) (start rangeEnd : Nat) (locks : List LibosFileLock) :
    (∀ r ∈ locks, r.rangeEnd ≤ FS_LOCK_EOF) → start ≤ rangeEnd → rangeEnd ≤ FS_LOCK_EOF →
      (posixScan fl start rangeEnd locks).Spans fl start rangeEnd locks := by
  fun_induction posixScan fl start rangeEnd locks with
  | case1 start rangeEnd => exact fun _ _ eof => PosixScan.spans_stop fl [] [] [] eof
  | case2 start rangeEnd cur rest _ ih =>
    exact fun bounded le eof =>
      (ih (fun r mem => bounded r (List.mem_cons_of_mem cur mem)) le eof).skip
  | case3 start rangeEnd cur rest _ _ ih | case5 start rangeEnd cur rest _ _ _ _ _ ih
  | case8 start rangeEnd cur rest _ _ _ _ _ ih =>
    exact fun bounded le eof =>
      (ih (fun r mem => bounded r (List.mem_cons_of_mem cur mem)) le eof).keep
  | case10 start rangeEnd cur rest _ _ _ _ _ _ _ ih =>
    exact fun bounded le eof =>
      (ih (fun r mem => bounded r (List.mem_cons_of_mem cur mem)) le eof).keep
  | case4 start rangeEnd cur rest | case6 start rangeEnd cur rest | case9 start rangeEnd cur rest
  | case11 start rangeEnd cur rest | case13 start rangeEnd cur rest =>
    exact fun _ _ eof => PosixScan.spans_stop fl _ _ _ eof
  | case7 start rangeEnd cur rest notPosix _ notAbove sameType notBefore notAfter ih =>
    intro bounded le eof
    have curEof := bounded cur List.mem_cons_self
    have samePid : cur.pid = fl.pid := by omega
    exact (ih (fun r mem => bounded r (List.mem_cons_of_mem cur mem)) (by omega)
      (by omega)).merge samePid sameType curEof notBefore notAfter eof
  | case12 start rangeEnd cur rest _ _ _ _ _ _ _ _ _ ih =>
    exact fun bounded le eof =>
      (ih (fun r mem => bounded r (List.mem_cons_of_mem cur mem)) le eof).cons

/-! ## The locks the walk leaves -/

/-- Each lock of `kept` is a piece of a lock of `locks`. -/
def PiecesOf (kept locks : List LibosFileLock) : Prop :=
  ∀ o ∈ kept, ∃ r ∈ locks, o.PieceOf r

theorem PiecesOf.cons_right {kept rest : List LibosFileLock} {cur : LibosFileLock}
    (pieces : PiecesOf kept rest) : PiecesOf kept (cur :: rest) := fun o mem => by
  obtain ⟨r, found, piece⟩ := pieces o mem
  exact ⟨r, List.mem_cons_of_mem cur found, piece⟩

theorem PiecesOf.cons_of_mem {kept locks : List LibosFileLock} {o r : LibosFileLock}
    (piece : o.PieceOf r) (found : r ∈ locks) (pieces : PiecesOf kept locks) :
    PiecesOf (o :: kept) locks := by
  intro o' mem
  rcases List.mem_cons.mp mem with rfl | later
  · exact ⟨r, found, piece⟩
  · exact pieces o' later

theorem piecesOf_self {locks : List LibosFileLock} (nonempty : ∀ r ∈ locks, r.start ≤ r.rangeEnd) :
    PiecesOf locks locks := fun o mem => ⟨o, mem, LibosFileLock.pieceOf_refl (nonempty o mem)⟩

theorem PiecesOf.keep {scan : PosixScan} {rest : List LibosFileLock} {kept cur : LibosFileLock}
    (piece : kept.PieceOf cur) (pieces : PiecesOf (scan.before ++ scan.after) rest) :
    PiecesOf ((scan.keep kept).before ++ (scan.keep kept).after) (cur :: rest) := by
  intro o mem
  rcases PosixScan.mem_keep.mp mem with rfl | later
  · exact ⟨cur, List.mem_cons_self, piece⟩
  · exact pieces.cons_right o later

theorem PiecesOf.skip {scan : PosixScan} {rest : List LibosFileLock} {cur : LibosFileLock}
    (nonempty : cur.start ≤ cur.rangeEnd) (pieces : PiecesOf (scan.before ++ scan.after) rest) :
    PiecesOf ((scan.skip cur).before ++ (scan.skip cur).after) (cur :: rest) := by
  intro o mem
  rcases PosixScan.mem_skip.mp mem with rfl | later
  · exact ⟨o, List.mem_cons_self, LibosFileLock.pieceOf_refl nonempty⟩
  · exact pieces.cons_right o later

/-- Every lock the walk leaves, before or after the new one, is a piece of a
lock it found. -/
theorem posixScan_pieces (fl : LibosFileLock) (start rangeEnd : Nat) (locks : List LibosFileLock) :
    (∀ r ∈ locks, r.start ≤ r.rangeEnd) →
      PiecesOf ((posixScan fl start rangeEnd locks).before ++
        (posixScan fl start rangeEnd locks).after) locks := by
  fun_induction posixScan fl start rangeEnd locks with
  | case1 => exact fun _ o mem => by simp at mem
  | case2 start rangeEnd cur rest _ ih =>
    intro nonempty
    exact (ih fun r mem => nonempty r (List.mem_cons_of_mem cur mem)).skip
      (nonempty cur List.mem_cons_self)
  | case3 start rangeEnd cur rest _ _ ih | case5 start rangeEnd cur rest _ _ _ _ _ ih
  | case8 start rangeEnd cur rest _ _ _ _ _ ih =>
    intro nonempty
    exact (ih fun r mem => nonempty r (List.mem_cons_of_mem cur mem)).keep
      (LibosFileLock.pieceOf_refl (nonempty cur List.mem_cons_self))
  | case4 | case6 | case9 => exact fun nonempty => by simpa using piecesOf_self nonempty
  | case7 start rangeEnd cur rest _ _ _ _ _ _ ih | case12 start rangeEnd cur rest _ _ _ _ _ _ _ _ _ ih =>
    exact fun nonempty => (ih fun r mem => nonempty r (List.mem_cons_of_mem cur mem)).cons_right
  | case10 start rangeEnd cur rest notPosix _ _ _ notBefore _ cutEnd ih =>
    intro nonempty
    -- the lock keeps its bytes before the target
    have piece : ({ cur with rangeEnd := start - 1 } : LibosFileLock).PieceOf cur :=
      ⟨rfl, rfl, rfl, Nat.le_refl _, by dsimp only; omega, by dsimp only; omega⟩
    exact (ih fun r mem => nonempty r (List.mem_cons_of_mem cur mem)).keep piece
  | case11 start rangeEnd cur rest notPosix _ _ _ _ _ _ split =>
    intro nonempty
    simp only [not_not] at notPosix
    -- the lock keeps its bytes on both sides of the target
    have head : ({ cur with rangeEnd := start - 1 } : LibosFileLock).PieceOf cur :=
      ⟨rfl, rfl, rfl, Nat.le_refl _, by dsimp only; omega, by dsimp only; omega⟩
    have tail : (⟨.posix, cur.type, rangeEnd + 1, cur.rangeEnd, cur.pid, 0⟩ : LibosFileLock).PieceOf cur :=
      ⟨notPosix.symm, rfl, rfl, by dsimp only; omega, by dsimp only; omega, Nat.le_refl _⟩
    have rest : PiecesOf rest (cur :: rest) :=
      (piecesOf_self fun r mem => nonempty r (List.mem_cons_of_mem cur mem)).cons_right
    simpa using (rest.cons_of_mem tail List.mem_cons_self).cons_of_mem head List.mem_cons_self
  | case13 start rangeEnd cur rest _ _ _ _ notAfter notCutEnd notSplit notInside =>
    intro nonempty
    -- the lock keeps its bytes after the target
    have piece : ({ cur with start := rangeEnd + 1 } : LibosFileLock).PieceOf cur :=
      ⟨rfl, rfl, rfl, by dsimp only; omega, by dsimp only; omega, Nat.le_refl _⟩
    have rest : PiecesOf rest (cur :: rest) :=
      (piecesOf_self fun r mem => nonempty r (List.mem_cons_of_mem cur mem)).cons_right
    simpa using rest.cons_of_mem piece List.mem_cons_self

/-- A walk over locks none of which is POSIX leaves them all after the new
one. -/
theorem posixScan_of_not_posix (fl : LibosFileLock) (start rangeEnd : Nat) :
    ∀ locks : List LibosFileLock, (∀ r ∈ locks, r.family ≠ .posix) →
      posixScan fl start rangeEnd locks = ⟨[], start, rangeEnd, locks⟩
  | [], _ => by rw [posixScan]
  | cur :: rest, notPosix => by
    have restScan := posixScan_of_not_posix fl start rangeEnd rest
      fun r mem => notPosix r (List.mem_cons_of_mem cur mem)
    rw [posixScan, if_pos (notPosix cur List.mem_cons_self), restScan]
    rfl

/-! ## Order -/

/-- The locks after the walk with the new lock in place, whatever its type;
for `F_UNLCK` the result leaves it out. -/
def PosixScan.withNew (scan : PosixScan) (fl : LibosFileLock) : List LibosFileLock :=
  scan.before ++ scan.newLock fl :: scan.after

attribute [grind] PosixScan.withNew

theorem PosixScan.mem_withNew {o fl : LibosFileLock} {scan : PosixScan} :
    o ∈ scan.withNew fl ↔ o ∈ scan.before ++ scan.after ∨ o = scan.newLock fl := by
  simp only [PosixScan.withNew, List.mem_append, List.mem_cons]
  tauto

theorem PosixScan.withNew_keep (cur fl : LibosFileLock) (scan : PosixScan) :
    (scan.keep cur).withNew fl = cur :: scan.withNew fl := rfl

theorem PosixScan.result_sublist (fl : LibosFileLock) (scan : PosixScan) :
    List.Sublist (scan.result fl) (scan.withNew fl) := by
  unfold PosixScan.result PosixScan.withNew
  split_ifs
  · exact List.Sublist.append_left (List.sublist_cons_self _ _) _
  · exact List.Sublist.refl _

/-- A lock before every lock of the list and before the target is before
every lock the walk leaves and before the new one: the new lock starts at
the target or at a lock of the request's pid and type that it merged. -/
theorem posixScan_precedes {q fl : LibosFileLock} {start rangeEnd : Nat}
    {locks : List LibosFileLock} (nonempty : ∀ r ∈ locks, r.start ≤ r.rangeEnd)
    (bounded : ∀ r ∈ locks, r.rangeEnd ≤ FS_LOCK_EOF) (le : start ≤ rangeEnd)
    (eof : rangeEnd ≤ FS_LOCK_EOF) (beforeLocks : ∀ r ∈ locks, PosixPrecedes q r)
    (beforeTarget : PosixPrecedes q { fl with start }) :
    ∀ o ∈ (posixScan fl start rangeEnd locks).withNew fl, PosixPrecedes q o := by
  intro o mem
  rcases PosixScan.mem_withNew.mp mem with left | rfl
  · obtain ⟨r, found, piece⟩ := posixScan_pieces fl start rangeEnd locks nonempty o left
    exact (beforeLocks r found).of_pieceOf piece
  · obtain ⟨startLe, leEnd, -, inside⟩ := posixScan_spans fl start rangeEnd locks bounded le eof
    rcases inside _ (Nat.le_refl _) (by omega) with ⟨targetLow, -⟩ | ⟨r, found, samePid, sameType, low, -⟩
    · exact beforeTarget.mono_start rfl rfl targetLow
    · exact (beforeLocks r found).mono_start samePid.symm sameType.symm low

/-- A lock the walk keeps before the new one, before the rest of the list
and before the target, heads a sorted list if the rest of the walk gives one. -/
theorem PosixScan.pairwise_keep {kept fl : LibosFileLock} {start rangeEnd : Nat}
    {rest : List LibosFileLock} (ok : ∀ r ∈ rest, r.PosixOk) (le : start ≤ rangeEnd)
    (eof : rangeEnd ≤ FS_LOCK_EOF) (beforeRest : ∀ r ∈ rest, PosixPrecedes kept r)
    (beforeTarget : PosixPrecedes kept { fl with start })
    (sorted : ((posixScan fl start rangeEnd rest).withNew fl).Pairwise PosixPrecedes) :
    (((posixScan fl start rangeEnd rest).keep kept).withNew fl).Pairwise PosixPrecedes := by
  rw [PosixScan.withNew_keep]
  exact List.Pairwise.cons (posixScan_precedes (fun r mem => (ok r mem).start_le)
    (fun r mem => (ok r mem).le_eof) le eof beforeRest beforeTarget) sorted

/-- The walk keeps a sorted list of POSIX locks sorted, with the new lock in
place. -/
theorem posixScan_sorted (fl : LibosFileLock) (start rangeEnd : Nat) (locks : List LibosFileLock) :
    (∀ r ∈ locks, r.PosixOk) → locks.Pairwise PosixPrecedes → start ≤ rangeEnd →
      rangeEnd ≤ FS_LOCK_EOF → ((posixScan fl start rangeEnd locks).withNew fl).Pairwise PosixPrecedes := by
  fun_induction posixScan fl start rangeEnd locks with
  | case1 => exact fun _ _ _ _ => List.pairwise_singleton _ _
  | case2 start rangeEnd cur rest notPosix =>
    exact fun ok _ _ _ => absurd (ok cur List.mem_cons_self).family notPosix
  | case3 start rangeEnd cur rest _ below ih =>
    intro ok sorted le eof
    have okRest := fun r mem => ok r (List.mem_cons_of_mem cur mem)
    obtain ⟨first, sortedRest⟩ := List.pairwise_cons.mp sorted
    exact PosixScan.pairwise_keep okRest le eof first (.inl below) (ih okRest sortedRest le eof)
  | case4 start rangeEnd cur rest _ _ above =>
    intro ok sorted _ _
    exact pairwise_cons_of_precedes (.inl above) (ok cur List.mem_cons_self).start_le sorted
  | case5 start rangeEnd cur rest _ notBelow notAbove _ before ih =>
    intro ok sorted le eof
    have okRest := fun r mem => ok r (List.mem_cons_of_mem cur mem)
    obtain ⟨first, sortedRest⟩ := List.pairwise_cons.mp sorted
    -- same type: the lock ends more than a byte before the target
    have beforeTarget : PosixPrecedes cur { fl with start } :=
      .inr ⟨by dsimp only; omega, by dsimp only; omega, fun _ => by dsimp only; omega⟩
    exact PosixScan.pairwise_keep okRest le eof first beforeTarget (ih okRest sortedRest le eof)
  | case8 start rangeEnd cur rest _ notBelow notAbove otherType before ih =>
    intro ok sorted le eof
    have okRest := fun r mem => ok r (List.mem_cons_of_mem cur mem)
    obtain ⟨first, sortedRest⟩ := List.pairwise_cons.mp sorted
    have beforeTarget : PosixPrecedes cur { fl with start } :=
      .inr ⟨by dsimp only; omega, by dsimp only; omega, fun same => absurd same otherType⟩
    exact PosixScan.pairwise_keep okRest le eof first beforeTarget (ih okRest sortedRest le eof)
  | case6 start rangeEnd cur rest _ notBelow notAbove sameType _ after =>
    intro ok sorted _ _
    have precedes : PosixPrecedes ⟨.posix, fl.type, start, rangeEnd, fl.pid, 0⟩ cur :=
      .inr ⟨by dsimp only; omega, by dsimp only; omega, fun _ => by dsimp only; omega⟩
    exact pairwise_cons_of_precedes precedes (ok cur List.mem_cons_self).start_le sorted
  | case7 start rangeEnd cur rest _ _ _ _ _ _ ih =>
    intro ok sorted le eof
    have curOk := ok cur List.mem_cons_self
    exact ih (fun r mem => ok r (List.mem_cons_of_mem cur mem)) (List.pairwise_cons.mp sorted).2
      (by omega) (by have := curOk.le_eof; omega)
  | case9 start rangeEnd cur rest _ notBelow notAbove otherType _ after =>
    intro ok sorted _ _
    have precedes : PosixPrecedes ⟨.posix, fl.type, start, rangeEnd, fl.pid, 0⟩ cur :=
      .inr ⟨by dsimp only; omega, by dsimp only; omega, fun same => absurd same.symm otherType⟩
    exact pairwise_cons_of_precedes precedes (ok cur List.mem_cons_self).start_le sorted
  | case10 start rangeEnd cur rest _ notBelow notAbove otherType notBefore _ cutEnd ih =>
    intro ok sorted le eof
    have okRest := fun r mem => ok r (List.mem_cons_of_mem cur mem)
    obtain ⟨first, sortedRest⟩ := List.pairwise_cons.mp sorted
    have piece : ({ cur with rangeEnd := start - 1 } : LibosFileLock).PieceOf cur :=
      ⟨rfl, rfl, rfl, Nat.le_refl _, by dsimp only; omega, by dsimp only; omega⟩
    have beforeTarget : PosixPrecedes { cur with rangeEnd := start - 1 } { fl with start } :=
      .inr ⟨by dsimp only; omega, by dsimp only; omega, fun same => absurd same otherType⟩
    exact PosixScan.pairwise_keep okRest le eof (fun r mem => (first r mem).of_pieceOf_left piece)
      beforeTarget (ih okRest sortedRest le eof)
  | case11 start rangeEnd cur rest notPosix notBelow notAbove otherType _ _ _ split =>
    intro ok sorted le _
    simp only [not_not] at notPosix
    have head : ({ cur with rangeEnd := start - 1 } : LibosFileLock).PieceOf cur :=
      ⟨rfl, rfl, rfl, Nat.le_refl _, by dsimp only; omega, by dsimp only; omega⟩
    have tail : (⟨.posix, cur.type, rangeEnd + 1, cur.rangeEnd, cur.pid, 0⟩ : LibosFileLock).PieceOf cur :=
      ⟨notPosix.symm, rfl, rfl, by dsimp only; omega, by dsimp only; omega, Nat.le_refl _⟩
    -- the tail of the split lock, then the new lock, then the head, each before the next
    have sortedTail := pairwise_cons_of_pieceOf tail sorted
    have newBeforeTail : PosixPrecedes ⟨.posix, fl.type, start, rangeEnd, fl.pid, 0⟩
        ⟨.posix, cur.type, rangeEnd + 1, cur.rangeEnd, cur.pid, 0⟩ :=
      .inr ⟨by dsimp only; omega, by dsimp only; omega, fun same => absurd same.symm otherType⟩
    have sortedNew := pairwise_cons_of_precedes newBeforeTail tail.2.2.2.2.1 sortedTail
    have headBeforeNew : PosixPrecedes { cur with rangeEnd := start - 1 }
        ⟨.posix, fl.type, start, rangeEnd, fl.pid, 0⟩ :=
      .inr ⟨by dsimp only; omega, by dsimp only; omega, fun same => absurd same otherType⟩
    exact pairwise_cons_of_precedes headBeforeNew le sortedNew
  | case12 start rangeEnd cur rest _ _ _ _ _ _ _ _ _ ih =>
    intro ok sorted le eof
    exact ih (fun r mem => ok r (List.mem_cons_of_mem cur mem)) (List.pairwise_cons.mp sorted).2 le eof
  | case13 start rangeEnd cur rest _ notBelow notAbove otherType notBefore notAfter notCutEnd
      notSplit notInside =>
    intro ok sorted _ _
    have piece : ({ cur with start := rangeEnd + 1 } : LibosFileLock).PieceOf cur :=
      ⟨rfl, rfl, rfl, by dsimp only; omega, by dsimp only; omega, Nat.le_refl _⟩
    have precedes : PosixPrecedes ⟨.posix, fl.type, start, rangeEnd, fl.pid, 0⟩
        { cur with start := rangeEnd + 1 } :=
      .inr ⟨by dsimp only; omega, by dsimp only; omega, fun same => absurd same.symm otherType⟩
    exact pairwise_cons_of_precedes precedes piece.2.2.2.2.1 (pairwise_cons_of_pieceOf piece sorted)

/-! ## Conflicts -/

/-- No two locks of the list conflict. -/
def ConflictFree (locks : List LibosFileLock) : Prop :=
  ∀ a ∈ locks, ∀ b ∈ locks, ¬FileLockConflict a b

theorem fileLockConflict_posix {a b : LibosFileLock} (posix : b.family = .posix) :
    FileLockConflict a b ↔ a.pid ≠ b.pid ∧ b.start ≤ a.rangeEnd ∧ a.start ≤ b.rangeEnd ∧
      (a.type = .wrlck ∨ b.type = .wrlck) := by
  unfold FileLockConflict
  rw [posix]

theorem fileLockConflict_flock {a b : LibosFileLock} (flock : b.family = .flock) :
    FileLockConflict a b ↔ a.handleId ≠ b.handleId ∧ (a.type = .wrlck ∨ b.type = .wrlck) := by
  unfold FileLockConflict
  rw [flock]

theorem not_fileLockConflict_self (l : LibosFileLock) : ¬FileLockConflict l l := by
  unfold FileLockConflict
  split <;> simp

/-- Between locks of one family the test does not depend on which is the
request. -/
theorem FileLockConflict.symm {a b : LibosFileLock} (sameFamily : a.family = b.family)
    (conflict : FileLockConflict a b) : FileLockConflict b a := by
  cases family : b.family with
  | posix =>
    rw [fileLockConflict_posix family] at conflict
    rw [fileLockConflict_posix (sameFamily.trans family)]
    obtain ⟨otherPid, startLe, leEnd, writes⟩ := conflict
    exact ⟨otherPid.symm, leEnd, startLe, writes.symm⟩
  | flock =>
    rw [fileLockConflict_flock family] at conflict
    rw [fileLockConflict_flock (sameFamily.trans family)]
    obtain ⟨otherHandle, writes⟩ := conflict
    exact ⟨otherHandle.symm, writes.symm⟩

/-- A conflict between pieces is one between the POSIX locks they are
pieces of. -/
theorem FileLockConflict.of_pieceOf {o₁ o₂ r₁ r₂ : LibosFileLock} (first : o₁.PieceOf r₁)
    (second : o₂.PieceOf r₂) (posix : r₂.family = .posix) (conflict : FileLockConflict o₁ o₂) :
    FileLockConflict r₁ r₂ := by
  obtain ⟨-, type₁, pid₁, startLe₁, -, endLe₁⟩ := first
  obtain ⟨family₂, type₂, pid₂, startLe₂, -, endLe₂⟩ := second
  rw [fileLockConflict_posix (family₂.trans posix)] at conflict
  obtain ⟨otherPid, startLe, leEnd, writes⟩ := conflict
  rw [fileLockConflict_posix posix, ← type₁, ← type₂]
  exact ⟨by omega, by omega, by omega, writes⟩

/-- A piece of a lock `r` that conflicts with the new lock of the walk over
the request's range: the byte they share is in the request, or in a lock of
the request's pid and type that was merged, and `r` conflicts with that. -/
theorem PosixScan.Spans.conflict_newLock {scan : PosixScan} {fl o r : LibosFileLock}
    {locks : List LibosFileLock} (spans : scan.Spans fl fl.start fl.rangeEnd locks)
    (flPosix : fl.family = .posix) (le : fl.start ≤ fl.rangeEnd)
    (posix : ∀ r ∈ locks, r.family = .posix) (piece : o.PieceOf r)
    (conflict : FileLockConflict o (scan.newLock fl)) :
    FileLockConflict r fl ∨ ∃ r' ∈ locks, FileLockConflict r r' := by
  obtain ⟨-, type, pid, startLe, nonempty, endLe⟩ := piece
  rw [fileLockConflict_posix rfl] at conflict
  obtain ⟨otherPid, newStartLe, startLeNew, writes⟩ := conflict
  simp only [PosixScan.newLock] at otherPid newStartLe startLeNew writes
  obtain ⟨scanStartLe, leScanEnd, -, inside⟩ := spans
  -- the first byte the piece and the new lock share
  rcases inside (max o.start scan.start) (by omega) (by omega) with
    ⟨low, high⟩ | ⟨r', found, samePid, sameType, low, high⟩
  · left
    rw [fileLockConflict_posix flPosix, ← type]
    exact ⟨by omega, by omega, by omega, writes⟩
  · right
    refine ⟨r', found, ?_⟩
    rw [fileLockConflict_posix (posix r' found), ← type, sameType]
    exact ⟨by omega, by omega, by omega, writes⟩

/-- The locks `_posix_lock_set` leaves conflict with no other when the request
conflicts with none of the locks it found. -/
theorem posixScan_conflictFree {fl : LibosFileLock} {locks : List LibosFileLock}
    (flPosix : fl.family = .posix) (le : fl.start ≤ fl.rangeEnd) (eof : fl.rangeEnd ≤ FS_LOCK_EOF)
    (ok : ∀ r ∈ locks, r.PosixOk) (free : ConflictFree locks)
    (noConflict : fl.type ≠ .unlck → ∀ a ∈ locks, ¬FileLockConflict a fl) :
    ConflictFree ((posixScan fl fl.start fl.rangeEnd locks).result fl) := by
  have posix := fun r mem => (ok r mem).family
  have pieces := posixScan_pieces fl fl.start fl.rangeEnd locks fun r mem => (ok r mem).start_le
  have spans := posixScan_spans fl fl.start fl.rangeEnd locks (fun r mem => (ok r mem).le_eof) le eof
  -- a piece never conflicts with the new lock, on either side
  have apart : ∀ o ∈ (posixScan fl fl.start fl.rangeEnd locks).before ++
      (posixScan fl fl.start fl.rangeEnd locks).after, fl.type ≠ .unlck →
      ¬FileLockConflict o ((posixScan fl fl.start fl.rangeEnd locks).newLock fl) := by
    intro o mem locking conflict
    obtain ⟨r, found, piece⟩ := pieces o mem
    rcases spans.conflict_newLock flPosix le posix piece conflict with withRequest | ⟨r', found', merged⟩
    · exact noConflict locking r found withRequest
    · exact free r found r' found' merged
  intro a memA b memB conflict
  rcases PosixScan.mem_result.mp memA with pieceA | ⟨locking, rfl⟩ <;>
    rcases PosixScan.mem_result.mp memB with pieceB | ⟨lockingB, rfl⟩
  · obtain ⟨r₁, found₁, piece₁⟩ := pieces a pieceA
    obtain ⟨r₂, found₂, piece₂⟩ := pieces b pieceB
    exact free r₁ found₁ r₂ found₂ (conflict.of_pieceOf piece₁ piece₂ (posix r₂ found₂))
  · exact apart a pieceA lockingB conflict
  · -- the new lock and the piece are both POSIX locks, so the test is symmetric
    obtain ⟨r, found, piece⟩ := pieces b pieceB
    exact apart b pieceB locking (conflict.symm (piece.1.trans (posix r found)).symm)
  · exact not_fileLockConflict_self _ conflict

/-! ## `_posix_lock_set` -/

/-- The locks of a dentry whose POSIX family is in use: sorted POSIX locks. -/
structure PosixLocks (locks : List LibosFileLock) : Prop where
  ok : ∀ l ∈ locks, l.PosixOk
  sorted : locks.Pairwise PosixPrecedes

theorem LibosFileLock.PosixOk.of_pieceOf {o r : LibosFileLock} (ok : r.PosixOk)
    (piece : o.PieceOf r) : o.PosixOk := by
  obtain ⟨family, type, -, -, startLe, endLe⟩ := piece
  exact ⟨family.trans ok.family, type ▸ ok.type, startLe, Nat.le_trans endLe ok.le_eof⟩

/-- `_posix_lock_set` keeps a dentry's POSIX locks sorted, whatever the
request. -/
theorem posixScan_result_posixLocks {fl : LibosFileLock} {locks : List LibosFileLock}
    (le : fl.start ≤ fl.rangeEnd) (eof : fl.rangeEnd ≤ FS_LOCK_EOF) (posixLocks : PosixLocks locks) :
    PosixLocks ((posixScan fl fl.start fl.rangeEnd locks).result fl) := by
  obtain ⟨ok, sorted⟩ := posixLocks
  have pieces := posixScan_pieces fl fl.start fl.rangeEnd locks fun r mem => (ok r mem).start_le
  obtain ⟨startLe, leEnd, scanEof, -⟩ :=
    posixScan_spans fl fl.start fl.rangeEnd locks (fun r mem => (ok r mem).le_eof) le eof
  refine ⟨fun l mem => ?_, ?_⟩
  · rcases PosixScan.mem_result.mp mem with piece | ⟨locking, rfl⟩
    · obtain ⟨r, found, piece⟩ := pieces l piece
      exact (ok r found).of_pieceOf piece
    · exact ⟨rfl, locking, by dsimp only [PosixScan.newLock]; omega, scanEof⟩
  · exact (posixScan_sorted fl fl.start fl.rangeEnd locks ok sorted le eof).sublist
      (PosixScan.result_sublist fl _)

/-- `_posix_lock_set` on sorted POSIX locks, none of which conflicts with the
request, leaves sorted POSIX locks none of which conflicts with another. -/
theorem posixScan_result_ok {fl : LibosFileLock} {locks : List LibosFileLock}
    (flPosix : fl.family = .posix) (le : fl.start ≤ fl.rangeEnd) (eof : fl.rangeEnd ≤ FS_LOCK_EOF)
    (posixLocks : PosixLocks locks) (free : ConflictFree locks)
    (noConflict : fl.type ≠ .unlck → ∀ a ∈ locks, ¬FileLockConflict a fl) :
    PosixLocks ((posixScan fl fl.start fl.rangeEnd locks).result fl) ∧
      ConflictFree ((posixScan fl fl.start fl.rangeEnd locks).result fl) :=
  ⟨posixScan_result_posixLocks le eof posixLocks,
    posixScan_conflictFree flPosix le eof posixLocks.ok free noConflict⟩

end Gramine.LibOS.Fs
