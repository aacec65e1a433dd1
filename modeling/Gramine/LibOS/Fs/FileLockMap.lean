import Gramine.LibOS.Fs.FileLockInvariant

/-!
# The POSIX locks of a dentry as a byte map

A dentry's POSIX locks stand for a map from a pid and a byte offset to the
type of the lock that pid holds there, if any (`posixLockMap`); on a sorted
list no two locks of one pid share a byte, so the map is well defined
(`holdsLock_unique`). `_posix_lock_set` refines the update of that map: the
bytes of the request get the requested type for its pid, or none for
`F_UNLCK`, and every other pair of a pid and a byte keeps its value
(`posixLockSet_refines_lockMap`).

Two facts about the walk carry it. The pieces of the request's pid that the
walk leaves hold no byte of the request (`posixScan_avoids`): each was cut
against the target at the time, which only grows. And no other byte is lost
(`posixScan_keeps`): a byte of a lock is held by a piece of it, or, when the
lock had the request's pid and type, by the merged new lock; a byte that only
the widened target covers belongs to the merged lock, and no other lock of the
pid can hold it.
-/

namespace Gramine.LibOS.Fs

/-! ## The byte map -/

/-- Pid `pid` holds a POSIX lock of type `type` on byte `x`. -/
def HoldsLock (locks : List LibosFileLock) (pid x : Nat) (type : FileLockType) : Prop :=
  ∃ l ∈ locks, l.family = .posix ∧ l.pid = pid ∧ l.Covers x ∧ l.type = type

/-- The byte map a dentry's POSIX locks stand for: the type of the lock pid
`pid` holds on byte `x`, if any. -/
def posixLockMap (locks : List LibosFileLock) (pid x : Nat) : Option FileLockType :=
  (locks.find? fun l => l.family = .posix ∧ l.pid = pid ∧ l.start ≤ x ∧ x ≤ l.rangeEnd).map
    LibosFileLock.type

attribute [grind] posixLockMap

/-- In a sorted list two locks of one pid never share a byte. -/
theorem holdsLock_unique {locks : List LibosFileLock} (sorted : locks.Pairwise PosixPrecedes)
    {a b : LibosFileLock} (memA : a ∈ locks) (memB : b ∈ locks) (samePid : a.pid = b.pid) {x : Nat}
    (coversA : a.Covers x) (coversB : b.Covers x) : a.type = b.type := by
  induction sorted with
  | nil => simp at memA
  | @cons c rest first _ ih =>
    unfold LibosFileLock.Covers at coversA coversB
    rcases List.mem_cons.mp memA with rfl | laterA <;> rcases List.mem_cons.mp memB with rfl | laterB
    · rfl
    · have precedes := first b laterB
      unfold PosixPrecedes at precedes
      omega
    · have precedes := first a laterA
      unfold PosixPrecedes at precedes
      omega
    · exact ih laterA laterB

theorem holdsLock_of_posixLockMap {locks : List LibosFileLock} {pid x : Nat} {type : FileLockType}
    (h : posixLockMap locks pid x = some type) : HoldsLock locks pid x type := by
  unfold posixLockMap at h
  obtain ⟨l, found, rfl⟩ := Option.map_eq_some_iff.mp h
  have holds := List.find?_some found
  simp only [decide_eq_true_eq] at holds
  exact ⟨l, List.mem_of_find?_eq_some found, holds.1, holds.2.1, holds.2.2, rfl⟩

theorem posixLockMap_eq_some {locks : List LibosFileLock} (sorted : locks.Pairwise PosixPrecedes)
    {pid x : Nat} {type : FileLockType} (holds : HoldsLock locks pid x type) :
    posixLockMap locks pid x = some type := by
  obtain ⟨l, mem, family, samePid, covers, rfl⟩ := holds
  cases found : posixLockMap locks pid x with
  | none =>
    unfold posixLockMap at found
    rw [Option.map_eq_none_iff, List.find?_eq_none] at found
    exact absurd (by simpa using ⟨family, samePid, covers⟩) (found l mem)
  | some type' =>
    obtain ⟨l', mem', -, samePid', covers', rfl⟩ := holdsLock_of_posixLockMap found
    rw [holdsLock_unique sorted mem' mem (samePid'.trans samePid.symm) covers' covers]

theorem posixLockMap_eq_none {locks : List LibosFileLock} {pid x : Nat}
    (free : ∀ type, ¬HoldsLock locks pid x type) : posixLockMap locks pid x = none := by
  cases found : posixLockMap locks pid x with
  | none => rfl
  | some type => exact absurd (holdsLock_of_posixLockMap found) (free type)

/-- Two sorted lists that hold the same locks on a byte map it alike. -/
theorem posixLockMap_congr {locks locks' : List LibosFileLock} (sorted : locks.Pairwise PosixPrecedes)
    (sorted' : locks'.Pairwise PosixPrecedes) {pid x : Nat}
    (same : ∀ type, HoldsLock locks pid x type ↔ HoldsLock locks' pid x type) :
    posixLockMap locks pid x = posixLockMap locks' pid x := by
  cases found : posixLockMap locks' pid x with
  | none =>
    refine posixLockMap_eq_none fun type holds => ?_
    have onRight := posixLockMap_eq_some sorted' ((same type).mp holds)
    rw [found] at onRight
    cases onRight
  | some type => exact posixLockMap_eq_some sorted ((same type).mpr (holdsLock_of_posixLockMap found))

/-! ## What the walk leaves -/

/-- The walk only widens its target. -/
theorem posixScan_widens (fl : LibosFileLock) (start rangeEnd : Nat) (locks : List LibosFileLock) :
    (posixScan fl start rangeEnd locks).start ≤ start ∧
      rangeEnd ≤ (posixScan fl start rangeEnd locks).rangeEnd := by
  fun_induction posixScan fl start rangeEnd locks with
  | case2 _ _ _ _ _ ih | case3 _ _ _ _ _ _ ih | case5 _ _ _ _ _ _ _ _ _ ih
  | case8 _ _ _ _ _ _ _ _ _ ih | case10 _ _ _ _ _ _ _ _ _ _ _ ih => simpa using ih
  | case7 _ _ _ _ _ _ _ _ _ _ ih => omega
  | case12 _ _ _ _ _ _ _ _ _ _ _ _ _ ih => exact ih
  | _ => simp

/-- No lock of the request's pid that the walk leaves holds a byte of the
target. -/
def PosixScan.Avoids (scan : PosixScan) (fl : LibosFileLock) (start rangeEnd : Nat) : Prop :=
  ∀ o ∈ scan.before ++ scan.after, o.pid = fl.pid → ∀ x, start ≤ x → x ≤ rangeEnd → ¬o.Covers x

theorem PosixScan.Avoids.keep {scan : PosixScan} {fl kept : LibosFileLock} {start rangeEnd : Nat}
    (avoids : scan.Avoids fl start rangeEnd) (apart : kept.pid ≠ fl.pid ∨ kept.rangeEnd < start) :
    (scan.keep kept).Avoids fl start rangeEnd := by
  intro o mem samePid x low high covers
  rcases PosixScan.mem_keep.mp mem with rfl | later
  · unfold LibosFileLock.Covers at covers; omega
  · exact avoids o later samePid x low high covers

theorem PosixScan.Avoids.widen {scan : PosixScan} {fl : LibosFileLock}
    {start rangeEnd start' rangeEnd' : Nat}
    (avoids : scan.Avoids fl start' rangeEnd') (low : start' ≤ start) (high : rangeEnd ≤ rangeEnd') :
    scan.Avoids fl start rangeEnd :=
  fun o mem samePid x xLow xHigh => avoids o mem samePid x (by omega) (by omega)

/-- Locks that start past the target, or belong to another pid, avoid it. -/
theorem avoids_stop {fl : LibosFileLock} {start rangeEnd : Nat} {before after : List LibosFileLock}
    (beforeApart : ∀ o ∈ before, o.pid ≠ fl.pid ∨ o.rangeEnd < start)
    (afterApart : ∀ o ∈ after, o.pid ≠ fl.pid ∨ rangeEnd < o.start) :
    PosixScan.Avoids ⟨before, start, rangeEnd, after⟩ fl start rangeEnd := by
  intro o mem samePid x low high covers
  unfold LibosFileLock.Covers at covers
  rcases List.mem_append.mp mem with left | right
  · rcases beforeApart o left with otherPid | below <;> omega
  · rcases afterApart o right with otherPid | above <;> omega

/-- The locks after one of the request's pid that starts past the target
start past it too, or belong to a later pid. -/
theorem apart_of_precedes {fl cur : LibosFileLock} {rangeEnd : Nat} {rest : List LibosFileLock}
    (ordered : ∀ r ∈ rest, PosixPrecedes cur r) (curOk : cur.start ≤ cur.rangeEnd)
    (curApart : cur.pid ≠ fl.pid ∨ rangeEnd < cur.start) (pidLe : fl.pid ≤ cur.pid) :
    ∀ o ∈ cur :: rest, o.pid ≠ fl.pid ∨ rangeEnd < o.start := by
  intro o mem
  rcases List.mem_cons.mp mem with rfl | later
  · exact curApart
  · unfold PosixPrecedes at ordered
    rcases ordered o later with below | ⟨samePid, before, -⟩
    · omega
    · rcases curApart with otherPid | above
      · omega
      · omega

theorem posixScan_avoids (fl : LibosFileLock) (start rangeEnd : Nat) (locks : List LibosFileLock) :
    (∀ r ∈ locks, r.PosixOk) → locks.Pairwise PosixPrecedes →
      (posixScan fl start rangeEnd locks).Avoids fl start rangeEnd := by
  fun_induction posixScan fl start rangeEnd locks with
  | case1 => exact fun _ _ o mem => by simp at mem
  | case2 start rangeEnd cur rest notPosix =>
    exact fun ok _ => absurd (ok cur List.mem_cons_self).family notPosix
  | case3 start rangeEnd cur rest _ below ih =>
    intro ok sorted
    exact (ih (fun r mem => ok r (List.mem_cons_of_mem cur mem)) (List.pairwise_cons.mp sorted).2).keep
      (.inl (by omega))
  | case4 start rangeEnd cur rest _ _ above =>
    intro ok sorted
    exact avoids_stop (by simp) (apart_of_precedes (List.pairwise_cons.mp sorted).1
      (ok cur List.mem_cons_self).start_le (.inl (by omega)) (by omega))
  | case5 start rangeEnd cur rest _ _ _ _ before ih =>
    intro ok sorted
    exact (ih (fun r mem => ok r (List.mem_cons_of_mem cur mem)) (List.pairwise_cons.mp sorted).2).keep
      (.inr (by omega))
  | case6 start rangeEnd cur rest _ notBelow notAbove _ _ after =>
    intro ok sorted
    exact avoids_stop (by simp) (apart_of_precedes (List.pairwise_cons.mp sorted).1
      (ok cur List.mem_cons_self).start_le (.inr (by omega)) (by omega))
  | case7 start rangeEnd cur rest _ _ _ _ _ _ ih =>
    intro ok sorted
    -- the widened target holds the old one
    exact (ih (fun r mem => ok r (List.mem_cons_of_mem cur mem)) (List.pairwise_cons.mp sorted).2).widen
      (by omega) (by omega)
  | case8 start rangeEnd cur rest _ _ _ _ before ih =>
    intro ok sorted
    exact (ih (fun r mem => ok r (List.mem_cons_of_mem cur mem)) (List.pairwise_cons.mp sorted).2).keep
      (.inr before)
  | case9 start rangeEnd cur rest _ notBelow notAbove _ _ after =>
    intro ok sorted
    exact avoids_stop (by simp) (apart_of_precedes (List.pairwise_cons.mp sorted).1
      (ok cur List.mem_cons_self).start_le (.inr after) (by omega))
  | case10 start rangeEnd cur rest _ _ _ _ _ _ cutEnd ih =>
    intro ok sorted
    exact (ih (fun r mem => ok r (List.mem_cons_of_mem cur mem)) (List.pairwise_cons.mp sorted).2).keep
      (.inr (by dsimp only; omega))
  | case11 start rangeEnd cur rest notPosix notBelow notAbove _ _ _ _ split =>
    intro ok sorted
    have tail : (⟨.posix, cur.type, rangeEnd + 1, cur.rangeEnd, cur.pid, 0⟩ : LibosFileLock).PieceOf cur :=
      ⟨(ok cur List.mem_cons_self).family.symm, rfl, rfl, by dsimp only; omega, by dsimp only; omega,
        Nat.le_refl _⟩
    refine avoids_stop (fun o mem => ?_) (apart_of_precedes
      (fun r mem => ((List.pairwise_cons.mp sorted).1 r mem).of_pieceOf_left tail)
      tail.2.2.2.2.1 (.inr (by dsimp only; omega)) (by dsimp only; omega))
    rw [List.mem_singleton.mp mem]
    exact .inr (by dsimp only; omega)
  | case12 start rangeEnd cur rest _ _ _ _ _ _ _ _ _ ih =>
    intro ok sorted
    exact ih (fun r mem => ok r (List.mem_cons_of_mem cur mem)) (List.pairwise_cons.mp sorted).2
  | case13 start rangeEnd cur rest _ notBelow notAbove _ _ notAfter notCutEnd notSplit notInside =>
    intro ok sorted
    have tail : ({ cur with start := rangeEnd + 1 } : LibosFileLock).PieceOf cur :=
      ⟨rfl, rfl, rfl, by dsimp only; omega, by dsimp only; omega, Nat.le_refl _⟩
    exact avoids_stop (by simp) (apart_of_precedes
      (fun r mem => ((List.pairwise_cons.mp sorted).1 r mem).of_pieceOf_left tail)
      tail.2.2.2.2.1 (.inr (by dsimp only; omega)) (by dsimp only; omega))


/-- Byte `x` of the lock `r` is still held after the walk: by a piece of `r`
that the walk leaves, or by the new lock when `r` has the request's pid and
type. -/
def PosixScan.Keeps (scan : PosixScan) (fl r : LibosFileLock) (x : Nat) : Prop :=
  (∃ o ∈ scan.before ++ scan.after, o.PieceOf r ∧ o.Covers x) ∨
    (r.pid = fl.pid ∧ r.type = fl.type ∧ scan.start ≤ x ∧ x ≤ scan.rangeEnd)

theorem PosixScan.Keeps.keep {scan : PosixScan} {fl r kept : LibosFileLock} {x : Nat}
    (keeps : scan.Keeps fl r x) : (scan.keep kept).Keeps fl r x := by
  rcases keeps with ⟨o, mem, piece, covers⟩ | merged
  · exact .inl ⟨o, PosixScan.mem_keep.mpr (.inr mem), piece, covers⟩
  · exact .inr merged

theorem PosixScan.keeps_of_mem {scan : PosixScan} {fl r o : LibosFileLock} {x : Nat}
    (mem : o ∈ scan.before ++ scan.after) (piece : o.PieceOf r) (covers : o.Covers x) :
    scan.Keeps fl r x :=
  .inl ⟨o, mem, piece, covers⟩

/-- Every byte of a lock that is not a byte of the target held by the
request's pid stays held, by a piece of its lock or by the merged new lock. -/
theorem posixScan_keeps (fl : LibosFileLock) (start rangeEnd : Nat) (locks : List LibosFileLock) :
    (∀ r ∈ locks, r.PosixOk) → locks.Pairwise PosixPrecedes →
      ∀ r ∈ locks, ∀ x, r.Covers x → (r.pid ≠ fl.pid ∨ x < start ∨ rangeEnd < x) →
        (posixScan fl start rangeEnd locks).Keeps fl r x := by
  fun_induction posixScan fl start rangeEnd locks with
  | case1 => exact fun _ _ r mem => by simp at mem
  | case2 start rangeEnd cur rest notPosix =>
    exact fun ok _ => absurd (ok cur List.mem_cons_self).family notPosix
  | case3 start rangeEnd cur rest _ _ ih | case5 start rangeEnd cur rest _ _ _ _ _ ih
  | case8 start rangeEnd cur rest _ _ _ _ _ ih =>
    intro ok sorted r mem x covers outside
    rcases List.mem_cons.mp mem with rfl | later
    · exact PosixScan.keeps_of_mem (PosixScan.mem_keep.mpr (.inl rfl))
        (LibosFileLock.pieceOf_refl (ok r List.mem_cons_self).start_le) covers
    · exact (ih (fun r mem => ok r (List.mem_cons_of_mem cur mem)) (List.pairwise_cons.mp sorted).2
        r later x covers outside).keep
  | case4 start rangeEnd cur rest | case6 start rangeEnd cur rest | case9 start rangeEnd cur rest =>
    intro ok _ r mem x covers _
    exact PosixScan.keeps_of_mem (by simpa using mem) (LibosFileLock.pieceOf_refl (ok r mem).start_le)
      covers
  | case7 start rangeEnd cur rest _ notBelow notAbove sameType notBefore notAfter ih =>
    intro ok sorted r mem x covers outside
    have widens := posixScan_widens fl (min start cur.start) (max rangeEnd cur.rangeEnd) rest
    rcases List.mem_cons.mp mem with rfl | later
    · -- the lock is merged into the new one
      unfold LibosFileLock.Covers at covers
      exact .inr ⟨by omega, sameType, by omega, by omega⟩
    · refine ih (fun r mem => ok r (List.mem_cons_of_mem cur mem)) (List.pairwise_cons.mp sorted).2
        r later x covers ?_
      by_cases samePid : r.pid = fl.pid
      · -- a byte of the widened target outside the old one is a byte of `cur`,
        -- which no other lock of the pid holds
        have precedes := (List.pairwise_cons.mp sorted).1 r later
        have rEof := (ok r (List.mem_cons_of_mem cur later)).le_eof
        unfold PosixPrecedes at precedes
        unfold LibosFileLock.Covers at covers
        omega
      · exact .inl samePid
  | case10 start rangeEnd cur rest _ notBelow notAbove _ _ _ cutEnd ih =>
    intro ok sorted r mem x covers outside
    rcases List.mem_cons.mp mem with rfl | later
    · -- the lock keeps its bytes before the target
      have piece : ({ r with rangeEnd := start - 1 } : LibosFileLock).PieceOf r :=
        ⟨rfl, rfl, rfl, Nat.le_refl _, by dsimp only; omega, by dsimp only; omega⟩
      unfold LibosFileLock.Covers at covers
      exact PosixScan.keeps_of_mem (PosixScan.mem_keep.mpr (.inl rfl)) piece
        ⟨covers.1, by dsimp only; omega⟩
    · exact (ih (fun r mem => ok r (List.mem_cons_of_mem cur mem)) (List.pairwise_cons.mp sorted).2
        r later x covers outside).keep
  | case11 start rangeEnd cur rest notPosix notBelow notAbove _ _ _ _ split =>
    intro ok _ r mem x covers outside
    simp only [not_not] at notPosix
    rcases List.mem_cons.mp mem with rfl | later
    · unfold LibosFileLock.Covers at covers
      by_cases below : x < start
      · have head : ({ r with rangeEnd := start - 1 } : LibosFileLock).PieceOf r :=
          ⟨rfl, rfl, rfl, Nat.le_refl _, by dsimp only; omega, by dsimp only; omega⟩
        exact PosixScan.keeps_of_mem (by simp) head ⟨covers.1, by dsimp only; omega⟩
      · have tail : (⟨.posix, r.type, rangeEnd + 1, r.rangeEnd, r.pid, 0⟩ : LibosFileLock).PieceOf r :=
          ⟨notPosix.symm, rfl, rfl, by dsimp only; omega, by dsimp only; omega, Nat.le_refl _⟩
        exact PosixScan.keeps_of_mem (by simp) tail ⟨by dsimp only; omega, covers.2⟩
    · exact PosixScan.keeps_of_mem (by simp [later]) (LibosFileLock.pieceOf_refl (ok r mem).start_le)
        covers
  | case12 start rangeEnd cur rest _ notBelow notAbove _ _ _ _ _ inside ih =>
    intro ok sorted r mem x covers outside
    rcases List.mem_cons.mp mem with rfl | later
    · -- a lock of the pid inside the target has no byte outside it
      unfold LibosFileLock.Covers at covers
      omega
    · exact ih (fun r mem => ok r (List.mem_cons_of_mem cur mem)) (List.pairwise_cons.mp sorted).2
        r later x covers outside
  | case13 start rangeEnd cur rest _ notBelow notAbove _ _ _ notCutEnd notSplit notInside =>
    intro ok _ r mem x covers outside
    rcases List.mem_cons.mp mem with rfl | later
    · -- the lock keeps its bytes after the target
      unfold LibosFileLock.Covers at covers
      have tail : ({ r with start := rangeEnd + 1 } : LibosFileLock).PieceOf r :=
        ⟨rfl, rfl, rfl, by dsimp only; omega, by dsimp only; omega, Nat.le_refl _⟩
      exact PosixScan.keeps_of_mem (by simp) tail ⟨by dsimp only; omega, covers.2⟩
    · exact PosixScan.keeps_of_mem (by simp [later]) (LibosFileLock.pieceOf_refl (ok r mem).start_le)
        covers


section Walk

variable {fl : LibosFileLock} {locks : List LibosFileLock}

/-- On a byte of the request, its pid holds after the walk exactly the
requested type, and nothing for `F_UNLCK`. -/
theorem holdsLock_result_target (le : fl.start ≤ fl.rangeEnd) (eof : fl.rangeEnd ≤ FS_LOCK_EOF)
    (posixLocks : PosixLocks locks) {x : Nat} (low : fl.start ≤ x) (high : x ≤ fl.rangeEnd)
    (type : FileLockType) :
    HoldsLock ((posixScan fl fl.start fl.rangeEnd locks).result fl) fl.pid x type ↔
      fl.type ≠ .unlck ∧ type = fl.type := by
  obtain ⟨ok, sorted⟩ := posixLocks
  have avoids := posixScan_avoids fl fl.start fl.rangeEnd locks ok sorted
  obtain ⟨startLe, leEnd, -, -⟩ :=
    posixScan_spans fl fl.start fl.rangeEnd locks (fun r mem => (ok r mem).le_eof) le eof
  constructor
  · rintro ⟨l, mem, -, samePid, covers, rfl⟩
    rcases PosixScan.mem_result.mp mem with piece | ⟨locking, rfl⟩
    · exact absurd covers (avoids l piece samePid x low high)
    · exact ⟨locking, rfl⟩
  · rintro ⟨locking, rfl⟩
    exact ⟨_, PosixScan.mem_result.mpr (.inr ⟨locking, rfl⟩), rfl, rfl,
      ⟨by dsimp only [PosixScan.newLock]; omega, by dsimp only [PosixScan.newLock]; omega⟩, rfl⟩

/-- Every other byte, and every byte of another pid, is held after the walk
exactly as before. -/
theorem holdsLock_result_other (le : fl.start ≤ fl.rangeEnd) (eof : fl.rangeEnd ≤ FS_LOCK_EOF)
    (posixLocks : PosixLocks locks) {pid x : Nat} (outside : pid ≠ fl.pid ∨ x < fl.start ∨ fl.rangeEnd < x)
    (type : FileLockType) :
    HoldsLock ((posixScan fl fl.start fl.rangeEnd locks).result fl) pid x type ↔
      HoldsLock locks pid x type := by
  obtain ⟨ok, sorted⟩ := posixLocks
  have pieces := posixScan_pieces fl fl.start fl.rangeEnd locks fun r mem => (ok r mem).start_le
  have spans := posixScan_spans fl fl.start fl.rangeEnd locks (fun r mem => (ok r mem).le_eof) le eof
  constructor
  · rintro ⟨l, mem, family, samePid, covers, rfl⟩
    rcases PosixScan.mem_result.mp mem with kept | ⟨-, rfl⟩
    · -- a piece holds what its lock held
      obtain ⟨r, found, family', type', pid', startLe, -, endLe⟩ := pieces l kept
      unfold LibosFileLock.Covers at covers
      exact ⟨r, found, family'.symm.trans family, pid'.symm.trans samePid, ⟨by omega, by omega⟩,
        type'.symm⟩
    · -- a byte of the new lock outside the request was a byte of a merged lock
      obtain ⟨-, -, -, inside⟩ := spans
      rcases inside x covers.1 covers.2 with ⟨targetLow, targetHigh⟩ |
          ⟨r, found, pid', type', rCovers⟩
      · simp only [PosixScan.newLock] at samePid
        omega
      · exact ⟨r, found, (ok r found).family, pid'.trans samePid, rCovers, type'⟩
  · rintro ⟨r, found, family, samePid, covers, rfl⟩
    rcases posixScan_keeps fl fl.start fl.rangeEnd locks ok sorted r found x covers
        (by rw [samePid]; exact outside) with ⟨o, kept, piece, oCovers⟩ | ⟨pid', type', low, high⟩
    · obtain ⟨family', type', pid', -⟩ := piece
      exact ⟨o, PosixScan.mem_result.mpr (.inl kept), family'.trans family, pid'.trans samePid, oCovers,
        type'⟩
    · -- the byte is in the merged new lock, of the lock's type
      refine ⟨_, PosixScan.mem_result.mpr (.inr ⟨type' ▸ (ok r found).type, rfl⟩), rfl,
        pid'.symm.trans samePid, ⟨low, high⟩, type'.symm⟩

end Walk


theorem posixLockSet_refines_lockMap (mallocOk : Nat → Bool) {fl : LibosFileLock}
    {locks : List LibosFileLock} (le : fl.start ≤ fl.rangeEnd) (eof : fl.rangeEnd ≤ FS_LOCK_EOF)
    (posixLocks : PosixLocks locks) (allocs : Nat) :
    (∀ result, (posixLockSet mallocOk fl locks allocs).1 = .ok result →
      (∀ x, fl.start ≤ x → x ≤ fl.rangeEnd →
        posixLockMap result fl.pid x = if fl.type = .unlck then none else some fl.type) ∧
      ∀ pid x, (pid ≠ fl.pid ∨ x < fl.start ∨ fl.rangeEnd < x) →
        posixLockMap result pid x = posixLockMap locks pid x) ∧
    ∀ err, (posixLockSet mallocOk fl locks allocs).1 = .error err →
      err = -ENOMEM ∧ lockSetResult (posixLockSet mallocOk fl locks allocs).1 locks = locks := by
  have resultLocks := posixScan_result_posixLocks le eof posixLocks
  refine ⟨fun result set => ?_, fun err set => ?_⟩
  · rcases posixLockSet_fst mallocOk fl locks allocs with failed | succeeded
    · rw [failed] at set; cases set
    rw [succeeded] at set
    cases set
    refine ⟨fun x low high => ?_, fun pid x outside => ?_⟩
    · by_cases unlocked : fl.type = .unlck
      · rw [if_pos unlocked]
        exact posixLockMap_eq_none fun type holds =>
          ((holdsLock_result_target le eof posixLocks low high type).mp holds).1 unlocked
      · rw [if_neg unlocked]
        exact posixLockMap_eq_some resultLocks.sorted
          ((holdsLock_result_target le eof posixLocks low high fl.type).mpr ⟨unlocked, rfl⟩)
    · exact posixLockMap_congr resultLocks.sorted posixLocks.sorted
        (holdsLock_result_other le eof posixLocks outside)
  · rcases posixLockSet_fst mallocOk fl locks allocs with failed | succeeded
    · rw [failed] at set ⊢
      cases set
      exact ⟨rfl, rfl⟩
    · rw [succeeded] at set; cases set

theorem posixLockSet_refines_lockMap_write_over_read :
    (5 : Nat) ≤ 14 ∧ 14 ≤ FS_LOCK_EOF ∧ PosixLocks [⟨.posix, .rdlck, 0, 9, 1, 0⟩] ∧
    ((∀ result, (posixLockSet (fun _ => true) ⟨.posix, .wrlck, 5, 14, 1, 0⟩
          [⟨.posix, .rdlck, 0, 9, 1, 0⟩] 0).1 = .ok result →
        (∀ x, 5 ≤ x → x ≤ 14 → posixLockMap result 1 x =
          if FileLockType.wrlck = .unlck then none else some FileLockType.wrlck) ∧
        ∀ pid x, (pid ≠ 1 ∨ x < 5 ∨ 14 < x) →
          posixLockMap result pid x = posixLockMap [⟨.posix, .rdlck, 0, 9, 1, 0⟩] pid x) ∧
      ∀ err, (posixLockSet (fun _ => true) ⟨.posix, .wrlck, 5, 14, 1, 0⟩
          [⟨.posix, .rdlck, 0, 9, 1, 0⟩] 0).1 = .error err →
        err = -ENOMEM ∧ lockSetResult (posixLockSet (fun _ => true) ⟨.posix, .wrlck, 5, 14, 1, 0⟩
          [⟨.posix, .rdlck, 0, 9, 1, 0⟩] 0).1 [⟨.posix, .rdlck, 0, 9, 1, 0⟩] =
            [⟨.posix, .rdlck, 0, 9, 1, 0⟩]) :=
  have posixLocks : PosixLocks [⟨.posix, .rdlck, 0, 9, 1, 0⟩] :=
    ⟨fun l mem => by rw [List.mem_singleton.mp mem]; exact ⟨rfl, by decide, by decide, by decide⟩,
      List.pairwise_singleton _ _⟩
  ⟨by decide, by decide, posixLocks,
    posixLockSet_refines_lockMap (fun _ => true) (by decide) (by decide) posixLocks 0⟩

end Gramine.LibOS.Fs
