import Gramine.LibOS.Fs.FileLockPosix

/-!
# The locks of a dentry stay well formed

The lock leader keeps, for each dentry, the locks held and the requests that
wait. `DentFileLocks.Inv` is what every call keeps: the locks are those of
the family in use (sorted POSIX locks, or `flock` locks one per handle), no
two conflict, and each waiting request is of the family in use and conflicts
with a lock. `_posix_lock_set` and `_flock_lock_set` keep the locks
(`fileLockSetLock_locksOk`), a pass over the requests keeps them and the
requests it leaves (`grantRequests_ok`), and the last pass of
`file_lock_process_requests` leaves only blocked requests
(`fileLockProcessRequests_ok`); so every run does (`fileLockRun_inv`).
-/

namespace Gramine.LibOS.Fs

/-! ## `_flock_lock_set` -/

/-- The locks of a dentry whose `flock` family is in use: one per handle. -/
structure FlockLocks (locks : List LibosFileLock) : Prop where
  family : ∀ l ∈ locks, l.family = .flock
  unique : locks.Pairwise fun a b => a.handleId ≠ b.handleId

theorem flockRemove_sublist (handleId : Nat) :
    ∀ locks : List LibosFileLock, List.Sublist (flockRemove handleId locks) locks
  | [] => List.Sublist.slnil
  | cur :: rest => by
    rw [flockRemove]
    split_ifs
    · exact (flockRemove_sublist handleId rest).cons_cons cur
    · exact List.sublist_cons_self cur rest
    · exact (flockRemove_sublist handleId rest).cons_cons cur

/-- On locks none of which is a `flock` lock there is nothing to remove. -/
theorem flockRemove_of_not_flock (handleId : Nat) :
    ∀ locks : List LibosFileLock, (∀ l ∈ locks, l.family ≠ .flock) → flockRemove handleId locks = locks
  | [], _ => rfl
  | cur :: rest, notFlock => by
    rw [flockRemove, if_pos (notFlock cur List.mem_cons_self),
      flockRemove_of_not_flock handleId rest fun l mem => notFlock l (List.mem_cons_of_mem cur mem)]

/-- With one lock per handle, removing the first lock of a handle removes
them all. -/
theorem flockRemove_handleId_ne (handleId : Nat) :
    ∀ locks : List LibosFileLock, FlockLocks locks → ∀ l ∈ flockRemove handleId locks, l.handleId ≠ handleId
  | [], _ => fun l mem => by simp [flockRemove] at mem
  | cur :: rest, ⟨family, unique⟩ => by
    obtain ⟨first, uniqueRest⟩ := List.pairwise_cons.mp unique
    have restOk : FlockLocks rest := ⟨fun l mem => family l (List.mem_cons_of_mem cur mem), uniqueRest⟩
    rw [flockRemove, if_neg (by simp [family cur List.mem_cons_self])]
    split_ifs with found
    · intro l mem
      exact found ▸ (first l mem).symm
    · intro l mem
      rcases List.mem_cons.mp mem with rfl | later
      · exact found
      · exact flockRemove_handleId_ne handleId rest restOk l later

theorem FlockLocks.sublist {kept locks : List LibosFileLock} (ok : FlockLocks locks)
    (sub : List.Sublist kept locks) : FlockLocks kept :=
  ⟨fun l mem => ok.family l (sub.subset mem), ok.unique.sublist sub⟩

theorem ConflictFree.sublist {kept locks : List LibosFileLock} (free : ConflictFree locks)
    (sub : List.Sublist kept locks) : ConflictFree kept :=
  fun a memA b memB => free a (sub.subset memA) b (sub.subset memB)

/-- `_flock_lock_set` of a `flock` lock that conflicts with none of the locks
replaces the handle's lock and keeps one lock per handle and no conflict. -/
theorem flockSet_ok {fl : LibosFileLock} {locks : List LibosFileLock} (flFlock : fl.family = .flock)
    (ok : FlockLocks locks) (free : ConflictFree locks)
    (noConflict : ∀ a ∈ locks, ¬FileLockConflict a fl) :
    FlockLocks (fl :: flockRemove fl.handleId locks) ∧
      ConflictFree (fl :: flockRemove fl.handleId locks) := by
  have sub := flockRemove_sublist fl.handleId locks
  have others := flockRemove_handleId_ne fl.handleId locks ok
  refine ⟨⟨?_, ?_⟩, ?_⟩
  · intro l mem
    rcases List.mem_cons.mp mem with rfl | later
    · exact flFlock
    · exact ok.family l (sub.subset later)
  · exact List.Pairwise.cons (fun l mem => (others l mem).symm) (ok.sublist sub).unique
  · -- the new lock against a kept one, on either side; the test is symmetric for one family
    intro a memA b memB conflict
    rcases List.mem_cons.mp memA with rfl | laterA <;> rcases List.mem_cons.mp memB with rfl | laterB
    · exact not_fileLockConflict_self _ conflict
    · exact noConflict b (sub.subset laterB)
        (conflict.symm (flFlock.trans (ok.family b (sub.subset laterB)).symm))
    · exact noConflict a (sub.subset laterA) conflict
    · exact (free.sublist sub) a laterA b laterB conflict

/-! ## The locks of a family in use -/

/-- The locks of a dentry with its flags: the locks of the family in use, and
none while no family is. -/
structure LocksOk (posixUsed flockUsed : Bool) (locks : List LibosFileLock) : Prop where
  used : ¬(posixUsed = true ∧ flockUsed = true)
  posix : posixUsed = true → PosixLocks locks
  flock : flockUsed = true → FlockLocks locks
  unused : posixUsed = false → flockUsed = false → locks = []
  conflictFree : ConflictFree locks

theorem LocksOk.not_posix {posixUsed flockUsed : Bool} {locks : List LibosFileLock}
    (ok : LocksOk posixUsed flockUsed locks) (unusedPosix : posixUsed = false) :
    ∀ l ∈ locks, l.family ≠ .posix := by
  intro l mem posix
  cases flockUsed with
  | true => exact absurd ((ok.flock rfl).family l mem) (by rw [posix]; decide)
  | false => simp [ok.unused unusedPosix rfl] at mem

theorem LocksOk.not_flock {posixUsed flockUsed : Bool} {locks : List LibosFileLock}
    (ok : LocksOk posixUsed flockUsed locks) (unusedFlock : flockUsed = false) :
    ∀ l ∈ locks, l.family ≠ .flock := by
  intro l mem flock
  cases posixUsed with
  | true => exact absurd ((ok.posix rfl).ok l mem).family (by rw [flock]; decide)
  | false => simp [ok.unused rfl unusedFlock] at mem

/-- `_posix_lock_set` returns an error or the locks of the walk. -/
theorem posixLockSet_fst (mallocOk : Nat → Bool) (fl : LibosFileLock) (locks : List LibosFileLock)
    (allocs : Nat) :
    (posixLockSet mallocOk fl locks allocs).1 = .error (-ENOMEM) ∨
      (posixLockSet mallocOk fl locks allocs).1 = .ok ((posixScan fl fl.start fl.rangeEnd locks).result fl) := by
  unfold posixLockSet
  dsimp only
  split_ifs <;> simp

/-- `_flock_lock_set` returns an error or the locks with the handle's replaced. -/
theorem flockLockSet_fst (mallocOk : Nat → Bool) (fl : LibosFileLock) (locks : List LibosFileLock)
    (allocs : Nat) :
    (flockLockSet mallocOk fl locks allocs).1 = .error (-ENOMEM) ∨
      (fl.type = .unlck ∧ (flockLockSet mallocOk fl locks allocs).1 = .ok (flockRemove fl.handleId locks)) ∨
      (fl.type ≠ .unlck ∧
        (flockLockSet mallocOk fl locks allocs).1 = .ok (fl :: flockRemove fl.handleId locks)) := by
  unfold flockLockSet
  split_ifs with unlock <;> simp [unlock]

/-- The lock a set may add: of a family in use, conflicting with no lock. -/
def SetAllowed (posixUsed flockUsed : Bool) (fl : LibosFileLock) (locks : List LibosFileLock) : Prop :=
  fl.type ≠ .unlck → (fl.family = .posix → posixUsed = true) ∧ (fl.family = .flock → flockUsed = true) ∧
    ∀ a ∈ locks, ¬FileLockConflict a fl

/-- A POSIX set keeps the locks of a dentry: on the POSIX family, by the walk;
on the other, it is an unlock that finds nothing to remove. -/
theorem posixSet_locksOk {posixUsed flockUsed : Bool} {fl : LibosFileLock}
    {locks : List LibosFileLock} (ok : LocksOk posixUsed flockUsed locks) (flPosix : fl.family = .posix)
    (valid : fl.Valid) (allowed : SetAllowed posixUsed flockUsed fl locks) :
    LocksOk posixUsed flockUsed ((posixScan fl fl.start fl.rangeEnd locks).result fl) := by
  unfold LibosFileLock.Valid at valid
  rw [flPosix] at valid
  obtain ⟨-, le, eof⟩ := valid
  cases posixUsed with
  | true =>
    have unusedFlock : flockUsed = false := by simpa using ok.used
    subst unusedFlock
    obtain ⟨posixLocks, free⟩ := posixScan_result_ok flPosix le eof (ok.posix rfl) ok.conflictFree
      fun locking => (allowed locking).2.2
    exact ⟨by simp, fun _ => posixLocks, by simp, by simp, free⟩
  | false =>
    -- no POSIX lock is held, so only an unlock gets here, and it leaves the list
    have unlock : fl.type = .unlck := by
      by_contra locking
      exact absurd ((allowed locking).1 flPosix) (by simp)
    have unchanged : (posixScan fl fl.start fl.rangeEnd locks).result fl = locks := by
      rw [posixScan_of_not_posix fl fl.start fl.rangeEnd locks (ok.not_posix rfl)]
      simp [PosixScan.result, unlock]
    rw [unchanged]
    exact ok

/-- A `flock` set keeps the locks of a dentry. -/
theorem flockSet_locksOk {posixUsed flockUsed : Bool} {fl : LibosFileLock}
    {locks : List LibosFileLock} (ok : LocksOk posixUsed flockUsed locks) (flFlock : fl.family = .flock)
    (allowed : SetAllowed posixUsed flockUsed fl locks) {result : List LibosFileLock}
    (set : (fl.type = .unlck ∧ result = flockRemove fl.handleId locks) ∨
      (fl.type ≠ .unlck ∧ result = fl :: flockRemove fl.handleId locks)) :
    LocksOk posixUsed flockUsed result := by
  rcases set with ⟨unlock, rfl⟩ | ⟨locking, rfl⟩
  · cases flockUsed with
    | true =>
      have sub := flockRemove_sublist fl.handleId locks
      have unusedPosix : posixUsed = false := by simpa using ok.used
      subst unusedPosix
      exact ⟨by simp, by simp, fun _ => (ok.flock rfl).sublist sub, by simp, ok.conflictFree.sublist sub⟩
    | false =>
      rw [flockRemove_of_not_flock fl.handleId locks (ok.not_flock rfl)]
      exact ok
  · obtain ⟨-, flockUsed, noConflict⟩ := allowed locking
    have unusedPosix : posixUsed = false := by simpa [flockUsed flFlock] using ok.used
    obtain ⟨flockLocks, free⟩ := flockSet_ok flFlock (ok.flock (flockUsed flFlock)) ok.conflictFree noConflict
    exact ⟨by simp [unusedPosix], by simp [unusedPosix], fun _ => flockLocks,
      by simp [flockUsed flFlock], free⟩

/-- A set the dentry allows, failed or not, keeps its locks. -/
theorem fileLockSetLock_locksOk (mallocOk : Nat → Bool) {posixUsed flockUsed : Bool}
    {fl : LibosFileLock} {locks : List LibosFileLock} (allocs : Nat)
    (ok : LocksOk posixUsed flockUsed locks) (valid : fl.Valid)
    (allowed : SetAllowed posixUsed flockUsed fl locks) :
    LocksOk posixUsed flockUsed (lockSetResult (fileLockSetLock mallocOk fl locks allocs).1 locks) := by
  unfold fileLockSetLock
  cases family : fl.family with
  | posix =>
    rcases posixLockSet_fst mallocOk fl locks allocs with failed | set
    · rw [failed]
      exact ok
    · rw [set]
      exact posixSet_locksOk ok family valid allowed
  | flock =>
    rcases flockLockSet_fst mallocOk fl locks allocs with failed | ⟨unlock, set⟩ | ⟨locking, set⟩
    · rw [failed]
      exact ok
    · rw [set]
      exact flockSet_locksOk ok family allowed (.inl ⟨unlock, rfl⟩)
    · rw [set]
      exact flockSet_locksOk ok family allowed (.inr ⟨locking, rfl⟩)

theorem PosixLocks.sublist {kept locks : List LibosFileLock} (ok : PosixLocks locks)
    (sub : List.Sublist kept locks) : PosixLocks kept :=
  ⟨fun l mem => ok.ok l (sub.subset mem), ok.sorted.sublist sub⟩

theorem LocksOk.sublist {posixUsed flockUsed : Bool} {kept locks : List LibosFileLock}
    (ok : LocksOk posixUsed flockUsed locks) (sub : List.Sublist kept locks) :
    LocksOk posixUsed flockUsed kept :=
  ⟨ok.used, fun used => (ok.posix used).sublist sub, fun used => (ok.flock used).sublist sub,
    fun unusedPosix unusedFlock => List.eq_nil_of_sublist_nil (ok.unused unusedPosix unusedFlock ▸ sub),
    ok.conflictFree.sublist sub⟩

/-! ## The requests -/

theorem fileLockFindConflict_some {locks : List LibosFileLock} {fl c : LibosFileLock}
    (found : fileLockFindConflict locks fl = some c) : c ∈ locks ∧ FileLockConflict c fl := by
  unfold fileLockFindConflict at found
  exact ⟨List.mem_of_find?_eq_some found, by simpa using List.find?_some found⟩

theorem fileLockFindConflict_none {locks : List LibosFileLock} {fl : LibosFileLock}
    (none : fileLockFindConflict locks fl = none) : ∀ a ∈ locks, ¬FileLockConflict a fl := by
  unfold fileLockFindConflict at none
  intro a mem conflict
  exact List.find?_eq_none.mp none a mem (decide_eq_true conflict)

/-- The requests a dentry keeps: valid locks, not unlocks, of a family in use. -/
def RequestsOk (posixUsed flockUsed : Bool) (requests : List LibosFileLock) : Prop :=
  ∀ r ∈ requests, r.Valid ∧ r.type ≠ .unlck ∧ (r.family = .posix → posixUsed = true) ∧
    (r.family = .flock → flockUsed = true)

theorem RequestsOk.sublist {posixUsed flockUsed : Bool} {kept requests : List LibosFileLock}
    (ok : RequestsOk posixUsed flockUsed requests) (sub : List.Sublist kept requests) :
    RequestsOk posixUsed flockUsed kept :=
  fun r mem => ok r (sub.subset mem)

/-- A request that conflicts with no lock may be set. -/
theorem RequestsOk.setAllowed {posixUsed flockUsed : Bool} {requests locks : List LibosFileLock}
    {request : LibosFileLock} (ok : RequestsOk posixUsed flockUsed requests) (mem : request ∈ requests)
    (none : fileLockFindConflict locks request = none) : SetAllowed posixUsed flockUsed request locks :=
  fun _ => ⟨(ok request mem).2.2.1, (ok request mem).2.2.2, fileLockFindConflict_none none⟩

/-- What a pass over `requests` from the locks `locks` gives: locks of the
family in use, the requests it did not grant, and when it granted none, the
same locks, each request blocked by one of them. -/
structure RequestPass.Ok (posixUsed flockUsed : Bool) (requests locks : List LibosFileLock)
    (pass : RequestPass) : Prop where
  locksOk : LocksOk posixUsed flockUsed pass.fileLocks
  waiting : List.Sublist pass.waiting requests
  unchanged : pass.changed = false →
    pass.fileLocks = locks ∧ ∀ r ∈ pass.waiting, ∃ l ∈ locks, FileLockConflict l r

section Malloc

variable (mallocOk : Nat → Bool) {posixUsed flockUsed : Bool}

/-- One pass over the requests: a request blocked by a lock stays; one that
is not is set, which keeps the locks whether it fails or not, and leaves. -/
theorem grantRequests_ok : ∀ (requests locks : List LibosFileLock) (allocs : Nat),
    LocksOk posixUsed flockUsed locks → RequestsOk posixUsed flockUsed requests →
      (grantRequests mallocOk requests locks allocs).Ok posixUsed flockUsed requests locks
  | [], _, _, ok, _ => ⟨ok, List.Sublist.slnil, fun _ => ⟨rfl, by simp [grantRequests]⟩⟩
  | request :: rest, locks, allocs, ok, requestsOk => by
    have restOk := requestsOk.sublist (List.sublist_cons_self request rest)
    rw [grantRequests]
    split
    · next c found =>
      obtain ⟨locksOk, waiting, unchanged⟩ := grantRequests_ok rest locks allocs ok restOk
      refine ⟨locksOk, waiting.cons_cons request, fun same => ⟨(unchanged same).1, ?_⟩⟩
      intro r mem
      rcases List.mem_cons.mp mem with rfl | later
      · obtain ⟨mem, conflict⟩ := fileLockFindConflict_some found
        exact ⟨c, mem, conflict⟩
      · exact (unchanged same).2 r later
    · next none =>
      have setOk := fileLockSetLock_locksOk mallocOk allocs ok (requestsOk request List.mem_cons_self).1
        (requestsOk.setAllowed List.mem_cons_self none)
      obtain ⟨locksOk, waiting, -⟩ := grantRequests_ok rest _ _ setOk restOk
      exact ⟨locksOk, waiting.cons request, fun granted => absurd granted (by simp)⟩

/-- `file_lock_process_requests` keeps the locks and leaves only requests that
a lock blocks: its last pass granted none. -/
theorem fileLockProcessRequests_ok (requests locks : List LibosFileLock) (allocs : Nat) :
    LocksOk posixUsed flockUsed locks → RequestsOk posixUsed flockUsed requests →
      LocksOk posixUsed flockUsed (fileLockProcessRequests mallocOk requests locks allocs).fileLocks ∧
        List.Sublist (fileLockProcessRequests mallocOk requests locks allocs).waiting requests ∧
        ∀ r ∈ (fileLockProcessRequests mallocOk requests locks allocs).waiting,
          ∃ l ∈ (fileLockProcessRequests mallocOk requests locks allocs).fileLocks, FileLockConflict l r := by
  fun_induction fileLockProcessRequests mallocOk requests locks allocs with
  | case1 requests locks allocs waiting locks' allocs' passed ih =>
    intro ok requestsOk
    have pass := grantRequests_ok mallocOk requests locks allocs ok requestsOk
    rw [passed] at pass
    obtain ⟨locksOk, sub, blocked⟩ := ih pass.locksOk (requestsOk.sublist pass.waiting)
    exact ⟨locksOk, sub.trans pass.waiting, blocked⟩
  | case2 requests locks allocs waiting locks' allocs' passed =>
    intro ok requestsOk
    have pass := grantRequests_ok mallocOk requests locks allocs ok requestsOk
    rw [passed] at pass
    obtain ⟨same, blocked⟩ := pass.unchanged rfl
    dsimp only at same blocked
    subst same
    exact ⟨pass.locksOk, pass.waiting, blocked⟩

end Malloc

/-! ## The entry of a dentry -/

/-- What every call keeps of the entry of a dentry. -/
structure DentFileLocks.Inv (dentFileLocks : DentFileLocks) : Prop where
  locks : LocksOk dentFileLocks.posixUsed dentFileLocks.flockUsed dentFileLocks.fileLocks
  requests : RequestsOk dentFileLocks.posixUsed dentFileLocks.flockUsed dentFileLocks.fileLockRequests
  blocked : ∀ r ∈ dentFileLocks.fileLockRequests, ∃ l ∈ dentFileLocks.fileLocks, FileLockConflict l r

theorem dentFileLocksGc_eq {dentFileLocks dent : DentFileLocks}
    (kept : dentFileLocksGc dentFileLocks = some dent) : dent = dentFileLocks := by
  unfold dentFileLocksGc at kept
  split_ifs at kept
  exact (Option.some.inj kept).symm

@[simp] theorem DentFileLocks.markUsed_fileLocks (dentFileLocks : DentFileLocks) (fl : LibosFileLock) :
    (dentFileLocks.markUsed fl).fileLocks = dentFileLocks.fileLocks := by
  unfold DentFileLocks.markUsed
  split_ifs <;> try split
  all_goals rfl

@[simp] theorem DentFileLocks.markUsed_fileLockRequests (dentFileLocks : DentFileLocks)
    (fl : LibosFileLock) :
    (dentFileLocks.markUsed fl).fileLockRequests = dentFileLocks.fileLockRequests := by
  unfold DentFileLocks.markUsed
  split_ifs <;> try split
  all_goals rfl

/-- Marking touches only the flags. -/
theorem DentFileLocks.markUsed_with (dentFileLocks : DentFileLocks) (fl : LibosFileLock)
    (fileLocks fileLockRequests : List LibosFileLock) :
    { dentFileLocks with fileLocks, fileLockRequests }.markUsed fl =
      { dentFileLocks.markUsed fl with fileLocks, fileLockRequests } := by
  unfold DentFileLocks.markUsed
  split_ifs
  · rfl
  · cases fl.family <;> rfl

/-- Marking keeps the families in use and adds that of a lock. -/
theorem DentFileLocks.markUsed_used (dentFileLocks : DentFileLocks) (fl : LibosFileLock) :
    (dentFileLocks.posixUsed = true ∨ (fl.type ≠ .unlck ∧ fl.family = .posix) →
      (dentFileLocks.markUsed fl).posixUsed = true) ∧
    (dentFileLocks.flockUsed = true ∨ (fl.type ≠ .unlck ∧ fl.family = .flock) →
      (dentFileLocks.markUsed fl).flockUsed = true) := by
  unfold DentFileLocks.markUsed
  split_ifs with unlock
  · simp [unlock]
  · cases family : fl.family <;> simp

/-- Marking the family of a lock the dentry allows keeps its locks. -/
theorem LocksOk.markUsed {dentFileLocks : DentFileLocks} {fl : LibosFileLock}
    {locks : List LibosFileLock} (ok : LocksOk dentFileLocks.posixUsed dentFileLocks.flockUsed locks)
    (allowed : ¬(fl.type ≠ .unlck ∧ ((fl.family = .flock ∧ dentFileLocks.posixUsed = true) ∨
      (fl.family = .posix ∧ dentFileLocks.flockUsed = true)))) :
    LocksOk (dentFileLocks.markUsed fl).posixUsed (dentFileLocks.markUsed fl).flockUsed locks := by
  unfold DentFileLocks.markUsed
  split_ifs with unlock
  · exact ok
  · cases family : fl.family with
    | posix =>
      -- the first POSIX lock of a dentry: no `flock` lock, so no lock at all before
      have unusedFlock : dentFileLocks.flockUsed = false := by simpa [unlock, family] using allowed
      refine ⟨by simp [unusedFlock], fun _ => ?_, by simp [unusedFlock], by simp, ok.conflictFree⟩
      cases used : dentFileLocks.posixUsed
      · rw [ok.unused used unusedFlock]
        exact ⟨by simp, List.Pairwise.nil⟩
      · exact ok.posix used
    | flock =>
      have unusedPosix : dentFileLocks.posixUsed = false := by simpa [unlock, family] using allowed
      refine ⟨by simp [unusedPosix], by simp [unusedPosix], fun _ => ?_, by simp, ok.conflictFree⟩
      cases used : dentFileLocks.flockUsed
      · rw [ok.unused unusedPosix used]
        exact ⟨by simp, List.Pairwise.nil⟩
      · exact ok.flock used

theorem RequestsOk.markUsed {dentFileLocks : DentFileLocks} {fl : LibosFileLock}
    {requests : List LibosFileLock}
    (ok : RequestsOk dentFileLocks.posixUsed dentFileLocks.flockUsed requests) :
    RequestsOk (dentFileLocks.markUsed fl).posixUsed (dentFileLocks.markUsed fl).flockUsed requests := by
  intro r mem
  obtain ⟨valid, locking, posix, flock⟩ := ok r mem
  have used := dentFileLocks.markUsed_used fl
  exact ⟨valid, locking, fun family => used.1 (.inl (posix family)),
    fun family => used.2 (.inl (flock family))⟩

/-- A lock or request of a family the dentry allows, once marked. -/
theorem RequestsOk.cons_markUsed {dentFileLocks : DentFileLocks} {fl : LibosFileLock}
    {requests : List LibosFileLock} (valid : fl.Valid) (locking : fl.type ≠ .unlck)
    (ok : RequestsOk dentFileLocks.posixUsed dentFileLocks.flockUsed requests) :
    RequestsOk (dentFileLocks.markUsed fl).posixUsed (dentFileLocks.markUsed fl).flockUsed (fl :: requests) := by
  intro r mem
  rcases List.mem_cons.mp mem with rfl | later
  · have used := dentFileLocks.markUsed_used r
    exact ⟨valid, locking, fun family => used.1 (.inr ⟨locking, family⟩),
      fun family => used.2 (.inr ⟨locking, family⟩)⟩
  · exact ok.markUsed r later

section Malloc

variable (mallocOk : Nat → Bool)

/-- `file_lock_set_or_add_request` on the entry of a dentry keeps what the
entry keeps: a refused or failed call leaves it, a request that waits is
blocked, and a set is followed by the processing of the requests. -/
theorem setOrAddRequest_inv {fl : LibosFileLock} (wait : Bool) {dentFileLocks dent : DentFileLocks}
    (allocs : Nat) (inv : dentFileLocks.Inv) (valid : fl.Valid)
    (result : (setOrAddRequest mallocOk fl wait dentFileLocks allocs).2.1 = some dent) : dent.Inv := by
  unfold setOrAddRequest at result
  by_cases refused : fl.type ≠ .unlck ∧ ((fl.family = .flock ∧ dentFileLocks.posixUsed = true) ∨
      (fl.family = .posix ∧ dentFileLocks.flockUsed = true))
  · rw [if_pos refused, dentFileLocksGc_eq result] at *
    exact inv
  rw [if_neg refused] at result
  dsimp only at result
  -- only a lock looks for a conflict
  generalize conflictEq : (if fl.type ≠ .unlck then fileLockFindConflict dentFileLocks.fileLocks fl
    else none) = conflict at result
  cases conflict with
  | some c =>
    have locking : fl.type ≠ .unlck := by
      by_contra unlock
      simp [unlock] at conflictEq
    rw [if_pos locking] at conflictEq
    obtain ⟨found, conflict⟩ := fileLockFindConflict_some conflictEq
    dsimp only at result
    split_ifs at result
    · rw [dentFileLocksGc_eq result]
      exact inv
    · rw [dentFileLocksGc_eq result]
      exact inv
    · rw [dentFileLocksGc_eq result, DentFileLocks.markUsed_with]
      refine ⟨LocksOk.markUsed inv.locks refused, RequestsOk.cons_markUsed valid locking inv.requests, ?_⟩
      intro r mem
      rcases List.mem_cons.mp mem with rfl | later
      · exact ⟨c, by simpa using found, conflict⟩
      · exact inv.blocked r later
  | none =>
    dsimp only at result
    split at result
    · rw [dentFileLocksGc_eq result]
      exact inv
    · next locks' allocs' set =>
      rw [dentFileLocksGc_eq result, DentFileLocks.markUsed_with]
      -- the flags are marked first: the set and the requests are of the families then in use
      have marked : LocksOk (dentFileLocks.markUsed fl).posixUsed (dentFileLocks.markUsed fl).flockUsed
          dentFileLocks.fileLocks :=
        LocksOk.markUsed inv.locks refused
      have used := dentFileLocks.markUsed_used fl
      have allowed : SetAllowed (dentFileLocks.markUsed fl).posixUsed
          (dentFileLocks.markUsed fl).flockUsed fl dentFileLocks.fileLocks := by
        intro locking
        rw [if_pos locking] at conflictEq
        exact ⟨fun family => used.1 (.inr ⟨locking, family⟩),
          fun family => used.2 (.inr ⟨locking, family⟩), fileLockFindConflict_none conflictEq⟩
      have setOk := fileLockSetLock_locksOk mallocOk allocs marked valid allowed
      rw [set] at setOk
      obtain ⟨locksOk, sub, blocked⟩ := fileLockProcessRequests_ok mallocOk
        dentFileLocks.fileLockRequests locks' allocs' setOk inv.requests.markUsed
      exact ⟨locksOk, (inv.requests.sublist sub).markUsed, blocked⟩

/-- `file_lock_set_or_add_request` keeps what the entry of a dentry keeps,
and creates an entry that does. -/
theorem fileLockSetOrAddRequest_inv {fl : LibosFileLock} (wait : Bool) {dent : Option DentFileLocks}
    {dentFileLocks : DentFileLocks} (allocs : Nat) (inv : ∀ d, dent = some d → d.Inv)
    (valid : fl.Valid)
    (result : (fileLockSetOrAddRequest mallocOk fl wait dent allocs).2.1 = some dentFileLocks) :
    dentFileLocks.Inv := by
  unfold fileLockSetOrAddRequest at result
  split at result
  · next d => exact setOrAddRequest_inv mallocOk wait allocs (inv d rfl) valid result
  · -- an unlock or a failed allocation creates no entry
    split_ifs at result
    -- a new entry holds nothing
    have empty : DentFileLocks.Inv ⟨false, false, [], []⟩ :=
      ⟨⟨by simp, by simp, by simp, fun _ _ => rfl, fun _ mem => by simp at mem⟩,
        fun _ mem => by simp at mem, fun _ mem => by simp at mem⟩
    exact setOrAddRequest_inv mallocOk wait (allocs + 1) empty valid result

/-- `file_lock_clear_pid_from_dentry` keeps what the entry of a dentry keeps:
the locks and requests left are some of those there were, and the requests
are processed again when a lock went. -/
theorem fileLockClearPidFromDentry_inv (pid : Nat) {dent : Option DentFileLocks}
    {dentFileLocks : DentFileLocks} (allocs : Nat) (inv : ∀ d, dent = some d → d.Inv)
    (result : (fileLockClearPidFromDentry mallocOk pid dent allocs).1 = some dentFileLocks) :
    dentFileLocks.Inv := by
  unfold fileLockClearPidFromDentry at result
  split at result
  · simp at result
  · next d =>
    have dInv := inv d rfl
    have locksSub : List.Sublist (d.fileLocks.filter fun fileLock => !fileLock.ofPid pid) d.fileLocks :=
      List.filter_sublist
    have requestsSub : List.Sublist (d.fileLockRequests.filter fun request => !request.ofPid pid)
        d.fileLockRequests :=
      List.filter_sublist
    dsimp only at result
    split_ifs at result with cleared
    · rw [dentFileLocksGc_eq result]
      obtain ⟨locksOk, sub, blocked⟩ := fileLockProcessRequests_ok mallocOk _ _ allocs
        (dInv.locks.sublist locksSub) (dInv.requests.sublist requestsSub)
      exact ⟨locksOk, (dInv.requests.sublist requestsSub).sublist sub, blocked⟩
    · -- no lock of the pid went, so each request left is blocked by a lock that stays
      rw [← Option.some.inj result]
      refine ⟨dInv.locks.sublist locksSub, dInv.requests.sublist requestsSub, fun r mem => ?_⟩
      obtain ⟨l, found, conflict⟩ := dInv.blocked r (requestsSub.subset mem)
      refine ⟨l, List.mem_filter.mpr ⟨found, ?_⟩, conflict⟩
      simpa using fun ofPid => cleared (List.any_eq_true.mpr ⟨l, found, ofPid⟩)

end Malloc

/-- What every call keeps of the locks of a dentry: the entry, if any. -/
def FileLockState.Inv (s : FileLockState) : Prop :=
  ∀ d, s.dent = some d → d.Inv

/-- One call keeps the invariant. -/
theorem fileLockStep_inv (mallocOk : Nat → Bool) {s : FileLockState} (op : FileLockOp)
    (inv : s.Inv) (valid : op.Valid) : (fileLockStep mallocOk op s).Inv := by
  intro d entry
  cases op with
  | set fl wait =>
    exact fileLockSetOrAddRequest_inv mallocOk wait s.allocs inv valid entry
  | clearPid pid =>
    exact fileLockClearPidFromDentry_inv mallocOk pid s.allocs inv entry

/-- The families a dentry's flags allow: sorted POSIX locks, `flock` locks one
per handle, or no lock while no family is in use. -/
theorem LocksOk.cases {posixUsed flockUsed : Bool} {locks : List LibosFileLock}
    (ok : LocksOk posixUsed flockUsed locks) : PosixLocks locks ∨ FlockLocks locks ∨ locks = [] := by
  cases posixUsed
  · cases flockUsed
    · exact .inr (.inr (ok.unused rfl rfl))
    · exact .inr (.inl (ok.flock rfl))
  · exact .inl (ok.posix rfl)

/-- The locks of a dentry as the lock leader should keep them: POSIX locks
sorted by pid and start, each on a range that does not end before it starts,
apart within a pid and not even adjacent within a pid and a type; one `flock`
lock per handle; never both families; no two locks that conflict; and every
waiting request blocked by a lock. -/
structure DentFileLocks.WellFormed (dentFileLocks : DentFileLocks) : Prop where
  posixRange : ∀ l ∈ dentFileLocks.fileLocks, l.family = .posix → l.start ≤ l.rangeEnd
  posixSorted : (dentFileLocks.fileLocks.filter fun l => l.family = .posix).Pairwise PosixPrecedes
  flockUnique : (dentFileLocks.fileLocks.filter fun l => l.family = .flock).Pairwise
    fun a b => a.handleId ≠ b.handleId
  oneFamily : (∀ l ∈ dentFileLocks.fileLocks, l.family = .posix) ∨
    (∀ l ∈ dentFileLocks.fileLocks, l.family = .flock)
  conflictFree : ConflictFree dentFileLocks.fileLocks
  blocked : ∀ r ∈ dentFileLocks.fileLockRequests, ∃ l ∈ dentFileLocks.fileLocks, FileLockConflict l r

theorem DentFileLocks.Inv.wellFormed {dentFileLocks : DentFileLocks} (inv : dentFileLocks.Inv) :
    dentFileLocks.WellFormed := by
  obtain ⟨locks, -, blocked⟩ := inv
  rcases locks.cases with posix | flock | empty
  · -- the POSIX family: all locks are POSIX locks, none is a `flock` lock
    have family := fun l mem => (posix.ok l mem).family
    have onlyPosix : (dentFileLocks.fileLocks.filter fun l => l.family = .posix) = dentFileLocks.fileLocks :=
      List.filter_eq_self.mpr fun l mem => by simp [family l mem]
    have noFlock : (dentFileLocks.fileLocks.filter fun l => l.family = .flock) = [] :=
      List.filter_eq_nil_iff.mpr fun l mem => by simp [family l mem]
    refine ⟨fun l mem _ => (posix.ok l mem).start_le, by rw [onlyPosix]; exact posix.sorted,
      by rw [noFlock]; exact List.Pairwise.nil, .inl family, locks.conflictFree, blocked⟩
  · have noPosix : (dentFileLocks.fileLocks.filter fun l => l.family = .posix) = [] :=
      List.filter_eq_nil_iff.mpr fun l mem => by simp [flock.family l mem]
    have onlyFlock : (dentFileLocks.fileLocks.filter fun l => l.family = .flock) = dentFileLocks.fileLocks :=
      List.filter_eq_self.mpr fun l mem => by simp [flock.family l mem]
    refine ⟨fun l mem posix => absurd (flock.family l mem) (by rw [posix]; decide),
      by rw [noPosix]; exact List.Pairwise.nil, by rw [onlyFlock]; exact flock.unique, .inr flock.family,
      locks.conflictFree, blocked⟩
  · refine ⟨?_, ?_, ?_, .inl ?_, locks.conflictFree, blocked⟩ <;> simp [empty]

/-- Every run keeps the invariant. -/
theorem fileLockRun_inv {mallocOk : Nat → Bool} {s : FileLockState} (run : FileLockRun mallocOk s) :
    s.Inv := by
  induction run with
  | init => exact fun d entry => by simp at entry
  | step op _ valid ih => exact fileLockStep_inv mallocOk op ih valid

theorem fileLockRun_wellFormed {mallocOk : Nat → Bool} {s : FileLockState}
    (run : FileLockRun mallocOk s) {dentFileLocks : DentFileLocks} (entry : s.dent = some dentFileLocks) :
    dentFileLocks.WellFormed :=
  (fileLockRun_inv run dentFileLocks entry).wellFormed

/-- A write lock of pid 1 on bytes 0 to 9 makes a write lock of pid 2 on
bytes 5 to 14 wait. -/
theorem fileLockRun_wellFormed_waiting :
    (fileLockStep (fun _ => true) (.set ⟨.posix, .wrlck, 5, 14, 2, 0⟩ true)
        (fileLockStep (fun _ => true) (.set ⟨.posix, .wrlck, 0, 9, 1, 0⟩ false) ⟨none, 0⟩)).dent =
      some ⟨true, false, [⟨.posix, .wrlck, 0, 9, 1, 0⟩], [⟨.posix, .wrlck, 5, 14, 2, 0⟩]⟩ ∧
    DentFileLocks.WellFormed
      ⟨true, false, [⟨.posix, .wrlck, 0, 9, 1, 0⟩], [⟨.posix, .wrlck, 5, 14, 2, 0⟩]⟩ := by
  have entry : (fileLockStep (fun _ => true) (.set ⟨.posix, .wrlck, 5, 14, 2, 0⟩ true)
      (fileLockStep (fun _ => true) (.set ⟨.posix, .wrlck, 0, 9, 1, 0⟩ false) ⟨none, 0⟩)).dent =
      some ⟨true, false, [⟨.posix, .wrlck, 0, 9, 1, 0⟩], [⟨.posix, .wrlck, 5, 14, 2, 0⟩]⟩ := by
    decide +kernel
  have first : FileLockOp.Valid (.set ⟨.posix, .wrlck, 0, 9, 1, 0⟩ false) := by
    unfold FileLockOp.Valid LibosFileLock.Valid
    decide
  have second : FileLockOp.Valid (.set ⟨.posix, .wrlck, 5, 14, 2, 0⟩ true) := by
    unfold FileLockOp.Valid LibosFileLock.Valid
    decide
  exact ⟨entry, fileLockRun_wellFormed ((FileLockRun.init.step _ first).step _ second) entry⟩

end Gramine.LibOS.Fs
