import Gramine.LibOS.Fs.FileLockInvariant

/-!
# Record locks of `fcntl`: `flock_to_file_lock` and `F_GETLK`

`fcntl(F_SETLK)`, `F_SETLKW` and `F_GETLK` describe a byte range by a
`struct flock`: an origin chosen by `l_whence` (the start of the file, the
current position, or the end of the file), a signed `l_start` from it, and a
signed `l_len`, where a negative length counts back from the start and zero
means "to the end of the file". `flock_to_file_lock` turns that into the
inclusive range `[start, end]` of a POSIX lock, with `FS_LOCK_EOF` as the end
of a range that runs to the end of the file; `F_GETLK` writes a lock back as
`SEEK_SET`, its start, and its length (zero for `FS_LOCK_EOF`).

The origin is added to `l_start`, and the length to the result, with
`__builtin_add_overflow` into a `uint64_t`: the check is that the sum in the
integers fits in 64 unsigned bits. `flockLockSpec bound` states the ranges of
`man fcntl` in the integers with the offsets bounded by `bound`; Linux bounds
them by `OFF_MAX`, and `flock_to_file_lock` computes exactly
`flockLockSpec (2 ^ 64 - 1)`. On the requests Linux accepts the two agree, and
`F_GETLK` writes the lock back as a request that reads as the same lock; past
`OFF_MAX` the code accepts requests that Linux refuses, and writes their locks
back with a negative start.
-/

namespace Gramine.LibOS.Sys

open Gramine.LibOS.Fs

/-- `F_RDLCK`, `F_WRLCK` and `F_UNLCK` as the `short` of `l_type`. -/
def F_RDLCK : Int16 := 0
def F_WRLCK : Int16 := 1
def F_UNLCK : Int16 := 2

/-- `SEEK_SET`, `SEEK_CUR` and `SEEK_END` as the `short` of `l_whence`. -/
def SEEK_SET : Int16 := 0
def SEEK_CUR : Int16 := 1
def SEEK_END : Int16 := 2

/-- The largest `off_t`. -/
def OFF_MAX : Nat := 2 ^ 63 - 1

/-- `struct flock`. -/
structure Flock where
  lType : Int16
  lWhence : Int16
  lStart : Int64
  lLen : Int64
  lPid : Int32
  deriving DecidableEq, Repr

/-- What `flock_to_file_lock` asks of the handle's file system:
`seek(hdl, 0, SEEK_CUR)`, whose negative answer is an error, and `hstat`,
which fails or gives `st_size`; `none` is a file system without the
operation. -/
structure LockOrigin where
  seek : Option Int64
  hstat : Option (Except Int Int64)

/-- The lock type of `l_type`, if it is one. -/
def flockLockType (lType : Int16) : Option FileLockType :=
  if lType = F_RDLCK then some .rdlck
  else if lType = F_WRLCK then some .wrlck
  else if lType = F_UNLCK then some .unlck
  else none

/-- The `l_type` of a lock type. -/
def fileLockTypeValue : FileLockType → Int16
  | .rdlck => F_RDLCK
  | .wrlck => F_WRLCK
  | .unlck => F_UNLCK

/-- The `switch (fl->l_whence)` of `flock_to_file_lock`: the origin of the
range. `st_size` is asserted non-negative and stored into a `uint64_t`. -/
def lockOrigin (lWhence : Int16) (fs : LockOrigin) : Except Int UInt64 :=
  if lWhence = SEEK_SET then .ok 0
  else if lWhence = SEEK_CUR then
    match fs.seek with
    | none => .error (-EINVAL)
    | some pos => if pos < 0 then .error pos.toInt else .ok pos.toUInt64
  else if lWhence = SEEK_END then
    match fs.hstat with
    | none => .error (-EINVAL)
    | some (.error ret) => .error ret
    | some (.ok stSize) => .ok stSize.toUInt64
  else .error (-EINVAL)

/-- `__builtin_add_overflow(a, b, &r)` into a `uint64_t`: the sum in the
integers, when it fits. -/
def addOverflowU64 (a b : Int) : Option UInt64 :=
  if 0 ≤ a + b ∧ a + b < 2 ^ 64 then some (UInt64.ofNat (a + b).toNat) else none

/-- The range from the moved origin: `[origin .. origin + len - 1]`,
`[origin + len .. origin - 1]`, or `[origin .. EOF]`. -/
def flockRangeFrom (origin : UInt64) (lLen : Int64) : Except Int (UInt64 × UInt64) :=
  if lLen > 0 then
    match addOverflowU64 origin.toNat (lLen - 1).toInt with
    | none => .error (-EOVERFLOW)
    | some rangeEnd => .ok (origin, rangeEnd)
  else if lLen < 0 then
    match addOverflowU64 origin.toNat lLen.toInt with
    | none => .error (-EINVAL)
    | some start =>
      match addOverflowU64 origin.toNat (-1) with
      | none => .error (-EINVAL)
      | some rangeEnd => .ok (start, rangeEnd)
  else .ok (origin, UInt64.ofNat FS_LOCK_EOF)

/-- The range of `flock_to_file_lock` from the origin of `l_whence`. -/
def flockRange (origin : UInt64) (lStart lLen : Int64) : Except Int (UInt64 × UInt64) :=
  match addOverflowU64 origin.toNat lStart.toInt with
  | none => .error (if lStart > 0 then -EOVERFLOW else -EINVAL)
  | some origin => flockRangeFrom origin lLen

/-- `flock_to_file_lock(fl, hdl, file_lock)`; `pid` is `g_process.pid`. -/
def flockToFileLock (fl : Flock) (fs : LockOrigin) (pid : Nat) : Except Int LibosFileLock :=
  match flockLockType fl.lType with
  | none => .error (-EINVAL)
  | some type => do
    let origin ← lockOrigin fl.lWhence fs
    let (start, rangeEnd) ← flockRange origin fl.lStart fl.lLen
    pure { family := .posix, type, start := start.toNat, rangeEnd := rangeEnd.toNat, pid, handleId := 0 }

/-- What `F_GETLK` writes into `fl` for the lock `fileLock2` that
`file_lock_get` answers: only the type when it is `F_UNLCK`. The `uint64_t`
start and length are stored into the `off_t` fields. -/
def getlkFlock (fl : Flock) (fileLock2 : LibosFileLock) : Flock :=
  let fl := { fl with lType := fileLockTypeValue fileLock2.type }
  if fileLock2.type ≠ .unlck then
    { fl with
      lWhence := SEEK_SET
      lStart := (UInt64.ofNat fileLock2.start).toInt64
      lLen :=
        -- a range until the end of the file is written as `l_len == 0`
        if fileLock2.rangeEnd = FS_LOCK_EOF then 0
        else (UInt64.ofNat fileLock2.rangeEnd - UInt64.ofNat fileLock2.start + 1).toInt64
      lPid := Int32.ofNat fileLock2.pid }
  else fl

/-- `fcntl(fd, F_GETLK, fl)` once `fl` is checked to be readable and writable
user memory and the handle to have a dentry, whose locks are `locks`
(`file_lock_get` in the process that keeps them). -/
def fcntlGetlk (fl : Flock) (fs : LockOrigin) (pid : Nat) (locks : List LibosFileLock) :
    Except Int Flock := do
  let fileLock ← flockToFileLock fl fs pid
  if fileLock.type = .unlck then .error (-EINVAL)
  else
    let fileLock2 := (fileLockFindConflict locks fileLock).getD { fileLock with type := .unlck }
    pure (getlkFlock fl fileLock2)

attribute [grind] OFF_MAX addOverflowU64 getlkFlock

section Spec

/-- The range from the moved origin `s` as `man fcntl` gives it, in the
integers, with offsets up to `bound`. -/
def lockRangeFrom (bound : Nat) (s lLen : Int) : Except Int (Nat × Nat) :=
  if 0 < lLen then
    if bound < s + lLen - 1 then .error (-EOVERFLOW) else .ok (s.toNat, (s + lLen - 1).toNat)
  else if lLen < 0 then
    if s + lLen < 0 then .error (-EINVAL) else .ok ((s + lLen).toNat, (s - 1).toNat)
  else .ok (s.toNat, FS_LOCK_EOF)

/-- The range of a request from `origin`, in the integers, with offsets up to `bound`. -/
def lockRange (bound origin : Nat) (lStart lLen : Int) : Except Int (Nat × Nat) :=
  let s := origin + lStart
  if s < 0 then .error (-EINVAL)
  else if bound < s then .error (-EOVERFLOW)
  else lockRangeFrom bound s lLen

/-- The lock a `struct flock` asks for, with the ranges of `man fcntl` in the
integers and offsets up to `bound`; Linux's bound is `OFF_MAX`. -/
def flockLockSpec (bound : Nat) (fl : Flock) (fs : LockOrigin) (pid : Nat) :
    Except Int LibosFileLock :=
  match flockLockType fl.lType with
  | none => .error (-EINVAL)
  | some type => do
    let origin ← lockOrigin fl.lWhence fs
    let range ← lockRange bound origin.toNat fl.lStart.toInt fl.lLen.toInt
    pure { family := .posix, type, start := range.1, rangeEnd := range.2, pid, handleId := 0 }

attribute [grind] lockRangeFrom lockRange flockLockSpec

end Spec

section Arithmetic

theorem toNat_addOverflowU64 {a b : Int} {r : UInt64} (h : addOverflowU64 a b = some r) :
    (r.toNat : Int) = a + b := by
  unfold addOverflowU64 at h
  split at h
  · cases h
    rename_i fits
    rw [UInt64.toNat_ofNat', Nat.mod_eq_of_lt (by omega)]
    omega
  · cases h

theorem addOverflowU64_eq_none {a b : Int} :
    addOverflowU64 a b = none ↔ a + b < 0 ∨ 2 ^ 64 ≤ a + b := by
  unfold addOverflowU64
  split <;> simp <;> omega

theorem int64_pos_iff {x : Int64} : 0 < x ↔ 0 < x.toInt := by
  rw [Int64.lt_iff_toInt_lt, Int64.toInt_zero]

theorem int64_neg_iff {x : Int64} : x < 0 ↔ x.toInt < 0 := by
  rw [Int64.lt_iff_toInt_lt, Int64.toInt_zero]

theorem toInt_sub_one {x : Int64} (pos : 0 < x.toInt) : (x - 1).toInt = x.toInt - 1 := by
  rw [Int64.toInt_sub, Int64.toInt_one]
  have := x.toInt_lt
  exact Int.bmod_eq_of_le (by omega) (by omega)

theorem toInt_toInt64_ofNat {n : Nat} (h : n < 2 ^ 63) : (UInt64.ofNat n).toInt64.toInt = n := by
  show (Int64.ofNat n).toInt = n
  rw [Int64.toInt_ofNat']
  exact Int.bmod_eq_of_le (by omega) (by simp [Int64.size]; omega)

theorem flockLockType_value (type : FileLockType) :
    flockLockType (fileLockTypeValue type) = some type := by
  cases type <;> decide

end Arithmetic

section Refinement

/-- From a moved origin that fits, the checks of the length are the integer
ones with the bound `2 ^ 64 - 1`. -/
theorem flockRangeFrom_eq_lockRangeFrom (origin : UInt64) (lLen : Int64) :
    (flockRangeFrom origin lLen).map (fun r => (r.1.toNat, r.2.toNat)) =
      lockRangeFrom (2 ^ 64 - 1) origin.toNat lLen.toInt := by
  have originLt := origin.toNat_lt
  unfold flockRangeFrom lockRangeFrom
  by_cases pos : 0 < lLen
  · have posInt := int64_pos_iff.mp pos
    rw [if_pos pos, if_pos posInt, toInt_sub_one posInt]
    cases added : addOverflowU64 origin.toNat (lLen.toInt - 1) with
    | none =>
      have := addOverflowU64_eq_none.mp added
      rw [if_pos (by omega)]
      rfl
    | some rangeEnd =>
      have endEq := toNat_addOverflowU64 added
      have := rangeEnd.toNat_lt
      rw [if_neg (by omega)]
      simp only [Except.map, Except.ok.injEq, Prod.mk.injEq]
      omega
  have notPos : ¬ 0 < lLen.toInt := fun h => pos (int64_pos_iff.mpr h)
  rw [if_neg pos, if_neg notPos]
  by_cases neg : lLen < 0
  · have negInt := int64_neg_iff.mp neg
    rw [if_pos neg, if_pos negInt]
    cases backward : addOverflowU64 origin.toNat lLen.toInt with
    | none =>
      have := addOverflowU64_eq_none.mp backward
      rw [if_pos (by omega)]
      rfl
    | some start =>
      have startEq := toNat_addOverflowU64 backward
      -- the start is at least `0`, so the origin is at least `1`
      cases last : addOverflowU64 origin.toNat (-1) with
      | none =>
        have := addOverflowU64_eq_none.mp last
        omega
      | some rangeEnd =>
        have endEq := toNat_addOverflowU64 last
        have := rangeEnd.toNat_lt
        rw [if_neg (by omega)]
        simp only [Except.map, Except.ok.injEq, Prod.mk.injEq]
        omega
  · have notNeg : ¬ lLen.toInt < 0 := fun h => neg (int64_neg_iff.mpr h)
    rw [if_neg neg, if_neg notNeg]
    simp only [Except.map, Except.ok.injEq, Prod.mk.injEq]
    exact ⟨by omega, by decide⟩

/-- The range `flock_to_file_lock` computes with `__builtin_add_overflow` is
the integer range with offsets up to `2 ^ 64 - 1`. -/
theorem flockRange_eq_lockRange (origin : UInt64) (lStart lLen : Int64) :
    (flockRange origin lStart lLen).map (fun r => (r.1.toNat, r.2.toNat)) =
      lockRange (2 ^ 64 - 1) origin.toNat lStart.toInt lLen.toInt := by
  have originLt := origin.toNat_lt
  unfold flockRange lockRange
  cases moved : addOverflowU64 origin.toNat lStart.toInt with
  | none =>
    obtain below | above := addOverflowU64_eq_none.mp moved
    · -- below zero: `l_start` is negative
      have notPos : ¬ 0 < lStart := by rw [int64_pos_iff]; omega
      rw [if_neg notPos, if_pos below]
      rfl
    · -- past `2 ^ 64`: `l_start` is positive
      have pos : 0 < lStart := by rw [int64_pos_iff]; omega
      rw [if_pos pos, if_neg (by omega), if_pos (by omega)]
      rfl
  | some moved' =>
    have movedEq := toNat_addOverflowU64 moved
    have := moved'.toNat_lt
    dsimp only
    rw [if_neg (show ¬ (origin.toNat : Int) + lStart.toInt < 0 by omega),
      if_neg (show ¬ ((2 ^ 64 - 1 : Nat) : Int) < origin.toNat + lStart.toInt by omega),
      flockRangeFrom_eq_lockRangeFrom, ← movedEq]

theorem flockToFileLock_eq_spec (fl : Flock) (fs : LockOrigin) (pid : Nat) :
    flockToFileLock fl fs pid = flockLockSpec (2 ^ 64 - 1) fl fs pid := by
  unfold flockToFileLock flockLockSpec
  cases flockLockType fl.lType with
  | none => rfl
  | some type =>
    cases lockOrigin fl.lWhence fs with
    | error e => rfl
    | ok origin =>
      dsimp only [bind, Except.bind]
      rw [← flockRange_eq_lockRange]
      cases flockRange origin fl.lStart fl.lLen <;> rfl

end Refinement

section Bounds

theorem lockRange_mono {bound bound' origin : Nat} {lStart lLen : Int} {range : Nat × Nat}
    (h : lockRange bound origin lStart lLen = .ok range) (le : bound ≤ bound') :
    lockRange bound' origin lStart lLen = .ok range := by
  unfold lockRange lockRangeFrom at *
  dsimp only at *
  by_cases below : (origin : Int) + lStart < 0
  · rw [if_pos below] at h; cases h
  rw [if_neg below] at h ⊢
  by_cases above : (bound : Int) < origin + lStart
  · rw [if_pos above] at h; cases h
  rw [if_neg above] at h
  rw [if_neg (show ¬ (bound' : Int) < origin + lStart by omega)]
  by_cases pos : 0 < lLen
  · rw [if_pos pos] at h ⊢
    by_cases overflows : (bound : Int) < origin + lStart + lLen - 1
    · rw [if_pos overflows] at h; cases h
    rw [if_neg overflows] at h
    rw [if_neg (show ¬ (bound' : Int) < origin + lStart + lLen - 1 by omega)]
    exact h
  · rw [if_neg pos] at h ⊢; exact h

theorem flockLockSpec_eq_ok {bound : Nat} {fl : Flock} {fs : LockOrigin} {pid : Nat}
    {lock : LibosFileLock} (h : flockLockSpec bound fl fs pid = .ok lock) :
    ∃ type origin, flockLockType fl.lType = some type ∧ lockOrigin fl.lWhence fs = .ok origin ∧
      lockRange bound origin.toNat fl.lStart.toInt fl.lLen.toInt = .ok (lock.start, lock.rangeEnd) ∧
      lock = ⟨.posix, type, lock.start, lock.rangeEnd, pid, 0⟩ := by
  unfold flockLockSpec at h
  cases typeEq : flockLockType fl.lType with
  | none => rw [typeEq] at h; cases h
  | some type =>
    rw [typeEq] at h
    cases originEq : lockOrigin fl.lWhence fs with
    | error e => rw [originEq] at h; cases h
    | ok origin =>
      rw [originEq] at h
      dsimp only [bind, Except.bind] at h
      cases rangeEq : lockRange bound origin.toNat fl.lStart.toInt fl.lLen.toInt with
      | error e => rw [rangeEq] at h; cases h
      | ok range =>
        rw [rangeEq] at h
        cases h
        exact ⟨type, origin, rfl, rfl, rangeEq, rfl⟩

theorem flockLockSpec_mono {bound bound' : Nat} {fl : Flock} {fs : LockOrigin} {pid : Nat}
    {lock : LibosFileLock} (h : flockLockSpec bound fl fs pid = .ok lock) (le : bound ≤ bound') :
    flockLockSpec bound' fl fs pid = .ok lock := by
  obtain ⟨type, origin, typeEq, originEq, rangeEq, lockEq⟩ := flockLockSpec_eq_ok h
  unfold flockLockSpec
  rw [typeEq, originEq]
  dsimp only [bind, Except.bind]
  rw [lockRange_mono rangeEq le, lockEq]
  rfl

/-- The ranges Linux accepts start at most at `OFF_MAX`, and run to the end of
the file or are at most `OFF_MAX` bytes long. -/
theorem lockRange_bounds {origin : Nat} {lStart lLen : Int} {range : Nat × Nat}
    (h : lockRange OFF_MAX origin lStart lLen = .ok range) (lower : -2 ^ 63 ≤ lLen)
    (upper : lLen < 2 ^ 63) :
    range.1 ≤ OFF_MAX ∧ (range.2 = FS_LOCK_EOF ∨ range.1 ≤ range.2 ∧ range.2 - range.1 < OFF_MAX) := by
  unfold lockRange lockRangeFrom OFF_MAX at *
  dsimp only at h
  by_cases below : (origin : Int) + lStart < 0
  · rw [if_pos below] at h; cases h
  rw [if_neg below] at h
  by_cases above : ((2 ^ 63 - 1 : Nat) : Int) < origin + lStart
  · rw [if_pos above] at h; cases h
  rw [if_neg above] at h
  by_cases pos : 0 < lLen
  · rw [if_pos pos] at h
    by_cases overflows : ((2 ^ 63 - 1 : Nat) : Int) < origin + lStart + lLen - 1
    · rw [if_pos overflows] at h; cases h
    rw [if_neg overflows] at h
    cases h
    omega
  rw [if_neg pos] at h
  by_cases neg : lLen < 0
  · rw [if_pos neg] at h
    by_cases under : (origin : Int) + lStart + lLen < 0
    · rw [if_pos under] at h; cases h
    rw [if_neg under] at h
    cases h
    omega
  rw [if_neg neg] at h
  cases h
  exact ⟨by omega, .inl rfl⟩

/-- Linux's range, written back by `F_GETLK` from `SEEK_SET`, reads as the
same range. -/
theorem lockRange_getlk {start rangeEnd : Nat} (startLe : start ≤ OFF_MAX)
    (ends : rangeEnd = FS_LOCK_EOF ∨ start ≤ rangeEnd ∧ rangeEnd - start < OFF_MAX) :
    lockRange (2 ^ 64 - 1) 0 start
        (if rangeEnd = FS_LOCK_EOF then 0 else ((rangeEnd - start + 1 : Nat) : Int)) =
      .ok (start, rangeEnd) := by
  unfold lockRange lockRangeFrom OFF_MAX at *
  dsimp only
  rw [if_neg (by omega), if_neg (by omega)]
  by_cases eof : rangeEnd = FS_LOCK_EOF
  · rw [if_pos eof, if_neg (by omega), if_neg (by omega), eof]
    simp
  · rw [if_neg eof]
    have bounded := ends.resolve_left eof
    have eofVal : FS_LOCK_EOF = 2 ^ 64 - 1 := rfl
    rw [if_pos (by omega), if_neg (by omega)]
    simp only [Except.ok.injEq, Prod.mk.injEq]
    omega

end Bounds

section GetLock

variable {fl : Flock} {fs : LockOrigin} {pid : Nat}

theorem flockToFileLock_of_spec {lock : LibosFileLock}
    (h : flockLockSpec OFF_MAX fl fs pid = .ok lock) : flockToFileLock fl fs pid = .ok lock := by
  rw [flockToFileLock_eq_spec]
  exact flockLockSpec_mono h (by unfold OFF_MAX; omega)

/-- For every request Linux accepts, `flock_to_file_lock` builds Linux's lock,
and what `F_GETLK` writes back for it has a non-negative start and length and
reads, from any handle, as the same lock. -/
theorem getlkFlock_roundTrip {lock : LibosFileLock}
    (h : flockLockSpec OFF_MAX fl fs pid = .ok lock) (locked : lock.type ≠ .unlck)
    (fl' : Flock) (fs' : LockOrigin) (pid' : Nat) :
    flockToFileLock fl fs pid = .ok lock ∧
      0 ≤ (getlkFlock fl' lock).lStart.toInt ∧ 0 ≤ (getlkFlock fl' lock).lLen.toInt ∧
      flockToFileLock (getlkFlock fl' lock) fs' pid' = .ok { lock with pid := pid' } := by
  obtain ⟨type, origin, -, -, rangeEq, lockEq⟩ := flockLockSpec_eq_ok h
  obtain ⟨startLe, ends⟩ := lockRange_bounds rangeEq (Int64.le_toInt _) (Int64.toInt_lt _)
  have offMax : OFF_MAX = 2 ^ 63 - 1 := rfl
  have start : (getlkFlock fl' lock).lStart.toInt = lock.start := by
    simp only [getlkFlock, if_pos locked]
    exact toInt_toInt64_ofNat (by omega)
  have len : (getlkFlock fl' lock).lLen.toInt =
      if lock.rangeEnd = FS_LOCK_EOF then 0 else ((lock.rangeEnd - lock.start + 1 : Nat) : Int) := by
    simp only [getlkFlock, if_pos locked]
    by_cases eof : lock.rangeEnd = FS_LOCK_EOF
    · rw [if_pos eof, if_pos eof]; rfl
    · rw [if_neg eof, if_neg eof]
      have bounded := ends.resolve_left eof
      rw [← UInt64.ofNat_sub bounded.1, ← UInt64.ofNat_one, ← UInt64.ofNat_add]
      exact toInt_toInt64_ofNat (by omega)
  refine ⟨flockToFileLock_of_spec h, by omega, by rw [len]; split <;> omega, ?_⟩
  have typeVal : (getlkFlock fl' lock).lType = fileLockTypeValue lock.type := by
    simp only [getlkFlock, if_pos locked]
  have whence : (getlkFlock fl' lock).lWhence = SEEK_SET := by
    simp only [getlkFlock, if_pos locked]
  have fromStart : lockOrigin SEEK_SET fs' = .ok 0 := if_pos rfl
  rw [flockToFileLock_eq_spec]
  unfold flockLockSpec
  rw [typeVal, flockLockType_value, whence, fromStart]
  dsimp only [bind, Except.bind]
  rw [start, len, UInt64.toNat_zero, lockRange_getlk startLe ends, lockEq]
  rfl

theorem getlkFlock_roundTrip_ten_bytes :
    flockLockSpec OFF_MAX ⟨F_WRLCK, SEEK_SET, 10, 5, 0⟩ ⟨none, none⟩ 1 =
        .ok ⟨.posix, .wrlck, 10, 14, 1, 0⟩ ∧
      flockToFileLock ⟨F_WRLCK, SEEK_SET, 10, 5, 0⟩ ⟨none, none⟩ 1 = .ok ⟨.posix, .wrlck, 10, 14, 1, 0⟩ ∧
      0 ≤ (getlkFlock ⟨F_RDLCK, SEEK_END, 0, 0, 0⟩ ⟨.posix, .wrlck, 10, 14, 1, 0⟩).lStart.toInt ∧
      0 ≤ (getlkFlock ⟨F_RDLCK, SEEK_END, 0, 0, 0⟩ ⟨.posix, .wrlck, 10, 14, 1, 0⟩).lLen.toInt ∧
      flockToFileLock (getlkFlock ⟨F_RDLCK, SEEK_END, 0, 0, 0⟩ ⟨.posix, .wrlck, 10, 14, 1, 0⟩)
          ⟨none, none⟩ 2 = .ok { (⟨.posix, .wrlck, 10, 14, 1, 0⟩ : LibosFileLock) with pid := 2 } :=
  have accepted : flockLockSpec OFF_MAX ⟨F_WRLCK, SEEK_SET, 10, 5, 0⟩ ⟨none, none⟩ 1 =
      .ok ⟨.posix, .wrlck, 10, 14, 1, 0⟩ := by decide
  ⟨accepted, getlkFlock_roundTrip accepted (by decide) ⟨F_RDLCK, SEEK_END, 0, 0, 0⟩ ⟨none, none⟩ 2⟩

/-- What `F_GETLK` answers: "unlocked" when no lock of the dentry conflicts
with the request, and otherwise a conflicting lock, written back. -/
theorem fcntlGetlk_spec {locks : List LibosFileLock} {written : Flock}
    (h : fcntlGetlk fl fs pid locks = .ok written) :
    ∃ fileLock, flockToFileLock fl fs pid = .ok fileLock ∧ fileLock.type ≠ .unlck ∧
      ((∀ c ∈ locks, ¬ FileLockConflict c fileLock) ∧ written = { fl with lType := F_UNLCK } ∨
        ∃ c ∈ locks, FileLockConflict c fileLock ∧ written = getlkFlock fl c) := by
  unfold fcntlGetlk at h
  cases lockEq : flockToFileLock fl fs pid with
  | error e => rw [lockEq] at h; cases h
  | ok fileLock =>
    rw [lockEq] at h
    dsimp only [bind, Except.bind] at h
    by_cases unlocked : fileLock.type = .unlck
    · rw [if_pos unlocked] at h; cases h
    rw [if_neg unlocked] at h
    cases h
    refine ⟨fileLock, rfl, unlocked, ?_⟩
    cases found : fileLockFindConflict locks fileLock with
    | none =>
      -- `file_lock_get` answers only the type `F_UNLCK`
      exact .inl ⟨fileLockFindConflict_none found, by simp [getlkFlock]; rfl⟩
    | some c =>
      obtain ⟨member, conflict⟩ := fileLockFindConflict_some found
      exact .inr ⟨c, member, conflict, rfl⟩

end GetLock

/-- A write lock from the current position `OFF_MAX`, `OFF_MAX` bytes further,
to the end of the file. -/
def pastOffMax : Flock := ⟨F_WRLCK, SEEK_CUR, 0x7fffffffffffffff, 0, 0⟩

/-- A handle at position `OFF_MAX`, on a file system without `hstat`. -/
def atOffMax : LockOrigin := ⟨some 0x7fffffffffffffff, none⟩

theorem flockToFileLock_accepts_past_off_max :
    flockLockSpec OFF_MAX ⟨F_WRLCK, SEEK_SET, 0x7fffffffffffffff, 2, 0⟩ ⟨none, none⟩ 1 =
        .error (-EOVERFLOW) ∧
      flockToFileLock ⟨F_WRLCK, SEEK_SET, 0x7fffffffffffffff, 2, 0⟩ ⟨none, none⟩ 1 =
        .ok ⟨.posix, .wrlck, OFF_MAX, OFF_MAX + 1, 1, 0⟩ ∧
      flockLockSpec OFF_MAX pastOffMax atOffMax 1 = .error (-EOVERFLOW) ∧
      flockToFileLock pastOffMax atOffMax 1 = .ok ⟨.posix, .wrlck, 2 ^ 64 - 2, FS_LOCK_EOF, 1, 0⟩ ∧
      (getlkFlock pastOffMax ⟨.posix, .wrlck, 2 ^ 64 - 2, FS_LOCK_EOF, 1, 0⟩).lStart.toInt = -2 ∧
      flockToFileLock (getlkFlock pastOffMax ⟨.posix, .wrlck, 2 ^ 64 - 2, FS_LOCK_EOF, 1, 0⟩)
        atOffMax 1 = .error (-EINVAL) := by
  decide

end Gramine.LibOS.Sys
