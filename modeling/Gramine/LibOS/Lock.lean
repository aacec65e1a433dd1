import Mathlib
/-!
# `libos_lock.h`

A `struct libos_lock` is an auto-clear event, set while the lock is free, and
the thread id of its owner. `lock` waits for the event, which the wait clears,
and records the owner; `unlock` clears the owner and sets the event, whoever
calls it. Nothing orders the threads that wait for the event.
-/

namespace Gramine.LibOS

/-- `struct libos_lock`: whether its event is set, which it is while the lock
is free, and `l->owner`, `0` for none. -/
structure LibosLock where
  set : Bool
  owner : Nat
  deriving DecidableEq, Repr

/-- `lock(l)` by the thread `tid`: it waits for the event, which the wait
clears. -/
def LibosLock.lock (l : LibosLock) (tid : Nat) : Option LibosLock :=
  if l.set then some ⟨false, tid⟩ else none

/-- `unlock(l)`, whoever calls it. -/
def LibosLock.unlock (_ : LibosLock) : LibosLock :=
  ⟨true, 0⟩

attribute [grind] LibosLock.lock LibosLock.unlock

theorem LibosLock.lock_eq_some {l l' : LibosLock} {tid : Nat} (h : l.lock tid = some l') :
    l.set = true ∧ l' = ⟨false, tid⟩ := by
  unfold LibosLock.lock at h
  split_ifs at h with set
  · exact ⟨set, (Option.some.inj h).symm⟩

end Gramine.LibOS
