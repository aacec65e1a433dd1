import Mathlib

/-!
# The LRU cache of protected files

`lru_cache.c` keeps a hash map from keys to data and a list of the keys, most
recently used first, in step with each other. The model is one list of pairs
in the order of that list, which is what the two hold together. `lruc_find`
leaves the order alone and `lruc_get` moves the entry to the front;
`lruc_add` puts a new key at the front, and `lruc_remove_last` drops the entry
used least recently.
-/

namespace Gramine.Common.ProtectedFiles

/-- The entries of an `lruc_context_t`, most recently used first. -/
abbrev Lruc (α : Type) := List (Nat × α)

variable {α : Type}

/-- `lruc_find(lruc, key)`. -/
def lrucFind (lruc : Lruc α) (key : Nat) : Option α :=
  lruc.lookup key

/-- `lruc_get(lruc, key)`: the data, with its entry moved to the front. -/
def lrucGet (lruc : Lruc α) (key : Nat) : Option α × Lruc α :=
  match lruc.lookup key with
  | none => (none, lruc)
  | some data => (some data, (key, data) :: lruc.filter (·.1 != key))

/-- `lruc_add(lruc, key, data)`; `allocated` is whether its two `calloc`s
succeed. It refuses a key already present. -/
def lrucAdd (lruc : Lruc α) (key : Nat) (data : α) (allocated : Bool) : Option (Lruc α) :=
  if (lruc.lookup key).isSome then none
  else if allocated then some ((key, data) :: lruc)
  else none

/-- `lruc_get_last(lruc)`. -/
def lrucGetLast (lruc : Lruc α) : Option α :=
  lruc.getLast?.map Prod.snd

/-- `lruc_remove_last(lruc)`. -/
def lrucRemoveLast (lruc : Lruc α) : Lruc α :=
  lruc.dropLast

end Gramine.Common.ProtectedFiles
