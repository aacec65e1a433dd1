import Mathlib
import Gramine.Library.ByteCopy

/-!
# Lists of values stored in a memory

`Stored mem addr vs` says that the memory holds the list `vs` from `addr` on.
A record that a program lays out field after field is then one list appended
from its fields, and the predicate splits over the append (`stored_append`).
`store` writes a list; a later write elsewhere leaves what is stored alone
(`Stored.frame`), and a copy carries what its source holds to its destination
(`Stored.copy`). With these, a layout built from both ends of a buffer and then
moved is described by two appended lists and a handful of frame conditions.
-/

namespace ByteCopy

variable {α : Type}

/-- The memory holds `vs` from `addr` on. -/
def Stored (mem : Nat → α) (addr : Nat) (vs : List α) : Prop :=
  ∀ k (inside : k < vs.length), mem (addr + k) = vs[k]

/-- The memory after the list `vs` is written from `dst` on. -/
def store [Inhabited α] (mem : Nat → α) (dst : Nat) (vs : List α) : Nat → α :=
  place mem dst (fun k => vs.getD k default) vs.length

variable {mem m₁ m₂ : Nat → α} {addr : Nat} {vs xs ys : List α}

@[simp] theorem stored_nil : Stored mem addr [] := fun _ inside => absurd inside (Nat.not_lt_zero _)

/-- A stored list is its first part stored, then the rest right after it. -/
theorem stored_append :
    Stored mem addr (xs ++ ys) ↔ Stored mem addr xs ∧ Stored mem (addr + xs.length) ys := by
  constructor
  · intro stored
    refine ⟨fun k inside => ?_, fun k inside => ?_⟩
    · rw [stored k (by simp only [List.length_append]; omega), List.getElem_append_left inside]
    · have atK := stored (xs.length + k) (by simp only [List.length_append]; omega)
      rw [← Nat.add_assoc, List.getElem_append_right (by omega)] at atK
      simpa only [Nat.add_sub_cancel_left] using atK
  · rintro ⟨first, second⟩ k inside
    by_cases left : k < xs.length
    · rw [first k left, List.getElem_append_left left]
    · have inRest : k - xs.length < ys.length := by
        simp only [List.length_append] at inside
        omega
      have atK := second (k - xs.length) inRest
      rw [Nat.add_assoc, Nat.add_sub_cancel' (by omega)] at atK
      rw [atK, List.getElem_append_right (by omega)]

theorem stored_store [Inhabited α] (mem : Nat → α) (dst : Nat) (vs : List α) :
    Stored (store mem dst vs) dst vs := by
  intro k inside
  simp only [store, place]
  rw [if_pos (by omega), Nat.add_sub_cancel_left, List.getD_eq_getElem _ _ inside]

theorem store_writesWithin [Inhabited α] {dst : Nat} :
    WritesWithin (fun a => dst ≤ a ∧ a < dst + vs.length) mem (store mem dst vs) :=
  place_writesWithin

namespace Stored

/-- A write outside the stored list leaves it stored. -/
theorem frame {allowed : Nat → Prop} (stored : Stored m₁ addr vs) (writes : WritesWithin allowed m₁ m₂)
    (apart : ∀ k < vs.length, ¬ allowed (addr + k)) : Stored m₂ addr vs :=
  fun k inside => (writes _ (apart k inside)).trans (stored k inside)

/-- A copy of at least the list's length carries it to the destination. -/
theorem copy {dst len : Nat} (stored : Stored mem addr vs) (within : vs.length ≤ len) :
    Stored (ByteCopy.copy mem dst addr len) dst vs := by
  intro k inside
  rw [copy_apply_of_mem (by omega) (by omega), Nat.add_sub_cancel_left]
  exact stored k inside

end Stored

end ByteCopy
