import Mathlib

/-!
# Short-circuiting list loops in `Option`

A C loop that may stop at an out-of-bounds read is a `List.allM` in `Option`:
`none` is the read that went wrong, `some false` the early exit of the loop.
These are the facts the loops' callers need: the loop reads in bounds when
every iteration does, and it runs to its end exactly when every iteration
answers `true`. An early `return` of an error inside an `Option` block is
peeled off by `Option.ite_error_eq_some_ok`.
-/

namespace List

variable {α : Type _} {p : α → Option Bool}

/-- A loop whose every iteration reads in bounds reads in bounds. -/
theorem allM_option_isSome :
    ∀ {xs : List α}, (∀ x ∈ xs, (p x).isSome) → (xs.allM p).isSome
  | [], _ => rfl
  | x :: xs, inBounds => by
      obtain ⟨answer, answered⟩ := Option.isSome_iff_exists.mp (inBounds x mem_cons_self)
      have rest : (xs.allM p).isSome :=
        allM_option_isSome fun y member => inBounds y (mem_cons_of_mem x member)
      cases answer <;> simp [answered, rest]

/-- A loop runs to its end exactly when every iteration answers `true`. -/
theorem allM_option_eq_some_true :
    ∀ {xs : List α}, xs.allM p = some true ↔ ∀ x ∈ xs, p x = some true
  | [] => by simp
  | x :: xs => by
      rw [allM_cons, forall_mem_cons]
      cases answered : p x with
      | none => simp
      | some answer =>
          cases answer
          · simp
          · simpa using allM_option_eq_some_true

/-- A map stops at the first call that reads out of bounds. -/
theorem mapM_option_eq_none {β : Type _} {f : α → Option β} :
    ∀ {xs : List α}, (∃ x ∈ xs, f x = none) → xs.mapM f = none
  | [], ⟨_, member, _⟩ => absurd member not_mem_nil
  | x :: xs, ⟨y, member, failed⟩ => by
      rcases mem_cons.mp member with rfl | later
      · simp [failed]
      · cases mapped : f x <;> simp [mapped, mapM_option_eq_none ⟨y, later, failed⟩]

/-- A map whose every call reads in bounds reads in bounds. -/
theorem mapM_option_isSome {β : Type _} {f : α → Option β} :
    ∀ {xs : List α}, (∀ x ∈ xs, (f x).isSome) → (xs.mapM f).isSome
  | [], _ => rfl
  | x :: xs, inBounds => by
      obtain ⟨y, mapped⟩ := Option.isSome_iff_exists.mp (inBounds x mem_cons_self)
      obtain ⟨ys, rest⟩ := Option.isSome_iff_exists.mp
        (mapM_option_isSome fun y member => inBounds y (mem_cons_of_mem x member))
      simp [mapped, rest]

end List

namespace Option

/-- An early `return` of an error is never the success of the whole block. -/
theorem ite_error_eq_some_ok {ε α : Type _} {c : Prop} [Decidable c] {e : ε}
    {rest : Option (Except ε α)} {v : α} :
    (if c then some (.error e) else rest) = some (.ok v) ↔ ¬ c ∧ rest = some (.ok v) := by
  by_cases holds : c <;> simp [holds]

/-- A block reads in bounds when its first read does and the rest does,
whatever the first read returned. -/
theorem isSome_bind_of_isSome {α β : Type _} {x : Option α} {f : α → Option β}
    (first : x.isSome) (rest : ∀ a, (f a).isSome) : (x >>= f).isSome := by
  obtain ⟨a, read⟩ := Option.isSome_iff_exists.mp first
  simpa [read] using rest a

end Option
