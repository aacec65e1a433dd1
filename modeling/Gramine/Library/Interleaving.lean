import Mathlib
/-!
# Threads as a list of positions

A system of threads that interleave their steps keeps where each thread is as
a list, the thread being its index, and a step of one thread is a `List.set`.
Invariants of such a system count the threads at each position: these lemmas
say how a count changes when one thread moves, and that a position held by at
most one thread is held by one index only.
-/

namespace List

variable {α : Type _} {l : List α} {i j : Nat} {a b : α}

theorem countP_set_add (p : α → Bool) (at_i : l[i]? = some a) (b : α) :
    (l.set i b).countP p + (if p a then 1 else 0) = l.countP p + (if p b then 1 else 0) := by
  obtain ⟨inside, rfl⟩ := getElem?_eq_some_iff.mp at_i
  rw [countP_set inside]
  have : (if p l[i] then 1 else 0) ≤ l.countP p := by
    split
    · exact countP_pos_iff.mpr ⟨_, getElem_mem inside, by assumption⟩
    · exact Nat.zero_le _
  omega

theorem count_set_add [DecidableEq α] (at_i : l[i]? = some a) (b c : α) :
    (l.set i b).count c + (if a = c then 1 else 0) = l.count c + (if b = c then 1 else 0) := by
  simp only [count_eq_countP]
  have := countP_set_add (· == c) at_i b
  simpa only [beq_iff_eq] using this

theorem count_pos_of_getElem? [DecidableEq α] (at_i : l[i]? = some a) : 0 < l.count a :=
  count_pos_iff.mpr (mem_of_getElem? at_i)

theorem sum_map_set_add (f : α → Nat) :
    ∀ {l : List α} {i : Nat}, l[i]? = some a → ∀ b, ((l.set i b).map f).sum + f a = (l.map f).sum + f b
  | [], _, at_i, _ => by simp at at_i
  | x :: xs, 0, at_i, b => by
    simp only [getElem?_cons_zero, Option.some.injEq] at at_i
    subst at_i
    simp only [set_cons_zero, map_cons, sum_cons]
    omega
  | x :: xs, i + 1, at_i, b => by
    simp only [getElem?_cons_succ] at at_i
    have rest := sum_map_set_add f at_i b
    simp only [set_cons_succ, map_cons, sum_cons]
    omega

theorem sum_map_ite_of_forall (p : α → Bool) (f : α → Nat) {c : Nat} :
    ∀ {l : List α}, (∀ x ∈ l, p x = true → f x = c) →
      (l.map fun x => if p x then f x else 0).sum = l.countP p * c
  | [], _ => by simp
  | x :: xs, same => by
    have rest := sum_map_ite_of_forall p f fun y member => same y (mem_cons_of_mem x member)
    simp only [map_cons, sum_cons, countP_cons, rest]
    cases px : p x
    · simp
    · simp only [if_true, same x mem_cons_self px]
      rw [Nat.add_mul, Nat.one_mul]
      omega

/-- Two indices at which `p` holds are one when `p` holds at most once. -/
theorem eq_of_countP_le_one {p : α → Bool} :
    ∀ {l : List α} {i j : Nat}, l.countP p ≤ 1 → l[i]? = some a → l[j]? = some b →
      p a = true → p b = true → i = j
  | [], _, _, _, at_i, _, _, _ => by simp at at_i
  | _ :: _, 0, 0, _, _, _, _, _ => rfl
  | x :: xs, 0, j + 1, once, at_i, at_j, pa, pb => by
    have first : p x = true := by simp_all
    have later : 0 < xs.countP p := countP_pos_iff.mpr ⟨b, mem_of_getElem? at_j, pb⟩
    simp only [countP_cons, first, if_true] at once
    omega
  | x :: xs, i + 1, 0, once, at_i, at_j, pa, pb => by
    have first : p x = true := by simp_all
    have later : 0 < xs.countP p := countP_pos_iff.mpr ⟨a, mem_of_getElem? at_i, pa⟩
    simp only [countP_cons, first, if_true] at once
    omega
  | x :: xs, i + 1, j + 1, once, at_i, at_j, pa, pb => by
    have rest : xs.countP p ≤ 1 := by
      simp only [countP_cons] at once
      omega
    rw [eq_of_countP_le_one rest at_i at_j pa pb]

end List
