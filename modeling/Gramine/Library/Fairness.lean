import Mathlib
/-!
# Infinite runs, fairness and leads-to

A system is a partial step function `step : Op → S → Option S`. An infinite run
tries one operation at every moment; one that is refused leaves the state as it
is. Weak fairness for an operation says that it is taken if it stays enabled
from some moment on, strong fairness that it is taken if it is enabled again
and again.

`LeadsTo ρ P Q` says that every moment of the run at which `P` holds is followed
by one at which `Q` holds. The rules are those of temporal logic: `wf1` and
`sf1` get a leads-to from one fair operation, `trans`, `mono`, `exists` and
`or` combine them, and `lattice` does an induction on a measure. Each rule
reasons over the states of the run only, which all keep an invariant `I`.

A run that tries the operations of a cycle again and again (`Run.cycle`) is
how one shows that a property needs more fairness than a run has.
-/

namespace Fairness

variable {S Op : Type} {step : Op → S → Option S}

/-- The state after trying the operations of `ops` in turn, a refused one
leaving the state as it is. -/
def tryAll (step : Op → S → Option S) (s : S) (ops : List Op) : S :=
  ops.foldl (fun s op => (step op s).getD s) s

theorem tryAll_take_succ (s : S) {ops : List Op} {r : Nat} (hr : r < ops.length) :
    tryAll step s (ops.take (r + 1)) =
      (step (ops.get ⟨r, hr⟩) (tryAll step s (ops.take r))).getD (tryAll step s (ops.take r)) := by
  rw [List.take_add_one, List.getElem?_eq_getElem hr]
  simp only [tryAll, Option.toList_some, List.foldl_append, List.foldl_cons, List.foldl_nil, List.get_eq_getElem]

/-- Trying a cycle from a state it comes back to, the state after `k + 1`
operations is the one after `k` operations and one more step. -/
theorem tryAll_take_mod_succ (s : S) {ops : List Op} (nonempty : 0 < ops.length)
    (back : tryAll step s ops = s) (k : Nat) :
    tryAll step s (ops.take ((k + 1) % ops.length)) =
      (step (ops.get ⟨k % ops.length, Nat.mod_lt k nonempty⟩) (tryAll step s (ops.take (k % ops.length)))).getD
        (tryAll step s (ops.take (k % ops.length))) := by
  have hk : k + 1 = (k % ops.length + 1) + ops.length * (k / ops.length) := by
    have := Nat.mod_add_div k ops.length
    omega
  rw [← tryAll_take_succ, hk, Nat.add_mul_mod_self_left]
  rcases Nat.lt_or_ge (k % ops.length + 1) ops.length with inside | last
  · rw [Nat.mod_eq_of_lt inside]
  · -- the cycle is done and starts again
    have wraps : k % ops.length + 1 = ops.length := by
      have := Nat.mod_lt k nonempty
      omega
    rw [wraps, Nat.mod_self, List.take_length, back]
    rfl

/-- An infinite run: a state at every moment and the operation tried there. -/
structure Run (step : Op → S → Option S) where
  state : Nat → S
  op : Nat → Op
  next : ∀ k, state (k + 1) = (step (op k) (state k)).getD (state k)

namespace Run

variable (ρ : Run step)

/-- Tried again and again while enabled from some moment on, `op` is taken. -/
def WeakFair (op : Op) : Prop :=
  ∀ k, (∀ m, k ≤ m → (step op (ρ.state m)).isSome) → ∃ m, k ≤ m ∧ ρ.op m = op

/-- Enabled again and again from some moment on, `op` is taken while enabled. -/
def StrongFair (op : Op) : Prop :=
  ∀ k, (∀ m, k ≤ m → ∃ n, m ≤ n ∧ (step op (ρ.state n)).isSome) →
    ∃ m, k ≤ m ∧ ρ.op m = op ∧ (step op (ρ.state m)).isSome

/-- Every moment at which `P` holds is followed by one at which `Q` holds. -/
def LeadsTo (P Q : S → Prop) : Prop :=
  ∀ k, P (ρ.state k) → ∃ m, k ≤ m ∧ Q (ρ.state m)

/-- The run that tries the operations of a nonempty cycle again and again,
from a state to which the cycle comes back. -/
def cycle (s : S) (ops : List Op) (nonempty : 0 < ops.length) (back : tryAll step s ops = s) : Run step where
  state k := tryAll step s (ops.take (k % ops.length))
  op k := ops.get ⟨k % ops.length, Nat.mod_lt k nonempty⟩
  next k := tryAll_take_mod_succ s nonempty back k

attribute [grind] cycle

section Cycle

variable {s : S} {ops : List Op} {nonempty : 0 < ops.length} {back : tryAll step s ops = s}

/-- Round `q` of a cycle goes through the states of the first. -/
theorem cycle_state (q : Nat) {r : Nat} (hr : r < ops.length) :
    (cycle s ops nonempty back).state (ops.length * q + r) = tryAll step s (ops.take r) := by
  simp only [cycle, Nat.mul_add_mod, Nat.mod_eq_of_lt hr]

theorem cycle_op (q : Nat) {r : Nat} (hr : r < ops.length) :
    (cycle s ops nonempty back).op (ops.length * q + r) = ops.get ⟨r, hr⟩ := by
  simp only [cycle, Nat.mul_add_mod, Nat.mod_eq_of_lt hr]

/-- What holds of the states of one round holds at every moment. -/
theorem cycle_always {P : S → Prop} (each : ∀ r, r < ops.length → P (tryAll step s (ops.take r))) :
    ∀ k, P ((cycle s ops nonempty back).state k) :=
  fun k => each _ (Nat.mod_lt k nonempty)

/-- An operation of the cycle is tried again and again. -/
theorem cycle_tried {r : Nat} (hr : r < ops.length) (k : Nat) :
    ∃ m, k ≤ m ∧ (cycle s ops nonempty back).op m = ops.get ⟨r, hr⟩ := by
  refine ⟨ops.length * k + r, ?_, cycle_op k hr⟩
  have : k ≤ ops.length * k := Nat.le_mul_of_pos_left k nonempty
  omega

end Cycle

variable {ρ}

/-- What every step keeps holds at every moment. -/
theorem always {I : S → Prop} (start : I (ρ.state 0))
    (keep : ∀ k s', I (ρ.state k) → step (ρ.op k) (ρ.state k) = some s' → ρ.state (k + 1) = s' → I s') :
    ∀ k, I (ρ.state k)
  | 0 => start
  | k + 1 => by
    have before := always start keep k
    cases stepped : step (ρ.op k) (ρ.state k) with
    | none =>
      rw [ρ.next k, stepped]
      exact before
    | some s' =>
      have after : ρ.state (k + 1) = s' := by rw [ρ.next k, stepped]; rfl
      exact after ▸ keep k s' before stepped after

/-- Each moment is the one before or one step after it. -/
theorem next_cases (k : Nat) :
    ρ.state (k + 1) = ρ.state k ∨ step (ρ.op k) (ρ.state k) = some (ρ.state (k + 1)) := by
  cases stepped : step (ρ.op k) (ρ.state k) with
  | none =>
    left
    rw [ρ.next k, stepped]
    rfl
  | some s' =>
    right
    rw [ρ.next k, stepped]
    rfl

section Rules

variable {I P Q R : S → Prop} (inv : ∀ k, I (ρ.state k))
include inv

/-- Until `Q` holds, `P` holds at every moment, if each step keeps `P` or
makes `Q` hold. -/
theorem holds_until (keep : ∀ op s s', I s → I s' → P s → step op s = some s' → P s' ∨ Q s')
    {k : Nat} (start : P (ρ.state k)) (never : ∀ m, k ≤ m → ¬ Q (ρ.state m)) :
    ∀ m, k ≤ m → P (ρ.state m) := by
  intro m hm
  induction m, hm using Nat.le_induction with
  | base => exact start
  | succ m hm before =>
    rcases next_cases (ρ := ρ) m with same | stepped
    · exact same ▸ before
    · exact (keep _ _ _ (inv m) (inv (m + 1)) before stepped).resolve_right (never (m + 1) (by omega))

/-- The rule for a weakly fair operation: `P` lasts until `Q`, keeps `op`
enabled, and `op` taken from `P` gives `Q`. -/
theorem wf1 {op : Op} (fair : ρ.WeakFair op)
    (keep : ∀ op' s s', I s → I s' → P s → step op' s = some s' → P s' ∨ Q s')
    (help : ∀ s s', I s → P s → step op s = some s' → Q s')
    (enabled : ∀ s, I s → P s → (step op s).isSome) : ρ.LeadsTo P Q := by
  intro k start
  by_contra never
  push Not at never
  have lasts := holds_until inv keep start never
  obtain ⟨m, hm, taken⟩ := fair k fun m hm => enabled _ (inv m) (lasts m hm)
  obtain ⟨s', stepped⟩ := Option.isSome_iff_exists.mp (enabled _ (inv m) (lasts m hm))
  have after : ρ.state (m + 1) = s' := by rw [ρ.next m, taken, stepped]; rfl
  exact never (m + 1) (by omega) (after ▸ help _ _ (inv m) (lasts m hm) (taken ▸ stepped))

/-- The rule for a strongly fair operation: as `wf1`, with `op` enabled again
and again instead of all along. -/
theorem sf1 {op : Op} (fair : ρ.StrongFair op)
    (keep : ∀ op' s s', I s → I s' → P s → step op' s = some s' → P s' ∨ Q s')
    (help : ∀ s s', I s → P s → step op s = some s' → Q s')
    (enabled : ρ.LeadsTo P fun s => (step op s).isSome ∨ Q s) : ρ.LeadsTo P Q := by
  intro k start
  by_contra never
  push Not at never
  have lasts := holds_until inv keep start never
  have often : ∀ m, k ≤ m → ∃ n, m ≤ n ∧ (step op (ρ.state n)).isSome := by
    intro m hm
    obtain ⟨n, hn, now | done⟩ := enabled m (lasts m hm)
    · exact ⟨n, hn, now⟩
    · exact absurd done (never n (by omega))
  obtain ⟨m, hm, taken, now⟩ := fair k often
  obtain ⟨s', stepped⟩ := Option.isSome_iff_exists.mp now
  have after : ρ.state (m + 1) = s' := by rw [ρ.next m, taken, stepped]; rfl
  exact never (m + 1) (by omega) (after ▸ help _ _ (inv m) (lasts m hm) stepped)

omit inv in
theorem LeadsTo.trans (first : ρ.LeadsTo P Q) (second : ρ.LeadsTo Q R) : ρ.LeadsTo P R := by
  intro k start
  obtain ⟨m, hm, middle⟩ := first k start
  obtain ⟨n, hn, done⟩ := second m middle
  exact ⟨n, by omega, done⟩

/-- A leads-to that holds of the run's states holds with `P` weakened and `Q`
strengthened by what `I` gives. -/
theorem LeadsTo.mono {P' Q' : S → Prop} (lead : ρ.LeadsTo P Q) (stronger : ∀ s, I s → P' s → P s)
    (weaker : ∀ s, I s → Q s → Q' s) : ρ.LeadsTo P' Q' := by
  intro k start
  obtain ⟨m, hm, done⟩ := lead k (stronger _ (inv k) start)
  exact ⟨m, hm, weaker _ (inv m) done⟩

/-- What holds now leads to itself. -/
theorem LeadsTo.of_imp (implies : ∀ s, I s → P s → Q s) : ρ.LeadsTo P Q :=
  fun k start => ⟨k, Nat.le_refl k, implies _ (inv k) start⟩

omit inv in
theorem LeadsTo.exists {ι : Type} {P : ι → S → Prop} (each : ∀ x, ρ.LeadsTo (P x) Q) :
    ρ.LeadsTo (fun s => ∃ x, P x s) Q := by
  intro k ⟨x, start⟩
  exact each x k start

omit inv in
theorem LeadsTo.or (left : ρ.LeadsTo P R) (right : ρ.LeadsTo Q R) :
    ρ.LeadsTo (fun s => P s ∨ Q s) R := by
  rintro k (start | start)
  · exact left k start
  · exact right k start

omit inv in
/-- Induction on a measure: `P` leads to `Q` if from every `P` state the run
reaches `Q` or `P` with a smaller measure. -/
theorem LeadsTo.lattice (μ : S → Nat)
    (each : ∀ n, ρ.LeadsTo (fun s => P s ∧ μ s = n) fun s => Q s ∨ (P s ∧ μ s < n)) : ρ.LeadsTo P Q := by
  intro k start
  induction h : μ (ρ.state k) using Nat.strong_induction_on generalizing k with
  | _ n ih =>
    obtain ⟨m, hm, done | ⟨again, smaller⟩⟩ := each n k ⟨start, h⟩
    · exact ⟨m, hm, done⟩
    · obtain ⟨m', hm', done⟩ := ih _ smaller m again rfl
      exact ⟨m', by omega, done⟩

end Rules

end Run

end Fairness
