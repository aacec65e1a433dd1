import Mathlib

/-!
# Copies between regions of a memory

A memory is a function from addresses to values. `copy mem dst src len` is
the memory after `len` values are copied from `src` to `dst` in increasing
order of address, reading each value from the memory as it is. The lemmas say
what a copy leaves at each address, and that a copy made piece by piece is
one copy (`copy_copy`) when no piece overwrites the source of a later one:
the shape of every routine that moves a region in parts.

`WritesWithin allowed before after` says that a memory changed only at the
addresses `allowed` admits, and `scatter` places the first `n` values of a
stream over a list of buffers in order, as `readv` and `recvmsg` do.
-/

namespace ByteCopy

variable {α : Type}

/-- The memory after `len` values are copied from `src` to `dst`. -/
def copy (mem : Nat → α) (dst src len : Nat) : Nat → α :=
  fun a => if dst ≤ a ∧ a < dst + len then mem (src + (a - dst)) else mem a

attribute [grind] copy

variable {mem : Nat → α} {dst src len a : Nat}

theorem copy_apply_of_mem (lo : dst ≤ a) (hi : a < dst + len) :
    copy mem dst src len a = mem (src + (a - dst)) := by
  simp only [copy, if_pos (And.intro lo hi)]

theorem copy_apply_of_not_mem (out : a < dst ∨ dst + len ≤ a) : copy mem dst src len a = mem a := by
  simp only [copy]
  rw [if_neg (by omega)]

@[simp] theorem copy_zero : copy mem dst src 0 = mem := by
  funext a
  exact copy_apply_of_not_mem (by omega)

/-- The first `n` values, then the `k` after them, make one copy of `n + k`,
when the source ends before the destination or the destination starts at or
before the source. -/
theorem copy_copy {n k : Nat} (apart : src + n + k ≤ dst ∨ dst ≤ src) :
    copy (copy mem dst src n) (dst + n) (src + n) k = copy mem dst src (n + k) := by
  funext a
  by_cases second : dst + n ≤ a ∧ a < dst + n + k
  · -- the source of the second piece lies outside the first piece's destination
    rw [copy_apply_of_mem second.1 second.2, copy_apply_of_not_mem (by omega),
      copy_apply_of_mem (by omega) (by omega)]
    congr 1
    omega
  · rw [copy_apply_of_not_mem (by omega)]
    by_cases first : dst ≤ a ∧ a < dst + n
    · rw [copy_apply_of_mem first.1 first.2, copy_apply_of_mem first.1 (by omega)]
    · rw [copy_apply_of_not_mem (by omega), copy_apply_of_not_mem (by omega)]

/-! ## Frames -/

/-- `after` differs from `before` only at addresses that `allowed` admits. -/
def WritesWithin (allowed : Nat → Prop) (before after : Nat → α) : Prop :=
  ∀ a, ¬ allowed a → after a = before a

namespace WritesWithin

variable {allowed allowed' : Nat → Prop} {m₁ m₂ m₃ : Nat → α}

theorem refl (allowed : Nat → Prop) (m : Nat → α) : WritesWithin allowed m m := fun _ _ => rfl

theorem trans (first : WritesWithin allowed m₁ m₂) (second : WritesWithin allowed m₂ m₃) :
    WritesWithin allowed m₁ m₃ := fun a outside => (second a outside).trans (first a outside)

theorem mono (writes : WritesWithin allowed m₁ m₂) (larger : ∀ a, allowed a → allowed' a) :
    WritesWithin allowed' m₁ m₂ := fun a outside => writes a fun inside => outside (larger a inside)

end WritesWithin

theorem copy_writesWithin : WritesWithin (fun a => dst ≤ a ∧ a < dst + len) mem (copy mem dst src len) :=
  fun _ outside => copy_apply_of_not_mem (by omega)

/-! ## Scattering a stream over buffers -/

/-- The memory after `len` values of `data` are written from `dst` on. -/
def place (mem : Nat → α) (dst : Nat) (data : Nat → α) (len : Nat) : Nat → α :=
  fun a => if dst ≤ a ∧ a < dst + len then data (a - dst) else mem a

/-- The first `n` values of `data` written over the buffers `(base, len)` in
order, each filled before the next is begun. -/
def scatter (mem : Nat → α) (data : Nat → α) : List (Nat × Nat) → Nat → Nat → α
  | [], _ => mem
  | (base, len) :: bufs, n =>
    scatter (place mem base data (min len n)) (fun k => data (min len n + k)) bufs (n - min len n)

attribute [grind] place scatter

theorem place_writesWithin {data : Nat → α} :
    WritesWithin (fun a => dst ≤ a ∧ a < dst + len) mem (place mem dst data len) := by
  intro a outside
  simp only [place, if_neg outside]

theorem place_congr {d₁ d₂ : Nat → α} (same : ∀ k < len, d₁ k = d₂ k) :
    place mem dst d₁ len = place mem dst d₂ len := by
  funext a
  simp only [place]
  split_ifs with inside
  · exact same (a - dst) (by omega)
  · rfl

/-- A copy places the source's values. -/
theorem copy_eq_place : copy mem dst src len = place mem dst (fun k => mem (src + k)) len := rfl

@[simp] theorem place_zero {data : Nat → α} : place mem dst data 0 = mem := by
  funext a
  simp only [place]
  rw [if_neg (by omega)]

@[simp] theorem scatter_zero (data : Nat → α) :
    ∀ (bufs : List (Nat × Nat)) (mem : Nat → α), scatter mem data bufs 0 = mem
  | [], _ => rfl
  | (base, len) :: bufs, mem => by
    simp only [scatter, Nat.min_zero, place_zero, Nat.zero_sub]
    exact scatter_zero _ bufs mem

/-- A scatter writes only inside its buffers. -/
theorem scatter_writesWithin :
    ∀ (bufs : List (Nat × Nat)) (mem data : Nat → α) (n : Nat),
      WritesWithin (fun a => ∃ buf ∈ bufs, buf.1 ≤ a ∧ a < buf.1 + buf.2) mem (scatter mem data bufs n)
  | [], mem, _, _ => WritesWithin.refl _ mem
  | (base, len) :: bufs, mem, data, n => by
    let allowed := fun a => ∃ buf ∈ (base, len) :: bufs, buf.1 ≤ a ∧ a < buf.1 + buf.2
    have first : WritesWithin allowed mem (place mem base data (min len n)) := by
      apply place_writesWithin.mono
      intro a inside
      exact ⟨(base, len), List.mem_cons_self, inside.1, by omega⟩
    have rest : WritesWithin allowed (place mem base data (min len n))
        (scatter (place mem base data (min len n)) (fun k => data (min len n + k)) bufs (n - min len n)) := by
      apply (scatter_writesWithin bufs _ _ _).mono
      rintro a ⟨buf, later, inside⟩
      exact ⟨buf, List.mem_cons_of_mem _ later, inside⟩
    exact first.trans rest

end ByteCopy
