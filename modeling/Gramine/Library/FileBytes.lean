import Mathlib

/-!
# Files as byte arrays

The contents of a file as a list, read through `getD` so that every position
past the end reads as zero. A write lays its data over the file at a position
and fills any gap before it with zeroes; a truncate cuts the file or extends it
with zeroes; a read takes what the file holds from a position on.

`patch` is the copy into a buffer that both a file and the buffer holding it
use. The lemmas say what each operation leaves at each position (`getD_*`) and
how long the result is (`length_*`); two lists of one length that agree at
every position are equal (`eq_of_getD`).
-/

namespace FileBytes

variable {α : Type} [Zero α]

/-- `xs` with `data` copied over it from `pos` on. -/
def patch (xs : List α) (pos : Nat) (data : List α) : List α :=
  xs.take pos ++ data ++ xs.drop (pos + data.length)

/-- A write of `data` at `pos`: a gap between the end of `xs` and `pos` is
filled with zeroes, and an empty write changes nothing. -/
def write (xs : List α) (pos : Nat) (data : List α) : List α :=
  if data = [] then xs else patch (xs ++ List.replicate (pos - xs.length) 0) pos data

/-- `xs` cut to `size` elements, or extended with zeroes to `size`. -/
def truncate (xs : List α) (size : Nat) : List α :=
  xs.take size ++ List.replicate (size - xs.length) 0

/-- At most `n` elements of `xs` from `pos` on. -/
def read (xs : List α) (pos n : Nat) : List α :=
  (xs.drop pos).take n

attribute [grind] patch write read

variable {xs ys data : List α} {pos : Nat}

theorem getD_eq_zero {i : Nat} (past : xs.length ≤ i) : xs.getD i 0 = 0 :=
  List.getD_eq_default xs 0 past

theorem getD_replicate_zero (k i : Nat) : (List.replicate k (0 : α)).getD i 0 = 0 := by
  by_cases inside : i < k
  · exact List.getD_replicate 0 inside
  · exact getD_eq_zero (by simp; omega)

theorem getD_take_of_lt {m i : Nat} (below : i < m) : (xs.take m).getD i 0 = xs.getD i 0 := by
  simp [List.getD_eq_getElem?_getD, below]

theorem getD_drop (j i : Nat) : (xs.drop j).getD i 0 = xs.getD (j + i) 0 := by
  simp [List.getD_eq_getElem?_getD, List.getElem?_drop]

theorem getD_take_append_replicate (m k i : Nat) :
    (xs.take m ++ List.replicate k 0).getD i 0 = if i < m then xs.getD i 0 else 0 := by
  by_cases inTake : i < (xs.take m).length
  · have below : i < m := by simp at inTake; omega
    rw [List.getD_append _ _ _ _ inTake, getD_take_of_lt below, if_pos below]
  · rw [List.getD_append_right _ _ _ _ (by omega), getD_replicate_zero]
    split_ifs with below
    · have past : xs.length ≤ i := by simp at inTake; omega
      exact (getD_eq_zero past).symm
    · rfl

theorem getD_append_replicate (k i : Nat) :
    (xs ++ List.replicate k 0).getD i 0 = xs.getD i 0 := by
  by_cases inside : i < xs.length
  · exact List.getD_append _ _ _ _ inside
  · rw [List.getD_append_right _ _ _ _ (by omega), getD_replicate_zero, getD_eq_zero (by omega)]

omit [Zero α] in
theorem length_patch (reaches : pos ≤ xs.length) :
    (patch xs pos data).length = max xs.length (pos + data.length) := by
  simp only [patch, List.length_append, List.length_take, List.length_drop]
  omega

theorem getD_patch (reaches : pos ≤ xs.length) (i : Nat) :
    (patch xs pos data).getD i 0 =
      if pos ≤ i ∧ i < pos + data.length then data.getD (i - pos) 0 else xs.getD i 0 := by
  have takeLength : (xs.take pos).length = pos := by simp; omega
  simp only [patch, List.append_assoc]
  split_ifs with inside
  · -- inside the window the data is read
    rw [List.getD_append_right _ _ _ _ (by omega), takeLength,
      List.getD_append _ _ _ _ (by omega)]
  · by_cases before : i < pos
    · rw [List.getD_append _ _ _ _ (by omega), getD_take_of_lt before]
    · -- after the window the rest of `xs` is read
      rw [List.getD_append_right _ _ _ _ (by omega), takeLength,
        List.getD_append_right _ _ _ _ (by omega), getD_drop]
      congr 1
      omega

/-- `xs` extended with zeroes up to `pos`, which `write` patches. -/
theorem length_padded (pos : Nat) :
    (xs ++ List.replicate (pos - xs.length) 0).length = max xs.length pos := by
  simp only [List.length_append, List.length_replicate]
  omega

@[simp] theorem write_nil : write xs pos [] = xs := if_pos rfl

theorem length_write (nonempty : data ≠ []) :
    (write xs pos data).length = max xs.length (pos + data.length) := by
  have positive : 0 < data.length := List.length_pos_iff.mpr nonempty
  rw [write, if_neg nonempty, length_patch (by rw [length_padded]; omega), length_padded]
  omega

theorem getD_write (i : Nat) :
    (write xs pos data).getD i 0 =
      if pos ≤ i ∧ i < pos + data.length then data.getD (i - pos) 0 else xs.getD i 0 := by
  by_cases empty : data = []
  · subst empty
    have outside : ¬ (pos ≤ i ∧ i < pos + ([] : List α).length) := by simp
    rw [write, if_pos rfl, if_neg outside]
  · rw [write, if_neg empty, getD_patch (by rw [length_padded]; omega),
      getD_append_replicate]

theorem length_truncate (size : Nat) : (truncate xs size).length = size := by
  simp only [truncate, List.length_append, List.length_take, List.length_replicate]
  omega

theorem getD_truncate (size i : Nat) :
    (truncate xs size).getD i 0 = if i < size then xs.getD i 0 else 0 :=
  getD_take_append_replicate size _ i

/-- Two lists of one length that read the same at every position are equal. -/
theorem eq_of_getD (length : xs.length = ys.length) (same : ∀ i, xs.getD i 0 = ys.getD i 0) :
    xs = ys := by
  apply List.ext_getElem length
  intro i inXs inYs
  have := same i
  rwa [List.getD_eq_getElem _ _ inXs, List.getD_eq_getElem _ _ inYs] at this

/-- Reading `xs` up to `ys.length` gives what reading `ys` gives, when the two
agree below `ys.length` and `xs` is at least as long. -/
theorem read_eq_of_agree (longer : ys.length ≤ xs.length)
    (agree : ∀ i < ys.length, xs.getD i 0 = ys.getD i 0) (pos n : Nat) :
    read xs pos (min (pos + n) ys.length - pos) = read ys pos n := by
  apply List.ext_getElem
  · simp only [read, List.length_take, List.length_drop]
    omega
  · intro j inLeft inRight
    simp only [read, List.length_take, List.length_drop] at inLeft inRight
    simp only [read, List.getElem_take, List.getElem_drop]
    have := agree (pos + j) (by omega)
    rwa [List.getD_eq_getElem _ _ (by omega), List.getD_eq_getElem _ _ (by omega)] at this

end FileBytes
