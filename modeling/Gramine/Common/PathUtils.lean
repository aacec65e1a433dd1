import Mathlib
import Gramine.Common.Strtol
/-!
# get_norm_path

`get_norm_path` of `path_utils.c` normalises a path into a buffer in one pass
over its tokens (the pieces between slashes). Empty and `.` tokens are
dropped. A `..` removes the last token written (the text back to the previous
slash, found by `find_prev_slash_offset`). With nothing left to remove, a `..`
of a relative path is written for good and one of an absolute path is
dropped. The bytes written for good (the root `/` and leading `..`) are
passed over by moving `buf` forward; `offset` counts the bytes after it,
which a later `..` may take back.

The model keeps the bytes written for good and the bytes `buf[0..offset)` as
two lists, and the room left in the buffer. `normalizePath` is the reference:
a stack of components over `path.splitOn '/'`.
-/

namespace Gramine.Common

/-- `find_next_slash`: the path from its next `/`, empty at the end. -/
def findNextSlash (path : List Char) : List Char :=
  path.dropWhile (· ≠ '/')

/-- The loop `while (off && path[off] != '/') off--` of `find_prev_slash_offset`. -/
def slashScan (path : List Char) : Nat → Nat
  | 0 => 0
  | off + 1 => if path.getD (off + 1) '\x00' ≠ '/' then slashScan path off else off + 1

/-- `find_prev_slash_offset(path, &offset)`: whether a `/` was found before
`offset`, and the new offset, at that `/` or at 0. -/
def findPrevSlashOffset (path : List Char) (offset : Nat) : Bool × Nat :=
  if offset = 0 then (false, offset)
  else
    let off := offset - 1
    -- a trailing '/' is skipped
    let off := if off ≠ 0 ∧ path.getD off '\x00' = '/' then off - 1 else off
    let off := slashScan path off
    (path.getD off '\x00' == '/', off)

/-- The state of the loop of `get_norm_path`: the bytes written for good
before `buf`, the bytes `buf[0..offset)`, `need_slash`, and `size`, the room
left for bytes after `buf`. -/
structure NormState where
  fixed : List Char
  written : List Char
  needSlash : Bool
  size : Nat

/-- One token of `get_norm_path`'s loop; `none` when it does not fit. -/
def normToken (isAbsolutePath : Bool) (token : List Char) (st : NormState) : Option NormState :=
  let slash := if st.needSlash then 1 else 0
  if token = ['.', '.'] then
    if st.written.length ≠ 0 then
      -- eat up the token written before
      let (needSlash, offset) := findPrevSlashOffset st.written st.written.length
      some { st with written := st.written.take offset, needSlash }
    else if !isAbsolutePath then
      -- with no token before it, a `..` of a relative path is written for good
      if slash + 2 > st.size then none
      else
        some { fixed := st.fixed ++ (if st.needSlash then ['/'] else []) ++ ['.', '.'], written := [],
               needSlash := true, size := st.size - (slash + 2) }
    -- `/..` is `/`
    else some st
  else if token = [] ∨ token = ['.'] then some st
  else if slash + token.length > st.size - st.written.length then none
  else some { st with written := st.written ++ (if st.needSlash then ['/'] else []) ++ token, needSlash := true }

/-- The loop of `get_norm_path` over the tokens of `path`. Each turn takes a
token and its `/`, so the path's length bounds the fuel it needs. -/
def normLoop (isAbsolutePath : Bool) : Nat → List Char → NormState → Option NormState
  | 0, _, st => some st
  | fuel + 1, path, st =>
    match normToken isAbsolutePath (path.takeWhile (· ≠ '/')) st with
    | none => none
    | some st =>
      match findNextSlash path with
      | [] => some st
      | _ :: path => normLoop isAbsolutePath fuel path st

/-- `get_norm_path(path, buf, &size)`: on success the bytes of `buf` before its
NUL and the size it stores, `ret_size + offset + 1`. -/
def getNormPath (path : List Char) (size : Nat) : Option (List Char × Nat) :=
  if size = 0 then none
  else
    -- one byte is kept for the NUL
    let size := size - 1
    let isAbsolutePath := charAt path == '/'
    let start : Option (NormState × List Char) :=
      if isAbsolutePath then
        if size < 1 then none
        else some ({ fixed := ['/'], written := [], needSlash := false, size := size - 1 }, path.drop 1)
      else some ({ fixed := [], written := [], needSlash := false, size }, path)
    match start with
    | none => none
    | some (st, path) =>
      match normLoop isAbsolutePath (path.length + 1) path st with
      | none => none
      | some st => some (st.fixed ++ st.written, st.fixed.length + st.written.length + 1)

/-! ## The reference -/

/-- A component pushed on the stack of the reference normaliser (top first):
empty and `.` components are dropped, and `..` pops an ordinary component, is
kept over a kept `..` or at the bottom of a relative path, and is dropped at
the root. -/
def pushComponent (isAbsolute : Bool) (stack : List (List Char)) (component : List Char) :
    List (List Char) :=
  if component = [] ∨ component = ['.'] then stack
  else if component = ['.', '.'] then
    match stack with
    | top :: rest => if top = ['.', '.'] then component :: stack else rest
    | [] => if isAbsolute then [] else [component]
  else component :: stack

/-- The normal form of a path: its components through the stack, joined by
`/`, after a `/` when the path is absolute. -/
def normalizePath (path : List Char) : List Char :=
  let isAbsolute := charAt path == '/'
  let stack := (path.splitOn '/').foldl (pushComponent isAbsolute) []
  (if isAbsolute then ['/'] else []) ++ ['/'].intercalate stack.reverse

/-! ## The backwards search -/

section Search

theorem getD_ne_slash {token : List Char} (noSlash : '/' ∉ token) (j : Nat) : token.getD j '\x00' ≠ '/' := by
  rw [List.getD_eq_getElem?_getD]
  cases found : token[j]? with
  | none => simp
  | some c =>
    rintro rfl
    exact noSlash (List.mem_of_getElem? found)

theorem getD_after_slash (pre token : List Char) {j : Nat} (after : pre.length < j) :
    (pre ++ '/' :: token).getD j '\x00' = token.getD (j - pre.length - 1) '\x00' := by
  obtain ⟨k, rfl⟩ : ∃ k, j = pre.length + 1 + k := ⟨j - pre.length - 1, by omega⟩
  rw [List.getD_eq_getElem?_getD, List.getD_eq_getElem?_getD, List.getElem?_append_right (by omega),
    show pre.length + 1 + k - pre.length = k + 1 by omega, List.getElem?_cons_succ, Nat.add_sub_cancel]

/-- The scan stops at `stop` when no `/` lies after it up to `off`, and `stop`
holds a `/` or is 0. -/
theorem slashScan_eq {path : List Char} {stop : Nat} (stopped : stop = 0 ∨ path.getD stop '\x00' = '/') :
    ∀ {off : Nat}, stop ≤ off → (∀ j, stop < j → j ≤ off → path.getD j '\x00' ≠ '/') → slashScan path off = stop
  | 0, below, _ => by
    simp only [slashScan]
    omega
  | off + 1, below, clear => by
    by_cases here : stop = off + 1
    · subst here
      rcases stopped with zero | slash
      · omega
      · rw [slashScan, if_neg (not_not.mpr slash)]
    · rw [slashScan, if_pos (clear (off + 1) (by omega) (le_refl _))]
      exact slashScan_eq stopped (by omega) fun j above below => clear j above (by omega)

variable {token : List Char} (nonempty : token ≠ []) (noSlash : '/' ∉ token)
include nonempty noSlash

/-- Back from the end of the only token written, no `/` is found. -/
theorem findPrevSlashOffset_token : findPrevSlashOffset token token.length = (false, 0) := by
  have long : token.length ≠ 0 := by simpa using nonempty
  have first : token.getD 0 '\x00' ≠ '/' := getD_ne_slash noSlash 0
  unfold findPrevSlashOffset
  rw [if_neg long]
  dsimp only
  rw [if_neg fun skip => getD_ne_slash noSlash _ skip.2,
    slashScan_eq (.inl rfl) (Nat.zero_le _) fun j _ _ => getD_ne_slash noSlash j, beq_eq_false_iff_ne.mpr first]

/-- Back from the end of the last token, the `/` before it is found. -/
theorem findPrevSlashOffset_last (pre : List Char) :
    findPrevSlashOffset (pre ++ '/' :: token) (pre ++ '/' :: token).length = (true, pre.length) := by
  have long : token.length ≠ 0 := by simpa using nonempty
  have slash : (pre ++ '/' :: token).getD pre.length '\x00' = '/' := by
    simp [List.getD_eq_getElem?_getD]
  have inToken : ∀ j, pre.length < j → (pre ++ '/' :: token).getD j '\x00' ≠ '/' := fun j after => by
    rw [getD_after_slash pre token after]
    exact getD_ne_slash noSlash _
  unfold findPrevSlashOffset
  simp only [List.length_append, List.length_cons]
  rw [if_neg (by omega)]
  rw [if_neg fun skip => inToken _ (by omega) skip.2,
    slashScan_eq (.inr slash) (by omega) fun j above _ => inToken j above]
  simp

end Search

/-! ## The stack of the reference -/

section Stack

/-- A component the reference keeps as it is: not empty, without `/`, and
neither `.` nor `..`. -/
def Ordinary (component : List Char) : Prop :=
  component ≠ [] ∧ '/' ∉ component ∧ component ≠ ['.'] ∧ component ≠ ['.', '.']

/-- The stacks of the reference as a number of kept `..` and the ordinary
components over them, in path order. -/
def normStack (shape : Nat × List (List Char)) : List (List Char) :=
  shape.2.reverse ++ List.replicate shape.1 ['.', '.']

/-- `pushComponent` on the shape of the stack. -/
def pushShape (isAbsolute : Bool) (shape : Nat × List (List Char)) (component : List Char) :
    Nat × List (List Char) :=
  if component = [] ∨ component = ['.'] then shape
  else if component = ['.', '.'] then
    if shape.2 = [] then (if isAbsolute then shape else (shape.1 + 1, [])) else (shape.1, shape.2.dropLast)
  else (shape.1, shape.2 ++ [component])

/-- The shapes a normalisation goes through: ordinary components over the
kept `..`, of which an absolute path keeps none. -/
structure ShapeOk (isAbsolute : Bool) (shape : Nat × List (List Char)) : Prop where
  ordinary : ∀ o ∈ shape.2, Ordinary o
  rootless : isAbsolute = true → shape.1 = 0

/-- The bytes written for good for `d` kept `..`: the root, then the `..`. -/
def fixedText (isAbsolute : Bool) (d : Nat) : List Char :=
  (if isAbsolute then ['/'] else []) ++ ['/'].intercalate (List.replicate d ['.', '.'])

/-- The bytes after `buf` for the ordinary components, each after a `/`
once a `..` is kept. -/
def writtenText (d : Nat) (ords : List (List Char)) : List Char :=
  if d = 0 then ['/'].intercalate ords else ords.flatMap ('/' :: ·)

/-- Everything written for a shape. -/
def normText (isAbsolute : Bool) (shape : Nat × List (List Char)) : List Char :=
  fixedText isAbsolute shape.1 ++ writtenText shape.1 shape.2

/-- Whether a `/` comes before the next token: `need_slash`. -/
def slashOf (shape : Nat × List (List Char)) : Nat :=
  if shape.1 ≠ 0 ∨ shape.2 ≠ [] then 1 else 0

theorem intercalate_snoc (sep : List Char) {xs : List (List Char)} (nonempty : xs ≠ []) (y : List Char) :
    sep.intercalate (xs ++ [y]) = sep.intercalate xs ++ sep ++ y := by
  induction xs with
  | nil => exact absurd rfl nonempty
  | cons x xs ih =>
    cases xs with
    | nil => simp [List.intercalate_cons_cons]
    | cons x' xs =>
      have rest := ih (List.cons_ne_nil _ _)
      rw [List.cons_append] at rest
      rw [List.cons_append, List.cons_append, List.intercalate_cons_cons, rest, List.intercalate_cons_cons]
      simp

theorem intercalate_append_flatMap {xs : List (List Char)} (nonempty : xs ≠ []) :
    ∀ ys : List (List Char), ['/'].intercalate (xs ++ ys) = ['/'].intercalate xs ++ ys.flatMap ('/' :: ·)
  | [] => by simp
  | y :: ys => by
    rw [show xs ++ y :: ys = (xs ++ [y]) ++ ys by simp,
      intercalate_append_flatMap (List.append_ne_nil_of_left_ne_nil nonempty _) ys, intercalate_snoc _ nonempty]
    simp

/-- The text of a shape is the reference's rendering of its stack. -/
theorem normText_eq (isAbsolute : Bool) (shape : Nat × List (List Char)) :
    normText isAbsolute shape =
      (if isAbsolute then ['/'] else []) ++ ['/'].intercalate (normStack shape).reverse := by
  obtain ⟨d, ords⟩ := shape
  simp only [normText, fixedText, writtenText, normStack, List.reverse_append, List.reverse_reverse,
    List.reverse_replicate, List.append_assoc]
  by_cases none : d = 0
  · subst none
    simp
  · rw [if_neg none, intercalate_append_flatMap (by simpa using none)]

theorem writtenText_snoc (d : Nat) (ords : List (List Char)) (token : List Char) :
    writtenText d (ords ++ [token]) =
      writtenText d ords ++ (if d ≠ 0 ∨ ords ≠ [] then ['/'] else []) ++ token := by
  unfold writtenText
  by_cases none : d = 0
  · by_cases first : ords = []
    · simp [none, first]
    · simp [none, first, intercalate_snoc _ first]
  · simp [none]

theorem fixedText_succ (d : Nat) :
    fixedText false (d + 1) = fixedText false d ++ (if d ≠ 0 then ['/'] else []) ++ ['.', '.'] := by
  unfold fixedText
  by_cases none : d = 0
  · simp [none]
  · rw [List.replicate_succ', intercalate_snoc _ (by simpa using none)]
    simp [none]

theorem normText_snoc (isAbsolute : Bool) (d : Nat) (ords : List (List Char)) (token : List Char) :
    normText isAbsolute (d, ords ++ [token]) =
      normText isAbsolute (d, ords) ++ (if slashOf (d, ords) = 1 then ['/'] else []) ++ token := by
  unfold normText slashOf
  rw [writtenText_snoc]
  by_cases slash : d ≠ 0 ∨ ords ≠ []
  · simp [slash]
  · simp [slash]

theorem slashOf_le (shape : Nat × List (List Char)) : slashOf shape ≤ 1 := by
  unfold slashOf
  split <;> omega

theorem slashOf_eq_one {shape : Nat × List (List Char)} : slashOf shape = 1 ↔ shape.1 ≠ 0 ∨ shape.2 ≠ [] := by
  unfold slashOf
  split <;> simp_all

theorem slashText_length (shape : Nat × List (List Char)) :
    (if slashOf shape = 1 then ['/'] else []).length = slashOf shape := by
  have := slashOf_le shape
  split <;> simp <;> omega

theorem writtenText_nil (d : Nat) : writtenText d [] = [] := by
  unfold writtenText
  split <;> rfl

theorem normText_dotDot (d : Nat) :
    normText false (d + 1, []) = normText false (d, []) ++ (if slashOf (d, []) = 1 then ['/'] else []) ++ ['.', '.'] := by
  simp only [normText, writtenText_nil, List.append_nil, fixedText_succ, slashOf]
  by_cases none : d = 0
  · simp [none]
  · simp [none]

variable {isAbsolute : Bool} {shape : Nat × List (List Char)} {component : List Char}

theorem pushShape_ok (ok : ShapeOk isAbsolute shape) (noSlash : '/' ∉ component) :
    ShapeOk isAbsolute (pushShape isAbsolute shape component) := by
  unfold pushShape
  by_cases skip : component = [] ∨ component = ['.']
  · rwa [if_pos skip]
  rw [if_neg skip]
  by_cases dotDot : component = ['.', '.']
  · rw [if_pos dotDot]
    by_cases none : shape.2 = []
    · rw [if_pos none]
      cases isAbsolute
      · exact ⟨by simp, fun relative => absurd relative (by simp)⟩
      · exact ok
    · rw [if_neg none]
      exact ⟨fun o mem => ok.ordinary o (List.dropLast_subset _ mem), ok.rootless⟩
  · rw [if_neg dotDot]
    refine ⟨fun o mem => ?_, ok.rootless⟩
    rcases List.mem_append.1 mem with old | new
    · exact ok.ordinary o old
    · obtain rfl := List.mem_singleton.1 new
      exact ⟨fun empty => skip (.inl empty), noSlash, fun dot => skip (.inr dot), dotDot⟩

/-- The reference's push is the push on the shape of its stack. -/
theorem pushComponent_normStack (ok : ShapeOk isAbsolute shape) :
    pushComponent isAbsolute (normStack shape) component = normStack (pushShape isAbsolute shape component) := by
  obtain ⟨d, ords⟩ := shape
  by_cases skip : component = [] ∨ component = ['.']
  · simp only [pushComponent, pushShape, if_pos skip]
  by_cases dotDot : component = ['.', '.']
  swap
  · simp only [pushComponent, pushShape, if_neg skip, if_neg dotDot]
    simp [normStack]
  subst dotDot
  simp only [pushComponent, pushShape, if_neg skip, if_true]
  rcases List.eq_nil_or_concat ords with rfl | ⟨ords, o, rfl⟩
  -- only kept `..` on the stack: one more is kept, or none at the root
  · cases d with
    | zero => cases isAbsolute <;> rfl
    | succ d =>
      have relative : isAbsolute = false := by
        cases isAbsolute
        · rfl
        · exact absurd (ok.rootless rfl) (by simp)
      subst relative
      simp [normStack, List.replicate_succ]
  -- an ordinary component on top is popped
  · have ordinary := ok.ordinary o (by simp)
    simp [normStack, ordinary.2.2.2]

/-- What a component adds to the text: at most itself and a `/` before it,
and one more `/` before the next. -/
theorem pushShape_length (component : List Char) (ok : ShapeOk isAbsolute shape) :
    (normText isAbsolute (pushShape isAbsolute shape component)).length +
        slashOf (pushShape isAbsolute shape component) ≤
      (normText isAbsolute shape).length + slashOf shape + component.length + 1 ∧
    (normText isAbsolute (pushShape isAbsolute shape component)).length ≤
      (normText isAbsolute shape).length + slashOf shape + component.length := by
  obtain ⟨d, ords⟩ := shape
  have slashBound := slashOf_le (d, ords)
  unfold pushShape
  split_ifs with skip dotDot none absolute
  · omega
  · omega
  -- a kept `..`, after its `/`
  · subst none dotDot
    simp only [Bool.not_eq_true] at absolute
    subst absolute
    rw [normText_dotDot]
    simp only [List.length_append, slashOf]
    split <;> simp
  -- a popped component, with the `/` before it
  · obtain ⟨ords, o, rfl⟩ := (List.eq_nil_or_concat ords).resolve_left none
    dsimp only
    rw [List.concat_eq_append, List.dropLast_concat, normText_snoc]
    simp only [List.length_append, slashText_length]
    omega
  · rw [normText_snoc]
    have grown := slashOf_le (d, ords ++ [component])
    simp only [List.length_append, slashText_length]
    omega

end Stack

/-! ## The loop refines the reference -/

section Loop

/-- The loop's state for a shape, in a buffer with `room` bytes before the
NUL. -/
structure NormInv (isAbsolute : Bool) (room : Nat) (st : NormState) (shape : Nat × List (List Char)) : Prop where
  fixed : st.fixed = fixedText isAbsolute shape.1
  written : st.written = writtenText shape.1 shape.2
  needSlash : st.needSlash = decide (shape.1 ≠ 0 ∨ shape.2 ≠ [])
  size : st.size + st.fixed.length = room
  fits : (normText isAbsolute shape).length ≤ room
  shapeOk : ShapeOk isAbsolute shape

variable {isAbsolute : Bool} {room : Nat} {st : NormState} {shape : Nat × List (List Char)}

theorem NormInv.slash (inv : NormInv isAbsolute room st shape) :
    (if st.needSlash then 1 else 0) = slashOf shape := by
  rw [inv.needSlash, slashOf]
  by_cases slash : shape.1 ≠ 0 ∨ shape.2 ≠ []
  · simp [slash]
  · simp only [slash, decide_false, if_false]
    rfl

theorem NormInv.length (inv : NormInv isAbsolute room st shape) :
    st.fixed.length + st.written.length = (normText isAbsolute shape).length := by
  simp [normText, inv.fixed, inv.written]

/-- One token: the loop fails exactly when the text of the new shape does not
fit, and otherwise holds it. -/
theorem normToken_spec (inv : NormInv isAbsolute room st shape) {token : List Char} (noSlash : '/' ∉ token) :
    (normToken isAbsolute token st = none ↔ room < (normText isAbsolute (pushShape isAbsolute shape token)).length) ∧
      ∀ st', normToken isAbsolute token st = some st' →
        NormInv isAbsolute room st' (pushShape isAbsolute shape token) := by
  obtain ⟨d, ords⟩ := shape
  have slash := inv.slash
  have length := inv.length
  have fits := inv.fits
  have size := inv.size
  have ok := inv.shapeOk
  have kept := pushShape_ok ok noSlash
  by_cases dotDot : token = ['.', '.']
  · subst dotDot
    have notSkip : ¬(['.', '.'] = ([] : List Char) ∨ ['.', '.'] = ['.']) := by simp
    simp only [normToken, pushShape, if_true, if_neg notSkip] at kept ⊢
    rcases List.eq_nil_or_concat ords with rfl | ⟨ords, o, rfl⟩
    -- nothing to pop
    · have empty : st.written.length = 0 := by simp [inv.written, writtenText_nil]
      simp only [empty, ne_eq, not_true_eq_false, if_false, if_true] at kept ⊢
      cases isAbsolute
      -- a relative path keeps the `..`, after a `/` when one is needed
      · simp only [Bool.not_false, if_true, Bool.false_eq_true, if_false] at kept ⊢
        have grown := normText_dotDot d
        have text : (normText false (d + 1, [])).length = (normText false (d, [])).length + slashOf (d, []) + 2 := by
          rw [grown]
          simp only [List.length_append, slashOf]
          split <;> simp
        have noneWritten : st.written = [] := by simpa [inv.written] using writtenText_nil d
        by_cases long : slashOf (d, []) + 2 > st.size
        · rw [slash, if_pos long]
          exact ⟨by simp; omega, by simp⟩
        · rw [slash, if_neg long]
          refine ⟨by simp; omega, fun st' found => ?_⟩
          obtain rfl := Option.some.inj found.symm
          refine ⟨?_, by simp [writtenText_nil], by simp, ?_, by omega, kept⟩
          · simp only [inv.fixed, fixedText_succ, inv.needSlash]
            simp
          · simp only [List.length_append, List.length_cons, List.length_nil] at length ⊢
            have : (if st.needSlash = true then ['/'] else []).length = slashOf (d, []) := by
              rw [← slash]
              split <;> rfl
            omega
      -- `/..` is `/`
      · simp only [Bool.not_true, Bool.false_eq_true, if_false, if_true] at kept ⊢
        exact ⟨by simp; omega, fun st' found => by
          obtain rfl := Option.some.inj found.symm
          exact inv⟩
    -- the last component is popped back to the `/` before it
    · simp only [List.concat_eq_append] at *
      have ordinary := ok.ordinary o (by simp)
      have shorter := normText_snoc isAbsolute d ords o
      have written : st.written = writtenText d ords ++ (if slashOf (d, ords) = 1 then ['/'] else []) ++ o := by
        rw [inv.written, writtenText_snoc]
        unfold slashOf
        split <;> simp_all
      have nonzero : st.written.length ≠ 0 := by
        rw [written]
        simp [ordinary.1]
      simp only [nonzero, ne_eq, not_false_eq_true, if_true, List.append_ne_nil_of_right_ne_nil,
        List.cons_ne_nil, if_false, List.dropLast_concat] at kept ⊢
      have found : findPrevSlashOffset st.written st.written.length =
          (decide (d ≠ 0 ∨ ords ≠ []), (writtenText d ords).length) := by
        rw [written]
        by_cases sep : slashOf (d, ords) = 1
        · have needed : decide (d ≠ 0 ∨ ords ≠ []) = true := decide_eq_true (slashOf_eq_one.1 sep)
          rw [if_pos sep, needed, List.append_assoc, List.singleton_append]
          exact findPrevSlashOffset_last ordinary.1 ordinary.2.1 _
        · have bare : d = 0 ∧ ords = [] := by
            simpa [not_or] using mt slashOf_eq_one.2 sep
          obtain ⟨rfl, rfl⟩ := bare
          rw [if_neg sep, writtenText_nil, List.append_nil, List.nil_append,
            findPrevSlashOffset_token ordinary.1 ordinary.2.1]
          simp
      rw [found]
      dsimp only
      refine ⟨by simp; rw [shorter] at fits; simp at fits; omega, fun st' popped => ?_⟩
      obtain rfl := Option.some.inj popped.symm
      refine ⟨inv.fixed, ?_, rfl, size, ?_, kept⟩
      · rw [written, List.append_assoc, List.take_left' rfl]
      · rw [shorter] at fits
        simp only [List.length_append] at fits
        omega
  by_cases skip : token = [] ∨ token = ['.']
  -- empty and `.` tokens are dropped
  · simp only [normToken, pushShape, if_neg dotDot, if_pos skip]
    exact ⟨by simp; omega, fun st' found => by
      obtain rfl := Option.some.inj found.symm
      exact inv⟩
  -- an ordinary token is written after a `/` when one is needed
  · simp only [normToken, pushShape, if_neg dotDot, if_neg skip] at kept ⊢
    have grown := normText_snoc isAbsolute d ords token
    have room' : st.size - st.written.length = room - (normText isAbsolute (d, ords)).length := by omega
    have sepLength := slashText_length (d, ords)
    rw [slash, room']
    by_cases long : slashOf (d, ords) + token.length > room - (normText isAbsolute (d, ords)).length
    · rw [if_pos long, grown]
      exact ⟨by simp [sepLength]; omega, by simp⟩
    · rw [if_neg long]
      refine ⟨by rw [grown]; simp [sepLength]; omega, fun st' found => ?_⟩
      obtain rfl := Option.some.inj found.symm
      refine ⟨inv.fixed, ?_, by simp, size, by rw [grown]; simp [sepLength]; omega, kept⟩
      rw [inv.written, writtenText_snoc]
      simp [inv.needSlash]

/-- A token ends at the next `/`: none is in it. -/
theorem token_noSlash (path : List Char) : '/' ∉ path.takeWhile (· ≠ '/') := fun mem => by
  simpa using List.mem_takeWhile_imp mem

/-- `find_next_slash` stops at a `/`. -/
theorem findNextSlash_head : ∀ {path : List Char} {c : Char} {rest : List Char},
    findNextSlash path = c :: rest → c = '/'
  | [], _, _, found => by simp [findNextSlash] at found
  | x :: path, c, rest, found => by
    unfold findNextSlash at found
    rw [List.dropWhile_cons] at found
    by_cases slash : x = '/'
    · simp only [slash, ne_eq, not_true_eq_false, decide_false, Bool.false_eq_true, if_false,
        List.cons.injEq] at found
      exact found.1 ▸ rfl
    · simp only [slash, ne_eq, not_false_eq_true, decide_true, if_true] at found
      exact findNextSlash_head found

/-- The components of a path are its first token, then the components after
its next `/`, if there is one. -/
theorem splitOn_token (path : List Char) :
    path.splitOn '/' =
      match findNextSlash path with
      | [] => [path.takeWhile (· ≠ '/')]
      | _ :: rest => path.takeWhile (· ≠ '/') :: rest.splitOn '/' := by
  have whole : path.takeWhile (· ≠ '/') ++ findNextSlash path = path := List.takeWhile_append_dropWhile
  rcases after : findNextSlash path with _ | ⟨c, rest⟩
  · rw [after, List.append_nil] at whole
    conv => lhs; rw [← whole]
    exact List.splitOn_eq_singleton (token_noSlash path)
  · obtain rfl := findNextSlash_head after
    rw [after] at whole
    conv => lhs; rw [← whole]
    exact List.splitOn_append_cons_self_of_not_mem (token_noSlash path) rest

/-- The loop either fails because the text at some token does not fit, or
ends in the state of the shape the reference reaches. -/
theorem normLoop_spec : ∀ {fuel : Nat} {path : List Char} {st : NormState} {shape : Nat × List (List Char)}
    {consumed : Nat}, NormInv isAbsolute room st shape → path.length < fuel →
    (normText isAbsolute shape).length + slashOf shape ≤ consumed →
    (normLoop isAbsolute fuel path st = none → room < consumed + path.length) ∧
      ∀ st', normLoop isAbsolute fuel path st = some st' →
        NormInv isAbsolute room st' ((path.splitOn '/').foldl (pushShape isAbsolute) shape)
  | 0, _, _, _, _, _, enough, _ => absurd enough (by omega)
  | fuel + 1, path, st, shape, consumed, inv, enough, within => by
    obtain ⟨step, next⟩ := normToken_spec inv (token_noSlash path)
    have growth : (normText isAbsolute (pushShape isAbsolute shape (path.takeWhile (· ≠ '/')))).length +
          slashOf (pushShape isAbsolute shape (path.takeWhile (· ≠ '/'))) ≤
        (normText isAbsolute shape).length + slashOf shape + (path.takeWhile (· ≠ '/')).length + 1 ∧
        (normText isAbsolute (pushShape isAbsolute shape (path.takeWhile (· ≠ '/')))).length ≤
        (normText isAbsolute shape).length + slashOf shape + (path.takeWhile (· ≠ '/')).length :=
      pushShape_length _ inv.shapeOk
    have whole : path.takeWhile (· ≠ '/') ++ findNextSlash path = path := List.takeWhile_append_dropWhile
    have lengths := congrArg List.length whole
    rw [List.length_append] at lengths
    rw [normLoop]
    rcases token : normToken isAbsolute (path.takeWhile (· ≠ '/')) st with _ | st1
    -- the token does not fit
    · refine ⟨fun _ => ?_, by simp⟩
      have := step.1 token
      omega
    · have inv1 := next st1 token
      dsimp only
      rw [splitOn_token path]
      rcases after : findNextSlash path with _ | ⟨c, rest⟩
      -- the last token
      · exact ⟨by simp, fun st' last => by
          obtain rfl := Option.some.inj last.symm
          simpa using inv1⟩
      -- on after the token's `/`
      · rw [after] at lengths
        simp only [List.length_cons] at lengths
        dsimp only
        have ih : (normLoop isAbsolute fuel rest st1 = none →
              room < consumed + (path.takeWhile (· ≠ '/')).length + 1 + rest.length) ∧
            ∀ st', normLoop isAbsolute fuel rest st1 = some st' →
              NormInv isAbsolute room st' ((rest.splitOn '/').foldl (pushShape isAbsolute)
                (pushShape isAbsolute shape (path.takeWhile (· ≠ '/')))) :=
          normLoop_spec inv1 (by omega) (by omega)
        exact ⟨fun none => by have := ih.1 none; omega, fun st' found => by simpa using ih.2 st' found⟩

end Loop

/-! ## get_norm_path computes the reference -/

section Reference

variable {isAbsolute : Bool}

theorem slash_not_mem_splitOn : ∀ (path : List Char), ∀ c ∈ path.splitOn '/', '/' ∉ c
  | [] => by simp
  | x :: path => by
    intro c mem
    rw [List.splitOn_cons_eq_if_modifyHead] at mem
    by_cases slash : x = '/'
    · rw [if_pos (by simp [slash])] at mem
      rcases List.mem_cons.1 mem with rfl | mem
      · simp
      · exact slash_not_mem_splitOn path c mem
    · rw [if_neg (by simp [slash])] at mem
      obtain ⟨first, others, split⟩ := List.exists_cons_of_ne_nil (List.splitOn_ne_nil '/' path)
      have rest := slash_not_mem_splitOn path
      rw [split] at mem rest
      rw [List.modifyHead_cons] at mem
      rcases List.mem_cons.1 mem with rfl | mem
      · simp only [List.mem_cons, not_or]
        exact ⟨Ne.symm slash, rest first List.mem_cons_self⟩
      · exact rest c (List.mem_cons_of_mem _ mem)

/-- Over components without `/`, the reference's stack keeps the shape that
`pushShape` computes. -/
theorem foldl_pushComponent {cs : List (List Char)} (noSlash : ∀ c ∈ cs, '/' ∉ c) :
    ∀ {shape : Nat × List (List Char)}, ShapeOk isAbsolute shape →
      ShapeOk isAbsolute (cs.foldl (pushShape isAbsolute) shape) ∧
        cs.foldl (pushComponent isAbsolute) (normStack shape) = normStack (cs.foldl (pushShape isAbsolute) shape) := by
  induction cs with
  | nil => exact fun ok => ⟨ok, rfl⟩
  | cons c cs ih =>
    intro shape ok
    rw [List.foldl_cons, List.foldl_cons, pushComponent_normStack ok]
    exact ih (fun c' mem => noSlash c' (List.mem_cons_of_mem _ mem)) (pushShape_ok ok (noSlash c List.mem_cons_self))

/-- The reference's text is never longer than the path it reads. -/
theorem foldl_pushShape_length {cs : List (List Char)} (nonempty : cs ≠ []) (noSlash : ∀ c ∈ cs, '/' ∉ c) :
    ∀ {shape : Nat × List (List Char)} (consumed : Nat), ShapeOk isAbsolute shape →
      (normText isAbsolute shape).length + slashOf shape ≤ consumed →
      (normText isAbsolute (cs.foldl (pushShape isAbsolute) shape)).length ≤
        consumed + (['/'].intercalate cs).length := by
  induction cs with
  | nil => exact absurd rfl nonempty
  | cons c cs ih =>
    intro shape consumed ok within
    have step := pushShape_length c ok
    cases cs with
    | nil =>
      simp only [List.foldl_cons, List.foldl_nil, List.intercalate_singleton]
      omega
    | cons c' cs =>
      have rest := ih (List.cons_ne_nil _ _) (fun c'' mem => noSlash c'' (List.mem_cons_of_mem _ mem))
        (consumed + c.length + 1) (pushShape_ok ok (noSlash c List.mem_cons_self)) (by omega)
      rw [List.foldl_cons, List.intercalate_cons_cons]
      simp only [List.length_append, List.length_singleton]
      omega

theorem shapeOk_start (isAbsolute : Bool) : ShapeOk isAbsolute (0, []) :=
  ⟨by simp, fun _ => rfl⟩

/-- The reference normal form as the text of a shape. -/
theorem normalizePath_eq (path : List Char) :
    ShapeOk (charAt path == '/') ((path.splitOn '/').foldl (pushShape (charAt path == '/')) (0, [])) ∧
      normalizePath path =
        normText (charAt path == '/') ((path.splitOn '/').foldl (pushShape (charAt path == '/')) (0, [])) := by
  have run : ShapeOk (charAt path == '/') ((path.splitOn '/').foldl (pushShape (charAt path == '/')) (0, [])) ∧
      (path.splitOn '/').foldl (pushComponent (charAt path == '/')) (normStack (0, [])) =
        normStack ((path.splitOn '/').foldl (pushShape (charAt path == '/')) (0, [])) :=
    foldl_pushComponent (slash_not_mem_splitOn path) (shapeOk_start _)
  refine ⟨run.1, ?_⟩
  rw [normText_eq, ← run.2]
  rfl

/-- The state `get_norm_path` starts from, after the root of an absolute
path. -/
theorem normInv_start (isAbsolute : Bool) (room : Nat) (fits : (if isAbsolute then 1 else 0) ≤ room) :
    NormInv isAbsolute room
      { fixed := if isAbsolute then ['/'] else [], written := [], needSlash := false,
        size := room - if isAbsolute then 1 else 0 } (0, []) where
  fixed := by simp [fixedText]
  written := by simp [writtenText]
  needSlash := by simp
  size := by
    cases isAbsolute with
    | false => simp
    | true => simp at fits ⊢; omega
  fits := by
    cases isAbsolute with
    | false => simp [normText, fixedText, writtenText]
    | true => simpa [normText, fixedText, writtenText] using fits
  shapeOk := shapeOk_start isAbsolute

/-- What `get_norm_path` does after its first checks: the loop from the
start state over the path after its root. -/
theorem getNormPath_loop {path : List Char} {n : Nat} (room : n ≠ 0)
    (rootFits : (if charAt path = '/' then 1 else 0) ≤ n - 1) :
    getNormPath path n =
      (normLoop (charAt path == '/') ((path.drop (if charAt path = '/' then 1 else 0)).length + 1)
        (path.drop (if charAt path = '/' then 1 else 0))
        { fixed := if charAt path == '/' then ['/'] else [], written := [], needSlash := false,
          size := n - 1 - if charAt path == '/' then 1 else 0 }).map
        fun st => (st.fixed ++ st.written, st.fixed.length + st.written.length + 1) := by
  unfold getNormPath
  rw [if_neg room]
  dsimp only
  by_cases absolute : charAt path = '/'
  · simp only [absolute, beq_self_eq_true, if_true] at rootFits ⊢
    rw [if_neg (by omega)]
    dsimp only
    split <;> simp_all
  · simp only [absolute, beq_iff_eq, if_false, List.drop_zero] at rootFits ⊢
    split <;> simp_all

/-- The components of an absolute path are an empty one, then those after
its root. -/
theorem foldl_splitOn_drop (path : List Char) :
    (path.splitOn '/').foldl (pushShape (charAt path == '/')) (0, []) =
      ((path.drop (if charAt path = '/' then 1 else 0)).splitOn '/').foldl (pushShape (charAt path == '/')) (0, []) := by
  by_cases absolute : charAt path = '/'
  · obtain ⟨rest, rfl⟩ : ∃ rest, path = '/' :: rest := by
      cases path with
      | nil => simp [charAt] at absolute
      | cons c rest =>
        simp only [charAt] at absolute
        exact ⟨rest, by rw [absolute]⟩
    rw [List.splitOn_cons_eq_if_modifyHead, if_pos (by simp), List.foldl_cons, if_pos absolute]
    simp [pushShape]
  · rw [if_neg absolute, List.drop_zero]

theorem length_drop_root (path : List Char) :
    (path.drop (if charAt path = '/' then 1 else 0)).length + (if charAt path = '/' then 1 else 0) = path.length := by
  by_cases absolute : charAt path = '/'
  · have : path ≠ [] := fun empty => by simp [empty, charAt] at absolute
    have := List.length_pos_of_ne_nil this
    simp [absolute]
    omega
  · simp [absolute]

/-- The text of the start state, against the root that the loop skips. -/
theorem start_within (path : List Char) :
    (normText (charAt path == '/') (0, [])).length + slashOf (0, []) ≤ (if charAt path = '/' then 1 else 0) := by
  by_cases absolute : charAt path = '/' <;> simp [absolute, normText, fixedText, writtenText, slashOf]

/-- The text of a path's reference is never longer than the path. -/
theorem normalizePath_length (path : List Char) : (normalizePath path).length ≤ path.length := by
  obtain ⟨_, reference⟩ := normalizePath_eq path
  have bound := foldl_pushShape_length (List.splitOn_ne_nil '/' (path.drop (if charAt path = '/' then 1 else 0)))
    (slash_not_mem_splitOn _) (if charAt path = '/' then 1 else 0) (shapeOk_start (charAt path == '/')) (start_within path)
  rw [List.intercalate_splitOn, ← foldl_splitOn_drop, ← reference] at bound
  have lengths := length_drop_root path
  omega

/-- The loop of `get_norm_path` fails only when the path does not fit, and
otherwise ends in the state of the reference's last shape. -/
theorem getNormPath_loop_spec (path : List Char) {n : Nat}
    (rootFits : (if charAt path = '/' then 1 else 0) ≤ n - 1) :
    (normLoop (charAt path == '/') ((path.drop (if charAt path = '/' then 1 else 0)).length + 1)
        (path.drop (if charAt path = '/' then 1 else 0))
        { fixed := if charAt path == '/' then ['/'] else [], written := [], needSlash := false,
          size := n - 1 - if charAt path == '/' then 1 else 0 } = none → n - 1 < path.length) ∧
    ∀ st', normLoop (charAt path == '/') ((path.drop (if charAt path = '/' then 1 else 0)).length + 1)
        (path.drop (if charAt path = '/' then 1 else 0))
        { fixed := if charAt path == '/' then ['/'] else [], written := [], needSlash := false,
          size := n - 1 - if charAt path == '/' then 1 else 0 } = some st' →
      NormInv (charAt path == '/') (n - 1) st' ((path.splitOn '/').foldl (pushShape (charAt path == '/')) (0, [])) := by
  have start := normInv_start (charAt path == '/') (n - 1) (by
    by_cases absolute : charAt path = '/' <;> simp_all)
  obtain ⟨failed, succeeded⟩ := normLoop_spec start (Nat.lt_succ_self _) (start_within path)
  rw [← foldl_splitOn_drop] at succeeded
  have lengths := length_drop_root path
  exact ⟨fun none => by have := failed none; omega, succeeded⟩

/-- On success `get_norm_path` writes the reference normal form, no longer
than the path, and stores its size with the NUL. -/
theorem getNormPath_some {path : List Char} {n : Nat} {out : List Char} {size : Nat}
    (found : getNormPath path n = some (out, size)) :
    out = normalizePath path ∧ size = out.length + 1 ∧ size ≤ path.length + 1 := by
  have room : n ≠ 0 := fun empty => by simp [getNormPath, empty] at found
  by_cases rootFits : (if charAt path = '/' then 1 else 0) ≤ n - 1
  swap
  · have absolute : charAt path = '/' := by
      by_contra relative
      simp [relative] at rootFits
    simp only [absolute, if_true] at rootFits
    simp [getNormPath, room, absolute, show n - 1 < 1 by omega] at found
  rw [getNormPath_loop room rootFits, Option.map_eq_some_iff] at found
  obtain ⟨st, loop, result⟩ := found
  obtain ⟨rfl, rfl⟩ := Prod.mk.inj result
  have inv := (getNormPath_loop_spec path rootFits).2 st loop
  have text : st.fixed ++ st.written = normalizePath path := by
    rw [(normalizePath_eq path).2, normText, inv.fixed, inv.written]
  have bound := normalizePath_length path
  refine ⟨text, by simp, ?_⟩
  rw [← List.length_append, text]
  omega

/-- With room for the path and its NUL, `get_norm_path` succeeds. -/
theorem getNormPath_isSome {path : List Char} {n : Nat} (room : path.length + 1 ≤ n) :
    (getNormPath path n).isSome := by
  have lengths := length_drop_root path
  have rootFits : (if charAt path = '/' then 1 else 0) ≤ n - 1 := by omega
  rw [getNormPath_loop (by omega) rootFits, Option.isSome_map]
  have failed := (getNormPath_loop_spec path rootFits).1
  cases loop : normLoop _ _ _ _ with
  | none =>
    have := failed loop
    omega
  | some st => rfl

end Reference

/-! ## Normal forms are fixed points -/

section Idempotence

variable {isAbsolute : Bool}

theorem pushShape_ordinary {o : List Char} (ordinary : Ordinary o) (shape : Nat × List (List Char)) :
    pushShape isAbsolute shape o = (shape.1, shape.2 ++ [o]) := by
  obtain ⟨nonempty, -, notDot, notDotDot⟩ := ordinary
  simp [pushShape, nonempty, notDot, notDotDot]

theorem foldl_pushShape_ordinary : ∀ {os : List (List Char)}, (∀ o ∈ os, Ordinary o) →
    ∀ shape : Nat × List (List Char), os.foldl (pushShape isAbsolute) shape = (shape.1, shape.2 ++ os)
  | [], _, shape => by simp
  | o :: os, ordinary, shape => by
    rw [List.foldl_cons, pushShape_ordinary (ordinary o List.mem_cons_self),
      foldl_pushShape_ordinary (fun o' mem => ordinary o' (List.mem_cons_of_mem _ mem))]
    simp

/-- A relative path's leading `..` are all kept. -/
theorem foldl_pushShape_dotDot : ∀ k d : Nat,
    (List.replicate k ['.', '.']).foldl (pushShape false) (d, []) = (d + k, [])
  | 0, d => rfl
  | k + 1, d => by
    have step : pushShape false (d, []) ['.', '.'] = (d + 1, []) := by simp [pushShape]
    rw [List.replicate_succ, List.foldl_cons, step, foldl_pushShape_dotDot k (d + 1), Nat.add_right_comm, Nat.add_assoc]

/-- Joining components by / and splitting again gives them back, up to the
empty component of an empty join, which the push drops. -/
theorem foldl_pushShape_splitOn_intercalate {cs : List (List Char)} (noSlash : ∀ c ∈ cs, '/' ∉ c)
    (shape : Nat × List (List Char)) :
    ((['/'].intercalate cs).splitOn '/').foldl (pushShape isAbsolute) shape = cs.foldl (pushShape isAbsolute) shape := by
  by_cases empty : cs = []
  · subst empty
    simp [pushShape]
  · rw [List.splitOn_intercalate '/' noSlash empty]

theorem normStack_reverse (shape : Nat × List (List Char)) :
    (normStack shape).reverse = List.replicate shape.1 ['.', '.'] ++ shape.2 := by
  simp [normStack]

/-- A join of nonempty components without / does not start with one. -/
theorem charAt_intercalate_ne : ∀ {cs : List (List Char)}, (∀ c ∈ cs, c ≠ [] ∧ '/' ∉ c) →
    charAt (['/'].intercalate cs) ≠ '/'
  | [], _ => by decide
  | [] :: _, kept => absurd rfl (kept [] List.mem_cons_self).1
  | (x :: xs) :: cs, kept => by
    have first : x ≠ '/' := fun slash => (kept _ List.mem_cons_self).2 (by simp [slash])
    cases cs with
    | nil => simpa [charAt] using first
    | cons c cs => simpa [List.intercalate_cons_cons, charAt] using first

section Shape

variable {shape : Nat × List (List Char)} (ok : ShapeOk isAbsolute shape)
include ok

theorem kept_components : ∀ c ∈ List.replicate shape.1 ['.', '.'] ++ shape.2, c ≠ [] ∧ '/' ∉ c := by
  intro c mem
  rcases List.mem_append.1 mem with dotDot | ordinary
  · rw [List.eq_of_mem_replicate dotDot]
    decide
  · exact ⟨(ok.ordinary c ordinary).1, (ok.ordinary c ordinary).2.1⟩

/-- The text of a shape starts with / exactly for an absolute path. -/
theorem charAt_normText : (charAt (normText isAbsolute shape) == '/') = isAbsolute := by
  cases isAbsolute with
  | true => simp [normText, fixedText, charAt]
  | false =>
    have noRoot := charAt_intercalate_ne (kept_components ok)
    rw [normText_eq, normStack_reverse]
    simpa using noRoot

/-- Reading the text of a shape again goes through to the same shape. -/
theorem foldl_splitOn_normText :
    ((normText isAbsolute shape).splitOn '/').foldl (pushShape isAbsolute) (0, []) = shape := by
  have noSlash : ∀ c ∈ List.replicate shape.1 ['.', '.'] ++ shape.2, '/' ∉ c :=
    fun c mem => (kept_components ok c mem).2
  have ordinary := ok.ordinary
  obtain ⟨d, ords⟩ := shape
  cases isAbsolute with
  | true =>
    obtain rfl : d = 0 := ok.rootless rfl
    have text : normText true (0, ords) = '/' :: ['/'].intercalate ords := by
      simp [normText, fixedText, writtenText]
    have skipped : pushShape true (0, []) [] = (0, []) := by simp [pushShape]
    rw [text, List.splitOn_cons_eq_if_modifyHead, if_pos (by simp), List.foldl_cons, skipped,
      foldl_pushShape_splitOn_intercalate (fun c mem => noSlash c (by simpa using mem)),
      foldl_pushShape_ordinary ordinary]
    simp
  | false =>
    rw [normText_eq, normStack_reverse, if_neg Bool.false_ne_true, List.nil_append,
      foldl_pushShape_splitOn_intercalate noSlash, List.foldl_append, foldl_pushShape_dotDot,
      foldl_pushShape_ordinary ordinary]
    simp

/-- The text of every shape a normalisation reaches is its own normal form. -/
theorem normalizePath_normText : normalizePath (normText isAbsolute shape) = normText isAbsolute shape := by
  obtain ⟨-, reference⟩ := normalizePath_eq (normText isAbsolute shape)
  rw [reference, charAt_normText ok, foldl_splitOn_normText ok]

end Shape

theorem normalizePath_idempotent (path : List Char) : normalizePath (normalizePath path) = normalizePath path := by
  obtain ⟨ok, reference⟩ := normalizePath_eq path
  rw [reference, normalizePath_normText ok]

/-- What `get_norm_path` writes, it writes again from its own output in a
buffer of the same size. -/
theorem getNormPath_again {path out : List Char} {n size : Nat} (found : getNormPath path n = some (out, size)) :
    getNormPath out size = some (out, size) := by
  obtain ⟨text, sized, -⟩ := getNormPath_some found
  have fits : out.length + 1 ≤ size := by omega
  obtain ⟨⟨out', size'⟩, again⟩ := Option.isSome_iff_exists.1 (getNormPath_isSome fits)
  obtain ⟨text', sized', -⟩ := getNormPath_some again
  have same : out' = out := by rw [text', text, normalizePath_idempotent]
  rw [again, same, sized', same, sized]

end Idempotence

/-- `get_norm_path` against the reference: what it writes is the normal form,
no longer than the path; a buffer one byte longer than the path is always
enough; and a normal form is normalised to itself. -/
theorem getNormPath_normalizes :
    (∀ (path : List Char) (n : Nat) (out : List Char) (size : Nat), getNormPath path n = some (out, size) →
        out = normalizePath path ∧ size = out.length + 1 ∧ size ≤ path.length + 1) ∧
      (∀ (path : List Char) (n : Nat), path.length + 1 ≤ n → (getNormPath path n).isSome) ∧
      (∀ path : List Char, normalizePath (normalizePath path) = normalizePath path) ∧
      ∀ (path : List Char) (n : Nat) (out : List Char) (size : Nat), getNormPath path n = some (out, size) →
        getNormPath out size = some (out, size) :=
  ⟨fun _ _ _ _ found => getNormPath_some found, fun _ _ room => getNormPath_isSome room,
    normalizePath_idempotent, fun _ _ _ _ found => getNormPath_again found⟩

/-- The cases of `normalize_path.c`. -/
example :
    [("/", "/"), ("/a/b/c", "/a/b/c"), ("/a/../b", "/b"), ("/../a", "/a"), ("/../../../../../a", "/a"),
      ("/../a/../../b", "/b"), ("/../..a/b", "/..a/b"), ("/a/..", "/"), ("/a/.", "/a"),
      ("/.//a//./b", "/a/b"), ("///////.////////////./", "/"),
      ("/...././a/../././.../b/.....", "/..../.../b/....."), ("a/b/c", "a/b/c"), ("a/../b", "b"),
      ("../a", "../a"), ("../../../../../a", "../../../../../a"), ("../a/../../b", "../../b"),
      ("../..a/b", "../..a/b"), ("a/..", ""), ("a/.", "a")].all
      (fun (path, norm) => getNormPath path.toList 64 = some (norm.toList, norm.length + 1) &&
        normalizePath path.toList = norm.toList) := by
  decide

end Gramine.Common
