import Mathlib

/-!
# Which trusted or allowed file admits a path

`get_trusted_or_allowed_file` (`enclave_framework.c`) walks the list of
files of `sgx.trusted_files` and `sgx.allowed_files` in order and returns the
first that admits the normalised path of a file being opened: a trusted file
only its own path, an allowed file its path and every path under it. The path
of an entry is its URI past the `file:` or `dev:` prefix, found by
`find_path_in_uri`; `path_is_equal_or_subpath` decides "under" by comparing
bytes and then looking at the byte after the entry's path.

Strings are their bytes before the terminating NUL; a read past the end of a
string reads that NUL, and a read just before an entry's path reads the last
byte of its prefix, as the C reads do. The module proves that the walk returns
the first entry that admits the path (`getTrustedOrAllowedFile_eq_find`).
-/

namespace Gramine.Pal.LinuxSgx

/-- `URI_PREFIX_FILE`. -/
def URI_PREFIX_FILE : List Char := "file:".toList

/-- `URI_PREFIX_DEV`. -/
def URI_PREFIX_DEV : List Char := "dev:".toList

/-- The byte at `i` of a C string: its NUL past its end. -/
def cStrAt (s : List Char) (i : Nat) : Char := s.getD i (Char.ofNat 0)

/-- `memcmp(a, b, n) == 0` on two C strings. -/
def memcmpEq (a b : List Char) (n : Nat) : Bool := (List.range n).all fun i => cStrAt a i == cStrAt b i

/-- `strstartswith(s, prefix)`. -/
def strstartswith (s pre : List Char) : Bool := pre.isPrefixOf s

/-- The fields of a registered `struct trusted_file` the lookup reads: its
URI, which `normalize_and_register_file` only takes with a `file:` or `dev:`
prefix, and whether it is an allowed file. -/
structure TrustedFileUri where
  uri : List Char
  allowed : Bool
  prefixed : strstartswith uri URI_PREFIX_FILE = true ∨ strstartswith uri URI_PREFIX_DEV = true

/-- `find_path_in_uri(uri, uri_len, ...)`: where the path starts in `uri`. -/
def findPathInUri (uri : List Char) : Nat :=
  if strstartswith uri URI_PREFIX_FILE then URI_PREFIX_FILE.length else URI_PREFIX_DEV.length

/-- `path_is_equal_or_subpath(tf, path, path_len)`. -/
def pathIsEqualOrSubpath (tf : TrustedFileUri) (path : List Char) : Bool :=
  let tfPath := findPathInUri tf.uri
  let tfPathLen := tf.uri.length - tfPath
  if tfPathLen > path.length || !memcmpEq (tf.uri.drop tfPath) path tfPathLen then false
  else if tfPathLen = path.length then true
  -- `tf_path[tf_path_len - 1]`, the prefix's last byte for an empty path
  else if cStrAt tf.uri (tfPath + tfPathLen - 1) = '/' then true
  else if cStrAt path tfPathLen = '/' then true
  else false

/-- The body of the loop of `get_trusted_or_allowed_file`: whether `tf`
is the entry to return for `path`. -/
def trustedFileMatches (path : List Char) (tf : TrustedFileUri) : Bool :=
  if tf.allowed then pathIsEqualOrSubpath tf path
  else
    let tfPath := findPathInUri tf.uri
    tf.uri.length - tfPath == path.length && memcmpEq (tf.uri.drop tfPath) path (path.length + 1)

/-- `get_trusted_or_allowed_file(path)` over `g_trusted_file_list`. -/
def getTrustedOrAllowedFile (files : List TrustedFileUri) (path : List Char) : Option TrustedFileUri :=
  files.find? (trustedFileMatches path)

/-! ## What an entry admits -/

/-- The path of an entry: its URI past the prefix. -/
def TrustedFileUri.path (tf : TrustedFileUri) : List Char := tf.uri.drop (findPathInUri tf.uri)

/-- What an entry admits: a trusted file exactly its path; an allowed file
its path `a` and every `a ++ "/" ++ rest`, and, when `a` ends with a slash,
every `a ++ rest`. -/
def TrustedFileUri.Admits (tf : TrustedFileUri) (path : List Char) : Prop :=
  if tf.allowed then tf.path = path ∨ tf.path ++ ['/'] <+: path ∨ (tf.path.getLast? = some '/' ∧ tf.path <+: path)
  else tf.path = path

instance (tf : TrustedFileUri) (path : List Char) : Decidable (tf.Admits path) :=
  inferInstanceAs (Decidable (if tf.allowed then
    tf.path = path ∨ tf.path ++ ['/'] <+: path ∨ (tf.path.getLast? = some '/' ∧ tf.path <+: path)
    else tf.path = path))

attribute [grind] cStrAt trustedFileMatches TrustedFileUri.path

theorem memcmpEq_iff {a b : List Char} {n : Nat} : memcmpEq a b n = true ↔ ∀ i < n, cStrAt a i = cStrAt b i := by
  simp [memcmpEq]

/-- Two strings agree on the bytes of the shorter one exactly when it is a
prefix of the other. -/
theorem agree_iff_prefixed {a b : List Char} (shorter : a.length ≤ b.length) :
    (∀ i < a.length, cStrAt a i = cStrAt b i) ↔ a <+: b := by
  rw [List.prefix_iff_eq_take]
  constructor
  · intro agree
    apply List.ext_getElem (by simp [shorter])
    intro i inA inTake
    have same := agree i inA
    simp only [cStrAt, List.getD_eq_getElem _ _ inA, List.getD_eq_getElem _ _ (Nat.lt_of_lt_of_le inA shorter)]
      at same
    rw [same, List.getElem_take]
  · intro taken i inA
    rw [taken]
    simp [cStrAt, List.getD_eq_getElem?_getD, inA]

theorem TrustedFileUri.cStrAt_uri (tf : TrustedFileUri) (i : Nat) :
    cStrAt tf.uri (findPathInUri tf.uri + i) = cStrAt tf.path i := by
  simp [cStrAt, TrustedFileUri.path, List.getD_eq_getElem?_getD]

theorem TrustedFileUri.length_path (tf : TrustedFileUri) : tf.path.length = tf.uri.length - findPathInUri tf.uri := by
  simp [TrustedFileUri.path]

/-- The byte before an entry's path is the colon that ends its prefix. -/
theorem TrustedFileUri.cStrAt_before_path (tf : TrustedFileUri) :
    cStrAt tf.uri (findPathInUri tf.uri - 1) = ':' := by
  rcases tf.prefixed with file | dev
  · obtain ⟨rest, uriIs⟩ := List.isPrefixOf_iff_prefix.mp file
    rw [findPathInUri, if_pos file, ← uriIs]
    rfl
  · obtain ⟨rest, uriIs⟩ := List.isPrefixOf_iff_prefix.mp dev
    have notFile : strstartswith tf.uri URI_PREFIX_FILE = false := by
      rw [← uriIs]
      rfl
    rw [findPathInUri, notFile, ← uriIs]
    rfl

/-- `tf_path[tf_path_len - 1]` is a slash exactly when the entry's path ends
with one: for an empty path it reads the prefix's colon. -/
theorem TrustedFileUri.cStrAt_last_iff (tf : TrustedFileUri) :
    cStrAt tf.uri (findPathInUri tf.uri + tf.path.length - 1) = '/' ↔ tf.path.getLast? = some '/' := by
  rcases emptyOrNot : tf.path with _ | ⟨c, rest⟩
  · rw [List.length_nil, Nat.add_zero, tf.cStrAt_before_path]
    simp
  · have index : findPathInUri tf.uri + (c :: rest).length - 1 = findPathInUri tf.uri + rest.length := by
      simp only [List.length_cons]
      omega
    rw [index, tf.cStrAt_uri, emptyOrNot, List.getLast?_eq_getElem?]
    simp [cStrAt, List.getD_eq_getElem?_getD]

/-- A prefix `a` of a longer string `p` goes on with a slash exactly when
the byte of `p` after it is a slash. -/
theorem prefix_slash_iff {a p : List Char} (pre : a <+: p) (shorter : a.length < p.length) :
    a ++ ['/'] <+: p ↔ cStrAt p a.length = '/' := by
  obtain ⟨rest, rfl⟩ := pre
  cases rest with
  | nil => simp at shorter
  | cons c rest =>
    rw [List.prefix_append_right_inj]
    simp [cStrAt, List.getD_eq_getElem?_getD, eq_comm]

/-- `path_is_equal_or_subpath` decides what an allowed entry admits. -/
theorem pathIsEqualOrSubpath_iff (tf : TrustedFileUri) (path : List Char) :
    pathIsEqualOrSubpath tf path = true ↔
      tf.path = path ∨ tf.path ++ ['/'] <+: path ∨ (tf.path.getLast? = some '/' ∧ tf.path <+: path) := by
  have samePath : tf.uri.drop (findPathInUri tf.uri) = tf.path := rfl
  unfold pathIsEqualOrSubpath
  dsimp only
  rw [← tf.length_path, samePath]
  -- every way of being admitted makes the entry's path a prefix
  have toPrefix : tf.path = path ∨ tf.path ++ ['/'] <+: path ∨ (tf.path.getLast? = some '/' ∧ tf.path <+: path) →
      tf.path <+: path := by
    rintro (same | slash | ⟨-, pre⟩)
    · exact same ▸ List.prefix_refl _
    · exact (List.prefix_append _ _).trans slash
    · exact pre
  by_cases longer : tf.path.length > path.length
  · simp only [longer, decide_true, Bool.true_or, if_true, Bool.false_eq_true, false_iff]
    exact fun admitted => absurd (toPrefix admitted).length_le (by omega)
  by_cases agree : memcmpEq tf.path path tf.path.length = true
  · have pre : tf.path <+: path := (agree_iff_prefixed (by omega)).mp (memcmpEq_iff.mp agree)
    simp only [longer, agree, decide_false, Bool.not_true, Bool.or_false, Bool.false_eq_true, if_false]
    by_cases sameLength : tf.path.length = path.length
    · simp only [sameLength, if_true, true_iff]
      exact .inl (pre.eq_of_length sameLength)
    rw [if_neg sameLength]
    by_cases lastSlash : cStrAt tf.uri (findPathInUri tf.uri + tf.path.length - 1) = '/'
    · simp only [lastSlash, if_true, true_iff]
      exact .inr (.inr ⟨tf.cStrAt_last_iff.mp lastSlash, pre⟩)
    rw [if_neg lastSlash, prefix_slash_iff pre (by omega)]
    by_cases nextSlash : cStrAt path tf.path.length = '/'
    · simp [nextSlash]
    · simp only [nextSlash, if_false, Bool.false_eq_true, false_iff, false_or]
      rintro (same | ⟨last, -⟩)
      · exact sameLength (congrArg List.length same)
      · exact lastSlash (tf.cStrAt_last_iff.mpr last)
  · have notPrefix : ¬tf.path <+: path := fun pre =>
      agree (memcmpEq_iff.mpr ((agree_iff_prefixed (by omega)).mpr pre))
    simp only [agree, Bool.not_false, Bool.or_true, if_true, Bool.false_eq_true, false_iff]
    exact fun admitted => notPrefix (toPrefix admitted)

/-- The trusted-file branch: the same length and the same bytes, the NULs
included. -/
theorem trustedFileMatches_of_not_allowed (tf : TrustedFileUri) (path : List Char) (trusted : tf.allowed = false) :
    trustedFileMatches path tf = true ↔ tf.path = path := by
  have samePath : tf.uri.drop (findPathInUri tf.uri) = tf.path := rfl
  unfold trustedFileMatches
  simp only [trusted, Bool.false_eq_true, if_false]
  rw [← tf.length_path, samePath, Bool.and_eq_true, beq_iff_eq, memcmpEq_iff]
  constructor
  · rintro ⟨sameLength, agree⟩
    exact ((agree_iff_prefixed (by omega)).mp fun i below => agree i (by omega)).eq_of_length sameLength
  · rintro rfl
    exact ⟨rfl, fun _ _ => rfl⟩

theorem trustedFileMatches_iff (tf : TrustedFileUri) (path : List Char) :
    trustedFileMatches path tf = true ↔ tf.Admits path := by
  unfold TrustedFileUri.Admits
  cases allowed : tf.allowed with
  | true =>
    simp only [trustedFileMatches, allowed, if_true]
    exact pathIsEqualOrSubpath_iff tf path
  | false =>
    simp only [Bool.false_eq_true, if_false]
    exact trustedFileMatches_of_not_allowed tf path allowed

/-- `get_trusted_or_allowed_file` returns the first entry of the list that
admits the path: a trusted file whose path is the path, or an allowed file
whose path is the path or a whole-component ancestor of it. -/
theorem getTrustedOrAllowedFile_eq_find (files : List TrustedFileUri) (path : List Char) :
    getTrustedOrAllowedFile files path = files.find? fun tf => decide (tf.Admits path) := by
  unfold getTrustedOrAllowedFile
  congr 1
  funext tf
  exact Bool.eq_iff_iff.mpr ((trustedFileMatches_iff tf path).trans decide_eq_true_iff.symm)

/-- An allowed `file:foo` admits `foo/bar` but not `foobar`. -/
example : (getTrustedOrAllowedFile [⟨"file:foo".toList, true, .inl rfl⟩] "foobar".toList).isNone = true ∧
    (getTrustedOrAllowedFile [⟨"file:foo".toList, true, .inl rfl⟩] "foo/bar".toList).isSome = true := by
  decide

end Gramine.Pal.LinuxSgx
