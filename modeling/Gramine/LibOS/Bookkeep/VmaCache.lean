import Mathlib
import Gramine.Library.TaggedWord

/-!
# The per-thread cache of free VMAs

`libos_vma.c` keeps up to `VMA_CACHE_SIZE` free `struct libos_vma` for each
thread in a singly linked list threaded through their `next_free` fields, with
the head in the TCB word `vma_cache`. A VMA is aligned to `VMA_CACHE_SIZE + 1`,
and lengths ride in the low bits: the TCB word is the head tagged with the
length of the list, and the `next_free` of each VMA is the next one tagged with
the length of the rest of the list.

The model keeps the TCB word and the `next_free` field of the VMA at every
address as 64-bit words. The two loops of `remove_from_thread_vma_cache` get
fuel. Asserts are those of a release build, which compiles them out.

`get_from_thread_vma_cache` and `add_to_thread_vma_cache` keep the encoding,
and so does `remove_from_thread_vma_cache` for the head of the list or a VMA
that is not in it. For any other VMA of the list it unlinks the VMA and retags
every link before it, but it tags the TCB word with `cache2size(first_vma) - 1`
where `first_vma` has already lost its tag: the size is `0 - 1`, and the TCB
word becomes all ones.
-/

namespace Gramine.LibOS.Bookkeep

open TaggedWord

def VMA_CACHE_SIZE : UInt64 := 3

/-- `cache2ptr(vma)`. -/
def cache2ptr (vma : UInt64) : UInt64 := vma &&& ~~~VMA_CACHE_SIZE

/-- `create_cache_ptr(vma, size)`. -/
def createCachePtr (vma size : UInt64) : UInt64 := vma ||| size

/-- `cache2size(vma)`. -/
def cache2size (vma : UInt64) : UInt64 := vma &&& VMA_CACHE_SIZE

/-- The words the cache lives in: the TCB word `vma_cache`, and the
`next_free` field of the VMA at each address. -/
structure VmaCache where
  vmaCache : UInt64
  nextFree : UInt64 → UInt64

/-- `get_from_thread_vma_cache()`: the VMA taken, `NULL` when the cache is
empty. -/
def getFromThreadVmaCache (cache : VmaCache) : UInt64 × VmaCache :=
  let vma := cache2ptr cache.vmaCache
  if vma = 0 then (0, cache) else (vma, { cache with vmaCache := cache.nextFree vma })

/-- `add_to_thread_vma_cache(vma)`: whether the VMA was taken in. -/
def addToThreadVmaCache (vma : UInt64) (cache : VmaCache) : Bool × VmaCache :=
  let ptr := cache.vmaCache
  let size := cache2size ptr
  if size ≥ VMA_CACHE_SIZE then (false, cache)
  else (true, ⟨createCachePtr vma (size + 1), Function.update cache.nextFree vma ptr⟩)

/-- The first loop of `remove_from_thread_vma_cache`, from `vma`: whether a VMA
of the list links to `to_remove`. -/
def findToRemove (nextFree : UInt64 → UInt64) (toRemove : UInt64) : Nat → UInt64 → Option Bool
  | 0, _ => none
  | fuel + 1, vma =>
    if vma = 0 then some false
    else
      let next := cache2ptr (nextFree vma)
      if next = toRemove then some true else findToRemove nextFree toRemove fuel next

/-- The second loop, from `vma`: it unlinks `to_remove` and retags every link
before it with its size less one. -/
def unlinkToRemove (toRemove : UInt64) :
    Nat → (UInt64 → UInt64) → UInt64 → Option (UInt64 → UInt64)
  | 0, _, _ => none
  | fuel + 1, nextFree, vma =>
    if vma = 0 then some nextFree
    else
      let next := cache2ptr (nextFree vma)
      if next = toRemove then some (Function.update nextFree vma (nextFree next))
      else
        unlinkToRemove toRemove fuel
          (Function.update nextFree vma (createCachePtr next (cache2size (nextFree vma) - 1))) next

/-- `remove_from_thread_vma_cache(to_remove)`, with `fuel` for each loop. -/
def removeFromThreadVmaCache (fuel : Nat) (toRemove : UInt64) (cache : VmaCache) :
    Option VmaCache :=
  let firstVma := cache2ptr cache.vmaCache
  if firstVma = toRemove then some { cache with vmaCache := cache.nextFree firstVma }
  else
    match findToRemove cache.nextFree toRemove fuel firstVma with
    | none => none
    | some false => some cache
    | some true =>
      let vmaCache := createCachePtr firstVma (cache2size firstVma - 1)
      (unlinkToRemove toRemove fuel cache.nextFree firstVma).map fun nextFree => ⟨vmaCache, nextFree⟩

/-! ## The encoding -/

/-- The word that stands for the list `vmas`: its head tagged with its length,
`NULL` for the empty list. -/
def cacheWord : List UInt64 → UInt64
  | [] => 0
  | vma :: rest => createCachePtr vma (UInt64.ofNat (rest.length + 1))

/-- The `next_free` of each VMA of `vmas` stands for the rest of the list after
it. -/
def LinksHold (nextFree : UInt64 → UInt64) : List UInt64 → Prop
  | [] => True
  | vma :: rest => nextFree vma = cacheWord rest ∧ LinksHold nextFree rest

/-- The cache holds the list `vmas` of distinct aligned VMAs, at most
`VMA_CACHE_SIZE` of them: the TCB word stands for the list and every link for
the rest of the list after it. -/
structure VmaCache.Holds (cache : VmaCache) (vmas : List UInt64) : Prop where
  aligned : ∀ vma ∈ vmas, vma ≠ 0 ∧ cache2size vma = 0
  nodup : vmas.Nodup
  short : vmas.length ≤ VMA_CACHE_SIZE.toNat
  head : cache.vmaCache = cacheWord vmas
  links : LinksHold cache.nextFree vmas

@[simp] theorem linksHold_nil (nextFree : UInt64 → UInt64) : LinksHold nextFree [] := trivial

@[simp] theorem linksHold_cons {nextFree : UInt64 → UInt64} {vma : UInt64} {rest : List UInt64} :
    LinksHold nextFree (vma :: rest) ↔ nextFree vma = cacheWord rest ∧ LinksHold nextFree rest :=
  Iff.rfl

/-- The links of a list only read the `next_free` of its own VMAs. -/
theorem LinksHold.congr {nextFree nextFree' : UInt64 → UInt64} {vmas : List UInt64}
    (links : LinksHold nextFree vmas) (agree : ∀ vma ∈ vmas, nextFree' vma = nextFree vma) :
    LinksHold nextFree' vmas := by
  induction vmas with
  | nil => trivial
  | cons vma rest ih =>
    rw [linksHold_cons] at links ⊢
    refine ⟨by rw [agree vma List.mem_cons_self]; exact links.1, ih links.2 ?_⟩
    intro other inside
    exact agree other (List.mem_cons_of_mem vma inside)

/-! ## Tags -/

/-- The lengths the cache stores fit in the tag bits. -/
theorem length_tag_small {k : Nat} (short : k ≤ VMA_CACHE_SIZE.toNat) :
    UInt64.ofNat k &&& ~~~VMA_CACHE_SIZE = 0 := by
  have three : k ≤ 3 := short
  rcases k with _ | _ | _ | _ | k
  · decide
  · decide
  · decide
  · decide
  · omega

/-- The head of the list a word stands for. -/
theorem cache2ptr_cacheWord {vmas : List UInt64} (aligned : ∀ vma ∈ vmas, vma ≠ 0 ∧ cache2size vma = 0)
    (short : vmas.length ≤ VMA_CACHE_SIZE.toNat) : cache2ptr (cacheWord vmas) = vmas.headD 0 := by
  cases vmas with
  | nil => rfl
  | cons vma rest =>
    exact or_and_not (aligned vma List.mem_cons_self).2 (length_tag_small short)

/-- The length of the list a word stands for. -/
theorem cache2size_cacheWord {vmas : List UInt64}
    (aligned : ∀ vma ∈ vmas, vma ≠ 0 ∧ cache2size vma = 0)
    (short : vmas.length ≤ VMA_CACHE_SIZE.toNat) :
    cache2size (cacheWord vmas) = UInt64.ofNat vmas.length := by
  cases vmas with
  | nil => rfl
  | cons vma rest =>
    exact or_and (aligned vma List.mem_cons_self).2 (length_tag_small short)

/-- The cache is full exactly when the list has `VMA_CACHE_SIZE` VMAs. -/
theorem ofNat_length_ge_iff {k : Nat} (short : k ≤ VMA_CACHE_SIZE.toNat) :
    UInt64.ofNat k ≥ VMA_CACHE_SIZE ↔ ¬ k < VMA_CACHE_SIZE.toNat := by
  have three : k ≤ 3 := short
  rcases k with _ | _ | _ | _ | k
  · decide
  · decide
  · decide
  · decide
  · omega

namespace VmaCache.Holds

variable {cache : VmaCache} {vma : UInt64} {vmas : List UInt64}

theorem tail (holds : cache.Holds (vma :: vmas)) :
    VmaCache.Holds { cache with vmaCache := cache.nextFree vma } vmas where
  aligned := fun other inside => holds.aligned other (List.mem_cons_of_mem vma inside)
  nodup := (List.nodup_cons.mp holds.nodup).2
  short := Nat.le_trans (Nat.le_succ _) holds.short
  head := holds.links.1
  links := holds.links.2

end VmaCache.Holds

/-! ## Taking and giving back VMAs -/

variable {cache : VmaCache} {vmas : List UInt64}

/-- `get_from_thread_vma_cache` takes the head of the list, or returns `NULL`
and leaves an empty cache alone. -/
theorem getFromThreadVmaCache_holds (holds : cache.Holds vmas) :
    (getFromThreadVmaCache cache).1 = vmas.headD 0 ∧
      (getFromThreadVmaCache cache).2.Holds vmas.tail := by
  have head : cache2ptr cache.vmaCache = vmas.headD 0 := by
    rw [holds.head]
    exact cache2ptr_cacheWord holds.aligned holds.short
  cases vmas with
  | nil =>
    simp only [getFromThreadVmaCache, head, List.headD_nil, if_pos, true_and]
    exact holds
  | cons vma rest =>
    have nonnull := (holds.aligned vma List.mem_cons_self).1
    simp only [getFromThreadVmaCache, head, List.headD_cons, if_neg nonnull, true_and]
    exact holds.tail

/-- `add_to_thread_vma_cache` of an aligned VMA not in the list puts it at the
head, unless the cache is full. -/
theorem addToThreadVmaCache_holds {vma : UInt64} (holds : cache.Holds vmas) (fresh : vma ∉ vmas)
    (nonnull : vma ≠ 0) (aligned : cache2size vma = 0) :
    (addToThreadVmaCache vma cache).1 = decide (vmas.length < VMA_CACHE_SIZE.toNat) ∧
      (addToThreadVmaCache vma cache).2.Holds
        (if vmas.length < VMA_CACHE_SIZE.toNat then vma :: vmas else vmas) := by
  have size : cache2size cache.vmaCache = UInt64.ofNat vmas.length := by
    rw [holds.head]
    exact cache2size_cacheWord holds.aligned holds.short
  by_cases room : vmas.length < VMA_CACHE_SIZE.toNat
  · have not_full : ¬ cache2size cache.vmaCache ≥ VMA_CACHE_SIZE := by
      rw [size, ofNat_length_ge_iff holds.short]
      exact not_not.mpr room
    have tagged : createCachePtr vma (cache2size cache.vmaCache + 1) = cacheWord (vma :: vmas) := by
      rw [size]
      show _ = createCachePtr vma (UInt64.ofNat (vmas.length + 1))
      rw [UInt64.ofNat_add]
      rfl
    simp only [addToThreadVmaCache, if_neg not_full, if_pos room, decide_eq_true room, tagged,
      true_and]
    refine ⟨?_, List.nodup_cons.mpr ⟨fresh, holds.nodup⟩, room, rfl, ?_⟩
    · rintro other (_ | ⟨_, inside⟩)
      · exact ⟨nonnull, aligned⟩
      · exact holds.aligned other inside
    · rw [linksHold_cons]
      dsimp only
      rw [Function.update_self, ← holds.head]
      refine ⟨rfl, holds.links.congr fun other inside => ?_⟩
      exact Function.update_of_ne (fun same => fresh (by rw [← same]; exact inside)) _ _
  · have full : cache2size cache.vmaCache ≥ VMA_CACHE_SIZE := by
      rw [size, ofNat_length_ge_iff holds.short]
      exact room
    simp only [addToThreadVmaCache, if_pos full, if_neg room, decide_eq_false room, true_and]
    exact holds

/-! ## Taking a VMA out -/

/-- One less in a tag. -/
theorem ofNat_succ_sub_one (k : Nat) : UInt64.ofNat (k + 1) - 1 = UInt64.ofNat k := by
  rw [UInt64.ofNat_add]
  exact UInt64.add_sub_cancel _ _

variable {nextFree : UInt64 → UInt64} {toRemove vma : UInt64}

/-- One turn of the first loop at a VMA that stands before the list `after`. -/
theorem findToRemove_step {after : List UInt64} {fuel : Nat} (nonnull : vma ≠ 0)
    (next : cache2ptr (nextFree vma) = after.headD 0) :
    findToRemove nextFree toRemove (fuel + 1) vma =
      if after.headD 0 = toRemove then some true
      else findToRemove nextFree toRemove fuel (after.headD 0) := by
  rw [findToRemove, if_neg nonnull]
  dsimp only
  rw [next]

/-- From a VMA of the list, the first loop finds `to_remove` exactly when it
is further down the list. The induction walks the rest of the list. -/
theorem findToRemove_of_linksHold {after : List UInt64} (links : LinksHold nextFree (vma :: after))
    (aligned : ∀ other ∈ vma :: after, other ≠ 0 ∧ cache2size other = 0)
    (short : (vma :: after).length ≤ VMA_CACHE_SIZE.toNat) (nonnull : toRemove ≠ 0) {fuel : Nat}
    (enough : after.length + 2 ≤ fuel) :
    findToRemove nextFree toRemove fuel vma = some (decide (toRemove ∈ after)) := by
  have nonnull_vma := (aligned vma List.mem_cons_self).1
  have rest_aligned : ∀ other ∈ after, other ≠ 0 ∧ cache2size other = 0 :=
    fun other inside => aligned other (List.mem_cons_of_mem vma inside)
  have next : cache2ptr (nextFree vma) = after.headD 0 := by
    rw [links.1]
    exact cache2ptr_cacheWord rest_aligned (Nat.le_trans (Nat.le_succ _) short)
  induction after generalizing vma fuel with
  | nil =>
    -- past the last VMA the loop reads `NULL` and stops
    obtain ⟨fuel, rfl⟩ : ∃ rest, fuel = rest + 2 := ⟨fuel - 2, by simp at enough; omega⟩
    rw [findToRemove_step nonnull_vma next, List.headD_nil, if_neg (Ne.symm nonnull), findToRemove,
      if_pos rfl]
    rfl
  | cons u us ih =>
    obtain ⟨fuel, rfl⟩ : ∃ rest, fuel = rest + 1 := ⟨fuel - 1, by omega⟩
    rw [findToRemove_step nonnull_vma next, List.headD_cons]
    by_cases found : u = toRemove
    · rw [if_pos found, found]
      simp
    · have u_aligned : ∀ other ∈ u :: us, other ≠ 0 ∧ cache2size other = 0 := rest_aligned
      rw [if_neg found, ih links.2 u_aligned (by simp at short ⊢; omega) (by simp at enough ⊢; omega)
        (u_aligned u List.mem_cons_self).1 (fun other inside => u_aligned other
          (List.mem_cons_of_mem u inside))]
      · simp [Ne.symm found]
      · rw [links.2.1]
        exact cache2ptr_cacheWord (fun other inside => u_aligned other
          (List.mem_cons_of_mem u inside)) (by simp at short ⊢; omega)

/-- One turn of the second loop at a VMA whose link points at `next`. -/
theorem unlinkToRemove_step {next : UInt64} {fuel : Nat} (nonnull : vma ≠ 0)
    (points : cache2ptr (nextFree vma) = next) :
    unlinkToRemove toRemove (fuel + 1) nextFree vma =
      if next = toRemove then some (Function.update nextFree vma (nextFree next))
      else unlinkToRemove toRemove fuel
        (Function.update nextFree vma (createCachePtr next (cache2size (nextFree vma) - 1))) next := by
  rw [unlinkToRemove, if_neg nonnull]
  dsimp only
  rw [points]

/-- From a VMA before `to_remove`, the second loop leaves links for the list
without `to_remove`, and changes only the links of the VMAs it passes. The
induction walks the VMAs between. -/
theorem unlinkToRemove_of_linksHold {between after : List UInt64}
    (links : LinksHold nextFree (vma :: (between ++ toRemove :: after)))
    (aligned : ∀ other ∈ vma :: (between ++ toRemove :: after), other ≠ 0 ∧ cache2size other = 0)
    (nodup : (vma :: (between ++ toRemove :: after)).Nodup)
    (short : (vma :: (between ++ toRemove :: after)).length ≤ VMA_CACHE_SIZE.toNat) {fuel : Nat}
    (enough : between.length + 1 ≤ fuel) :
    ∃ nextFree', unlinkToRemove toRemove fuel nextFree vma = some nextFree' ∧
      LinksHold nextFree' (vma :: (between ++ after)) ∧
      ∀ other ∉ vma :: between, nextFree' other = nextFree other := by
  induction between generalizing vma nextFree fuel with
  | nil =>
    -- `vma` links to `to_remove`: it takes over the link of `to_remove`
    obtain ⟨fuel, rfl⟩ : ∃ rest, fuel = rest + 1 := ⟨fuel - 1, by omega⟩
    obtain ⟨vma_link, removed_link, rest_links⟩ : nextFree vma = cacheWord (toRemove :: after) ∧
        nextFree toRemove = cacheWord after ∧ LinksHold nextFree after := by
      simpa using links
    have points : cache2ptr (nextFree vma) = toRemove := by
      rw [vma_link]
      exact cache2ptr_cacheWord (fun other inside => aligned other (List.mem_cons_of_mem vma inside))
        (Nat.le_trans (Nat.le_succ _) short)
    have fresh : vma ∉ toRemove :: after := (List.nodup_cons.mp nodup).1
    rw [unlinkToRemove_step (aligned vma List.mem_cons_self).1 points, if_pos rfl]
    refine ⟨_, rfl, ⟨?_, ?_⟩, fun other outside => ?_⟩
    · rw [Function.update_self]
      exact removed_link
    · refine rest_links.congr fun other inside => Function.update_of_ne ?_ _ _
      rintro rfl
      exact fresh (List.mem_cons_of_mem toRemove inside)
    · refine Function.update_of_ne ?_ _ _
      rintro rfl
      exact outside List.mem_cons_self
  | cons u us ih =>
    -- `vma` links to `u`: the link is retagged with one less and the walk goes on at `u`
    obtain ⟨fuel, rfl⟩ : ∃ rest, fuel = rest + 1 := ⟨fuel - 1, by omega⟩
    obtain ⟨vma_link, rest_links⟩ : nextFree vma = cacheWord (u :: (us ++ toRemove :: after)) ∧
        LinksHold nextFree (u :: (us ++ toRemove :: after)) := links
    have rest_aligned : ∀ other ∈ u :: (us ++ toRemove :: after), other ≠ 0 ∧ cache2size other = 0 :=
      fun other inside => aligned other (List.mem_cons_of_mem vma inside)
    have rest_short : (u :: (us ++ toRemove :: after)).length ≤ VMA_CACHE_SIZE.toNat :=
      Nat.le_trans (Nat.le_succ _) short
    have fresh : vma ∉ u :: (us ++ toRemove :: after) := (List.nodup_cons.mp nodup).1
    have rest_nodup := (List.nodup_cons.mp nodup).2
    have u_ne : u ≠ toRemove := by
      rintro rfl
      exact (List.nodup_cons.mp rest_nodup).1 (List.mem_append_right us List.mem_cons_self)
    have points : cache2ptr (nextFree vma) = u := by
      rw [vma_link]
      exact cache2ptr_cacheWord rest_aligned rest_short
    have retagged :
        createCachePtr u (cache2size (nextFree vma) - 1) = cacheWord (u :: (us ++ after)) := by
      rw [vma_link, cache2size_cacheWord rest_aligned rest_short]
      simp only [List.length_cons, List.length_append, cacheWord]
      rw [show us.length + (after.length + 1) + 1 = (us.length + after.length + 1) + 1 by omega,
        ofNat_succ_sub_one]
    rw [unlinkToRemove_step (aligned vma List.mem_cons_self).1 points, if_neg u_ne, retagged]
    have update_links : LinksHold (Function.update nextFree vma (cacheWord (u :: (us ++ after))))
        (u :: (us ++ toRemove :: after)) := by
      refine rest_links.congr fun other inside => Function.update_of_ne ?_ _ _
      rintro rfl
      exact fresh inside
    obtain ⟨nextFree', run, links', frame⟩ := ih update_links rest_aligned rest_nodup rest_short
      (by simp at enough ⊢; omega)
    refine ⟨nextFree', run, ⟨?_, links'⟩, fun other outside => ?_⟩
    · rw [frame vma (fun inside => fresh (((List.sublist_append_left us _).cons_cons u).subset inside)),
        Function.update_self, List.cons_append]
    · rw [frame other (fun inside => outside (List.mem_cons_of_mem vma inside))]
      refine Function.update_of_ne ?_ _ _
      rintro rfl
      exact outside List.mem_cons_self

/-- `remove_from_thread_vma_cache` of the head of the list, or of a VMA not in
it, keeps the encoding: the list loses that VMA, or the cache is left as it
was. -/
theorem removeFromThreadVmaCache_holds {fuel : Nat} (holds : cache.Holds vmas)
    (nonnull : toRemove ≠ 0) (first_or_absent : vmas.head? = some toRemove ∨ toRemove ∉ vmas)
    (enough : vmas.length < fuel) :
    ∃ cache', removeFromThreadVmaCache fuel toRemove cache = some cache' ∧
      cache'.Holds (vmas.erase toRemove) ∧ (toRemove ∉ vmas → cache' = cache) := by
  have first : cache2ptr cache.vmaCache = vmas.headD 0 := by
    rw [holds.head]
    exact cache2ptr_cacheWord holds.aligned holds.short
  cases vmas with
  | nil =>
    -- the search reads `NULL` at once
    obtain ⟨fuel, rfl⟩ : ∃ rest, fuel = rest + 1 := ⟨fuel - 1, by simp at enough; omega⟩
    have not_first : cache2ptr cache.vmaCache ≠ toRemove := by
      rw [first]
      exact Ne.symm nonnull
    refine ⟨cache, ?_, holds, fun _ => rfl⟩
    simp only [removeFromThreadVmaCache, if_neg not_first]
    rw [first, List.headD_nil, findToRemove, if_pos rfl]
  | cons head rest =>
    by_cases at_head : head = toRemove
    · subst at_head
      have is_first : cache2ptr cache.vmaCache = head := first
      refine ⟨{ cache with vmaCache := cache.nextFree head }, ?_, ?_,
        fun absent => absurd List.mem_cons_self absent⟩
      · simp only [removeFromThreadVmaCache, is_first, if_pos]
      · rw [List.erase_cons_head]
        exact holds.tail
    · have absent : toRemove ∉ head :: rest :=
        first_or_absent.resolve_left (by simpa using at_head)
      have later : toRemove ∉ rest := fun inside => absent (List.mem_cons_of_mem head inside)
      have not_first : cache2ptr cache.vmaCache ≠ toRemove := by
        rw [first]
        exact at_head
      refine ⟨cache, ?_, by rw [List.erase_of_not_mem absent]; exact holds, fun _ => rfl⟩
      simp only [removeFromThreadVmaCache, if_neg not_first]
      rw [first, List.headD_cons, findToRemove_of_linksHold holds.links holds.aligned holds.short
        nonnull (by simp at enough ⊢; omega), decide_eq_false later]

/-- `remove_from_thread_vma_cache` of a VMA of the list after its head unlinks
it and retags every link before it, but leaves all ones in the TCB word: it
tags the untagged `first_vma` with `0 - 1`. -/
theorem removeFromThreadVmaCache_later {first : UInt64} {rest : List UInt64} {fuel : Nat}
    (holds : cache.Holds (first :: rest)) (later : toRemove ∈ rest)
    (enough : (first :: rest).length < fuel) :
    ∃ nextFree', removeFromThreadVmaCache fuel toRemove cache =
        some ⟨0xFFFFFFFFFFFFFFFF, nextFree'⟩ ∧
      LinksHold nextFree' ((first :: rest).erase toRemove) ∧
      ∀ other ∉ first :: rest, nextFree' other = cache.nextFree other := by
  have head : cache2ptr cache.vmaCache = first := by
    rw [holds.head]
    exact cache2ptr_cacheWord holds.aligned holds.short
  have fresh : first ∉ rest := (List.nodup_cons.mp holds.nodup).1
  have not_first : first ≠ toRemove := by
    rintro rfl
    exact fresh later
  have nonnull := (holds.aligned toRemove (List.mem_cons_of_mem first later)).1
  have found := findToRemove_of_linksHold holds.links holds.aligned holds.short nonnull
    (show rest.length + 2 ≤ fuel by simp at enough; omega)
  rw [decide_eq_true later] at found
  -- `first_vma` carries no tag, so the new size is `0 - 1`
  have allOnes : createCachePtr first (cache2size first - 1) = 0xFFFFFFFFFFFFFFFF := by
    rw [(holds.aligned first List.mem_cons_self).2, UInt64.zero_sub]
    exact UInt64.or_neg_one
  obtain ⟨between, after, split⟩ := List.append_of_mem later
  subst split
  have not_between : toRemove ∉ between := fun inside =>
    List.disjoint_of_nodup_append (List.nodup_cons.mp holds.nodup).2 inside List.mem_cons_self
  obtain ⟨nextFree', run, links', frame⟩ := unlinkToRemove_of_linksHold holds.links holds.aligned
    holds.nodup holds.short (show between.length + 1 ≤ fuel by simp at enough; omega)
  refine ⟨nextFree', ?_, ?_, fun other outside => frame other fun inside => outside ?_⟩
  · simp only [removeFromThreadVmaCache, head, if_neg not_first]
    rw [found]
    simp only [allOnes, run, Option.map_some]
  · rw [List.erase_cons_tail (by simpa using not_first), List.erase_append_right _ not_between,
      List.erase_cons_head]
    exact links'
  · exact ((List.sublist_append_left between _).cons_cons first).subset inside

/-- The all-ones word stands for no list shorter than `VMA_CACHE_SIZE`: its
tag is `3`. -/
theorem not_holds_allOnes {nextFree' : UInt64 → UInt64} {vmas : List UInt64}
    (fewer : vmas.length < VMA_CACHE_SIZE.toNat) :
    ¬ VmaCache.Holds ⟨0xFFFFFFFFFFFFFFFF, nextFree'⟩ vmas := by
  intro holds
  have tag := cache2size_cacheWord holds.aligned holds.short
  rw [← holds.head] at tag
  dsimp only at tag
  have three : vmas.length < 3 := fewer
  generalize vmas.length = k at tag three
  rcases k with _ | _ | _ | k
  · exact absurd tag (by decide)
  · exact absurd tag (by decide)
  · exact absurd tag (by decide)
  · omega

/-- A cache holding the VMAs at `8` and `16`: the TCB word is `8 | 2`, the link
of `8` is `16 | 1` and that of `16` is `NULL`. -/
def twoCached : VmaCache := ⟨10, fun vma => if vma = 8 then 17 else 0⟩

theorem twoCached_holds : twoCached.Holds [8, 16] where
  aligned := by
    intro vma inside
    simp only [List.mem_cons, List.not_mem_nil, or_false] at inside
    rcases inside with rfl | rfl
    · exact ⟨by decide, by decide⟩
    · exact ⟨by decide, by decide⟩
  nodup := by decide
  short := by decide
  head := by decide
  links := ⟨by decide, by decide, trivial⟩

end Gramine.LibOS.Bookkeep
