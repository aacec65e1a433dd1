import Gramine.Common.Errno
import Gramine.Library.IntervalList

/-!
# Bookkeeping of virtual memory areas

The LibOS keeps every range of the address space it has handed out in
`vma_tree` (`libos/src/bookkeep/libos_vma.c`), an AVL tree of `struct libos_vma`
ordered by `vma_tree_cmp`, that is by `end`. The model keeps the tree as its
in-order sequence:

* `_lookup_vma(addr)`, the lower bound of `cmp_addr_to_vma`, is the first VMA of
  the sequence that ends above `addr`; `lookupVma` splits the sequence there;
* `_get_next_vma` and `_get_prev_vma` are the neighbours in the sequence;
* `avl_tree_insert` puts the node left of every node it compares `<=` to, which
  is `List.orderedInsert` by `end` (`insertVma`);
* `avl_tree_delete` removes the node, and an assignment to a field of a node in
  the tree changes it where it stands.

A node is named by `node`, which stands for its address. `alloc_vma` hands out
nodes that are in no tree; the model takes them from `nextNode` on, and whether
each allocation succeeds is an argument of the function that asks for it.
Addresses are natural numbers: the callers have checked that `addr + length`
does not wrap, and no other sum is formed. `ALLOC_ALIGNMENT` is the parameter
`allocAlignment`.
`prot` and `flags` are C `int`s and keep their 32 bits. The VMA's comment and
the reference counts on the file handles are left out.
-/

namespace Gramine.LibOS.Bookkeep

open Gramine

/-! ## Flags: the Linux x86-64 values of `<linux/mman.h>` and `libos_vma.h` -/

def PROT_NONE : UInt32 := 0x0
def PROT_READ : UInt32 := 0x1
def PROT_WRITE : UInt32 := 0x2
def PROT_EXEC : UInt32 := 0x4
def PROT_GROWSDOWN : UInt32 := 0x01000000

def MAP_SHARED : UInt32 := 0x01
def MAP_PRIVATE : UInt32 := 0x02
def MAP_SHARED_VALIDATE : UInt32 := 0x03
def MAP_FIXED : UInt32 := 0x10
def MAP_ANONYMOUS : UInt32 := 0x20
def MAP_32BIT : UInt32 := 0x40
def MAP_GROWSDOWN : UInt32 := 0x100
def MAP_STACK : UInt32 := 0x20000
def MAP_HUGETLB : UInt32 := 0x40000
def MAP_FIXED_NOREPLACE : UInt32 := 0x100000
def MAP_HUGE_2MB : UInt32 := (21 : UInt32) <<< 26
def MAP_HUGE_1GB : UInt32 := (30 : UInt32) <<< 26

def VMA_UNMAPPED : UInt32 := 0x10000000
def VMA_INTERNAL : UInt32 := 0x20000000
def VMA_TAINTED : UInt32 := 0x40000000

def O_RDWR : UInt32 := 0x2

def PAL_PROT_READ : UInt32 := 0x1
def PAL_PROT_WRITE : UInt32 := 0x2
def PAL_PROT_EXEC : UInt32 := 0x4

/-- `filter_saved_flags`: the flags worth keeping in a VMA. -/
def filterSavedFlags (flags : UInt32) : UInt32 :=
  flags &&& (MAP_SHARED ||| MAP_SHARED_VALIDATE ||| MAP_PRIVATE ||| MAP_ANONYMOUS |||
    MAP_GROWSDOWN ||| MAP_HUGETLB ||| MAP_HUGE_2MB ||| MAP_HUGE_1GB ||| MAP_STACK |||
    VMA_UNMAPPED ||| VMA_INTERNAL ||| VMA_TAINTED)

/-- `PAL_PROT_TO_LINUX`. -/
def palProtToLinux (prot : UInt32) : UInt32 :=
  (if prot &&& PAL_PROT_READ != 0 then PROT_READ else 0) |||
  (if prot &&& PAL_PROT_WRITE != 0 then PROT_WRITE else 0) |||
  (if prot &&& PAL_PROT_EXEC != 0 then PROT_EXEC else 0)

/-! ## VMAs and the tree -/

/-- What the bookkeeping reads of a `struct libos_handle`: which handle it is,
and its open flags. -/
structure LibosHandle where
  id : Nat
  flags : UInt32
  deriving DecidableEq, Repr

/-- `struct libos_vma` in the tree node `node`. -/
structure LibosVma where
  node : Nat
  (begin end' : Nat)
  validEnd : Nat
  prot : UInt32
  flags : UInt32
  file : Option LibosHandle
  offset : Nat
  deriving DecidableEq, Repr

/-- `!!(vma->flags & VMA_INTERNAL)`. -/
def LibosVma.isInternal (vma : LibosVma) : Bool :=
  vma.flags &&& VMA_INTERNAL != 0

/-- `is_file_prot_matching`. -/
def isFileProtMatching (fileHdl : LibosHandle) (prot : UInt32) : Bool :=
  prot &&& PROT_WRITE == 0 || fileHdl.flags &&& O_RDWR != 0

/-- `vma_tree` in order, `g_total_memory_size`, and the first node `alloc_vma`
has not handed out yet. -/
structure VmaState where
  vmaTree : List LibosVma
  totalMemorySize : Nat
  nextNode : Nat
  deriving DecidableEq, Repr

/-- `avl_tree_insert(&vma_tree, &vma->tree_node)`. -/
def insertVma (vma : LibosVma) (tree : List LibosVma) : List LibosVma :=
  IntervalList.insertByHi LibosVma.end' vma tree

/-- `_lookup_vma(addr)` splits the tree in front of the VMA it returns: the
VMAs before it end at or below `addr`, and the second part starts with it
(or is empty when it returns `NULL`). -/
def lookupVma (addr : Nat) (tree : List LibosVma) : List LibosVma × List LibosVma :=
  (tree.takeWhile fun vma => !decide (addr < vma.end'),
   tree.dropWhile fun vma => !decide (addr < vma.end'))

/-- Whether the VMA `_lookup_vma(begin)` returns starts below `end`: the
overlap test of `_bkeep_initial_vma` and of `MAP_FIXED_NOREPLACE`. -/
def overlapsExisting (begin stop : Nat) (tree : List LibosVma) : Bool :=
  match (lookupVma begin tree).2 with
  | [] => false
  | tmp :: _ => decide (tmp.begin < stop)

/-- Assignments to the fields of the node `node` while it is in the tree. -/
def updateNode (node : Nat) (f : LibosVma → LibosVma) : List LibosVma → List LibosVma
  | [] => []
  | vma :: rest => if vma.node = node then f vma :: rest else vma :: updateNode node f rest

/-- The tree before the node `node`, and from it on: where a walk that kept a
pointer to `node` resumes. -/
def splitAtNode (node : Nat) (tree : List LibosVma) : List LibosVma × List LibosVma :=
  (tree.takeWhile fun vma => vma.node != node, tree.dropWhile fun vma => vma.node != node)

/-! ## Cutting VMAs -/

/-- `vma->end = end; if (vma->valid_end > vma->end) vma->valid_end = vma->end;` -/
@[simps]
def LibosVma.cutEnd (vma : LibosVma) (stop : Nat) : LibosVma :=
  { vma with end' := stop, validEnd := min vma.validEnd stop }

/-- The trim of the last VMA in `_vma_bkeep_remove`: the file offset moves with
`begin` for a file-backed VMA, and `valid_end` is raised to the new `begin`. -/
@[simps]
def LibosVma.cutBegin (vma : LibosVma) (start : Nat) : LibosVma :=
  { vma with
    begin := start
    offset := if vma.file.isSome then vma.offset + (start - vma.begin) else vma.offset
    validEnd := max vma.validEnd start }

/-- `split_vma(old_vma, new_vma, addr)`: the old VMA keeps `[begin, addr)`
and the copy in node `node` takes `[addr, end)`. Only a file-backed copy has
its offset moved and its `valid_end` raised to `addr`. -/
@[simps]
def splitVma (old : LibosVma) (node addr : Nat) : LibosVma × LibosVma :=
  (old.cutEnd addr,
   { old with
     node := node
     begin := addr
     offset := if old.file.isSome then old.offset + (addr - old.begin) else old.offset
     validEnd := if old.file.isSome then max old.validEnd addr else old.validEnd })

/-- `vma_update_prot`: `prot` is masked to the four access bits, and a
file-backed VMA made writable is tainted. -/
@[simps]
def vmaUpdateProt (vma : LibosVma) (prot : UInt32) : LibosVma :=
  { vma with
    prot := prot &&& (PROT_NONE ||| PROT_READ ||| PROT_WRITE ||| PROT_EXEC)
    flags := if vma.file.isSome && prot &&& PROT_WRITE != 0 then vma.flags ||| VMA_TAINTED
      else vma.flags }

/-- The VMA `[begin, end)` that `bkeep_mmap_fixed` and `bkeep_mmap_any_in_range`
build for a new mapping. -/
@[simps]
def newMapping (node begin stop : Nat) (prot flags : UInt32) (file : Option LibosHandle)
    (offset : Nat) : LibosVma :=
  { node, begin, end' := stop, validEnd := stop, prot
    flags := filterSavedFlags flags |||
      (if file.isSome && prot &&& PROT_WRITE != 0 then VMA_TAINTED else 0)
    file
    offset := if file.isSome then offset else 0 }

/-! ## Removing a range: `_vma_bkeep_remove` -/

/-- The loops of `_vma_bkeep_remove` from the first VMA that does not start
below `begin`: VMAs that end by `end` are deleted, and a VMA that reaches past
`end` loses its head. The total shrinks by what goes. -/
def removeFollowing (stop : Nat) : List LibosVma → Nat → List LibosVma × Nat
  | [], total => ([], total)
  | vma :: rest, total =>
    if vma.end' ≤ stop then removeFollowing stop rest (total - (vma.end' - vma.begin))
    else if vma.begin < stop then (vma.cutBegin stop :: rest, total - (stop - vma.begin))
    else (vma :: rest, total)

/-- `_vma_bkeep_remove(begin, end, is_internal, new_vma_ptr, ...)`: `newVma`
is the node of the preallocated VMA, if there is one. -/
def vmaBkeepRemove (begin stop : Nat) (isInternal : Bool) (newVma : Option Nat) (s : VmaState) :
    Except Int VmaState :=
  let (before, found) := lookupVma begin s.vmaTree
  match found with
  | [] => .ok s
  | vma :: rest =>
    if (found.takeWhile fun v => decide (v.begin < stop)).any fun v => v.isInternal != isInternal
    then .error (-EACCES)
    else if vma.begin < begin then
      if stop < vma.end' then
        match newVma with
        | none => .error (-ENOMEM)
        | some node =>
          -- the range lies inside `vma`: its head stays and its tail is a new VMA
          let (head, tail) := splitVma vma node stop
          .ok { s with
            vmaTree := insertVma tail (before ++ head.cutEnd begin :: rest)
            totalMemorySize := s.totalMemorySize - (stop - begin) }
      else
        let (rest, total) := removeFollowing stop rest (s.totalMemorySize - (vma.end' - begin))
        .ok { s with vmaTree := before ++ vma.cutEnd begin :: rest, totalMemorySize := total }
    else
      let (found, total) := removeFollowing stop found s.totalMemorySize
      .ok { s with vmaTree := before ++ found, totalMemorySize := total }

attribute [grind] insertVma lookupVma LibosVma.cutEnd LibosVma.cutBegin splitVma vmaUpdateProt
  newMapping vmaBkeepRemove

section Calls

variable (allocAlignment : Nat)

/-- `IS_ALLOC_ALIGNED(x)`: `ALLOC_ALIGNMENT` is a power of two, so its mask
test is divisibility. -/
def IsAllocAligned (x : Nat) : Prop :=
  allocAlignment ∣ x

instance (x : Nat) : Decidable (IsAllocAligned allocAlignment x) :=
  inferInstanceAs (Decidable (_ ∣ _))

/-- The argument check that opens `bkeep_munmap`, `bkeep_mmap_fixed` and
`bkeep_mprotect`. -/
def IsBadRange (addr length : Nat) : Prop :=
  length = 0 ∨ ¬ IsAllocAligned allocAlignment length ∨ ¬ IsAllocAligned allocAlignment addr

instance (addr length : Nat) : Decidable (IsBadRange allocAlignment addr length) :=
  inferInstanceAs (Decidable (_ ∨ _))

/-! ## `bkeep_munmap` and the temporary VMA -/

/-- `_add_unmapped_vma(begin, end, vma)` with the node `node`. -/
def addUnmappedVma (begin stop node : Nat) (s : VmaState) : VmaState :=
  let vma : LibosVma :=
    { node, begin, end' := stop, validEnd := stop, prot := PROT_NONE,
      flags := VMA_INTERNAL ||| VMA_UNMAPPED, file := none, offset := 0 }
  { s with
    vmaTree := insertVma vma s.vmaTree
    totalMemorySize := s.totalMemorySize + (vma.end' - vma.begin) }

/-- `bkeep_munmap`: on success the range is held by an internal unmapped VMA,
whose node is returned as the temporary VMA. -/
def bkeepMunmap (addr length : Nat) (isInternal vma1Allocated vma2Allocated : Bool)
    (s : VmaState) : Except Int (VmaState × Nat) :=
  if IsBadRange allocAlignment addr length then .error (-EINVAL)
  else if !vma1Allocated then .error (-ENOMEM)
  else
    let vma1 := s.nextNode
    let vma2 := if vma2Allocated then some (s.nextNode + 1) else none
    match vmaBkeepRemove addr (addr + length) isInternal vma2
        { s with nextNode := s.nextNode + 2 } with
    | .error err => .error err
    | .ok s => .ok (addUnmappedVma addr (addr + length) vma1 s, vma1)

/-- `bkeep_remove_tmp_vma`: `none` when the node is not in the tree, a call its
callers never make. -/
def bkeepRemoveTmpVma (node : Nat) (s : VmaState) : Option VmaState :=
  match s.vmaTree.find? fun vma => vma.node == node with
  | none => none
  | some vma =>
    some { s with
      vmaTree := s.vmaTree.eraseP fun vma => vma.node == node
      totalMemorySize := s.totalMemorySize - (vma.end' - vma.begin) }

/-- `bkeep_convert_tmp_vma_to_user`: `none` when the node is not in the tree. -/
def bkeepConvertTmpVmaToUser (node : Nat) (s : VmaState) : Option VmaState :=
  if s.vmaTree.any fun vma => vma.node == node then
    some { s with
      vmaTree := updateNode node (fun vma => { vma with flags := vma.flags &&& ~~~VMA_INTERNAL })
        s.vmaTree }
  else none

/-! ## `bkeep_mmap_fixed` and `bkeep_mmap_any_in_range` -/

/-- `bkeep_mmap_fixed`: `MAP_FIXED_NOREPLACE` refuses a range that meets a VMA,
and otherwise the range is first cleared by `_vma_bkeep_remove`. -/
def bkeepMmapFixed (addr length : Nat) (prot flags : UInt32) (file : Option LibosHandle)
    (offset : Nat) (newVmaAllocated vma1Allocated : Bool) (s : VmaState) :
    Except Int VmaState :=
  if IsBadRange allocAlignment addr length then .error (-EINVAL)
  else if !newVmaAllocated then .error (-ENOMEM)
  else
    let newVma := newMapping s.nextNode addr (addr + length) prot flags file offset
    let vma1 := if vma1Allocated then some (s.nextNode + 1) else none
    let s := { s with nextNode := s.nextNode + 2 }
    let cleared : Except Int VmaState :=
      if flags &&& MAP_FIXED_NOREPLACE != 0 then
        if overlapsExisting newVma.begin newVma.end' s.vmaTree then .error (-EEXIST) else .ok s
      else vmaBkeepRemove newVma.begin newVma.end' (flags &&& VMA_INTERNAL != 0) vma1 s
    match cleared with
    | .error err => .error err
    | .ok s =>
      .ok { s with
        vmaTree := insertVma newVma s.vmaTree
        totalMemorySize := s.totalMemorySize + (newVma.end' - newVma.begin) }

/-- The fields of `g_pal_public_state` that `bkeep_mmap_any_in_range` reads. -/
structure PalMemoryLayout where
  earlyLibosMemRangeStart : Nat
  earlyLibosMemRangeEnd : Nat

/-- The downward loop of `bkeep_mmap_any_in_range` over the VMAs below
`max_addr`, highest first: the answer is the end of the highest gap of
`length` bytes above `bottom_addr`. -/
def findGap (bottomAddr length : Nat) : Nat → List LibosVma → Option Nat
  | maxAddr, [] =>
    if bottomAddr ≤ maxAddr ∧ length ≤ maxAddr - bottomAddr then some maxAddr else none
  | maxAddr, vma :: below =>
    if bottomAddr ≤ vma.end' then
      if length ≤ maxAddr - vma.end' then some maxAddr
      else findGap bottomAddr length vma.begin below
    else if bottomAddr ≤ maxAddr ∧ length ≤ maxAddr - bottomAddr then some maxAddr else none

/-- The range `bkeep_mmap_any_in_range` searches: before
`g_received_user_memory` an internal VMA must lie in the early LibOS range,
and `MAP_32BIT` keeps it below 2 GiB. -/
def searchRange (layout : PalMemoryLayout) (receivedUserMemory : Bool) (flags : UInt32)
    (bottomAddr topAddr : Nat) : Except Int (Nat × Nat) :=
  let range : Except Int (Nat × Nat) :=
    if !receivedUserMemory && flags &&& VMA_INTERNAL != 0 then
      if topAddr ≤ layout.earlyLibosMemRangeStart ∨ layout.earlyLibosMemRangeEnd ≤ bottomAddr
      then .error (-ENOMEM)
      else .ok (max bottomAddr layout.earlyLibosMemRangeStart,
        min topAddr layout.earlyLibosMemRangeEnd)
    else .ok (bottomAddr, topAddr)
  match range with
  | .error err => .error err
  | .ok (bottomAddr, topAddr) =>
    let topAddr := if flags &&& MAP_32BIT != 0 then min topAddr (2 ^ 31) else topAddr
    if flags &&& MAP_32BIT != 0 ∧ topAddr ≤ bottomAddr then .error (-ENOMEM)
    else .ok (bottomAddr, topAddr)

/-- `bkeep_mmap_any_in_range`: the new VMA ends at the top of the highest free
gap of the searched range. The result is the new VMA's address. -/
def bkeepMmapAnyInRange (layout : PalMemoryLayout) (receivedUserMemory : Bool)
    (bottomAddr topAddr length : Nat) (prot flags : UInt32) (file : Option LibosHandle)
    (offset : Nat) (newVmaAllocated : Bool) (s : VmaState) : Except Int (VmaState × Nat) :=
  if length = 0 ∨ ¬ IsAllocAligned allocAlignment length then .error (-EINVAL)
  else if ¬ IsAllocAligned allocAlignment bottomAddr ∨ ¬ IsAllocAligned allocAlignment topAddr then
    .error (-EINVAL)
  else
    match searchRange layout receivedUserMemory flags bottomAddr topAddr with
    | .error err => .error err
    | .ok (bottomAddr, topAddr) =>
      if !newVmaAllocated then .error (-ENOMEM)
      else
        let (below, above) := lookupVma topAddr s.vmaTree
        let maxAddr := match above with
          | [] => topAddr
          | vma :: _ => min topAddr vma.begin
        match findGap bottomAddr length maxAddr below.reverse with
        | none => .error (-ENOMEM)
        | some maxAddr =>
          let newVma := newMapping s.nextNode (maxAddr - length) maxAddr prot flags file offset
          .ok ({ vmaTree := insertVma newVma s.vmaTree
                 totalMemorySize := s.totalMemorySize + (newVma.end' - newVma.begin)
                 nextNode := s.nextNode + 1 }, newVma.begin)

/-- `bkeep_mmap_any_aslr`: below `g_aslr_addr_top` first, and then, as
`bkeep_mmap_any`, anywhere in `[memory_address_start, memory_address_end)`.
Each try asks `alloc_vma` for its own VMA. -/
def bkeepMmapAnyAslr (layout : PalMemoryLayout) (receivedUserMemory : Bool)
    (memoryAddressStart memoryAddressEnd aslrAddrTop length : Nat) (prot flags : UInt32)
    (file : Option LibosHandle) (offset : Nat) (aslrNewVmaAllocated newVmaAllocated : Bool)
    (s : VmaState) : Except Int (VmaState × Nat) :=
  match bkeepMmapAnyInRange allocAlignment layout receivedUserMemory memoryAddressStart aslrAddrTop
      length prot flags file offset aslrNewVmaAllocated s with
  | .ok placed => .ok placed
  | .error _ =>
    bkeepMmapAnyInRange allocAlignment layout receivedUserMemory memoryAddressStart
      memoryAddressEnd length prot flags file offset newVmaAllocated s

/-! ## `bkeep_mprotect`: `_vma_bkeep_change` -/

/-- The checks of the first loop of `_vma_bkeep_change` on one VMA: it must
have the right kind, allow `PROT_GROWSDOWN` if that is asked for, and, if it
is a shared file mapping, allow `prot` on its file. -/
def changeError (prot : UInt32) (isInternal : Bool) (vma : LibosVma) : Option Int :=
  if vma.isInternal != isInternal then some (-EACCES)
  else if prot &&& PROT_GROWSDOWN != 0 && vma.flags &&& MAP_GROWSDOWN == 0 then some (-EINVAL)
  else match vma.file with
    | some file =>
      if vma.flags &&& MAP_SHARED != 0 && !isFileProtMatching file prot then some (-EACCES)
      else none
    | none => none

/-- The first loop of `_vma_bkeep_change`, at `vma` with the VMAs after it,
up to the VMA reaching `end`. The answer is whether they cover the range
without a hole; an error found further on wins over a hole found before it. -/
def changeChecks (stop : Nat) (prot : UInt32) (isInternal : Bool) :
    LibosVma → List LibosVma → Except Int Bool
  | vma, [] =>
    match changeError prot isInternal vma with
    | some err => .error err
    | none => .ok (decide (stop ≤ vma.end'))
  | vma, next :: rest =>
    match changeError prot isInternal vma with
    | some err => .error err
    | none =>
      if stop ≤ vma.end' then .ok true
      else (changeChecks stop prot isInternal next rest).map fun isContinuous =>
        isContinuous && vma.end' == next.begin

/-- The second loop of `_vma_bkeep_change`: VMAs that end by `end` get `prot`,
and a VMA reaching past `end` is split there, its head getting `prot`. The
answer is the walked VMAs and the split-off tail, still to be inserted. -/
def changeFollowing (stop : Nat) (prot : UInt32) (node2 : Nat) :
    List LibosVma → List LibosVma × Option LibosVma
  | [] => ([], none)
  | vma :: rest =>
    if vma.end' ≤ stop then
      let (rest, tail) := changeFollowing stop prot node2 rest
      (vmaUpdateProt vma prot :: rest, tail)
    else if stop ≤ vma.begin then (vma :: rest, none)
    else
      let (head, tail) := splitVma vma node2 stop
      (vmaUpdateProt head prot :: rest, some tail)

/-- `avl_tree_insert` of the tail `changeFollowing` split off, if any. -/
def insertTail (tail : Option LibosVma) (tree : List LibosVma) : List LibosVma :=
  match tail with
  | none => tree
  | some vma => insertVma vma tree

/-- `_vma_bkeep_change(begin, end, prot, is_internal, ...)` with the nodes of
the two preallocated VMAs. Unless `PROT_GROWSDOWN` is asked for, a first VMA
that starts below `begin` is split there, and if the range ends inside the
split-off part, that part is split again at `end` and its tail gets back the
first VMA's `prot`. `none` is the dereference of a null `next`. -/
def vmaBkeepChange (begin stop : Nat) (prot : UInt32) (isInternal : Bool) (node1 node2 : Nat)
    (s : VmaState) : Option (Except Int VmaState) :=
  let (before, found) := lookupVma begin s.vmaTree
  match found with
  | [] => some (.error (-ENOMEM))
  | vma :: rest =>
    if begin < vma.begin then some (.error (-ENOMEM))
    else match changeChecks stop prot isInternal vma rest with
    | .error err => some (.error err)
    | .ok false => some (.error (-ENOMEM))
    | .ok true =>
      if vma.begin < begin ∧ prot &&& PROT_GROWSDOWN = 0 then
        let (head, new1) := splitVma vma node1 begin
        let new1 := vmaUpdateProt new1 prot
        let tree := insertVma new1 (before ++ head :: rest)
        if stop < new1.end' then
          -- `split_vma(new_vma1, new_vma2, end)` cuts `new_vma1` where it stands
          let new2 := vmaUpdateProt (splitVma new1 node2 stop).2 head.prot
          some (.ok { s with
            vmaTree := insertVma new2
              (updateNode node1 (fun vma => (splitVma vma node2 stop).1) tree) })
        else
          match rest with
          -- `vma` was the last VMA, so `next` is `NULL`, and the loop below
          -- reads `vma->end` through it
          | [] => none
          | next :: _ =>
            -- the walk goes on from `next`, taken before `new_vma1` went in
            let (upto, fromNext) := splitAtNode next.node tree
            let (walked, tail) := changeFollowing stop prot node2 fromNext
            some (.ok { s with vmaTree := insertTail tail (upto ++ walked) })
      else
        let (walked, tail) := changeFollowing stop prot node2 (vma :: rest)
        some (.ok { s with vmaTree := insertTail tail (before ++ walked) })

/-- `bkeep_mprotect`: both spare VMAs are allocated before the tree is looked at. -/
def bkeepMprotect (addr length : Nat) (prot : UInt32) (isInternal vma1Allocated vma2Allocated : Bool)
    (s : VmaState) : Option (Except Int VmaState) :=
  if IsBadRange allocAlignment addr length then some (.error (-EINVAL))
  else if !vma1Allocated then some (.error (-ENOMEM))
  else if !vma2Allocated then some (.error (-ENOMEM))
  else vmaBkeepChange addr (addr + length) prot isInternal s.nextNode (s.nextNode + 1)
    { s with nextNode := s.nextNode + 2 }

attribute [grind] IsBadRange bkeepMmapFixed findGap searchRange bkeepMmapAnyInRange changeChecks
  insertTail vmaBkeepChange bkeepMprotect

end Calls

/-! ## `bkeep_vma_update_valid_length` -/

/-- `bkeep_vma_update_valid_length`: the VMA must start exactly at
`begin_addr`, and `valid_length` must not exceed it. -/
def bkeepVmaUpdateValidLength (beginAddr validLength : Nat) (s : VmaState) :
    Except Int VmaState :=
  let (before, found) := lookupVma beginAddr s.vmaTree
  match found with
  | [] => .error (-ENOENT)
  | vma :: rest =>
    if ¬ (vma.begin ≤ beginAddr ∧ beginAddr < vma.end') then .error (-ENOENT)
    else if vma.begin ≠ beginAddr ∨ vma.end' - vma.begin < validLength then .error (-EINVAL)
    else .ok { s with vmaTree := before ++ { vma with validEnd := vma.begin + validLength } :: rest }

/-! ## `init_vma` -/

/-- A `struct pal_initial_mem_range` without its comment. -/
structure PalInitialMemRange where
  (start end' : Nat)
  prot : UInt32
  isFree : Bool

/-- The VMAs `init_vma` prepares for the ranges in use, in nodes `1, 2, ...`. -/
def initialVmas (ranges : List PalInitialMemRange) : List LibosVma :=
  (ranges.filter fun range => !range.isFree).mapIdx fun i range =>
    { node := i + 1, begin := range.start, end' := range.end', validEnd := range.end',
      prot := palProtToLinux range.prot, flags := MAP_PRIVATE ||| MAP_ANONYMOUS ||| VMA_INTERNAL,
      file := none, offset := 0 }

/-- `_bkeep_initial_vma`. -/
def bkeepInitialVma (vma : LibosVma) (s : VmaState) : Except Int VmaState :=
  if overlapsExisting vma.begin vma.end' s.vmaTree then .error (-EEXIST)
  else .ok { s with
    vmaTree := insertVma vma s.vmaTree
    totalMemorySize := s.totalMemorySize + (vma.end' - vma.begin) }

/-- The bookkeeping loop of `init_vma`: empty ranges are skipped, an unaligned
one stops the loop with `-EINVAL`. -/
def bkeepInitialVmas (allocAlignment : Nat) : List LibosVma → VmaState → Except Int VmaState
  | [], s => .ok s
  | vma :: vmas, s =>
    if vma.begin = vma.end' then bkeepInitialVmas allocAlignment vmas s
    else if ¬ IsAllocAligned allocAlignment vma.begin ∨ ¬ IsAllocAligned allocAlignment vma.end'
    then .error (-EINVAL)
    else match bkeepInitialVma vma s with
      | .error err => .error err
      | .ok s => bkeepInitialVmas allocAlignment vmas s

/-- The tree `init_vma` builds from the PAL's initial ranges. Moving the VMAs
to nodes of the VMA allocator afterwards (`avl_tree_swap_node`) keeps the
sequence. -/
def initVma (allocAlignment : Nat) (ranges : List PalInitialMemRange) : Except Int VmaState :=
  let vmas := initialVmas ranges
  bkeepInitialVmas allocAlignment vmas ⟨[], 0, vmas.length + 1⟩

/-! ## Walks over a range: `_traverse_vmas_in_range` -/

/-- The loop of `_traverse_vmas_in_range` at `vma`, with the VMAs after it:
the visitor sees `vma` and may stop the walk; otherwise the walk goes on to the
next VMA if it starts below `end`, which must start where `vma` ends (or where
its valid part ends). The answer is whether the walked VMAs cover the range
without a hole, and the visitor's argument. -/
def traverseFollowing {σ : Type} (stop : Nat) (useOnlyValidPart : Bool)
    (visitor : LibosVma → σ → Bool × σ) : LibosVma → List LibosVma → Bool → σ → Bool × σ
  | vma, rest, isContinuous, arg =>
    match visitor vma arg with
    | (false, arg) => (isContinuous, arg)
    | (true, arg) =>
      let prevEnd := if useOnlyValidPart then vma.validEnd else vma.end'
      match rest with
      | [] => (isContinuous && decide (stop ≤ prevEnd), arg)
      | next :: rest =>
        if stop ≤ next.begin then (isContinuous && decide (stop ≤ prevEnd), arg)
        else traverseFollowing stop useOnlyValidPart visitor next rest
          (isContinuous && prevEnd == next.begin) arg

/-- `_traverse_vmas_in_range(begin, end, use_only_valid_part, visitor, arg)`. -/
def traverseVmasInRange {σ : Type} (begin stop : Nat) (useOnlyValidPart : Bool)
    (visitor : LibosVma → σ → Bool × σ) (arg : σ) (s : VmaState) : Bool × σ :=
  if begin = stop then (true, arg)
  else match (lookupVma begin s.vmaTree).2 with
    | [] => (false, arg)
    | vma :: rest =>
      if stop ≤ vma.begin then (false, arg)
      else traverseFollowing stop useOnlyValidPart visitor vma rest (decide (vma.begin ≤ begin)) arg

/-- `struct adj_visitor_ctx`. -/
structure AdjVisitorCtx where
  prot : UInt32
  isOk : Bool

/-- `adj_visitor`: the walk goes on over user VMAs that are mapped and allow
every bit of `prot`. -/
def adjVisitor (vma : LibosVma) (ctx : AdjVisitorCtx) : Bool × AdjVisitorCtx :=
  let isOk := vma.flags &&& (VMA_INTERNAL ||| VMA_UNMAPPED) == 0 &&
    vma.prot &&& ctx.prot == ctx.prot
  (isOk, { ctx with isOk := ctx.isOk && isOk })

/-- `is_in_adjacent_user_vmas(addr, length, prot)`. -/
def isInAdjacentUserVmas (addr length : Nat) (prot : UInt32) (s : VmaState) : Bool :=
  let (isContinuous, ctx) :=
    traverseVmasInRange addr (addr + length) true adjVisitor ⟨prot, true⟩ s
  isContinuous && ctx.isOk

/-! ## Calls in sequence -/

/-- The calls that change the bookkeeping, each with the answers the VMA
allocator gives it and, for `bkeep_mmap_any_in_range`, whether
`g_received_user_memory` is set. -/
inductive VmaOp where
  | mmapFixed (addr length : Nat) (prot flags : UInt32) (file : Option LibosHandle) (offset : Nat)
      (newVmaAllocated vma1Allocated : Bool)
  | mmapAnyInRange (receivedUserMemory : Bool) (bottomAddr topAddr length : Nat)
      (prot flags : UInt32) (file : Option LibosHandle) (offset : Nat) (newVmaAllocated : Bool)
  | munmap (addr length : Nat) (isInternal vma1Allocated vma2Allocated : Bool)
  | removeTmpVma (node : Nat)
  | convertTmpVmaToUser (node : Nat)
  | mprotect (addr length : Nat) (prot : UInt32) (isInternal vma1Allocated vma2Allocated : Bool)
  | updateValidLength (beginAddr validLength : Nat)

/-- The state after a call that answers an error or a new state: a call that
fails has changed nothing. -/
def afterCall (s : VmaState) : Except Int VmaState → VmaState
  | .ok s => s
  | .error _ => s

/-- The state after one call; `none` when the call crashes, or names a
temporary VMA that is not in the tree. -/
def vmaStep (allocAlignment : Nat) (layout : PalMemoryLayout) :
    VmaOp → VmaState → Option VmaState
  | .mmapFixed addr length prot flags file offset newVmaAllocated vma1Allocated, s =>
    some (afterCall s
      (bkeepMmapFixed allocAlignment addr length prot flags file offset newVmaAllocated
        vma1Allocated s))
  | .mmapAnyInRange receivedUserMemory bottomAddr topAddr length prot flags file offset
      newVmaAllocated, s =>
    some (afterCall s
      (Prod.fst <$> bkeepMmapAnyInRange allocAlignment layout receivedUserMemory bottomAddr
        topAddr length prot flags file offset newVmaAllocated s))
  | .munmap addr length isInternal vma1Allocated vma2Allocated, s =>
    some (afterCall s
      (Prod.fst <$> bkeepMunmap allocAlignment addr length isInternal vma1Allocated
        vma2Allocated s))
  | .removeTmpVma node, s => bkeepRemoveTmpVma node s
  | .convertTmpVmaToUser node, s => bkeepConvertTmpVmaToUser node s
  | .mprotect addr length prot isInternal vma1Allocated vma2Allocated, s =>
    afterCall s <$>
      bkeepMprotect allocAlignment addr length prot isInternal vma1Allocated vma2Allocated s
  | .updateValidLength beginAddr validLength, s =>
    some (afterCall s (bkeepVmaUpdateValidLength beginAddr validLength s))

attribute [grind] initialVmas traverseFollowing vmaStep

end Gramine.LibOS.Bookkeep
