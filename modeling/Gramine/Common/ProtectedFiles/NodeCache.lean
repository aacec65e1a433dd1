import Mathlib
import Gramine.Common.ProtectedFiles.LruCache

/-!
# The node cache of a protected file

A protected file is a metadata node, a tree of MHT nodes and data nodes; the
context keeps the root MHT node and caches up to `MAX_NODES_IN_CACHE` others
in an LRU cache. This module models how `protected_files.c` fills that cache,
walks the parent pointers of the nodes in it, and evicts from it: the lookups
of MHT nodes and data nodes, the flush that makes nodes clean, and the four
calls `pf_read`, `pf_write`, `pf_set_size` and `pf_flush` on a context opened
for reading and writing.

Nodes carry no bytes here. A node is the allocation it lives in and its
fields; a parent pointer is the root MHT node or an allocation. Every call to
the host and to `calloc` is numbered, and `host i` says whether call `i`
succeeds, so any pattern of failures is one `host`.
-/

namespace Gramine.Common.ProtectedFiles

def PF_NODE_SIZE : Nat := 4096
def MD_USER_DATA_SIZE : Nat := PF_NODE_SIZE * 3 / 4
def MAX_NODES_IN_CACHE : Nat := 48
/-- `sizeof(gcm_crypto_data_t)`: a key and a MAC of 16 bytes each. -/
def GCM_CRYPTO_DATA_SIZE : Nat := 32
def ATTACHED_DATA_NODES_COUNT : Nat := PF_NODE_SIZE / GCM_CRYPTO_DATA_SIZE * 3 / 4
def CHILD_MHT_NODES_COUNT : Nat := PF_NODE_SIZE / GCM_CRYPTO_DATA_SIZE * 1 / 4

/-- The values of `pf_status_t` that `file_status` takes after the file is open. -/
inductive PfStatus
  | success
  | cryptoError
  | corrupted
  | writeToDiskFailed
  | flushError
  deriving DecidableEq, Repr

inductive NodeType
  | mht
  | data
  deriving DecidableEq, Repr

/-- Where a parent pointer points: the root MHT node inside the context, or
the allocation of a node. -/
inductive NodeRef
  | root
  | node (addr : Nat)
  deriving DecidableEq, Repr

/-- `file_node_t` without its plaintext and ciphertext. -/
structure FileNode where
  type : NodeType
  parent : NodeRef
  logicalNodeNumber : Nat
  physicalNodeNumber : Nat
  needWriting : Bool
  deriving DecidableEq, Repr

/-- A node in the cache: the allocation it lives in, and its fields. -/
structure CachedNode where
  addr : Nat
  node : FileNode
  deriving DecidableEq, Repr

/-- `pf_context_t` without the keys, the bytes of the metadata node and the
host handle; `calls` numbers the calls to the host and to `calloc`. -/
structure PfContext where
  needWriting : Bool
  fileStatus : PfStatus
  fileSize : Nat
  rootNeedWriting : Bool
  cache : Lruc CachedNode
  calls : Nat
  deriving DecidableEq, Repr

/-- A context just opened on a file of `fileSize` bytes, or just created and
flushed with `fileSize = 0`. -/
def PfContext.opened (fileSize : Nat) : PfContext :=
  ⟨false, .success, fileSize, false, [], 0⟩

/-- The context after `count` more calls to the host or to `calloc`. -/
def PfContext.called (pf : PfContext) (count : Nat) : PfContext :=
  { pf with calls := pf.calls + count }

/-- The node living in allocation `addr`: `none` once it is freed. -/
def nodeAt (cache : Lruc CachedNode) (addr : Nat) : Option CachedNode :=
  (cache.find? (·.2.addr == addr)).map Prod.snd

/-- The numbers `get_node_numbers(offset)` computes. -/
structure NodeNumbers where
  logicalMhtNodeNumber : Nat
  logicalDataNodeNumber : Nat
  physicalMhtNodeNumber : Nat
  physicalDataNodeNumber : Nat
  deriving DecidableEq, Repr

/-- `get_node_numbers(offset)`, for `offset >= MD_USER_DATA_SIZE`: the metadata
node is physical node 0, and every MHT node is followed by its
`ATTACHED_DATA_NODES_COUNT` data nodes. -/
def getNodeNumbers (offset : Nat) : NodeNumbers :=
  let logicalDataNodeNumber := (offset - MD_USER_DATA_SIZE) / PF_NODE_SIZE
  let logicalMhtNodeNumber := logicalDataNodeNumber / ATTACHED_DATA_NODES_COUNT
  let physicalDataNodeNumber := logicalDataNodeNumber + 1 + 1 + logicalMhtNodeNumber
  ⟨logicalMhtNodeNumber, logicalDataNodeNumber,
    physicalDataNodeNumber - logicalDataNodeNumber % ATTACHED_DATA_NODES_COUNT - 1,
    physicalDataNodeNumber⟩

/-- The physical node of MHT node `logicalMhtNodeNumber`. -/
def mhtPhysicalNodeNumber (logicalMhtNodeNumber : Nat) : Nat :=
  1 + logicalMhtNodeNumber * (1 + ATTACHED_DATA_NODES_COUNT)

/-- Set `need_writing` of the node in allocation `addr`. -/
def markNeedWriting (cache : Lruc CachedNode) (addr : Nat) : Lruc CachedNode :=
  cache.map fun entry =>
    if entry.2.addr = addr then (entry.1, { entry.2 with node.needWriting := true }) else entry

/-- A walk up the parent pointers from `ref`, the shape of the loops of
`ipf_get_data_node` and `ipf_write`: while the node reached is not the root
(logical number 0), `visit` it and go on to its parent. `none` when a pointer
leads to an allocation that is freed, or when the pointers go round for ever;
`fuel` is the number of nodes a walk that ends can pass. -/
def walkParents (visit : Lruc CachedNode → CachedNode → Lruc CachedNode) :
    Nat → NodeRef → Lruc CachedNode → Option (Lruc CachedNode)
  | _, .root, cache => some cache
  | 0, .node _, _ => none
  | fuel + 1, .node addr, cache =>
    match nodeAt cache addr with
    | none => none
    | some mht =>
      if mht.node.logicalNodeNumber = 0 then some cache
      else walkParents visit fuel mht.node.parent (visit cache mht)

/-- The loop of `ipf_get_data_node` that moves each MHT node above a data node
to the front of the cache with `lruc_get`. -/
def bumpParents (parent : NodeRef) (cache : Lruc CachedNode) : Option (Lruc CachedNode) :=
  walkParents (fun cache mht => (lrucGet cache mht.node.physicalNodeNumber).2) cache.length
    parent cache

/-- The loop of `ipf_write` that sets `need_writing` of each MHT node above a
data node. -/
def markParents (parent : NodeRef) (cache : Lruc CachedNode) : Option (Lruc CachedNode) :=
  walkParents (fun cache mht => markNeedWriting cache mht.addr) cache.length parent cache

section Host

variable (host : Nat → Bool)

/-- `ipf_read_mht_node(pf, logical_mht_node_number)`: the node is found with
`lruc_find`, which leaves the order of the cache alone, or read below its
parent and added to the front. A decryption that fails is a MAC mismatch. -/
def ipfReadMhtNode (logicalMhtNodeNumber : Nat) (pf : PfContext) : Option NodeRef × PfContext :=
  if logicalMhtNodeNumber = 0 then (some .root, pf)
  else
    let physicalNodeNumber := mhtPhysicalNodeNumber logicalMhtNodeNumber
    match lrucFind pf.cache physicalNodeNumber with
    | some found => (some (.node found.addr), pf)
    | none =>
      match ipfReadMhtNode ((logicalMhtNodeNumber - 1) / CHILD_MHT_NODES_COUNT) pf with
      | (none, pf) => (none, pf)
      | (some parent, pf) =>
        let addr := pf.calls
        -- `calloc`, `ipf_read_node`, `g_cb_aes_gcm_decrypt` and `lruc_add`, in turn
        if !host addr then (none, pf.called 1)
        else if !host (addr + 1) then (none, pf.called 2)
        else if !host (addr + 2) then (none, { pf.called 3 with fileStatus := .corrupted })
        else
          match lrucAdd pf.cache physicalNodeNumber
              ⟨addr, ⟨.mht, parent, logicalMhtNodeNumber, physicalNodeNumber, false⟩⟩
              (host (addr + 3)) with
          | none => (none, pf.called 4)
          | some cache => (some (.node addr), { pf.called 4 with cache })
termination_by logicalMhtNodeNumber
decreasing_by
  have : 0 < CHILD_MHT_NODES_COUNT := by decide
  exact Nat.lt_of_le_of_lt (Nat.div_le_self _ _) (by omega)

/-- `ipf_append_mht_node(pf, logical_mht_node_number)`. -/
def ipfAppendMhtNode (logicalMhtNodeNumber : Nat) (pf : PfContext) : Option NodeRef × PfContext :=
  match ipfReadMhtNode host ((logicalMhtNodeNumber - 1) / CHILD_MHT_NODES_COUNT) pf with
  | (none, pf) => (none, pf)
  | (some parent, pf) =>
    let physicalNodeNumber := mhtPhysicalNodeNumber logicalMhtNodeNumber
    let addr := pf.calls
    if !host addr then (none, pf.called 1)
    else
      match lrucAdd pf.cache physicalNodeNumber
          ⟨addr, ⟨.mht, parent, logicalMhtNodeNumber, physicalNodeNumber, false⟩⟩
          (host (addr + 1)) with
      | none => (none, pf.called 2)
      | some cache => (some (.node addr), { pf.called 2 with cache })

/-- `ipf_get_mht_node(pf, offset)`: the MHT node above `offset`, appended when
`offset` is the end of the file and the first byte under a new MHT node. -/
def ipfGetMhtNode (offset : Nat) (pf : PfContext) : Option NodeRef × PfContext :=
  if offset < MD_USER_DATA_SIZE then (none, pf)
  else
    let logicalMhtNodeNumber := (getNodeNumbers offset).logicalMhtNodeNumber
    if logicalMhtNodeNumber = 0 then (some .root, pf)
    else if (offset - MD_USER_DATA_SIZE) % (ATTACHED_DATA_NODES_COUNT * PF_NODE_SIZE) = 0 ∧
        offset = pf.fileSize then
      ipfAppendMhtNode host logicalMhtNodeNumber pf
    else ipfReadMhtNode host logicalMhtNodeNumber pf

/-- `ipf_append_data_node(pf, offset)`: the allocation of the new data node. -/
def ipfAppendDataNode (offset : Nat) (pf : PfContext) : Option Nat × PfContext :=
  match ipfGetMhtNode host offset pf with
  | (none, pf) => (none, pf)
  | (some mht, pf) =>
    let numbers := getNodeNumbers offset
    let addr := pf.calls
    if !host addr then (none, pf.called 1)
    else
      match lrucAdd pf.cache numbers.physicalDataNodeNumber
          ⟨addr, ⟨.data, mht, numbers.logicalDataNodeNumber, numbers.physicalDataNodeNumber,
            false⟩⟩
          (host (addr + 1)) with
      | none => (none, pf.called 2)
      | some cache => (some addr, { pf.called 2 with cache })

/-- `ipf_read_data_node(pf, offset)`: the data node is found with `lruc_get`,
which moves it to the front, or read below its MHT node and added to the
front. -/
def ipfReadDataNode (offset : Nat) (pf : PfContext) : Option Nat × PfContext :=
  let numbers := getNodeNumbers offset
  match lrucGet pf.cache numbers.physicalDataNodeNumber with
  | (some found, cache) => (some found.addr, { pf with cache })
  | (none, _) =>
    match ipfGetMhtNode host offset pf with
    | (none, pf) => (none, pf)
    | (some mht, pf) =>
      let addr := pf.calls
      if !host addr then (none, pf.called 1)
      else if !host (addr + 1) then (none, pf.called 2)
      else if !host (addr + 2) then (none, { pf.called 3 with fileStatus := .corrupted })
      else
        match lrucAdd pf.cache numbers.physicalDataNodeNumber
            ⟨addr, ⟨.data, mht, numbers.logicalDataNodeNumber, numbers.physicalDataNodeNumber,
              false⟩⟩
            (host (addr + 3)) with
        | none => (none, pf.called 4)
        | some cache => (some addr, { pf.called 4 with cache })

/-- The loop of `ipf_write_all_changes_to_disk` over the cache from its front:
each node that needs writing is written and made clean, up to the first write
that fails. The outcome, the cache and the count of calls. -/
def writeDirtyNodes : Lruc CachedNode → Nat → Bool × Lruc CachedNode × Nat
  | [], calls => (true, [], calls)
  | (key, entry) :: rest, calls =>
    if !entry.node.needWriting then
      let (written, rest, calls) := writeDirtyNodes rest calls
      (written, (key, entry) :: rest, calls)
    else if !host calls then (false, (key, entry) :: rest, calls + 1)
    else
      let (written, rest, calls) := writeDirtyNodes rest (calls + 1)
      (written, (key, { entry with node.needWriting := false }) :: rest, calls)

/-- `ipf_write_all_changes_to_disk(pf)`: the dirty nodes and the root MHT node
when the file reaches past the metadata node and the root needs writing, then
the metadata node. -/
def ipfWriteAllChangesToDisk (pf : PfContext) : Bool × PfContext :=
  if MD_USER_DATA_SIZE < pf.fileSize ∧ pf.rootNeedWriting then
    match writeDirtyNodes host pf.cache pf.calls with
    | (false, cache, calls) => (false, { pf with cache, calls })
    | (true, cache, calls) =>
      if !host calls then (false, { pf with cache, calls := calls + 1 })
      else (host (calls + 1), { pf with cache, calls := calls + 2, rootNeedWriting := false })
  else (host pf.calls, pf.called 1)

/-- `ipf_internal_flush(pf)`: nothing to do unless the file needs writing;
the encryption of the dirty nodes (`ipf_update_all_data_and_mht_nodes`) and of
the metadata node, then the writes. -/
def ipfInternalFlush (pf : PfContext) : Bool × PfContext :=
  if !pf.needWriting then (true, pf)
  else
    let encrypted := !(MD_USER_DATA_SIZE < pf.fileSize ∧ pf.rootNeedWriting) || host pf.calls
    if !encrypted then (false, { pf.called 1 with fileStatus := .cryptoError })
    else if !host (pf.calls + 1) then (false, { pf.called 2 with fileStatus := .cryptoError })
    else
      match ipfWriteAllChangesToDisk host (pf.called 2) with
      | (false, pf) => (false, { pf with fileStatus := .writeToDiskFailed })
      | (true, pf) => (true, { pf with needWriting := false })

theorem length_writeDirtyNodes :
    ∀ (cache : Lruc CachedNode) (calls : Nat),
      (writeDirtyNodes host cache calls).2.1.length = cache.length
  | [], _ => rfl
  | (key, entry) :: rest, calls => by
    rw [writeDirtyNodes]
    split_ifs
    · simp [length_writeDirtyNodes rest calls]
    · rfl
    · simp [length_writeDirtyNodes rest (calls + 1)]

theorem ipfWriteAllChangesToDisk_cache_length (pf : PfContext) :
    (ipfWriteAllChangesToDisk host pf).2.cache.length = pf.cache.length := by
  unfold ipfWriteAllChangesToDisk
  split_ifs with dirty
  · have := length_writeDirtyNodes host pf.cache pf.calls
    generalize writeDirtyNodes host pf.cache pf.calls = written at this ⊢
    obtain ⟨ok, cache, calls⟩ := written
    cases ok
    · exact this
    · dsimp only
      split_ifs <;> exact this
  · rfl

/-- A flush makes nodes clean and keeps every node in the cache. -/
theorem ipfInternalFlush_cache_length (pf : PfContext) :
    (ipfInternalFlush host pf).2.cache.length = pf.cache.length := by
  unfold ipfInternalFlush
  dsimp only
  split_ifs
  any_goals rfl
  · have := ipfWriteAllChangesToDisk_cache_length host (pf.called 2)
    generalize ipfWriteAllChangesToDisk host (pf.called 2) = written at this ⊢
    obtain ⟨ok, pf'⟩ := written
    cases ok <;> exact this

/-- The loop of `ipf_get_data_node` that evicts nodes while the cache holds
more than `MAX_NODES_IN_CACHE`: a clean last node is freed, a dirty one makes
the file flush. Whether the data node may be returned; `none` when the loop
never ends, as it does when a flush leaves the last node dirty. -/
def evictNodes (pf : PfContext) : Option (Bool × PfContext) :=
  if pf.cache.length ≤ MAX_NODES_IN_CACHE then some (true, pf)
  else
    match lrucGetLast pf.cache with
    | none => some (true, pf)
    | some last =>
      if !last.node.needWriting then evictNodes { pf with cache := lrucRemoveLast pf.cache }
      else
        match flushed : ipfInternalFlush host pf with
        | (false, pf) =>
          some (false, { pf with
            fileStatus := if pf.fileStatus = .success then .flushError else pf.fileStatus })
        | (true, pf') =>
          -- the loop looks at the last node again
          match lrucGetLast pf'.cache with
          | some last =>
            if last.node.needWriting then none
            else evictNodes { pf' with cache := lrucRemoveLast pf'.cache }
          | none => some (true, pf')
termination_by pf.cache.length
decreasing_by
  · simp only [lrucRemoveLast, List.length_dropLast]
    omega
  · have same := ipfInternalFlush_cache_length host pf
    rw [flushed] at same
    dsimp only at same
    simp only [lrucRemoveLast, List.length_dropLast]
    omega

/-- `ipf_get_data_node(pf, offset)`: the data node is appended at the end of
the file and read otherwise; when there is one, the MHT nodes above it move to
the front of the cache, and then the cache is cut back to
`MAX_NODES_IN_CACHE` nodes. `none` when a parent pointer leads to a freed
node or a loop never ends. -/
def ipfGetDataNode (offset : Nat) (pf : PfContext) : Option (Option Nat × PfContext) :=
  if offset < MD_USER_DATA_SIZE then some (none, pf)
  else
    let (dataNode, pf) :=
      if (offset - MD_USER_DATA_SIZE) % PF_NODE_SIZE = 0 ∧ offset = pf.fileSize then
        ipfAppendDataNode host offset pf
      else ipfReadDataNode host offset pf
    let bumped : Option PfContext :=
      match dataNode with
      | none => some pf
      | some addr =>
        match nodeAt pf.cache addr with
        | none => none
        | some found =>
          (bumpParents found.node.parent pf.cache).map fun cache => { pf with cache }
    bumped.bind fun pf =>
      (evictNodes host pf).map fun (kept, pf) => (if kept then dataNode else none, pf)

/-- The bytes of a node from `offset` on that a request of `left` bytes
covers. -/
def sizeInNode (offset left : Nat) : Nat :=
  min left (PF_NODE_SIZE - (offset - MD_USER_DATA_SIZE) % PF_NODE_SIZE)

theorem sizeInNode_pos {offset left : Nat} (positive : 0 < left) : 0 < sizeInNode offset left := by
  have : (offset - MD_USER_DATA_SIZE) % PF_NODE_SIZE < PF_NODE_SIZE :=
    Nat.mod_lt _ (by decide)
  unfold sizeInNode
  omega

/-- The loop of `ipf_read` over data nodes: the bytes left when a node cannot
be had. -/
def ipfReadNodes (offset : Nat) : Nat → PfContext → Option (Nat × PfContext)
  | 0, pf => some (0, pf)
  | left + 1, pf =>
    match ipfGetDataNode host offset pf with
    | none => none
    | some (none, pf) => some (left + 1, pf)
    | some (some _, pf) =>
      ipfReadNodes (offset + sizeInNode offset (left + 1)) (left + 1 - sizeInNode offset (left + 1)) pf
termination_by left => left
decreasing_by
  have : 0 < sizeInNode offset (left + 1) := sizeInNode_pos (by omega)
  omega

/-- `ipf_read(pf, ptr, offset, size)` with `ptr` not `NULL`: the bytes read.
The first `MD_USER_DATA_SIZE` bytes are in the metadata node. -/
def ipfRead (offset size : Nat) (pf : PfContext) : Option (Nat × PfContext) :=
  let attempted := min size (pf.fileSize - offset)
  let inMetadata := if offset < MD_USER_DATA_SIZE then min attempted (MD_USER_DATA_SIZE - offset) else 0
  (ipfReadNodes host (offset + inMetadata) (attempted - inMetadata) pf).map fun (left, pf) =>
    (attempted - left, pf)

/-- `pf_read(pf, offset, size, ...)`: whether it succeeds. -/
def pfRead (offset size : Nat) (pf : PfContext) : Option (Bool × PfContext) :=
  if size = 0 then some (true, pf)
  else if pf.fileStatus ≠ .success then some (false, pf)
  else if pf.fileSize ≤ offset then some (true, pf)
  else (ipfRead host offset size pf).map fun (bytes, pf) => (bytes ≠ 0, pf)

/-- The loop of `ipf_write` over data nodes: each node reached is written,
the size grows past it, and a node that was clean is marked dirty with the MHT
nodes above it. The bytes left when a node cannot be had. -/
def ipfWriteNodes (offset : Nat) : Nat → PfContext → Option (Nat × PfContext)
  | 0, pf => some (0, pf)
  | left + 1, pf =>
    match ipfGetDataNode host offset pf with
    | none => none
    | some (none, pf) => some (left + 1, pf)
    | some (some addr, pf) =>
      let written := sizeInNode offset (left + 1)
      let pf := { pf with fileSize := max pf.fileSize (offset + written) }
      match nodeAt pf.cache addr with
      | none => none
      | some dataNode =>
        if dataNode.node.needWriting then
          ipfWriteNodes (offset + written) (left + 1 - written) pf
        else
          match markParents dataNode.node.parent (markNeedWriting pf.cache addr) with
          | none => none
          | some cache =>
            ipfWriteNodes (offset + written) (left + 1 - written)
              { pf with cache, rootNeedWriting := true, needWriting := true }
termination_by left => left
decreasing_by
  all_goals
    have : 0 < sizeInNode offset (left + 1) := sizeInNode_pos (by omega)
    omega

/-- `ipf_write(pf, ptr, offset, size)`: the bytes written. The first
`MD_USER_DATA_SIZE` bytes go to the metadata node. -/
def ipfWrite (offset size : Nat) (pf : PfContext) : Option (Nat × PfContext) :=
  if size = 0 then some (0, pf)
  else if pf.fileStatus ≠ .success then some (0, pf)
  else
    let inMetadata := if offset < MD_USER_DATA_SIZE then min size (MD_USER_DATA_SIZE - offset) else 0
    let pf := if offset < MD_USER_DATA_SIZE then
      { pf with fileSize := max pf.fileSize (offset + inMetadata), needWriting := true } else pf
    (ipfWriteNodes host (offset + inMetadata) (size - inMetadata) pf).map fun (left, pf) =>
      (size - left, pf)

/-- `pf_set_size(pf, size)`: whether it succeeds. Growing writes zeros up to
`size`; shrinking flushes, frees every cached node and truncates the host
file. -/
def pfSetSize (size : Nat) (pf : PfContext) : Option (Bool × PfContext) :=
  if size = pf.fileSize then some (true, pf)
  else if pf.fileSize < size then
    (ipfWrite host pf.fileSize (size - pf.fileSize) pf).map fun (written, pf') =>
      (written = size - pf.fileSize, pf')
  else
    match ipfInternalFlush host pf with
    | (false, pf) => some (false, pf)
    | (true, pf) =>
      -- `ipf_delete_cache`, then `g_cb_truncate`
      let pf := { pf with cache := [] }
      if !host pf.calls then some (false, pf.called 1)
      else some (true, { pf.called 1 with fileSize := size, needWriting := true })

/-- `pf_write(pf, offset, size, ...)`: whether it succeeds. A write past the
end first grows the file to `offset`. -/
def pfWrite (offset size : Nat) (pf : PfContext) : Option (Bool × PfContext) :=
  if pf.fileStatus ≠ .success then some (false, pf)
  else
    let grown := if pf.fileSize < offset then pfSetSize host offset pf else some (true, pf)
    grown.bind fun (ok, pf) =>
      if !ok then some (false, pf)
      else (ipfWrite host offset size pf).map fun (written, pf) => (written = size, pf)

/-- `pf_flush(pf)`: the flush, then `g_cb_fsync`. -/
def pfFlush (pf : PfContext) : Bool × PfContext :=
  match ipfInternalFlush host pf with
  | (false, pf) => (false, pf)
  | (true, pf) => (host pf.calls, pf.called 1)

end Host

/-- The calls on a protected file opened for reading and writing. -/
inductive PfOp
  | read (offset size : Nat)
  | write (offset size : Nat)
  | setSize (size : Nat)
  | flush
  deriving DecidableEq, Repr

/-- One call, whatever it returns; `none` when it dereferences a freed node
or never returns. -/
def pfStep (host : Nat → Bool) : PfOp → PfContext → Option PfContext
  | .read offset size, pf => (pfRead host offset size pf).map Prod.snd
  | .write offset size, pf => (pfWrite host offset size pf).map Prod.snd
  | .setSize size, pf => (pfSetSize host size pf).map Prod.snd
  | .flush, pf => some (pfFlush host pf).2

/-- The contexts reached from an open file by calls whose host and `calloc`
behave as `host` says. -/
inductive PfRun (host : Nat → Bool) : PfContext → Prop
  | opened (fileSize : Nat) : PfRun host (PfContext.opened fileSize)
  | step {pf pf' : PfContext} (op : PfOp) : PfRun host pf → pfStep host op pf = some pf' →
      PfRun host pf'

/-- The context after a list of calls; `none` when one of them does not
return. -/
def pfSteps (host : Nat → Bool) : List PfOp → PfContext → Option PfContext
  | [], pf => some pf
  | op :: ops, pf => (pfStep host op pf).bind (pfSteps host ops)

theorem PfRun.steps {host : Nat → Bool} :
    ∀ {ops : List PfOp} {pf pf' : PfContext}, PfRun host pf → pfSteps host ops pf = some pf' →
      PfRun host pf'
  | [], _, _, run, h => by
    cases h
    exact run
  | op :: ops, pf, pf', run, h => by
    rw [pfSteps] at h
    obtain ⟨next, stepped, rest⟩ := Option.bind_eq_some_iff.mp h
    exact (run.step op stepped).steps rest

/-! ## The shape of the cache -/

/-- Every node in the cache points to the root MHT node or to a node in the
cache. -/
def PfContext.ParentsCached (pf : PfContext) : Prop :=
  ∀ entry ∈ pf.cache, entry.2.node.parent = .root ∨
    ∃ parent ∈ pf.cache, entry.2.node.parent = .node parent.2.addr

/-- Every MHT node in the cache was used more recently than each of its
children in the cache. -/
def PfContext.ParentsFirst (pf : PfContext) : Prop :=
  ∀ child ∈ pf.cache, ∀ parent ∈ pf.cache, parent.2.node.type = .mht →
    child.2.node.parent = .node parent.2.addr → List.Sublist [parent, child] pf.cache

instance : DecidablePred PfContext.ParentsCached := fun pf =>
  inferInstanceAs (Decidable (∀ entry ∈ pf.cache, _))

instance : DecidablePred PfContext.ParentsFirst := fun pf =>
  inferInstanceAs (Decidable (∀ child ∈ pf.cache, _))

/-! ## A read that fails

A file of `3169` data nodes, so that MHT node 33 hangs below MHT node 1, and a
host that fails one read of a data node below MHT node 33. `ipf_read_mht_node`
finds MHT node 1 with `lruc_find`, which does not move it, and puts MHT node 33
in front of it; the read of the data node then fails, and nothing moves MHT
node 1 back to the front. Once 47 more nodes are read, the eviction in the
same call frees MHT node 1 while MHT node 33 still points to it, and the next
read below MHT node 33 follows that pointer. -/

/-- The size of the file: `3169` data nodes after the metadata node's bytes. -/
def bigFileSize : Nat := MD_USER_DATA_SIZE + 3169 * PF_NODE_SIZE

/-- The offset of the first byte of data node `logicalDataNodeNumber`. -/
def dataNodeOffset (logicalDataNodeNumber : Nat) : Nat :=
  MD_USER_DATA_SIZE + logicalDataNodeNumber * PF_NODE_SIZE

/-- The MHT node of data node 3168 is read before the parent it was found
below, and the code bug that leaves the parent evicted and the child pointing
to it. -/
theorem pfRead_failure_leaves_child_before_parent :
    (∃ pf, PfRun (fun call => call != 13) pf ∧ ¬ pf.ParentsFirst) ∧
      ∃ pf, PfRun (fun call => call != 201) pf ∧ ¬ pf.ParentsCached ∧
        pfStep (fun call => call != 201) (.read (dataNodeOffset 3168) 1) pf = none := by
  constructor
  · have reached : (pfSteps (fun call => call != 13)
        [.read (dataNodeOffset 96) 1, .read (dataNodeOffset 3168) 1]
        (PfContext.opened bigFileSize)).any (fun pf => !decide pf.ParentsFirst) = true := by
      decide +kernel
    obtain ⟨pf, steps, broken⟩ := (Option.any_eq_true _ _).mp reached
    exact ⟨pf, (PfRun.opened bigFileSize).steps steps, by simpa using broken⟩
  · have reached : (pfSteps (fun call => call != 201)
        [.read (dataNodeOffset 96) 1, .read (dataNodeOffset 0) (47 * PF_NODE_SIZE),
          .read (dataNodeOffset 3168) 1]
        (PfContext.opened bigFileSize)).any (fun pf => !decide pf.ParentsCached &&
          (pfStep (fun call => call != 201) (.read (dataNodeOffset 3168) 1) pf).isNone) = true := by
      decide +kernel
    obtain ⟨pf, steps, broken⟩ := (Option.any_eq_true _ _).mp reached
    simp only [Bool.and_eq_true, Bool.not_eq_true', decide_eq_false_iff_not,
      Option.isNone_iff_eq_none] at broken
    exact ⟨pf, (PfRun.opened bigFileSize).steps steps, broken⟩

end Gramine.Common.ProtectedFiles
