import Gramine.Common.Errno
import Gramine.Pal.LinuxSgx.Topology

/-!
# The `/sys/devices/system/{cpu,node}` pseudo-files

The LibOS serves the sysfs files about CPUs, caches and NUMA nodes from the
topology the PAL sanitised (`libos/src/fs/sys/`). A directory `cpuN`, `nodeN`
or `indexN` exists when `sys_resource_name_exists` accepts its name, the
`topology` and `cache` directories of `cpuN` only when the thread is online,
and each file is produced by a loader that follows the topology's indices.

A numbered name `{prefix}N` is represented by `N`: `pseudo_parse_ulong` accepts
exactly the decimal numbers without leading zeros, and a name of another shape
never exists. File names are enumerations, one constructor per file the
pseudo filesystem registers, so the loaders' "unrecognized file" branches are
left out. As in the sanitiser, `none` is a read out of bounds. The text the
loaders print is kept for the scalar files; for the CPU and node masks and
lists it is the presence vector that `sys_print_as_bitmask` and
`sys_print_as_ranges` print, which they evaluate at every index below their
count.
-/

namespace Gramine.LibOS.Fs

open Gramine.Pal.LinuxSgx

/-- The directories whose children are numbered, as `sys_resource_info` tells
them apart by name: `node`, `cpu` and `cache`, whose children are `nodeN`,
`cpuN` and `indexN`. -/
inductive SysResource where
  | node
  | cpu
  | cache
  deriving DecidableEq

/-- One step of the loop of `sys_resource_info` for `cache`: an online thread
raises `max` to one past the index of each present entry. -/
def threadCacheCount (max : Nat) (thread : PalCpuThreadInfo) : Nat :=
  if thread.isOnline then
    thread.idsOfCaches.zipIdx.foldl
      (fun max entry => if entry.1 != SIZE_MAX then Nat.max max (entry.2 + 1) else max) max
  else max

/-- `sys_resource_info`: how many children a numbered directory has. For
`cache` it is the largest count over all online threads. -/
def sysResourceInfo (topo : PalTopoInfo) : SysResource → Nat
  | .node => topo.numaNodes.length
  | .cpu => topo.threads.length
  | .cache => topo.threads.foldl threadCacheCount 0

/-- `sys_resource_find`, once it reached the ancestor named after `resource`:
the number of that ancestor's child on the path. -/
def sysResourceFind (topo : PalTopoInfo) (resource : SysResource) (n : Nat) : Except Int Nat :=
  let total := sysResourceInfo topo resource
  if total = 0 then .error (-ENOENT)
  else if total - 1 < n then .error (-ENOENT)
  else .ok n

/-- `sys_resource_name_exists(parent, "{prefix}n")`. -/
def sysResourceNameExists (topo : PalTopoInfo) (resource : SysResource) (n : Nat) :
    Option Bool := do
  let total := sysResourceInfo topo resource
  if total = 0 then return false
  if total - 1 < n then return false
  if resource = .node then
    let node ← topo.numaNodes[n]?
    if !node.isOnline then return false
  return true

/-- `sys_cpu_online_name_exists` for the file `online` of `cpuN`: every CPU but `cpu0`. -/
def sysCpuOnlineNameExists (topo : PalTopoInfo) (cpu : Nat) : Bool :=
  match sysResourceFind topo .cpu cpu with
  | .error _ => false
  | .ok threadId => threadId != 0

/-- `sys_cpu_exists_only_if_online` for `topology` and `cache` in `cpuN`. -/
def sysCpuExistsOnlyIfOnline (topo : PalTopoInfo) (cpu : Nat) : Option Bool :=
  match sysResourceFind topo .cpu cpu with
  | .error _ => some false
  | .ok threadId => do
      let thread ← topo.threads[threadId]?
      return thread.isOnline

/-- The files of `cpu/` that `sys_cpu_general_load` serves. -/
inductive CpuGeneralFile where
  | online
  | offline
  | possible
  | present

/-- The files of `cpu/cpuN/topology/`. -/
inductive TopologyFile where
  | coreId
  | physicalPackageId
  | threadSiblings
  | coreSiblings

/-- The files of `cpu/cpuN/cache/indexM/` that print a field of the cache. -/
inductive CacheAttribute where
  | level
  | type
  | size
  | coherencyLineSize
  | numberOfSets
  | physicalLinePartition

/-- The files of `cpu/cpuN/cache/indexM/`. -/
inductive CacheFile where
  | sharedCpuMap
  | sharedCpuList
  | info (field : CacheAttribute)

/-- The files of `node/` that `sys_node_general_load` serves. -/
inductive NodeGeneralFile where
  | online
  | possible

/-- The files of `node/nodeN/` that `sys_node_load` serves: `cpumap`,
`distance` and `hugepages/hugepages-{2048,1048576}kB/nr_hugepages`. -/
inductive NodeFile where
  | cpumap
  | distance
  | nrHugepages (kind : HugepageKind)

/-- The topology files of `/sys/devices/system`. -/
inductive SysPath where
  | cpuGeneral (file : CpuGeneralFile)
  | cpuOnline (cpu : Nat)
  | cpuTopology (cpu : Nat) (file : TopologyFile)
  | cpuCache (cpu index : Nat) (file : CacheFile)
  | nodeGeneral (file : NodeGeneralFile)
  | nodeFile (node : Nat) (file : NodeFile)
  | nodeMeminfo (node : Nat)

/-- Whether the pseudo filesystem finds a path: every directory on it exists,
checked from the root down as `pseudo_find` looks them up. -/
def sysPathExists (topo : PalTopoInfo) : SysPath → Option Bool
  | .cpuGeneral _ => some true
  | .cpuOnline cpu => do
      if !(← sysResourceNameExists topo .cpu cpu) then return false
      return sysCpuOnlineNameExists topo cpu
  | .cpuTopology cpu _ => do
      if !(← sysResourceNameExists topo .cpu cpu) then return false
      sysCpuExistsOnlyIfOnline topo cpu
  | .cpuCache cpu index _ => do
      if !(← sysResourceNameExists topo .cpu cpu) then return false
      if !(← sysCpuExistsOnlyIfOnline topo cpu) then return false
      sysResourceNameExists topo .cache index
  | .nodeGeneral _ => some true
  | .nodeFile node _ => sysResourceNameExists topo .node node
  | .nodeMeminfo node => sysResourceNameExists topo .node node

/-! ## Loaders -/

/-- What a loader hands to `sys_load`. -/
inductive SysfsData where
  | text (value : String)
  | ranges (present : List Bool)
  | bitmask (present : List Bool)
  | meminfo (nodeId nodeMemTotal nodeMemFree : Nat)

/-- The calls of `is_present(i)` by `sys_print_as_ranges` and
`sys_print_as_bitmask`: one at every index below `count`. -/
def presence (count : Nat) (isPresent : Nat → Option Bool) : Option (List Bool) :=
  (List.range count).mapM isPresent

/-- `"%zu\n"`. -/
def decimalLine (value : Nat) : String := toString value ++ "\n"

/-- `is_online` of `cpu_info.c`. -/
def isOnline (topo : PalTopoInfo) (ind : Nat) : Option Bool := do
  let thread ← topo.threads[ind]?
  return thread.isOnline

/-- `sys_cpu_general_load`. -/
def sysCpuGeneralLoad (topo : PalTopoInfo) : CpuGeneralFile → Option (Except Int SysfsData)
  | .online => do return .ok (.ranges (← presence topo.threads.length (isOnline topo)))
  | .offline => do
      return .ok (.ranges (← presence topo.threads.length fun ind => (isOnline topo ind).map (!·)))
  | .possible | .present => do return .ok (.ranges (← presence topo.threads.length fun _ => true))

/-- `sys_cpu_load_online`. -/
def sysCpuLoadOnline (topo : PalTopoInfo) (cpu : Nat) : Option (Except Int SysfsData) :=
  match sysResourceFind topo .cpu cpu with
  | .error ret => some (.error ret)
  | .ok threadId =>
      -- `cpu/cpuX/online` is not present for cpu0
      if threadId = 0 then some (.error (-ENOENT))
      else do
        let thread ← topo.threads[threadId]?
        return .ok (.text (if thread.isOnline then "1\n" else "0\n"))

/-- `is_in_same_core`. -/
def isInSameCore (topo : PalTopoInfo) (argId threadId : Nat) : Option Bool := do
  let thread ← topo.threads[threadId]?
  return thread.isOnline && thread.coreId == argId

/-- `is_in_same_socket`. -/
def isInSameSocket (topo : PalTopoInfo) (argId threadId : Nat) : Option Bool := do
  let thread ← topo.threads[threadId]?
  if !thread.isOnline then return false
  let core ← topo.cores[thread.coreId]?
  return core.socketId == argId

/-- `sys_cpu_load_topology`. The core of the thread is read only by the files
that print its socket. -/
def sysCpuLoadTopology (topo : PalTopoInfo) (cpu : Nat) (file : TopologyFile) :
    Option (Except Int SysfsData) :=
  match sysResourceFind topo .cpu cpu with
  | .error ret => some (.error ret)
  | .ok threadId => do
      let thread ← topo.threads[threadId]?
      match file with
      | .coreId => return .ok (.text (decimalLine thread.coreId))
      | .physicalPackageId =>
          let core ← topo.cores[thread.coreId]?
          return .ok (.text (decimalLine core.socketId))
      | .threadSiblings =>
          return .ok (.bitmask (← presence topo.threads.length (isInSameCore topo thread.coreId)))
      | .coreSiblings =>
          let core ← topo.cores[thread.coreId]?
          return .ok (.bitmask (← presence topo.threads.length (isInSameSocket topo core.socketId)))

/-- `is_same_cache`. -/
def isSameCache (topo : PalTopoInfo) (cacheIdToMatch cacheClass idx : Nat) : Option Bool := do
  let thread ← topo.threads[idx]?
  if !thread.isOnline then return false
  let id ← thread.idsOfCaches[cacheClass]?
  return id == cacheIdToMatch

/-- The text of `type`: the `switch` over `enum cache_type`, whose `default`
is `__builtin_unreachable()`. -/
def cacheTypeText (type : Nat) : Option String :=
  if type = CACHE_TYPE_DATA then some "Data\n"
  else if type = CACHE_TYPE_INSTRUCTION then some "Instruction\n"
  else if type = CACHE_TYPE_UNIFIED then some "Unified\n"
  else none

/-- The text of a file that prints a field of the cache. -/
def cacheAttributeText (cache : PalCacheInfo) : CacheAttribute → Option String
  | .level => some (decimalLine cache.level)
  | .type => cacheTypeText cache.type
  | .size => some (toString (cache.size / 2 ^ 10) ++ "K\n")
  | .coherencyLineSize => some (decimalLine cache.coherencyLineSize)
  | .numberOfSets => some (decimalLine cache.numberOfSets)
  | .physicalLinePartition => some (decimalLine cache.physicalLinePartition)

/-- `sys_cache_load`: the cache of the entry `cache_class` of the thread's
`ids_of_caches`. -/
def sysCacheLoad (topo : PalTopoInfo) (cpu index : Nat) (file : CacheFile) :
    Option (Except Int SysfsData) :=
  match sysResourceFind topo .cache index with
  | .error ret => some (.error ret)
  | .ok cacheClass =>
      match sysResourceFind topo .cpu cpu with
      | .error ret => some (.error ret)
      | .ok threadId => do
          let thread ← topo.threads[threadId]?
          let cacheIdx ← thread.idsOfCaches[cacheClass]?
          match file with
          | .sharedCpuMap =>
              return .ok (.bitmask
                (← presence topo.threads.length (isSameCache topo cacheIdx cacheClass)))
          | .sharedCpuList =>
              return .ok (.ranges
                (← presence topo.threads.length (isSameCache topo cacheIdx cacheClass)))
          | .info field =>
              -- `cache = &topo->caches[cache_idx]`, read only by these files
              let cache ← topo.caches[cacheIdx]?
              return .ok (.text (← cacheAttributeText cache field))

/-- `is_online` of `node_info.c`. -/
def isNodeOnline (topo : PalTopoInfo) (ind : Nat) : Option Bool := do
  let node ← topo.numaNodes[ind]?
  return node.isOnline

/-- `sys_node_general_load`. -/
def sysNodeGeneralLoad (topo : PalTopoInfo) : NodeGeneralFile → Option (Except Int SysfsData)
  | .online => do return .ok (.ranges (← presence topo.numaNodes.length (isNodeOnline topo)))
  | .possible => do return .ok (.ranges (← presence topo.numaNodes.length fun _ => true))

/-- `is_in_same_node`. -/
def isInSameNode (topo : PalTopoInfo) (argNodeId idx : Nat) : Option Bool := do
  let thread ← topo.threads[idx]?
  if !thread.isOnline then return false
  let core ← topo.cores[thread.coreId]?
  return core.nodeId == argNodeId

/-- The loop of `distance`: the distances from `nodeId` to the online nodes,
read from row `nodeId` of the matrix. -/
def nodeDistances (topo : PalTopoInfo) (nodeId : Nat) : Option (List Nat) :=
  List.reduceOption <$> (List.range topo.numaNodes.length).mapM fun i => do
    let node ← topo.numaNodes[i]?
    if !node.isOnline then return none
    let distance ← topo.numaDistanceMatrix[nodeId * topo.numaNodes.length + i]?
    return some distance

/-- `sys_node_load`. -/
def sysNodeLoad (topo : PalTopoInfo) (node : Nat) (file : NodeFile) :
    Option (Except Int SysfsData) :=
  match sysResourceFind topo .node node with
  | .error ret => some (.error ret)
  | .ok nodeId => do
      let numaNode ← topo.numaNodes[nodeId]?
      if !numaNode.isOnline then return .error (-ENOENT)
      match file with
      | .cpumap =>
          return .ok (.bitmask (← presence topo.threads.length (isInSameNode topo nodeId)))
      | .distance =>
          let distances ← nodeDistances topo nodeId
          return .ok (.text (" ".intercalate (distances.map toString) ++ "\n"))
      | .nrHugepages kind => return .ok (.text (decimalLine (numaNode.nrHugepages kind)))

/-- `sys_node_meminfo_load`, with the enclave's total memory and the memory
in use (`g_pal_public_state->mem_total`, `get_total_memory_usage()`). The
division by the node count comes before the node is looked up; a division by
zero is undefined behaviour, as a read out of bounds is. -/
def sysNodeMeminfoLoad (topo : PalTopoInfo) (memTotal memUsage node : Nat) :
    Option (Except Int SysfsData) := do
  let numaNodesCnt := topo.numaNodes.length
  if numaNodesCnt = 0 then none
  let nodeMemTotal := memTotal / numaNodesCnt
  let nodeMemFree := (memTotal - memUsage) / numaNodesCnt
  match sysResourceFind topo .node node with
  | .error ret => return .error ret
  | .ok nodeId =>
      let numaNode ← topo.numaNodes[nodeId]?
      if !numaNode.isOnline then return .error (-ENOENT)
      return .ok (.meminfo nodeId nodeMemTotal nodeMemFree)

/-- The loader the pseudo filesystem calls for a file. -/
def sysLoad (topo : PalTopoInfo) (memTotal memUsage : Nat) : SysPath → Option (Except Int SysfsData)
  | .cpuGeneral file => sysCpuGeneralLoad topo file
  | .cpuOnline cpu => sysCpuLoadOnline topo cpu
  | .cpuTopology cpu file => sysCpuLoadTopology topo cpu file
  | .cpuCache cpu index file => sysCacheLoad topo cpu index file
  | .nodeGeneral file => sysNodeGeneralLoad topo file
  | .nodeFile node file => sysNodeLoad topo node file
  | .nodeMeminfo node => sysNodeMeminfoLoad topo memTotal memUsage node

/-! ## Resource directories -/

attribute [grind] sysResourceInfo sysResourceFind sysResourceNameExists sysCpuExistsOnlyIfOnline
  sysPathExists sysCacheLoad

section Loaders

variable {topo : PalTopoInfo}

/-- `sys_resource_find` accepts exactly the numbers below the total. -/
theorem sysResourceFind_eq_ok {resource : SysResource} {n m : Nat}
    (found : sysResourceFind topo resource n = .ok m) :
    m = n ∧ n < sysResourceInfo topo resource := by
  unfold sysResourceFind at found
  dsimp only at found
  split_ifs at found with empty beyond
  cases found
  exact ⟨rfl, by omega⟩

/-- The inner loop of the `cache` count over entries whose indices are below
`MAX_CACHES` stays within `MAX_CACHES`. -/
theorem cacheEntries_foldl_le :
    ∀ {entries : List (Nat × Nat)} {max : Nat}, max ≤ MAX_CACHES →
      (∀ entry ∈ entries, entry.2 < MAX_CACHES) →
      entries.foldl (fun max entry => if entry.1 != SIZE_MAX then Nat.max max (entry.2 + 1) else max)
        max ≤ MAX_CACHES
  | [], _, bounded, _ => bounded
  | entry :: entries, max, bounded, indices => by
      rw [List.foldl_cons]
      apply cacheEntries_foldl_le _ fun later member => indices later (List.mem_cons_of_mem _ member)
      have below := indices entry List.mem_cons_self
      split
      · exact Nat.max_le.mpr ⟨bounded, below⟩
      · exact bounded

/-- Every step of the `cache` count stays within `MAX_CACHES`. -/
theorem threadCacheCount_le {max : Nat} (bounded : max ≤ MAX_CACHES) (thread : PalCpuThreadInfo) :
    threadCacheCount max thread ≤ MAX_CACHES := by
  unfold threadCacheCount
  split
  · apply cacheEntries_foldl_le bounded
    intro entry member
    have := (List.mem_zipIdx member).2.1
    rw [← thread.idsLength]
    omega
  · exact bounded

/-- There are at most `MAX_CACHES` directories `indexN`. -/
theorem sysResourceInfo_cache_le (topo : PalTopoInfo) :
    sysResourceInfo topo .cache ≤ MAX_CACHES := by
  unfold sysResourceInfo
  -- the invariant of the outer loop: the running maximum stays within `MAX_CACHES`
  suffices ∀ (threads : List PalCpuThreadInfo) (max : Nat), max ≤ MAX_CACHES →
      threads.foldl threadCacheCount max ≤ MAX_CACHES from this topo.threads 0 (Nat.zero_le _)
  intro threads
  induction threads with
  | nil => exact fun _ bounded => bounded
  | cons thread threads inductionHypothesis =>
      exact fun max bounded => inductionHypothesis _ (threadCacheCount_le bounded thread)

/-- `sys_resource_name_exists` reads in bounds, whatever the topology. -/
theorem sysResourceNameExists_isSome (topo : PalTopoInfo) (resource : SysResource) (n : Nat) :
    (sysResourceNameExists topo resource n).isSome := by
  unfold sysResourceNameExists
  cases resource <;> simp only [sysResourceInfo, reduceCtorEq, if_true, if_false]
  case node =>
    split_ifs with empty beyond
    · rfl
    · rfl
    · have below : n < topo.numaNodes.length := by omega
      simp only [List.getElem?_eq_getElem below]
      simp only [bind, Option.bind_some]
      split <;> rfl
  all_goals split_ifs <;> rfl

/-- `sys_cpu_exists_only_if_online` reads in bounds, whatever the topology. -/
theorem sysCpuExistsOnlyIfOnline_isSome (topo : PalTopoInfo) (cpu : Nat) :
    (sysCpuExistsOnlyIfOnline topo cpu).isSome := by
  unfold sysCpuExistsOnlyIfOnline
  split
  · rfl
  · rename_i threadId found
    obtain ⟨same, below⟩ := sysResourceFind_eq_ok found
    have inBounds : threadId < topo.threads.length := same ▸ below
    simp [inBounds]

/-- Looking a path up reads in bounds, whatever the topology. -/
theorem sysPathExists_isSome (topo : PalTopoInfo) (path : SysPath) :
    (sysPathExists topo path).isSome := by
  cases path with
  | cpuGeneral | nodeGeneral => rfl
  | cpuOnline cpu =>
      refine Option.isSome_bind_of_isSome (sysResourceNameExists_isSome topo .cpu cpu) fun _ => ?_
      split <;> rfl
  | cpuTopology cpu =>
      refine Option.isSome_bind_of_isSome (sysResourceNameExists_isSome topo .cpu cpu) fun _ => ?_
      split
      · rfl
      · exact sysCpuExistsOnlyIfOnline_isSome topo cpu
  | cpuCache cpu index =>
      refine Option.isSome_bind_of_isSome (sysResourceNameExists_isSome topo .cpu cpu) fun _ => ?_
      split
      · rfl
      refine Option.isSome_bind_of_isSome (sysCpuExistsOnlyIfOnline_isSome topo cpu) fun _ => ?_
      split
      · rfl
      · exact sysResourceNameExists_isSome topo .cache index
  | nodeFile node | nodeMeminfo node => exact sysResourceNameExists_isSome topo .node node

/-! ## What an existing path tells about the topology -/

/-- An existing numbered directory has a number below the total. -/
theorem sysResourceNameExists_eq_true {resource : SysResource} {n : Nat}
    (found : sysResourceNameExists topo resource n = some true) :
    n < sysResourceInfo topo resource := by
  unfold sysResourceNameExists at found
  dsimp only at found
  split_ifs at found with empty beyond
  · cases found
  · cases found
  -- a node directory also needs its node online; either way the number passed the bound
  all_goals omega

/-- `topology` and `cache` exist only in the directory of an online thread. -/
theorem sysCpuExistsOnlyIfOnline_eq_true {cpu : Nat}
    (found : sysCpuExistsOnlyIfOnline topo cpu = some true) :
    ∃ thread, topo.threads[cpu]? = some thread ∧ thread.isOnline = true := by
  unfold sysCpuExistsOnlyIfOnline at found
  split at found
  · cases found
  · rename_i threadId resourceFound
    obtain ⟨rfl, -⟩ := sysResourceFind_eq_ok resourceFound
    simp only [bind, Option.bind_eq_some_iff, pure, Option.some.injEq] at found
    exact found

/-! ## The loaders read in bounds -/

/-- The printers read in bounds when `is_present` does at every index below the count. -/
theorem presence_isSome {count : Nat} {isPresent : Nat → Option Bool}
    (inBounds : ∀ i < count, (isPresent i).isSome) : (presence count isPresent).isSome :=
  List.mapM_option_isSome fun i member => inBounds i (List.mem_range.mp member)

theorem isOnline_isSome {ind : Nat} (below : ind < topo.threads.length) :
    (isOnline topo ind).isSome := by
  simp [isOnline, below]

theorem sysCpuGeneralLoad_isSome (topo : PalTopoInfo) (file : CpuGeneralFile) :
    (sysCpuGeneralLoad topo file).isSome := by
  cases file
  case online =>
    exact Option.isSome_bind_of_isSome (presence_isSome fun _ below => isOnline_isSome below)
      fun _ => rfl
  case offline =>
    refine Option.isSome_bind_of_isSome (presence_isSome fun _ below => ?_) fun _ => rfl
    simpa using isOnline_isSome below
  all_goals exact Option.isSome_bind_of_isSome (presence_isSome fun _ _ => rfl) fun _ => rfl

theorem sysCpuLoadOnline_isSome (topo : PalTopoInfo) (cpu : Nat) :
    (sysCpuLoadOnline topo cpu).isSome := by
  unfold sysCpuLoadOnline
  split
  · rfl
  · rename_i threadId found
    obtain ⟨same, below⟩ := sysResourceFind_eq_ok found
    have inBounds : threadId < topo.threads.length := same ▸ below
    split
    · rfl
    · simp [inBounds]

theorem isInSameCore_isSome {argId threadId : Nat} (below : threadId < topo.threads.length) :
    (isInSameCore topo argId threadId).isSome := by
  simp [isInSameCore, below]

theorem isInSameSocket_isSome (sane : topo.IsSane) {argId threadId : Nat}
    (below : threadId < topo.threads.length) : (isInSameSocket topo argId threadId).isSome := by
  simp only [isInSameSocket, List.getElem?_eq_getElem below]
  cases online : topo.threads[threadId].isOnline
  · simp [online]
  · have coreBound := sane.coreId_lt (List.getElem_mem below) online
    simp [online, coreBound]

/-- The topology files of an online thread read in bounds. -/
theorem sysCpuLoadTopology_isSome (sane : topo.IsSane) {cpu : Nat} {thread : PalCpuThreadInfo}
    (read : topo.threads[cpu]? = some thread) (online : thread.isOnline = true)
    (file : TopologyFile) : (sysCpuLoadTopology topo cpu file).isSome := by
  have member := List.mem_of_getElem? read
  have coreBound := sane.coreId_lt member online
  unfold sysCpuLoadTopology
  split
  · rfl
  rename_i threadId found
  obtain ⟨rfl, -⟩ := sysResourceFind_eq_ok found
  simp only [bind, read, Option.bind_some]
  cases file
  case coreId => rfl
  case physicalPackageId => simp [coreBound]
  case threadSiblings =>
    exact Option.isSome_bind_of_isSome (presence_isSome fun _ below => isInSameCore_isSome below)
      fun _ => rfl
  case coreSiblings =>
    simp only [List.getElem?_eq_getElem coreBound, Option.bind_some]
    exact Option.isSome_bind_of_isSome
      (presence_isSome fun _ below => isInSameSocket_isSome sane below) fun _ => rfl

theorem isSameCache_isSome {cacheIdToMatch cacheClass idx : Nat}
    (classBound : cacheClass < MAX_CACHES) (below : idx < topo.threads.length) :
    (isSameCache topo cacheIdToMatch cacheClass idx).isSome := by
  simp only [isSameCache, List.getElem?_eq_getElem below]
  cases online : topo.threads[idx].isOnline
  · simp [online]
  · have entryBound : cacheClass < topo.threads[idx].idsOfCaches.length := by
      rw [topo.threads[idx].idsLength]
      exact classBound
    simp [online, entryBound]

/-- A field of a cache that passed the sanitiser prints: its type is one of the three. -/
theorem cacheAttributeText_isSome {cache : PalCacheInfo} (sane : cacheIsSane cache = true)
    (field : CacheAttribute) : (cacheAttributeText cache field).isSome := by
  cases field
  case type =>
    have known : cache.type = CACHE_TYPE_DATA ∨ cache.type = CACHE_TYPE_INSTRUCTION ∨
        cache.type = CACHE_TYPE_UNIFIED := by
      simp only [cacheIsSane, Bool.and_eq_true, Bool.or_eq_true, beq_iff_eq] at sane
      exact or_assoc.mp sane.1.1.1.1.1
    unfold cacheAttributeText cacheTypeText
    rcases known with data | instruction | unified
    · simp [data]
    · simp [instruction, CACHE_TYPE_DATA, CACHE_TYPE_INSTRUCTION]
    · simp [unified, CACHE_TYPE_DATA, CACHE_TYPE_INSTRUCTION, CACHE_TYPE_UNIFIED]
  all_goals rfl

/-- The two `sys_resource_find` calls of `sys_cache_load` succeed on the path
of an existing `indexN` directory of a thread. -/
theorem sysCacheLoad_found {cpu index : Nat} (cpuBound : cpu < topo.threads.length)
    (indexBound : index < sysResourceInfo topo .cache) :
    sysResourceFind topo .cache index = .ok index ∧ sysResourceFind topo .cpu cpu = .ok cpu := by
  constructor <;> unfold sysResourceFind <;> dsimp only
  · rw [if_neg (by omega), if_neg (by omega)]
  · have : sysResourceInfo topo .cpu = topo.threads.length := rfl
    rw [if_neg (by omega), if_neg (by omega)]

/-- The cache files of an online thread read in bounds, except a field of a
cache whose entry in `ids_of_caches` is absent. -/
theorem sysCacheLoad_isSome (sane : topo.IsSane) {cpu index : Nat} {thread : PalCpuThreadInfo}
    (read : topo.threads[cpu]? = some thread) (online : thread.isOnline = true)
    (indexBound : index < sysResourceInfo topo .cache) {file : CacheFile}
    (present : ∀ field, file = .info field → thread.idsOfCaches[index]? ≠ some SIZE_MAX) :
    (sysCacheLoad topo cpu index file).isSome := by
  have member := List.mem_of_getElem? read
  have cpuBound := (List.getElem?_eq_some_iff.mp read).1
  have classBound : index < MAX_CACHES := Nat.lt_of_lt_of_le indexBound (sysResourceInfo_cache_le topo)
  have entryBound : index < thread.idsOfCaches.length := thread.idsLength ▸ classBound
  obtain ⟨cacheFound, cpuFound⟩ := sysCacheLoad_found cpuBound indexBound
  simp only [sysCacheLoad, cacheFound, cpuFound, bind, read, Option.bind_some,
    List.getElem?_eq_getElem entryBound]
  cases file
  case sharedCpuMap | sharedCpuList =>
    exact Option.isSome_bind_of_isSome
      (presence_isSome fun _ below => isSameCache_isSome classBound below) fun _ => rfl
  case info field =>
    have idPresent : thread.idsOfCaches[index] ≠ SIZE_MAX := by
      simpa [List.getElem?_eq_getElem entryBound] using present field rfl
    have cacheBound := sane.cacheId_lt member online (List.getElem_mem entryBound) idPresent
    simp only [List.getElem?_eq_getElem cacheBound, Option.bind_some]
    exact Option.isSome_bind_of_isSome
      (cacheAttributeText_isSome (sane.cachesSane _ (List.getElem_mem cacheBound)) field)
      fun _ => rfl

/-- A field of a cache whose entry is absent is read at `caches[(size_t)-1]`,
past the end of any cache array that fits in memory. -/
theorem sysCacheLoad_absent (fits : topo.caches.length ≤ SIZE_MAX) {cpu index : Nat}
    {thread : PalCpuThreadInfo} (read : topo.threads[cpu]? = some thread)
    (indexBound : index < sysResourceInfo topo .cache)
    (absent : thread.idsOfCaches[index]? = some SIZE_MAX) (field : CacheAttribute) :
    sysCacheLoad topo cpu index (.info field) = none := by
  obtain ⟨cacheFound, cpuFound⟩ :=
    sysCacheLoad_found (List.getElem?_eq_some_iff.mp read).1 indexBound
  have pastEnd : topo.caches[SIZE_MAX]? = none := List.getElem?_eq_none fits
  simp [sysCacheLoad, cacheFound, cpuFound, read, absent, pastEnd]

theorem sysNodeGeneralLoad_isSome (topo : PalTopoInfo) (file : NodeGeneralFile) :
    (sysNodeGeneralLoad topo file).isSome := by
  cases file
  case online =>
    refine Option.isSome_bind_of_isSome (presence_isSome fun _ below => ?_) fun _ => rfl
    simp [isNodeOnline, below]
  case possible => exact Option.isSome_bind_of_isSome (presence_isSome fun _ _ => rfl) fun _ => rfl

theorem isInSameNode_isSome (sane : topo.IsSane) {argNodeId idx : Nat}
    (below : idx < topo.threads.length) : (isInSameNode topo argNodeId idx).isSome := by
  simp only [isInSameNode, List.getElem?_eq_getElem below]
  cases online : topo.threads[idx].isOnline
  · simp [online]
  · have coreBound := sane.coreId_lt (List.getElem_mem below) online
    simp [online, coreBound]

/-- The `distance` loop reads row `nodeId` of the matrix, inside it. -/
theorem nodeDistances_isSome {nodeId : Nat} (below : nodeId < topo.numaNodes.length) :
    (nodeDistances topo nodeId).isSome := by
  unfold nodeDistances
  rw [Option.map_eq_map, Option.isSome_map]
  refine List.mapM_option_isSome fun i member => ?_
  have column := List.mem_range.mp member
  have entry : nodeId * topo.numaNodes.length + i < topo.numaDistanceMatrix.length :=
    topo.distanceSize ▸ square_index_lt below column
  simp only [List.getElem?_eq_getElem column, bind, Option.bind_some]
  split
  · rfl
  · simp [entry]

/-- The files of an existing node directory read in bounds. -/
theorem sysNodeLoad_isSome (sane : topo.IsSane) {node : Nat} (below : node < topo.numaNodes.length)
    (file : NodeFile) : (sysNodeLoad topo node file).isSome := by
  have found : sysResourceFind topo .node node = .ok node := by
    have : sysResourceInfo topo .node = topo.numaNodes.length := rfl
    unfold sysResourceFind
    dsimp only
    rw [if_neg (by omega), if_neg (by omega)]
  simp only [sysNodeLoad, found, bind, List.getElem?_eq_getElem below, Option.bind_some]
  split
  · rfl
  cases file
  case cpumap =>
    exact Option.isSome_bind_of_isSome
      (presence_isSome fun _ inRange => isInSameNode_isSome sane inRange) fun _ => rfl
  case distance => exact Option.isSome_bind_of_isSome (nodeDistances_isSome below) fun _ => rfl
  case nrHugepages => rfl

/-- `meminfo` of an existing node reads in bounds and divides by a node count
that is not zero. -/
theorem sysNodeMeminfoLoad_isSome (sane : topo.IsSane) {memTotal memUsage node : Nat}
    (below : node < topo.numaNodes.length) :
    (sysNodeMeminfoLoad topo memTotal memUsage node).isSome := by
  have nonzero : topo.numaNodes.length ≠ 0 := Nat.pos_iff_ne_zero.mp sane.numaNodes_length_pos
  have found : sysResourceFind topo .node node = .ok node := by
    have : sysResourceInfo topo .node = topo.numaNodes.length := rfl
    unfold sysResourceFind
    dsimp only
    rw [if_neg (by omega), if_neg (by omega)]
  simp only [sysNodeMeminfoLoad, nonzero, found, bind, List.getElem?_eq_getElem below, if_false,
    Option.bind_some]
  split <;> rfl

/-- The `topology` directory exists only for an online thread. -/
theorem sysPathExists_cpuTopology {cpu : Nat} {file : TopologyFile}
    (found : sysPathExists topo (.cpuTopology cpu file) = some true) :
    ∃ thread, topo.threads[cpu]? = some thread ∧ thread.isOnline = true := by
  simp only [sysPathExists, bind, Option.bind_eq_some_iff] at found
  obtain ⟨cpuExists, -, online⟩ := found
  cases cpuExists
  · cases online
  · exact sysCpuExistsOnlyIfOnline_eq_true online

/-- An `indexN` directory exists only for an online thread and below the cache count. -/
theorem sysPathExists_cpuCache {cpu index : Nat} {file : CacheFile}
    (found : sysPathExists topo (.cpuCache cpu index file) = some true) :
    (∃ thread, topo.threads[cpu]? = some thread ∧ thread.isOnline = true) ∧
      index < sysResourceInfo topo .cache := by
  simp only [sysPathExists, bind, Option.bind_eq_some_iff] at found
  obtain ⟨cpuExists, -, rest⟩ := found
  cases cpuExists
  · simp at rest
  simp only [Bool.not_true, Bool.false_eq_true, if_false, Option.bind_eq_some_iff] at rest
  obtain ⟨online, onlineRead, indexExists⟩ := rest
  cases online
  · simp at indexExists
  simp only [Bool.not_true, Bool.false_eq_true, if_false] at indexExists
  exact ⟨sysCpuExistsOnlyIfOnline_eq_true onlineRead, sysResourceNameExists_eq_true indexExists⟩

/-- The path names a field of a cache whose entry in the thread's
`ids_of_caches` is absent. -/
def SysPath.readsAbsentCache (topo : PalTopoInfo) : SysPath → Prop
  | .cpuCache cpu index (.info _) =>
      ∃ thread, topo.threads[cpu]? = some thread ∧ thread.idsOfCaches[index]? = some SIZE_MAX
  | _ => False

/-- On a sane topology every file the pseudo filesystem finds is loaded
without a read out of bounds, except the fields of a cache whose entry is
absent. -/
theorem sysLoad_isSome (sane : topo.IsSane) {memTotal memUsage : Nat} {path : SysPath}
    (found : sysPathExists topo path = some true) (present : ¬ path.readsAbsentCache topo) :
    (sysLoad topo memTotal memUsage path).isSome := by
  cases path with
  | cpuGeneral file => exact sysCpuGeneralLoad_isSome topo file
  | cpuOnline cpu => exact sysCpuLoadOnline_isSome topo cpu
  | cpuTopology cpu file =>
      obtain ⟨thread, read, online⟩ := sysPathExists_cpuTopology found
      exact sysCpuLoadTopology_isSome sane read online file
  | cpuCache cpu index file =>
      obtain ⟨⟨thread, read, online⟩, indexBound⟩ := sysPathExists_cpuCache found
      refine sysCacheLoad_isSome sane read online indexBound fun field isInfo absent => ?_
      subst isInfo
      exact present ⟨thread, read, absent⟩
  | nodeGeneral file => exact sysNodeGeneralLoad_isSome topo file
  | nodeFile node file =>
      exact sysNodeLoad_isSome sane (sysResourceNameExists_eq_true found) file
  | nodeMeminfo node => exact sysNodeMeminfoLoad_isSome sane (sysResourceNameExists_eq_true found)

/-- The fields of a cache whose entry is absent are read out of bounds, at
`caches[(size_t)-1]`. -/
theorem sysLoad_eq_none_of_readsAbsentCache (fits : topo.caches.length ≤ SIZE_MAX)
    {memTotal memUsage : Nat} {path : SysPath} (found : sysPathExists topo path = some true)
    (absent : path.readsAbsentCache topo) : sysLoad topo memTotal memUsage path = none := by
  cases path with
  | cpuCache cpu index file =>
      cases file with
      | info field =>
          obtain ⟨thread, read, absentEntry⟩ := absent
          exact sysCacheLoad_absent fits read (sysPathExists_cpuCache found).2 absentEntry field
      | sharedCpuMap | sharedCpuList => exact absent.elim
  | _ => exact absent.elim

end Loaders

/-- On a topology the PAL accepted, every pseudo-file the filesystem finds is
loaded without a read out of bounds exactly when it does not print a field of
a cache that the thread's `ids_of_caches` marks absent. -/
theorem sysLoad_isSome_iff {host : HostTopoInfo} {topo : PalTopoInfo}
    (accepted : importAndSanitizeTopoInfo host = some (.ok topo)) {memTotal memUsage : Nat}
    {path : SysPath} (found : sysPathExists topo path = some true) :
    (sysLoad topo memTotal memUsage path).isSome ↔ ¬ path.readsAbsentCache topo := by
  obtain ⟨sane, fits⟩ := importAndSanitizeTopoInfo_eq_ok accepted
  constructor
  · intro loaded absent
    rw [sysLoad_eq_none_of_readsAbsentCache fits found absent] at loaded
    cases loaded
  · exact sysLoad_isSome sane found

/-- Two online CPUs of one core: `cpu0` with two caches, `cpu1` with only the
first, so that `cpu1`'s entry 1 is absent. -/
def unevenCachesHost : HostTopoInfo where
  cachesCnt := 2
  caches := fun i => ⟨CACHE_TYPE_UNIFIED, i + 1, 2 ^ 15, 64, 64, 1⟩
  threadsCnt := 2
  threads := fun i =>
    if i = 0 then ⟨true, 0, [0, 1, SIZE_MAX, SIZE_MAX], rfl⟩
    else ⟨true, 0, [0, SIZE_MAX, SIZE_MAX, SIZE_MAX], rfl⟩
  coresCnt := 1
  cores := fun _ => ⟨0, 0⟩
  socketsCnt := 1
  numaNodesCnt := 1
  numaNodes := fun _ => ⟨true, fun _ => 0⟩
  numaDistanceMatrix := fun _ => 10

/-- The sanitiser accepts this topology, the directory `cpu1/cache/index1`
exists because `cpu0` has two caches, and reading its `level` indexes
`caches` at `(size_t)-1`. -/
theorem sysCacheLoad_uneven_caches_out_of_bounds :
    ∃ topo, importAndSanitizeTopoInfo unevenCachesHost = some (.ok topo) ∧
      sysPathExists topo (.cpuCache 1 1 (.info .level)) = some true ∧
      ∀ memTotal memUsage, sysLoad topo memTotal memUsage (.cpuCache 1 1 (.info .level)) = none :=
  ⟨_, rfl, rfl, fun _ _ => rfl⟩

end Gramine.LibOS.Fs
