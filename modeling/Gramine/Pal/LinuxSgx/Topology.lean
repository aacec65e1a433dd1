import Gramine.Library.OptionList
import Gramine.Pal.Error

/-!
# The host's CPU topology and its sanitiser

At start-up the SGX PAL imports the host's `struct pal_topo_info`
(`pal/src/host/linux-sgx/pal_main.c`): the counts and the arrays of caches,
threads, cores, sockets and NUMA nodes, and the NUMA distance matrix.
`sanitize_topo_info` then checks every index the rest of Gramine follows
through these arrays, and clears the fields of offline threads and nodes.

The arrays are lists whose lengths are the counts; `coerce_untrusted_bool` is
already applied to the `is_online` flags, which are `Bool`s here. Reads whose
index the code computes are `xs[i]?`, so that `none` is a read out of bounds;
loops over an array by its own count read in bounds by construction and are
`List.all` or `List.map`.
-/

namespace Gramine.Pal.LinuxSgx

open Gramine.Pal

/-- `(size_t)-1`, the entry of `ids_of_caches` that marks no cache. -/
def SIZE_MAX : Nat := 2 ^ 64 - 1

/-- `MAX_CACHES`, the length of `ids_of_caches`. -/
def MAX_CACHES : Nat := 4

/-- The values of `enum cache_type`. -/
def CACHE_TYPE_DATA : Nat := 0
def CACHE_TYPE_INSTRUCTION : Nat := 1
def CACHE_TYPE_UNIFIED : Nat := 2

/-- `struct pal_cache_info`, with the host's raw `type`. -/
structure PalCacheInfo where
  type : Nat
  level : Nat
  size : Nat
  coherencyLineSize : Nat
  numberOfSets : Nat
  physicalLinePartition : Nat

/-- `struct pal_cpu_thread_info`: `ids_of_caches` has `MAX_CACHES` entries. -/
structure PalCpuThreadInfo where
  isOnline : Bool
  coreId : Nat
  idsOfCaches : List Nat
  idsLength : idsOfCaches.length = MAX_CACHES

/-- `struct pal_cpu_core_info`. -/
structure PalCpuCoreInfo where
  socketId : Nat
  nodeId : Nat

/-- The indices `HUGEPAGES_2M` and `HUGEPAGES_1G` of `nr_hugepages`. -/
inductive HugepageKind where
  | hugepages2M
  | hugepages1G
  deriving DecidableEq

/-- `hugepage_size[]`. -/
def hugepageSize : HugepageKind → Nat
  | .hugepages2M => 2 ^ 21
  | .hugepages1G => 2 ^ 30

/-- `struct pal_numa_node_info`. -/
structure PalNumaNodeInfo where
  isOnline : Bool
  nrHugepages : HugepageKind → Nat

/-- `struct pal_topo_info` once imported. `struct pal_socket_info` holds
nothing that is read, so sockets are only counted. -/
structure PalTopoInfo where
  caches : List PalCacheInfo
  threads : List PalCpuThreadInfo
  cores : List PalCpuCoreInfo
  socketsCnt : Nat
  numaNodes : List PalNumaNodeInfo
  numaDistanceMatrix : List Nat
  distanceSize : numaDistanceMatrix.length = numaNodes.length * numaNodes.length

/-! ## `sanitize_topo_info` -/

/-- `IS_IN_RANGE_INCL(value, start, end)`. -/
def isInRangeIncl (value start stop : Nat) : Bool := start ≤ value && value ≤ stop

/-- The checks of the first loop on one cache: a known type and every field in range. -/
def cacheIsSane (cache : PalCacheInfo) : Bool :=
  (cache.type == CACHE_TYPE_DATA || cache.type == CACHE_TYPE_INSTRUCTION ||
      cache.type == CACHE_TYPE_UNIFIED) &&
    isInRangeIncl cache.level 1 3 && isInRangeIncl cache.size 1 (2 ^ 30) &&
    isInRangeIncl cache.coherencyLineSize 1 (2 ^ 16) &&
    isInRangeIncl cache.numberOfSets 1 (2 ^ 30) &&
    isInRangeIncl cache.physicalLinePartition 1 (2 ^ 16)

/-- "The cache array has no holes": no present entry after an absent one. -/
def idsHaveNoHoles : List Nat → Bool
  | id :: next :: rest => !(id == SIZE_MAX && next != SIZE_MAX) && idsHaveNoHoles (next :: rest)
  | _ => true

/-- "...and valid indices". -/
def idsAreValid (cachesCnt : Nat) (ids : List Nat) : Bool :=
  ids.all fun id => id == SIZE_MAX || id < cachesCnt

/-- The checks of the thread loop on one thread; an offline thread is not checked. -/
def threadIsSane (coresCnt cachesCnt : Nat) (thread : PalCpuThreadInfo) : Bool :=
  !thread.isOnline ||
    (decide (thread.coreId < coresCnt) && idsHaveNoHoles thread.idsOfCaches &&
      idsAreValid cachesCnt thread.idsOfCaches)

/-- The hardening of the thread loop: an offline thread's fields are cleared. -/
def PalCpuThreadInfo.harden (thread : PalCpuThreadInfo) : PalCpuThreadInfo :=
  if thread.isOnline then thread
  else { thread with coreId := 0, idsOfCaches := List.replicate MAX_CACHES 0, idsLength := by simp }

/-- The checks of the core loop on one core. -/
def coreIsSane (socketsCnt numaNodesCnt : Nat) (core : PalCpuCoreInfo) : Bool :=
  decide (core.socketId < socketsCnt) && decide (core.nodeId < numaNodesCnt)

/-- The overflow checks of the node loop: the node's huge pages have a size
that fits in `size_t`. An offline node is not checked. -/
def nodeIsSane (node : PalNumaNodeInfo) : Bool :=
  !node.isOnline ||
    (decide (node.nrHugepages .hugepages2M * hugepageSize .hugepages2M < 2 ^ 64) &&
      decide (node.nrHugepages .hugepages1G * hugepageSize .hugepages1G < 2 ^ 64))

/-- The hardening of the node loop. -/
def PalNumaNodeInfo.harden (node : PalNumaNodeInfo) : PalNumaNodeInfo :=
  if node.isOnline then node else { node with nrHugepages := fun _ => 0 }

/-- One iteration of the distance loop: a distance to or from an offline node
is 0, and the matrix is symmetric. -/
def distanceIsSane (numaNodes : List PalNumaNodeInfo) (distances : List Nat) (i j : Nat) :
    Option Bool := do
  let n := numaNodes.length
  let nodeI ← numaNodes[i]?
  let nodeJ ← numaNodes[j]?
  let forward ← distances[i * n + j]?
  let backward ← distances[j * n + i]?
  return !((!nodeI.isOnline || !nodeJ.isOnline) && forward != 0) && forward == backward

/-- One iteration of the last loop: an online thread's core lies in an online node. -/
def threadNodeIsOnline (cores : List PalCpuCoreInfo) (numaNodes : List PalNumaNodeInfo)
    (thread : PalCpuThreadInfo) : Option Bool := do
  if !thread.isOnline then return true
  let core ← cores[thread.coreId]?
  let node ← numaNodes[core.nodeId]?
  return node.isOnline

/-- The topology with the hardening of both loops applied. -/
def PalTopoInfo.harden (topo : PalTopoInfo) : PalTopoInfo :=
  { topo with
    threads := topo.threads.map PalCpuThreadInfo.harden
    numaNodes := topo.numaNodes.map PalNumaNodeInfo.harden
    distanceSize := by simp [topo.distanceSize] }

/-- `sanitize_topo_info`: `none` is a read out of bounds, and otherwise its
result is `PAL_ERROR_INVAL` or the topology with offline entries cleared. The
loops that check and clear in one pass are split into a check and a clear,
which is the same since a failed check discards the topology. -/
def sanitizeTopoInfo (topo : PalTopoInfo) : Option (Except PalError PalTopoInfo) := do
  let hardened := topo.harden
  if !topo.caches.all cacheIsSane then return .error .inval
  if topo.threads.length = 0 then return .error .inval
  let first ← topo.threads[0]?
  -- Linux requires this
  if !first.isOnline then return .error .inval
  if !topo.threads.all (threadIsSane topo.cores.length topo.caches.length) then
    return .error .inval
  if !topo.cores.all (coreIsSane topo.socketsCnt topo.numaNodes.length) then
    return .error .inval
  -- read before the node loop coerces it, and only safe once the cores are checked
  let firstNode ← topo.numaNodes[0]?
  if !firstNode.isOnline then return .error .inval
  if !topo.numaNodes.all nodeIsSane then return .error .inval
  let indices := List.range hardened.numaNodes.length
  let distancesOk ← indices.allM fun i =>
    indices.allM fun j => distanceIsSane hardened.numaNodes hardened.numaDistanceMatrix i j
  if !distancesOk then return .error .inval
  let nodesOk ← hardened.threads.allM (threadNodeIsOnline hardened.cores hardened.numaNodes)
  if !nodesOk then return .error .inval
  return .ok hardened

/-! ## Hardening -/

attribute [grind] threadIsSane PalCpuThreadInfo.harden coreIsSane nodeIsSane PalNumaNodeInfo.harden
  PalTopoInfo.harden sanitizeTopoInfo

@[simp] theorem PalCpuThreadInfo.harden_isOnline (thread : PalCpuThreadInfo) :
    thread.harden.isOnline = thread.isOnline := by
  unfold PalCpuThreadInfo.harden
  split <;> simp_all

theorem PalCpuThreadInfo.harden_of_isOnline {thread : PalCpuThreadInfo}
    (online : thread.isOnline = true) : thread.harden = thread := by
  simp [PalCpuThreadInfo.harden, online]

@[simp] theorem PalNumaNodeInfo.harden_isOnline (node : PalNumaNodeInfo) :
    node.harden.isOnline = node.isOnline := by
  unfold PalNumaNodeInfo.harden
  split <;> simp_all

theorem PalNumaNodeInfo.harden_of_isOnline {node : PalNumaNodeInfo}
    (online : node.isOnline = true) : node.harden = node := by
  simp [PalNumaNodeInfo.harden, online]

/-- Hardening an offline thread leaves the thread check as it was. -/
@[simp] theorem threadIsSane_harden {coresCnt cachesCnt : Nat} {thread : PalCpuThreadInfo} :
    threadIsSane coresCnt cachesCnt thread.harden = threadIsSane coresCnt cachesCnt thread := by
  unfold PalCpuThreadInfo.harden
  split <;> simp_all [threadIsSane]

/-- Hardening an offline node leaves the node check as it was. -/
@[simp] theorem nodeIsSane_harden {node : PalNumaNodeInfo} :
    nodeIsSane node.harden = nodeIsSane node := by
  unfold PalNumaNodeInfo.harden
  split <;> simp_all [nodeIsSane]

@[simp] theorem PalTopoInfo.harden_caches (topo : PalTopoInfo) : topo.harden.caches = topo.caches := rfl
@[simp] theorem PalTopoInfo.harden_threads (topo : PalTopoInfo) :
    topo.harden.threads = topo.threads.map PalCpuThreadInfo.harden := rfl
@[simp] theorem PalTopoInfo.harden_cores (topo : PalTopoInfo) : topo.harden.cores = topo.cores := rfl
@[simp] theorem PalTopoInfo.harden_socketsCnt (topo : PalTopoInfo) :
    topo.harden.socketsCnt = topo.socketsCnt := rfl
@[simp] theorem PalTopoInfo.harden_numaNodes (topo : PalTopoInfo) :
    topo.harden.numaNodes = topo.numaNodes.map PalNumaNodeInfo.harden := rfl
@[simp] theorem PalTopoInfo.harden_numaDistanceMatrix (topo : PalTopoInfo) :
    topo.harden.numaDistanceMatrix = topo.numaDistanceMatrix := rfl

/-! ## The sanitiser reads in bounds -/

/-- Row `i`, column `j` of an `n × n` matrix stored by rows lies inside it. -/
theorem square_index_lt {n i j : Nat} (row : i < n) (column : j < n) : i * n + j < n * n :=
  calc i * n + j < i * n + n := Nat.add_lt_add_left column _
    _ = (i + 1) * n := (Nat.succ_mul i n).symm
    _ ≤ n * n := Nat.mul_le_mul_right n row

/-- The distance loop reads inside the node array and the matrix. -/
theorem distanceIsSane_isSome {numaNodes : List PalNumaNodeInfo} {distances : List Nat}
    (size : distances.length = numaNodes.length * numaNodes.length) {i j : Nat}
    (row : i < numaNodes.length) (column : j < numaNodes.length) :
    (distanceIsSane numaNodes distances i j).isSome := by
  have forward := square_index_lt row column
  have backward := square_index_lt column row
  rw [← size] at forward backward
  simp [distanceIsSane, row, column, forward, backward]

/-- The last loop reads inside the core and node arrays once the thread and
core loops have passed. -/
theorem threadNodeIsOnline_isSome {cores : List PalCpuCoreInfo}
    {numaNodes : List PalNumaNodeInfo} {thread : PalCpuThreadInfo} (cachesCnt socketsCnt : Nat)
    (threadSane : threadIsSane cores.length cachesCnt thread = true)
    (coresSane : ∀ core ∈ cores, coreIsSane socketsCnt numaNodes.length core = true) :
    (threadNodeIsOnline cores numaNodes thread).isSome := by
  cases online : thread.isOnline
  · simp [threadNodeIsOnline, online]
  · have coreBound : thread.coreId < cores.length := by
      simp [threadIsSane, online] at threadSane
      exact threadSane.1.1
    have nodeBound : cores[thread.coreId].nodeId < numaNodes.length := by
      have := coresSane _ (List.getElem_mem coreBound)
      simp [coreIsSane] at this
      exact this.2
    simp [threadNodeIsOnline, online, coreBound, nodeBound]

/-- Once the thread and core loops have passed there is a node 0: thread 0 is
online, so its core is a valid index, and that core's node is one too. -/
theorem numaNodes_length_pos {topo : PalTopoInfo} {first : PalCpuThreadInfo}
    (firstRead : topo.threads[0]? = some first) (firstOnline : first.isOnline = true)
    (threadsSane : topo.threads.all (threadIsSane topo.cores.length topo.caches.length) = true)
    (coresSane : topo.cores.all (coreIsSane topo.socketsCnt topo.numaNodes.length) = true) :
    0 < topo.numaNodes.length := by
  have firstSane := List.all_eq_true.mp threadsSane first (List.mem_of_getElem? firstRead)
  have coreBound : first.coreId < topo.cores.length := by
    simp [threadIsSane, firstOnline] at firstSane
    exact firstSane.1.1
  have coreSane := List.all_eq_true.mp coresSane _ (List.getElem_mem coreBound)
  simp only [coreIsSane, Bool.and_eq_true, decide_eq_true_eq] at coreSane
  omega

/-- `sanitize_topo_info` reads only in-bounds entries, whatever the host sent. -/
theorem sanitizeTopoInfo_isSome (topo : PalTopoInfo) : (sanitizeTopoInfo topo).isSome := by
  unfold sanitizeTopoInfo
  simp only [bind, pure]
  -- every check that fails returns at once; the reads are those after the checks that pass
  by_cases cachesSane : topo.caches.all cacheIsSane = true
  swap
  · simp [cachesSane]
  by_cases empty : topo.threads.length = 0
  · simp [empty]
  obtain ⟨first, firstRead⟩ : ∃ first, topo.threads[0]? = some first :=
    ⟨_, List.getElem?_eq_getElem (by omega)⟩
  by_cases firstOnline : first.isOnline = true
  swap
  · simp [cachesSane, empty, firstRead, firstOnline]
  by_cases threadsSane : topo.threads.all (threadIsSane topo.cores.length topo.caches.length) = true
  swap
  · simp [cachesSane, empty, firstRead, threadsSane]
  by_cases coresSane : topo.cores.all (coreIsSane topo.socketsCnt topo.numaNodes.length) = true
  swap
  · simp [cachesSane, empty, firstRead, threadsSane, coresSane]
  obtain ⟨firstNode, firstNodeRead⟩ : ∃ node, topo.numaNodes[0]? = some node :=
    ⟨_, List.getElem?_eq_getElem (numaNodes_length_pos firstRead firstOnline threadsSane coresSane)⟩
  rw [if_neg (by simp [cachesSane]), if_neg empty, firstRead, Option.bind_some,
    if_neg (by simp [firstOnline]), if_neg (by simp [threadsSane]), if_neg (by simp [coresSane]),
    firstNodeRead, Option.bind_some]
  by_cases nodeChecks : firstNode.isOnline = true ∧ topo.numaNodes.all nodeIsSane = true
  swap
  · by_cases firstNodeOnline : firstNode.isOnline = true
    · simp [firstNodeOnline, show topo.numaNodes.all nodeIsSane = false by simpa [firstNodeOnline] using nodeChecks]
    · simp [firstNodeOnline]
  rw [if_neg (by simp [nodeChecks.1]), if_neg (by simp [nodeChecks.2])]
  obtain ⟨distancesOk, distancesRead⟩ := Option.isSome_iff_exists.mp
    (List.allM_option_isSome fun i row => List.allM_option_isSome fun j column =>
      distanceIsSane_isSome topo.harden.distanceSize (List.mem_range.mp row)
        (List.mem_range.mp column))
  rw [distancesRead, Option.bind_some]
  cases distancesOk
  · simp
  have nodesInBounds :
      (topo.harden.threads.allM (threadNodeIsOnline topo.harden.cores topo.harden.numaNodes)).isSome := by
    apply List.allM_option_isSome
    intro thread member
    obtain ⟨original, originalMember, rfl⟩ := List.mem_map.mp member
    apply threadNodeIsOnline_isSome topo.caches.length topo.socketsCnt
    · simpa [PalTopoInfo.harden] using List.all_eq_true.mp threadsSane original originalMember
    · simpa [PalTopoInfo.harden] using List.all_eq_true.mp coresSane
  obtain ⟨nodesOk, nodesRead⟩ := Option.isSome_iff_exists.mp nodesInBounds
  rw [nodesRead, Option.bind_some]
  cases nodesOk <;> simp

/-! ## What an accepted topology satisfies -/

/-- Everything `sanitize_topo_info` checked of a topology it accepts, and what
it returns for it. -/
theorem sanitizeTopoInfo_eq_ok {topo topo' : PalTopoInfo}
    (accepted : sanitizeTopoInfo topo = some (.ok topo')) :
    topo' = topo.harden ∧ topo.caches.all cacheIsSane = true ∧
      (∃ first, topo.threads[0]? = some first ∧ first.isOnline = true) ∧
      topo.threads.all (threadIsSane topo.cores.length topo.caches.length) = true ∧
      topo.cores.all (coreIsSane topo.socketsCnt topo.numaNodes.length) = true ∧
      (∃ node, topo.numaNodes[0]? = some node ∧ node.isOnline = true) ∧
      topo.numaNodes.all nodeIsSane = true ∧
      (List.range topo.harden.numaNodes.length).allM (fun i =>
        (List.range topo.harden.numaNodes.length).allM fun j =>
          distanceIsSane topo.harden.numaNodes topo.harden.numaDistanceMatrix i j) = some true ∧
      topo.harden.threads.allM (threadNodeIsOnline topo.harden.cores topo.harden.numaNodes) =
        some true := by
  simp only [sanitizeTopoInfo, Option.ite_error_eq_some_ok, bind, Option.bind_eq_some_iff, pure,
    Bool.not_eq_true', Bool.not_eq_false, Option.some.injEq, Except.ok.injEq] at accepted
  obtain ⟨cachesSane, -, first, firstRead, firstOnline, threadsSane, coresSane, node, nodeRead,
    nodeOnline, nodesSane, distancesOk, distancesRead, distancesTrue, nodesOk, nodesRead, nodesTrue,
    returned⟩ := accepted
  subst distancesTrue nodesTrue
  exact ⟨returned.symm, cachesSane, ⟨first, firstRead, firstOnline⟩, threadsSane, coresSane,
    ⟨node, nodeRead, nodeOnline⟩, nodesSane, distancesRead, nodesRead⟩

/-- What `sanitize_topo_info` establishes of the topology it hands on: the
checks of every loop hold of it, and offline entries are cleared. -/
structure PalTopoInfo.IsSane (topo : PalTopoInfo) : Prop where
  cachesSane : ∀ cache ∈ topo.caches, cacheIsSane cache = true
  firstThreadOnline : ∃ first, topo.threads[0]? = some first ∧ first.isOnline = true
  threadsSane : ∀ thread ∈ topo.threads,
    threadIsSane topo.cores.length topo.caches.length thread = true
  offlineThreadsCleared : ∀ thread ∈ topo.threads, thread.isOnline = false →
    thread.coreId = 0 ∧ thread.idsOfCaches = List.replicate MAX_CACHES 0
  coresSane : ∀ core ∈ topo.cores, coreIsSane topo.socketsCnt topo.numaNodes.length core = true
  firstNodeOnline : ∃ node, topo.numaNodes[0]? = some node ∧ node.isOnline = true
  nodesSane : ∀ node ∈ topo.numaNodes, nodeIsSane node = true
  offlineNodesCleared : ∀ node ∈ topo.numaNodes, node.isOnline = false →
    ∀ kind, node.nrHugepages kind = 0
  distancesSane : ∀ i < topo.numaNodes.length, ∀ j < topo.numaNodes.length,
    distanceIsSane topo.numaNodes topo.numaDistanceMatrix i j = some true
  threadNodesOnline : ∀ thread ∈ topo.threads,
    threadNodeIsOnline topo.cores topo.numaNodes thread = some true

/-- A topology `sanitize_topo_info` accepts is sane. -/
theorem sanitizeTopoInfo_sane {topo topo' : PalTopoInfo}
    (accepted : sanitizeTopoInfo topo = some (.ok topo')) : topo'.IsSane := by
  obtain ⟨rfl, cachesSane, ⟨first, firstRead, firstOnline⟩, threadsSane, coresSane,
    ⟨node, nodeRead, nodeOnline⟩, nodesSane, distancesRead, nodesRead⟩ :=
    sanitizeTopoInfo_eq_ok accepted
  refine ⟨?cachesSane, ?firstThread, ?threads, ?offlineThreads, ?cores, ?firstNode, ?nodes,
    ?offlineNodes, ?distances, ?threadNodes⟩
  case cachesSane => simpa using cachesSane
  case firstThread =>
    exact ⟨first, by simp [firstRead, PalCpuThreadInfo.harden_of_isOnline firstOnline], firstOnline⟩
  case threads =>
    simp only [PalTopoInfo.harden_threads, List.mem_map, PalTopoInfo.harden_cores,
      PalTopoInfo.harden_caches, forall_exists_index, and_imp, forall_apply_eq_imp_iff₂,
      threadIsSane_harden]
    exact List.all_eq_true.mp threadsSane
  case offlineThreads =>
    simp only [PalTopoInfo.harden_threads, List.mem_map, forall_exists_index, and_imp,
      forall_apply_eq_imp_iff₂, PalCpuThreadInfo.harden_isOnline]
    intro thread _ offline
    simp [PalCpuThreadInfo.harden, offline]
  case cores => simpa using coresSane
  case firstNode =>
    exact ⟨node, by simp [nodeRead, PalNumaNodeInfo.harden_of_isOnline nodeOnline], nodeOnline⟩
  case nodes => simpa using nodesSane
  case offlineNodes =>
    simp only [PalTopoInfo.harden_numaNodes, List.mem_map, forall_exists_index, and_imp,
      forall_apply_eq_imp_iff₂, PalNumaNodeInfo.harden_isOnline]
    intro node _ offline kind
    simp [PalNumaNodeInfo.harden, offline]
  case distances =>
    intro i row j column
    have rowChecked := List.allM_option_eq_some_true.mp distancesRead i (List.mem_range.mpr row)
    exact List.allM_option_eq_some_true.mp rowChecked j (List.mem_range.mpr column)
  case threadNodes => exact List.allM_option_eq_some_true.mp nodesRead

section Sane

variable {topo : PalTopoInfo}

/-- An online thread of a sane topology has a core. -/
theorem PalTopoInfo.IsSane.coreId_lt (sane : topo.IsSane) {thread : PalCpuThreadInfo}
    (member : thread ∈ topo.threads) (online : thread.isOnline = true) :
    thread.coreId < topo.cores.length := by
  have checked := sane.threadsSane thread member
  simp only [threadIsSane, online, Bool.not_true, Bool.false_or, Bool.and_eq_true,
    decide_eq_true_eq] at checked
  exact checked.1.1

/-- A present entry of an online thread's `ids_of_caches` is a valid cache index. -/
theorem PalTopoInfo.IsSane.cacheId_lt (sane : topo.IsSane) {thread : PalCpuThreadInfo}
    (member : thread ∈ topo.threads) (online : thread.isOnline = true) {id : Nat}
    (entry : id ∈ thread.idsOfCaches) (present : id ≠ SIZE_MAX) : id < topo.caches.length := by
  have checked := sane.threadsSane thread member
  simp only [threadIsSane, online, Bool.not_true, Bool.false_or, Bool.and_eq_true,
    decide_eq_true_eq] at checked
  have valid := List.all_eq_true.mp checked.2 id entry
  simp only [Bool.or_eq_true, beq_iff_eq, decide_eq_true_eq] at valid
  exact valid.resolve_left present

/-- The core of a sane topology names a valid node. -/
theorem PalTopoInfo.IsSane.nodeId_lt (sane : topo.IsSane) {core : PalCpuCoreInfo}
    (member : core ∈ topo.cores) : core.nodeId < topo.numaNodes.length := by
  have checked := sane.coresSane core member
  simp only [coreIsSane, Bool.and_eq_true, decide_eq_true_eq] at checked
  exact checked.2

/-- A sane topology has a node. -/
theorem PalTopoInfo.IsSane.numaNodes_length_pos (sane : topo.IsSane) :
    0 < topo.numaNodes.length := by
  obtain ⟨node, read, -⟩ := sane.firstNodeOnline
  exact (List.getElem?_eq_some_iff.mp read).1

end Sane

/-! ## `import_and_sanitize_topo_info` -/

/-- The host's `struct pal_topo_info` behind the untrusted pointer: the counts,
and what the untrusted arrays hold at each index. -/
structure HostTopoInfo where
  cachesCnt : Nat
  caches : Nat → PalCacheInfo
  threadsCnt : Nat
  threads : Nat → PalCpuThreadInfo
  coresCnt : Nat
  cores : Nat → PalCpuCoreInfo
  socketsCnt : Nat
  numaNodesCnt : Nat
  numaNodes : Nat → PalNumaNodeInfo
  numaDistanceMatrix : Nat → Nat

/-- `sizeof` of the imported structures on x86-64. -/
def SIZEOF_PAL_CACHE_INFO : Nat := 48
def SIZEOF_PAL_CPU_THREAD_INFO : Nat := 48
def SIZEOF_PAL_CPU_CORE_INFO : Nat := 16
def SIZEOF_PAL_SOCKET_INFO : Nat := 1
def SIZEOF_PAL_NUMA_NODE_INFO : Nat := 24
def SIZEOF_SIZE_T : Nat := 8

/-- `__builtin_mul_overflow` on `size_t`. -/
def mulOverflows (a b : Nat) : Bool := decide (2 ^ 64 ≤ a * b)

/-- What `sgx_import_array_to_enclave` copies into the enclave when it succeeds. -/
def importArray {α : Type} (array : Nat → α) (elemCnt : Nat) : List α :=
  (List.range elemCnt).map array

/-- `sgx_import_array_to_enclave` fails when the array's size overflows; so
does `sgx_import_array2d_to_enclave` when the element count does. -/
def importFails (host : HostTopoInfo) : Bool :=
  mulOverflows SIZEOF_PAL_CACHE_INFO host.cachesCnt ||
    mulOverflows SIZEOF_PAL_CPU_THREAD_INFO host.threadsCnt ||
    mulOverflows SIZEOF_PAL_CPU_CORE_INFO host.coresCnt ||
    mulOverflows SIZEOF_PAL_SOCKET_INFO host.socketsCnt ||
    mulOverflows SIZEOF_PAL_NUMA_NODE_INFO host.numaNodesCnt ||
    mulOverflows host.numaNodesCnt host.numaNodesCnt ||
    mulOverflows SIZEOF_SIZE_T (host.numaNodesCnt * host.numaNodesCnt)

/-- `import_and_sanitize_topo_info`: the deep copy of every array, then
`sanitize_topo_info`. -/
def importAndSanitizeTopoInfo (host : HostTopoInfo) : Option (Except PalError PalTopoInfo) :=
  if importFails host then some (.error .noMem)
  else
    sanitizeTopoInfo
      { caches := importArray host.caches host.cachesCnt
        threads := importArray host.threads host.threadsCnt
        cores := importArray host.cores host.coresCnt
        socketsCnt := host.socketsCnt
        numaNodes := importArray host.numaNodes host.numaNodesCnt
        numaDistanceMatrix :=
          importArray host.numaDistanceMatrix (host.numaNodesCnt * host.numaNodesCnt)
        distanceSize := by simp [importArray] }

attribute [grind] importArray

/-- A topology the PAL accepts is sane, and its cache array fits in memory. -/
theorem importAndSanitizeTopoInfo_eq_ok {host : HostTopoInfo} {topo : PalTopoInfo}
    (accepted : importAndSanitizeTopoInfo host = some (.ok topo)) :
    topo.IsSane ∧ topo.caches.length ≤ SIZE_MAX := by
  unfold importAndSanitizeTopoInfo at accepted
  split at accepted
  · cases accepted
  rename_i imported
  have cachesFit : ¬ 2 ^ 64 ≤ SIZEOF_PAL_CACHE_INFO * host.cachesCnt := by
    simp only [importFails, mulOverflows, Bool.or_eq_true, decide_eq_true_eq, not_or] at imported
    exact imported.1.1.1.1.1.1
  refine ⟨sanitizeTopoInfo_sane accepted, ?_⟩
  obtain ⟨rfl, -⟩ := sanitizeTopoInfo_eq_ok accepted
  simp only [PalTopoInfo.harden_caches, importArray, List.length_map, List.length_range]
  unfold SIZEOF_PAL_CACHE_INFO at cachesFit
  unfold SIZE_MAX
  omega

end Gramine.Pal.LinuxSgx
