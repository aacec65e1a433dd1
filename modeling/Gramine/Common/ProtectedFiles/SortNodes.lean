import Gramine.Common.ProtectedFiles.NodeCache
import Gramine.Library.SortedRange

/-!
# Sorting the nodes to flush

Before it writes the nodes of a protected file, `ipf_update_all_data_and_mht_nodes`
sorts an array of MHT nodes by logical number with `sort_nodes`, a quicksort
on the range `[low, high]` of the array with the partition scheme of Hoare: the
pivot is the node in the middle of the range, one index scans up past the
smaller nodes and the other down past the larger ones, and the two stop nodes
are exchanged until the indices cross.

The array is a function on `Fin n`. The scans read `data[i]` with no bound,
and `j--` at `j = 0` wraps to `SIZE_MAX`: the model returns `none` once an
index leaves the array. The recursion of `sort_nodes` gets fuel. For every
range inside the array the sort returns, with fuel the size of the range, the
same array for all larger fuel, and that array is the old one with the range
sorted and nothing outside it moved.
-/

namespace Gramine.Common.ProtectedFiles

open SortedRange

variable {n : Nat}

/-- `swap_nodes(data, idx1, idx2)`. -/
def swapNodes (data : Fin n → FileNode) (idx1 idx2 : Fin n) : Fin n → FileNode :=
  let tmp := data idx1
  Function.update (Function.update data idx1 (data idx2)) idx2 tmp

theorem swapNodes_eq (data : Fin n → FileNode) (idx1 idx2 : Fin n) :
    swapNodes data idx1 idx2 = data ∘ Equiv.swap idx1 idx2 := by
  funext k
  simp only [swapNodes, Function.comp_apply, Function.update_apply, Equiv.swap_apply_def]
  split_ifs with second first first <;> subst_vars <;> rfl

theorem swapNodes_left (data : Fin n → FileNode) (idx1 idx2 : Fin n) :
    swapNodes data idx1 idx2 idx1 = data idx2 := by
  rw [swapNodes_eq, Function.comp_apply, Equiv.swap_apply_left]

theorem swapNodes_right (data : Fin n → FileNode) (idx1 idx2 : Fin n) :
    swapNodes data idx1 idx2 idx2 = data idx1 := by
  rw [swapNodes_eq, Function.comp_apply, Equiv.swap_apply_right]

theorem swapNodes_of_ne (data : Fin n → FileNode) {idx1 idx2 k : Fin n} (first : k ≠ idx1)
    (second : k ≠ idx2) : swapNodes data idx1 idx2 k = data k := by
  rw [swapNodes_eq, Function.comp_apply, Equiv.swap_apply_of_ne_of_ne first second]

/-- `while (data[i]->logical_node_number < pivot->logical_node_number) i++;`
from `i`: where it stops. -/
def scanUp (data : Fin n → FileNode) (pivot i : Nat) : Option (Fin n) :=
  if h : i < n then
    if (data ⟨i, h⟩).logicalNodeNumber < pivot then scanUp data pivot (i + 1) else some ⟨i, h⟩
  else none
termination_by n - i

/-- `while (data[j]->logical_node_number > pivot->logical_node_number) j--;`
from `j`: where it stops. Past index 0 the `size_t` wraps to `SIZE_MAX`, beyond
the end of the array. -/
def scanDown (data : Fin n → FileNode) (pivot j : Nat) : Option (Fin n) :=
  if h : j < n then
    if pivot < (data ⟨j, h⟩).logicalNodeNumber then
      if j = 0 then none else scanDown data pivot (j - 1)
    else some ⟨j, h⟩
  else none
termination_by j

theorem scanUp_ge {data : Fin n → FileNode} {pivot i : Nat} {stop : Fin n}
    (stops : scanUp data pivot i = some stop) : i ≤ stop.val := by
  fun_induction scanUp data pivot i with
  | case1 i inside smaller next => exact Nat.le_of_succ_le (next stops)
  | case2 i inside larger =>
    cases stops
    exact Nat.le_refl i
  | case3 => cases stops

theorem scanDown_le {data : Fin n → FileNode} {pivot j : Nat} {stop : Fin n}
    (stops : scanDown data pivot j = some stop) : stop.val ≤ j := by
  fun_induction scanDown data pivot j with
  | case1 => cases stops
  | case2 j inside larger nonzero next => exact Nat.le_trans (next stops) (Nat.sub_le j 1)
  | case3 j inside smaller =>
    cases stops
    exact Nat.le_refl j
  | case4 => cases stops

/-- Where the up-scan from `i` stopped: at `i'`, a node at least the pivot,
past nodes below it only. -/
structure UpScan (data : Fin n → FileNode) (pivot i : Nat) (i' : Fin n) : Prop where
  from_le : i ≤ i'.val
  stops : pivot ≤ (data i').logicalNodeNumber
  passed : ∀ k : Fin n, i ≤ k.val → k.val < i'.val → (data k).logicalNodeNumber < pivot

/-- Where the down-scan from `j` stopped: at `j'`, a node at most the pivot,
past nodes above it only. -/
structure DownScan (data : Fin n → FileNode) (pivot j : Nat) (j' : Fin n) : Prop where
  le_from : j'.val ≤ j
  stops : (data j').logicalNodeNumber ≤ pivot
  passed : ∀ k : Fin n, j'.val < k.val → k.val ≤ j → pivot < (data k).logicalNodeNumber

/-- A node at least the pivot at or after `i` stops the up-scan, at it at the
latest. -/
theorem scanUp_spec {data : Fin n → FileNode} {pivot i : Nat} {stop : Fin n}
    (from_i : i ≤ stop.val) (stops : pivot ≤ (data stop).logicalNodeNumber) :
    ∃ i', scanUp data pivot i = some i' ∧ UpScan data pivot i i' ∧ i'.val ≤ stop.val := by
  fun_induction scanUp data pivot i with
  | case1 i h smaller next =>
    -- node `i` is below the pivot, so it is not `stop`
    have before : i + 1 ≤ stop.val := by
      by_contra here
      have same : stop = ⟨i, h⟩ := Fin.ext (show stop.val = i by omega)
      subst same
      omega
    obtain ⟨i', scan, found, le_stop⟩ := next before
    refine ⟨i', scan, ⟨by have := found.from_le; omega, found.stops, fun k from_k below => ?_⟩, le_stop⟩
    rcases Nat.lt_or_ge i k.val with later | here
    · exact found.passed k later below
    · have same : k = ⟨i, h⟩ := Fin.ext (show k.val = i by omega)
      rw [same]
      exact smaller
  | case2 i h larger =>
    exact ⟨⟨i, h⟩, rfl, ⟨Nat.le_refl i, Nat.le_of_not_lt larger,
      fun k from_k (below : k.val < i) => by omega⟩, from_i⟩
  | case3 i outside => omega

/-- A node at most the pivot at or before `j` stops the down-scan, at it at
the latest, and so before the index wraps. -/
theorem scanDown_spec {data : Fin n → FileNode} {pivot j : Nat} {stop : Fin n}
    (to_j : stop.val ≤ j) (inside : j < n) (stops : (data stop).logicalNodeNumber ≤ pivot) :
    ∃ j', scanDown data pivot j = some j' ∧ DownScan data pivot j j' ∧ stop.val ≤ j'.val := by
  fun_induction scanDown data pivot j with
  | case1 h larger =>
    have same : stop = ⟨0, h⟩ := Fin.ext (show stop.val = 0 by omega)
    subst same
    omega
  | case2 j h larger nonzero next =>
    -- node `j` is above the pivot, so it is not `stop`
    have before : stop.val ≤ j - 1 := by
      by_contra here
      have same : stop = ⟨j, h⟩ := Fin.ext (show stop.val = j by omega)
      subst same
      omega
    obtain ⟨j', scan, found, stop_le⟩ := next before (by omega)
    refine ⟨j', scan, ⟨by have := found.le_from; omega, found.stops, fun k above below => ?_⟩,
      stop_le⟩
    rcases Nat.lt_or_ge k.val j with earlier | here
    · exact found.passed k above (by omega)
    · have same : k = ⟨j, h⟩ := Fin.ext (show k.val = j by omega)
      rw [same]
      exact larger
  | case3 j h smaller =>
    exact ⟨⟨j, h⟩, rfl, ⟨Nat.le_refl j, Nat.le_of_not_lt smaller,
      fun k (above : j < k.val) below => by omega⟩, to_j⟩
  | case4 j outside => omega

/-- The `while (true)` loop of `partition` from `i` and `j`: the index it
returns and the array it leaves. -/
def partitionLoop (data : Fin n → FileNode) (pivot i j : Nat) : Option (Nat × (Fin n → FileNode)) :=
  match up : scanUp data pivot i, down : scanDown data pivot j with
  | some i', some j' =>
    if j'.val ≤ i'.val then some (j'.val, data)
    else partitionLoop (swapNodes data i' j') pivot (i'.val + 1) (j'.val - 1)
  | _, _ => none
termination_by j + 1 - i
decreasing_by
  have moved_up := scanUp_ge up
  have moved_down := scanDown_le down
  omega

/-- `partition(data, low, high)`. The pivot is the node in the middle of the
range; the swaps move pointers, so its logical number stays the one compared
with. -/
def partition (data : Fin n → FileNode) (low high : Nat) : Option (Nat × (Fin n → FileNode)) :=
  if h : (low + high) / 2 < n then
    partitionLoop data (data ⟨(low + high) / 2, h⟩).logicalNodeNumber low high
  else none

section Partition

variable (start : Fin n → FileNode) (low high pivot : Nat)

/-- What holds at the head of the loop of `partition` on `[low, high]`,
started from the array `start`: the nodes left of `i` are at most the pivot
and those right of `j` at least the pivot; a node at least the pivot stops the
up-scan inside the range and one at most the pivot stops the down-scan; and
until the first exchange, when `j` is still `high`, the up-scan stops below
`high`. -/
structure LoopInvariant (data : Fin n → FileNode) (i j : Nat) : Prop where
  permuted : PermutedWithin low high start data
  low_le : low ≤ i
  le_high : j ≤ high
  high_lt : high < n
  left : ∀ k : Fin n, low ≤ k.val → k.val < i → (data k).logicalNodeNumber ≤ pivot
  right : ∀ k : Fin n, j < k.val → k.val ≤ high → pivot ≤ (data k).logicalNodeNumber
  upStop : ∃ k : Fin n, i ≤ k.val ∧ k.val ≤ high ∧ pivot ≤ (data k).logicalNodeNumber
  downStop : ∃ k : Fin n, low ≤ k.val ∧ k.val ≤ j ∧ (data k).logicalNodeNumber ≤ pivot
  splits : j < high ∨ ∃ k : Fin n, i ≤ k.val ∧ k.val < high ∧ pivot ≤ (data k).logicalNodeNumber

/-- What `partition` leaves: `[low, pi]` at most the pivot and `[pi + 1, high]`
at least it, with `pi` in the range and below `high`. -/
structure Split (pi : Nat) (data : Fin n → FileNode) : Prop where
  permuted : PermutedWithin low high start data
  low_le : low ≤ pi
  lt_high : pi < high
  small : ∀ k, Within low pi k → (data k).logicalNodeNumber ≤ pivot
  large : ∀ k, Within (pi + 1) high k → pivot ≤ (data k).logicalNodeNumber

variable {start low high pivot} {data : Fin n → FileNode} {i j : Nat}

namespace LoopInvariant

/-- The up-scan from a loop head stops inside the range, below `high` while
`j` is `high`. -/
theorem up (inv : LoopInvariant start low high pivot data i j) :
    ∃ i', scanUp data pivot i = some i' ∧ UpScan data pivot i i' ∧ i'.val ≤ high ∧
      (j < high ∨ i'.val < high) := by
  obtain ⟨stop, from_i, stop_high, stops⟩ := inv.upStop
  obtain ⟨i', scan, found, le_stop⟩ := scanUp_spec from_i stops
  refine ⟨i', scan, found, Nat.le_trans le_stop stop_high, ?_⟩
  rcases inv.splits with below | ⟨early, from_i', early_high, early_stops⟩
  · exact .inl below
  · -- the scan stops at the earlier of the two stops it meets
    obtain ⟨i'', scan', _, le_early⟩ := scanUp_spec from_i' early_stops
    rw [scan] at scan'
    cases scan'
    exact .inr (Nat.lt_of_le_of_lt le_early early_high)

/-- The down-scan from a loop head stops inside the range. -/
theorem down (inv : LoopInvariant start low high pivot data i j) :
    ∃ j', scanDown data pivot j = some j' ∧ DownScan data pivot j j' ∧ low ≤ j'.val := by
  obtain ⟨stop, low_stop, to_j, stops⟩ := inv.downStop
  obtain ⟨j', scan, found, stop_le⟩ :=
    scanDown_spec to_j (Nat.lt_of_le_of_lt inv.le_high inv.high_lt) stops
  exact ⟨j', scan, found, Nat.le_trans low_stop stop_le⟩

variable {i' j' : Fin n}

/-- When the scans cross, the loop returns a split at `j'`. -/
theorem split (inv : LoopInvariant start low high pivot data i j) (up : UpScan data pivot i i')
    (up_high : j < high ∨ i'.val < high) (down : DownScan data pivot j j')
    (down_low : low ≤ j'.val) (crossed : j'.val ≤ i'.val) :
    Split start low high pivot j'.val data where
  permuted := inv.permuted
  low_le := down_low
  lt_high := by
    have := down.le_from
    omega
  small := by
    rintro k ⟨low_k, k_j'⟩
    rcases Nat.lt_or_ge k.val i with left | scanned
    · exact inv.left k low_k left
    · rcases Nat.lt_or_ge k.val i'.val with passed | last
      · exact Nat.le_of_lt (up.passed k scanned passed)
      · -- `k` is both scans' stop
        have same : k = j' := Fin.ext (by omega)
        rw [same]
        exact down.stops
  large := by
    rintro k ⟨j'_k, k_high⟩
    rcases Nat.lt_or_ge j k.val with right | scanned
    · exact inv.right k right k_high
    · exact Nat.le_of_lt (down.passed k j'_k scanned)

/-- When the scans have not crossed, exchanging their stops and stepping past
them gives a loop head again. -/
theorem exchange (inv : LoopInvariant start low high pivot data i j) (up : UpScan data pivot i i')
    (down : DownScan data pivot j j') (down_low : low ≤ j'.val) (before : i'.val < j'.val) :
    LoopInvariant start low high pivot (swapNodes data i' j') (i'.val + 1) (j'.val - 1) where
  permuted := by
    have i'_within : Within low high i' := ⟨by have := up.from_le; have := inv.low_le; omega,
      by have := down.le_from; have := inv.le_high; omega⟩
    have j'_within : Within low high j' := ⟨down_low, by have := down.le_from; have := inv.le_high; omega⟩
    rw [swapNodes_eq]
    exact inv.permuted.trans (PermutedWithin.swap i'_within j'_within data)
  low_le := by
    have := up.from_le
    have := inv.low_le
    omega
  le_high := by
    have := down.le_from
    have := inv.le_high
    omega
  high_lt := inv.high_lt
  left := by
    intro k low_k below
    rcases Nat.lt_or_ge k.val i'.val with earlier | here
    · rw [swapNodes_of_ne data (Fin.ne_of_lt earlier) (Fin.ne_of_lt (Nat.lt_trans earlier before))]
      rcases Nat.lt_or_ge k.val i with left | scanned
      · exact inv.left k low_k left
      · exact Nat.le_of_lt (up.passed k scanned earlier)
    · have same : k = i' := Fin.ext (by omega)
      rw [same, swapNodes_left]
      exact down.stops
  right := by
    intro k above k_high
    rcases Nat.lt_or_ge j'.val k.val with later | here
    · rw [swapNodes_of_ne data (Fin.ne_of_gt (Nat.lt_trans before later)) (Fin.ne_of_gt later)]
      rcases Nat.lt_or_ge j k.val with right | scanned
      · exact inv.right k right k_high
      · exact Nat.le_of_lt (down.passed k later scanned)
    · have same : k = j' := Fin.ext (by omega)
      rw [same, swapNodes_right]
      exact up.stops
  upStop := ⟨j', before, by have := down.le_from; have := inv.le_high; omega,
    by rw [swapNodes_right]; exact up.stops⟩
  downStop := ⟨i', by have := up.from_le; have := inv.low_le; omega, by omega,
    by rw [swapNodes_left]; exact down.stops⟩
  splits := .inl (by have := down.le_from; have := inv.le_high; omega)

end LoopInvariant

/-- From a loop head, the loop of `partition` returns a split. The induction
follows the loop; each turn exchanges two nodes and moves both indices. -/
theorem partitionLoop_spec (inv : LoopInvariant start low high pivot data i j) :
    ∃ pi data', partitionLoop data pivot i j = some (pi, data') ∧
      Split start low high pivot pi data' := by
  fun_induction partitionLoop data pivot i j with
  | case1 data i j i' j' up_scan down_scan crossed =>
    obtain ⟨i'', scan, up, -, up_high⟩ := inv.up
    obtain ⟨j'', scan', down, down_low⟩ := inv.down
    rw [up_scan] at scan
    rw [down_scan] at scan'
    cases scan
    cases scan'
    exact ⟨j'.val, data, rfl, inv.split up up_high down down_low crossed⟩
  | case2 data i j i' j' up_scan down_scan apart next =>
    obtain ⟨i'', scan, up, -⟩ := inv.up
    obtain ⟨j'', scan', down, down_low⟩ := inv.down
    rw [up_scan] at scan
    rw [down_scan] at scan'
    cases scan
    cases scan'
    exact next (inv.exchange up down down_low (Nat.lt_of_not_le apart))
  | case3 data i j missing =>
    obtain ⟨i', scan, -⟩ := inv.up
    obtain ⟨j', scan', -⟩ := inv.down
    exact absurd (missing i' j' scan scan') id

end Partition

/-- `sort_nodes(data, low, high)`, with `fuel` for its recursion. The test
`high - low == 1` on `size_t` is the one on `Nat` for `low ≤ high`, which
every call keeps. -/
def sortNodes : Nat → (Fin n → FileNode) → Nat → Nat → Option (Fin n → FileNode)
  | 0, _, _, _ => none
  | fuel + 1, data, low, high =>
    if adjacent : high - low = 1 then
      if h : high < n then
        let lowNode : Fin n := ⟨low, by omega⟩
        let highNode : Fin n := ⟨high, h⟩
        if (data highNode).logicalNodeNumber < (data lowNode).logicalNodeNumber then
          some (swapNodes data lowNode highNode)
        else some data
      else none
    else if low < high then
      match partition data low high with
      | none => none
      | some (pi, data) =>
        (if 0 < pi then sortNodes fuel data low pi else some data).bind fun data =>
          sortNodes fuel data (pi + 1) high
    else some data

/-- `partition` on a range of at least two nodes inside the array returns a
split around the logical number of the middle node. -/
theorem partition_spec (data : Fin n → FileNode) {low high : Nat} (lt : low < high)
    (inside : high < n) :
    ∃ pivot pi data', partition data low high = some (pi, data') ∧
      Split data low high pivot pi data' := by
  have middle_lt : (low + high) / 2 < n := by omega
  obtain ⟨middle, middle_val⟩ : ∃ middle : Fin n, middle.val = (low + high) / 2 :=
    ⟨⟨_, middle_lt⟩, rfl⟩
  -- the middle node stops both scans, and the up-scan below `high`
  have start : LoopInvariant data low high (data middle).logicalNodeNumber data low high :=
    { permuted := .refl data
      low_le := Nat.le_refl low
      le_high := Nat.le_refl high
      high_lt := inside
      left := fun k low_k below => absurd low_k (Nat.not_le_of_lt below)
      right := fun k above below => absurd below (Nat.not_le_of_lt above)
      upStop := ⟨middle, by omega, by omega, Nat.le_refl _⟩
      downStop := ⟨middle, by omega, by omega, Nat.le_refl _⟩
      splits := .inr ⟨middle, by omega, by omega, Nat.le_refl _⟩ }
  obtain ⟨pi, data', run, split⟩ := partitionLoop_spec start
  have pivot_node : (⟨(low + high) / 2, middle_lt⟩ : Fin n) = middle := Fin.ext middle_val.symm
  refine ⟨_, pi, data', ?_, split⟩
  rw [partition, dif_pos middle_lt, pivot_node]
  exact run

/-- `sort_nodes` on a range inside the array, with fuel at least the size of
the range, returns the array with the range sorted and only the range moved.
The induction is on the fuel; both halves of a partition are smaller. -/
theorem sortNodes_spec (fuel : Nat) (data : Fin n → FileNode) (low high : Nat) (le : low ≤ high)
    (inside : high < n) (enough : high + 1 - low ≤ fuel) :
    ∃ sorted, sortNodes fuel data low high = some sorted ∧ PermutedWithin low high data sorted ∧
      SortedWithin FileNode.logicalNodeNumber low high sorted := by
  induction fuel generalizing data low high with
  | zero => omega
  | succ fuel ih =>
    rw [sortNodes]
    by_cases adjacent : high - low = 1
    · -- two nodes, exchanged when out of order
      rw [dif_pos adjacent, dif_pos inside]
      have lowNode_within : Within low high (⟨low, by omega⟩ : Fin n) := ⟨Nat.le_refl low, le⟩
      have highNode_within : Within low high (⟨high, inside⟩ : Fin n) := ⟨le, Nat.le_refl high⟩
      have next : high = low + 1 := by omega
      dsimp only
      split_ifs with disordered
      · refine ⟨_, rfl, ?_, ?_⟩
        · rw [swapNodes_eq]
          exact PermutedWithin.swap lowNode_within highNode_within data
        · apply SortedWithin.pair ⟨low, by omega⟩ ⟨high, inside⟩ rfl rfl next
          rw [swapNodes_left, swapNodes_right]
          exact Nat.le_of_lt disordered
      · exact ⟨data, rfl, .refl data,
          SortedWithin.pair ⟨low, by omega⟩ ⟨high, inside⟩ rfl rfl next (Nat.le_of_not_lt disordered)⟩
    · rw [dif_neg adjacent]
      by_cases lt : low < high
      · rw [if_pos lt]
        obtain ⟨pivot, pi, parted, run, split⟩ := partition_spec data lt inside
        have low_pi := split.low_le
        have pi_high := split.lt_high
        rw [run]
        dsimp only
        -- `[low, pi]` first; at `pi = 0` it is the single node 0 and is skipped
        obtain ⟨left, left_run, left_moved, left_sorted⟩ :
            ∃ left, (if 0 < pi then sortNodes fuel parted low pi else some parted) = some left ∧
              PermutedWithin low pi parted left ∧
              SortedWithin FileNode.logicalNodeNumber low pi left := by
          split_ifs with positive
          · exact ih parted low pi low_pi (by omega) (by omega)
          · exact ⟨parted, rfl, .refl parted, SortedWithin.of_le (by omega)⟩
        obtain ⟨sorted, right_run, right_moved, right_sorted⟩ :=
          ih left (pi + 1) high pi_high inside (by omega)
        refine ⟨sorted, by rw [left_run]; exact right_run, ?_, ?_⟩
        · exact split.permuted.trans ((left_moved.widen (Nat.le_refl low) pi_high.le).trans
            (right_moved.widen (by omega) (Nat.le_refl high)))
        · -- each half's sort leaves the other half alone
          have right_keeps : ∀ k, Within low pi k → sorted k = left k := fun k inside =>
            right_moved.eq_of_not_within fun outside => by
              have := inside.2
              have := outside.1
              omega
          have left_keeps : ∀ k, Within (pi + 1) high k → left k = parted k := fun k inside =>
            left_moved.eq_of_not_within fun outside => by
              have := inside.1
              have := outside.2
              omega
          have small : ∀ k, Within low pi k → (sorted k).logicalNodeNumber ≤ pivot := by
            intro k inside
            rw [right_keeps k inside]
            exact left_moved.forall_within (fun node => node.logicalNodeNumber ≤ pivot) split.small k
              inside
          have large : ∀ k, Within (pi + 1) high k → pivot ≤ (sorted k).logicalNodeNumber := by
            apply right_moved.forall_within (fun node => pivot ≤ node.logicalNodeNumber)
            intro k inside
            rw [left_keeps k inside]
            exact split.large k inside
          exact SortedWithin.join (left_sorted.congr right_keeps) right_sorted small large
      · rw [if_neg lt]
        exact ⟨data, rfl, .refl data, SortedWithin.of_le (by omega)⟩

/-- Once `sort_nodes` has returned, more fuel returns the same array. -/
theorem sortNodes_succ {fuel : Nat} {data : Fin n → FileNode} {low high : Nat}
    {sorted : Fin n → FileNode} (done : sortNodes fuel data low high = some sorted) :
    sortNodes (fuel + 1) data low high = some sorted := by
  induction fuel generalizing data low high sorted with
  | zero => cases done
  | succ fuel ih =>
    rw [sortNodes] at done ⊢
    by_cases adjacent : high - low = 1
    · -- two nodes: no recursive call
      rw [dif_pos adjacent] at done ⊢
      exact done
    · rw [dif_neg adjacent] at done ⊢
      by_cases lt : low < high
      · rw [if_pos lt] at done ⊢
        cases parted : partition data low high with
        | none =>
          rw [parted] at done
          cases done
        | some result =>
          obtain ⟨pi, parted_data⟩ := result
          rw [parted] at done
          obtain ⟨left, left_run, right_run⟩ := Option.bind_eq_some_iff.mp done
          refine Option.bind_eq_some_iff.mpr ⟨left, ?_, ih right_run⟩
          split_ifs at left_run ⊢
          · exact ih left_run
          · exact left_run
      · rw [if_neg lt] at done ⊢
        exact done

/-- `sort_nodes(data, low, high)` on a range inside the array terminates: with
fuel the size of the range and with any more it returns one array, which is
`data` with the nodes of `[low, high]` permuted among themselves into
non-decreasing logical order and every node outside the range in its place. -/
theorem sortNodes_sorts_range (data : Fin n → FileNode) (low high : Nat) (le : low ≤ high)
    (inside : high < n) :
    ∃ sorted, (∀ fuel, high + 1 - low ≤ fuel → sortNodes fuel data low high = some sorted) ∧
      PermutedWithin low high data sorted ∧
      (∀ k, ¬ Within low high k → sorted k = data k) ∧
      SortedWithin FileNode.logicalNodeNumber low high sorted := by
  obtain ⟨sorted, run, moved, ordered⟩ :=
    sortNodes_spec (high + 1 - low) data low high le inside (Nat.le_refl _)
  refine ⟨sorted, fun fuel enough => ?_, moved, fun k outside => moved.eq_of_not_within outside,
    ordered⟩
  induction fuel, enough using Nat.le_induction with
  | base => exact run
  | succ fuel _ more => exact sortNodes_succ more

/-- Three MHT nodes in decreasing logical order. -/
def decreasingNodes : Fin 3 → FileNode :=
  fun k => ⟨.mht, .root, 3 - k.val, 0, false⟩

theorem sortNodes_sorts_decreasingNodes :
    ∃ sorted, (∀ fuel, 2 + 1 - 0 ≤ fuel → sortNodes fuel decreasingNodes 0 2 = some sorted) ∧
      PermutedWithin 0 2 decreasingNodes sorted ∧
      (∀ k, ¬ Within 0 2 k → sorted k = decreasingNodes k) ∧
      SortedWithin FileNode.logicalNodeNumber 0 2 sorted :=
  sortNodes_sorts_range decreasingNodes 0 2 (Nat.zero_le 2) (by decide)

end Gramine.Common.ProtectedFiles
