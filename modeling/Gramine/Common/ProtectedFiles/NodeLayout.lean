import Gramine.Common.ProtectedFiles.NodeCache
import Gramine.Library.GroupedLayout

/-!
# The physical layout of a protected file

Physical node 0 of a protected file is the metadata node, and from node 1 on
every MHT node is followed by the `ATTACHED_DATA_NODES_COUNT` data nodes it
holds the keys of. Two formulas in `protected_files.c` describe that layout:
`get_node_numbers`, which gives the physical numbers of the data node holding
an offset and of its MHT node, and the inline `1 + m * (1 + 96)` with which
`ipf_read_mht_node` and `ipf_append_mht_node` place MHT node `m`.

Both are the grouped numbering of `GroupedLayout`, one node after the
metadata node: a data node is an item and an MHT node a header. So the two
formulas agree, every node has its own place, and for offsets below `2 ^ 63`
no place overflows a `uint64_t` once multiplied by `PF_NODE_SIZE`.
-/

namespace Gramine.Common.ProtectedFiles

open GroupedLayout

theorem MD_USER_DATA_SIZE_eq : MD_USER_DATA_SIZE = 3072 := rfl

theorem ATTACHED_DATA_NODES_COUNT_eq : ATTACHED_DATA_NODES_COUNT = 96 := rfl

theorem PF_NODE_SIZE_eq : PF_NODE_SIZE = 4096 := rfl

section Layout

variable (offset : Nat)

/-- The MHT node of an offset is the group of its data node. -/
theorem getNodeNumbers_logicalMhtNodeNumber :
    (getNodeNumbers offset).logicalMhtNodeNumber =
      (getNodeNumbers offset).logicalDataNodeNumber / ATTACHED_DATA_NODES_COUNT := rfl

/-- The data node holding `offset` is item `logicalDataNodeNumber` of the
grouped numbering, after the metadata node. -/
theorem physicalDataNodeNumber_eq_itemSlot :
    (getNodeNumbers offset).physicalDataNodeNumber =
      itemSlot ATTACHED_DATA_NODES_COUNT (getNodeNumbers offset).logicalDataNodeNumber + 1 := by
  simp only [getNodeNumbers, itemSlot]
  omega

/-- MHT node `k` is header `k` of the grouped numbering, after the
metadata node. -/
theorem mhtPhysicalNodeNumber_eq_headerSlot (k : Nat) :
    mhtPhysicalNodeNumber k = headerSlot ATTACHED_DATA_NODES_COUNT k + 1 := by
  unfold mhtPhysicalNodeNumber headerSlot
  rw [Nat.add_comm 1 ATTACHED_DATA_NODES_COUNT, Nat.add_comm 1]

/-- Going back `logical_data_node_number % 96` nodes and one more from the data
node, as `get_node_numbers` does, lands on the node where the MHT readers
place its MHT node. -/
theorem physicalMhtNodeNumber_eq :
    (getNodeNumbers offset).physicalMhtNodeNumber =
      mhtPhysicalNodeNumber (getNodeNumbers offset).logicalMhtNodeNumber := by
  have data := physicalDataNodeNumber_eq_itemSlot offset
  rw [itemSlot_eq_headerSlot] at data
  rw [mhtPhysicalNodeNumber_eq_headerSlot, getNodeNumbers_logicalMhtNodeNumber]
  show (getNodeNumbers offset).physicalDataNodeNumber -
      (getNodeNumbers offset).logicalDataNodeNumber % ATTACHED_DATA_NODES_COUNT - 1 = _
  omega

/-- The data node sits among the 96 nodes after its MHT node. -/
theorem physicalDataNodeNumber_mem_group :
    (getNodeNumbers offset).physicalMhtNodeNumber < (getNodeNumbers offset).physicalDataNodeNumber ∧
      (getNodeNumbers offset).physicalDataNodeNumber ≤
        (getNodeNumbers offset).physicalMhtNodeNumber + ATTACHED_DATA_NODES_COUNT := by
  have positive : 0 < ATTACHED_DATA_NODES_COUNT := by decide
  have first := headerSlot_lt_itemSlot (n := ATTACHED_DATA_NODES_COUNT)
    (getNodeNumbers offset).logicalDataNodeNumber
  have last := itemSlot_le_headerSlot_add positive (getNodeNumbers offset).logicalDataNodeNumber
  rw [physicalMhtNodeNumber_eq, mhtPhysicalNodeNumber_eq_headerSlot,
    getNodeNumbers_logicalMhtNodeNumber, physicalDataNodeNumber_eq_itemSlot]
  exact ⟨by omega, by omega⟩

/-- No data node is the metadata node or an MHT node. -/
theorem physicalDataNodeNumber_ne_mht (k : Nat) :
    (getNodeNumbers offset).physicalDataNodeNumber ≠ mhtPhysicalNodeNumber k := by
  have positive : 0 < ATTACHED_DATA_NODES_COUNT := by decide
  rw [physicalDataNodeNumber_eq_itemSlot, mhtPhysicalNodeNumber_eq_headerSlot]
  intro same
  exact itemSlot_ne_headerSlot positive _ k (Nat.add_right_cancel same)

theorem physicalDataNodeNumber_pos : 0 < (getNodeNumbers offset).physicalDataNodeNumber := by
  rw [physicalDataNodeNumber_eq_itemSlot]
  exact Nat.succ_pos _

/-- Two offsets in different data nodes are in different physical nodes. -/
theorem physicalDataNodeNumber_ne {offset' : Nat}
    (other : (getNodeNumbers offset').logicalDataNodeNumber ≠
      (getNodeNumbers offset).logicalDataNodeNumber) :
    (getNodeNumbers offset').physicalDataNodeNumber ≠
      (getNodeNumbers offset).physicalDataNodeNumber := by
  rw [physicalDataNodeNumber_eq_itemSlot, physicalDataNodeNumber_eq_itemSlot]
  intro same
  exact other (itemSlot_injective (Nat.add_right_cancel same))

/-- `offset` lies in data node `logical_data_node_number`. -/
theorem offset_mem_dataNode (above : MD_USER_DATA_SIZE ≤ offset) :
    dataNodeOffset (getNodeNumbers offset).logicalDataNodeNumber ≤ offset ∧
      offset < dataNodeOffset ((getNodeNumbers offset).logicalDataNodeNumber + 1) := by
  simp only [getNodeNumbers, dataNodeOffset, MD_USER_DATA_SIZE_eq, PF_NODE_SIZE_eq] at above ⊢
  omega

/-- For an offset below `2 ^ 63`, the byte offset of the data node in the
host file fits in a `uint64_t`. -/
theorem physicalDataNodeNumber_mul_lt (below : offset < 2 ^ 63) :
    (getNodeNumbers offset).physicalDataNodeNumber * PF_NODE_SIZE < 2 ^ 64 := by
  simp only [getNodeNumbers, MD_USER_DATA_SIZE_eq, PF_NODE_SIZE_eq,
    ATTACHED_DATA_NODES_COUNT_eq]
  omega

end Layout

/-- Every physical node is the metadata node, an MHT node or the data node of
some offset. -/
theorem physical_node_cases (physical : Nat) :
    physical = 0 ∨ (∃ k, physical = mhtPhysicalNodeNumber k) ∨
      ∃ d, physical = (getNodeNumbers (dataNodeOffset d)).physicalDataNodeNumber := by
  rcases physical with _ | slot
  · exact .inl rfl
  · right
    have numbers (d : Nat) : (getNodeNumbers (dataNodeOffset d)).logicalDataNodeNumber = d := by
      simp only [getNodeNumbers, dataNodeOffset, MD_USER_DATA_SIZE_eq, PF_NODE_SIZE_eq]
      omega
    rcases headerSlot_or_itemSlot (n := ATTACHED_DATA_NODES_COUNT) slot with ⟨k, mht⟩ | ⟨d, data⟩
    · exact .inl ⟨k, by rw [mhtPhysicalNodeNumber_eq_headerSlot, mht]⟩
    · exact .inr ⟨d, by rw [physicalDataNodeNumber_eq_itemSlot, numbers, data]⟩

/-- The layout that `get_node_numbers` and the MHT readers agree on, for every
offset past the metadata node's bytes and below `2 ^ 63`. -/
theorem getNodeNumbers_layout (offset : Nat) (above : MD_USER_DATA_SIZE ≤ offset)
    (below : offset < 2 ^ 63) :
    let numbers := getNodeNumbers offset
    (numbers.logicalDataNodeNumber = (offset - 3072) / 4096 ∧
      dataNodeOffset numbers.logicalDataNodeNumber ≤ offset ∧
      offset < dataNodeOffset (numbers.logicalDataNodeNumber + 1)) ∧
    numbers.logicalMhtNodeNumber = numbers.logicalDataNodeNumber / 96 ∧
    numbers.physicalMhtNodeNumber = mhtPhysicalNodeNumber numbers.logicalMhtNodeNumber ∧
    mhtPhysicalNodeNumber numbers.logicalMhtNodeNumber = 1 + 97 * numbers.logicalMhtNodeNumber ∧
    (1 + 97 * numbers.logicalMhtNodeNumber + 1 ≤ numbers.physicalDataNodeNumber ∧
      numbers.physicalDataNodeNumber ≤ 1 + 97 * numbers.logicalMhtNodeNumber + 96) ∧
    (∀ offset', (getNodeNumbers offset').logicalDataNodeNumber ≠ numbers.logicalDataNodeNumber →
      (getNodeNumbers offset').physicalDataNodeNumber ≠ numbers.physicalDataNodeNumber) ∧
    (∀ k, numbers.physicalDataNodeNumber ≠ mhtPhysicalNodeNumber k) ∧
    numbers.physicalDataNodeNumber ≠ 0 ∧
    numbers.physicalDataNodeNumber * PF_NODE_SIZE < 2 ^ 64 ∧
    numbers.physicalMhtNodeNumber * PF_NODE_SIZE < 2 ^ 64 := by
  dsimp only
  have group := physicalDataNodeNumber_mem_group offset
  have mht := physicalMhtNodeNumber_eq offset
  have formula : mhtPhysicalNodeNumber (getNodeNumbers offset).logicalMhtNodeNumber =
      1 + 97 * (getNodeNumbers offset).logicalMhtNodeNumber := by
    unfold mhtPhysicalNodeNumber
    rw [ATTACHED_DATA_NODES_COUNT_eq]
    omega
  have fits := physicalDataNodeNumber_mul_lt offset below
  refine ⟨⟨rfl, offset_mem_dataNode offset above⟩, rfl, mht, formula, ?_,
    fun offset' other => physicalDataNodeNumber_ne offset other,
    physicalDataNodeNumber_ne_mht offset, (physicalDataNodeNumber_pos offset).ne', fits, ?_⟩
  · rw [← formula, ← mht]
    rw [ATTACHED_DATA_NODES_COUNT_eq] at group
    omega
  · calc (getNodeNumbers offset).physicalMhtNodeNumber * PF_NODE_SIZE
        ≤ (getNodeNumbers offset).physicalDataNodeNumber * PF_NODE_SIZE :=
          Nat.mul_le_mul_right _ group.1.le
      _ < 2 ^ 64 := fits

theorem getNodeNumbers_layout_second_group :
    MD_USER_DATA_SIZE ≤ dataNodeOffset 100 ∧ dataNodeOffset 100 < 2 ^ 63 ∧
      (getNodeNumbers (dataNodeOffset 100)).physicalMhtNodeNumber = mhtPhysicalNodeNumber 1 := by
  have above : MD_USER_DATA_SIZE ≤ dataNodeOffset 100 := by decide
  have below : dataNodeOffset 100 < 2 ^ 63 := by decide
  exact ⟨above, below, (getNodeNumbers_layout _ above below).2.2.1⟩

end Gramine.Common.ProtectedFiles
