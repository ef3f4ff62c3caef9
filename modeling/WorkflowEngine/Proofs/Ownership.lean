import WorkflowEngine.Cluster.Assignment
import WorkflowEngine.Cluster.Topology
import Mathlib.Data.List.Nodup
import Mathlib.Data.List.Pairwise
import Mathlib.Order.Monotone.Basic

/-! # Sharing the Partitions of a Cluster

    Nodes that share the partitions of a cluster cut the list of them into as
    many chunks as there are nodes. Each chunk starts where the one before it
    ends, the first one at the front and the last one up to the end, so that
    the chunks put together are the list. All that follows about who owns what
    comes from there.
-/

namespace WorkflowEngine

/-! ## Where a chunk starts and ends -/

section Chunks

variable {α : Type} (items : List α) (n count index : Nat)

theorem chunkStart_zero : chunkStart n count 0 = 0 := by
  simp [chunkStart]

/-- A chunk starts where the one before it ends. -/
theorem chunkStart_succ :
    chunkStart n count (index + 1) = chunkStart n count index + chunkLength n count index := by
  have hquotient : (index + 1) * (n / count) = index * (n / count) + n / count :=
    Nat.succ_mul index (n / count)
  -- The front chunks have taken one more each, as far as there was one left over.
  have hleft : min (index + 1) (n % count) =
      min index (n % count) + if index < n % count then 1 else 0 := by
    split <;> omega
  unfold chunkStart chunkLength
  omega

/-- The last chunk ends where the list does. -/
theorem chunkStart_count {count : Nat} (hcount : 0 < count) : chunkStart n count count = n := by
  have hleft : min count (n % count) = n % count :=
    Nat.min_eq_right (Nat.le_of_lt (Nat.mod_lt n hcount))
  unfold chunkStart
  rw [hleft, Nat.div_add_mod]

theorem chunkStart_mono : Monotone (chunkStart n count) := by
  refine monotone_nat_of_le_succ fun index => ?_
  rw [chunkStart_succ]
  exact Nat.le_add_right _ _

variable {n count index}

/-- A chunk ends within the list. -/
theorem chunkEnd_le (hindex : index < count) :
    chunkStart n count index + chunkLength n count index ≤ n := by
  -- The end is where the next chunk starts, and no chunk starts behind the list.
  have hmono : chunkStart n count (index + 1) ≤ chunkStart n count count :=
    chunkStart_mono n count hindex
  rw [chunkStart_count n (by omega)] at hmono
  rwa [← chunkStart_succ]

theorem length_chunk (hindex : index < count) :
    (chunk items count index).length = chunkLength items.length count index := by
  have hend : chunkStart items.length count index + chunkLength items.length count index ≤
      items.length := chunkEnd_le hindex
  rw [chunk, if_pos hindex, List.length_take, List.length_drop]
  omega

/-- The first chunks are the front of the list, up to where the next one starts. -/
theorem flatMap_chunk (k : Nat) (hk : k ≤ count) :
    (List.range k).flatMap (chunk items count) =
      items.take (chunkStart items.length count k) := by
  induction k with
  | zero => simp [chunkStart_zero]
  | succ k ih =>
    have hlast : chunk items count k =
        (items.drop (chunkStart items.length count k)).take
          (chunkLength items.length count k) := if_pos hk
    -- What the next chunk adds is what lies between its start and its end.
    rw [List.range_succ, List.flatMap_append, ih (by omega), List.flatMap_singleton, hlast,
      chunkStart_succ, List.take_add]

theorem chunk_sublist (count index : Nat) : (chunk items count index).Sublist items := by
  unfold chunk
  split
  · exact (List.take_sublist _ _).trans (List.drop_sublist _ _)
  · exact List.nil_sublist items

end Chunks

/-! ## What the nodes own -/

namespace Assignment

variable {ids : List PartitionId} {nodeCount : Nat}

theorem select_sharded {nodeId : Nat} (hnode : nodeId < nodeCount) :
    (sharded nodeCount nodeId).select ids = chunk ids nodeCount nodeId := by
  simp [select, selectLogged, Nat.not_le.mpr hnode]

/-- The owned partitions are partitions of the cluster, in its order and no more
    often than there. -/
theorem select_sublist (a : Assignment) (ids : List PartitionId) :
    (a.select ids).Sublist ids := by
  cases a with
  | all => exact List.Sublist.refl ids
  | explicit configured => exact List.filter_sublist
  | sharded nodeCount nodeId =>
    by_cases hnode : nodeId < nodeCount
    · rw [select_sharded hnode]
      exact chunk_sublist ids nodeCount nodeId
    · have hnone : (sharded nodeCount nodeId).select ids = [] := by
        simp [select, selectLogged, Nat.not_lt.mp hnode]
      rw [hnone]
      exact List.nil_sublist ids

theorem flatMap_select (ids : List PartitionId) (hcount : 1 ≤ nodeCount) :
    ((List.range nodeCount).flatMap fun node => (sharded nodeCount node).select ids) = ids := by
  have hshares : ((List.range nodeCount).flatMap fun node => (sharded nodeCount node).select ids) =
      (List.range nodeCount).flatMap (chunk ids nodeCount) :=
    List.flatMap_congr fun node hnode => select_sharded (List.mem_range.mp hnode)
  rw [hshares, flatMap_chunk ids nodeCount (Nat.le_refl nodeCount),
    chunkStart_count ids.length hcount, List.take_length]

/-- Shares that overlap would list a partition twice. -/
theorem owner_unique (hnodup : ids.Nodup) {id : PartitionId} {node other : Nat}
    (hnode : node < nodeCount) (hother : other < nodeCount)
    (hmem : id ∈ (sharded nodeCount node).select ids)
    (hmem' : id ∈ (sharded nodeCount other).select ids) : other = node := by
  have hapart : (List.range nodeCount).Pairwise
      (Function.onFun List.Disjoint fun node => (sharded nodeCount node).select ids) := by
    rw [← flatMap_select ids (by omega : 1 ≤ nodeCount)] at hnodup
    exact (List.nodup_flatMap.mp hnodup).2
  have hsymm : Std.Symm
      (Function.onFun List.Disjoint fun node => (sharded nodeCount node).select ids) :=
    ⟨fun _ _ h _ hmem hmem' => h hmem' hmem⟩
  by_contra hne
  exact hapart.forall (List.mem_range.mpr hother) (List.mem_range.mpr hnode) hne hmem' hmem

/-- How so many nodes share a list of partitions. -/
structure Shared (ids : List PartitionId) (nodeCount : Nat) : Prop where
  /-- One node after the other, they own the whole list. -/
  whole : ((List.range nodeCount).flatMap fun node => (sharded nodeCount node).select ids) = ids
  /-- A later node owns no more than an earlier one, and less by at most one. -/
  even : ∀ first later, first ≤ later → later < nodeCount →
    ((sharded nodeCount later).select ids).length ≤
        ((sharded nodeCount first).select ids).length ∧
      ((sharded nodeCount first).select ids).length ≤
        ((sharded nodeCount later).select ids).length + 1
  /-- No number that comes up on the way to a share exceeds the length of the
      list, and the share ends within the list. -/
  bounded : ∀ node, node < nodeCount →
    node * (ids.length / nodeCount) ≤ ids.length ∧
      chunkStart ids.length nodeCount node ≤ ids.length ∧
      chunkLength ids.length nodeCount node ≤ ids.length ∧
      chunkStart ids.length nodeCount node + chunkLength ids.length nodeCount node ≤ ids.length
  /-- A partition that is listed once has one owner. -/
  owner : ids.Nodup → ∀ id ∈ ids,
    ∃! node, node < nodeCount ∧ id ∈ (sharded nodeCount node).select ids

theorem shared (ids : List PartitionId) (hcount : 1 ≤ nodeCount) : Shared ids nodeCount where
  whole := flatMap_select ids hcount
  even first later horder hlater := by
    have hfirst : first < nodeCount := by omega
    rw [select_sharded hlater, select_sharded hfirst, length_chunk ids hlater,
      length_chunk ids hfirst]
    unfold chunkLength
    split <;> split <;> omega
  bounded node hnode := by
    have hend : chunkStart ids.length nodeCount node + chunkLength ids.length nodeCount node ≤
        ids.length := chunkEnd_le hnode
    have hstart : node * (ids.length / nodeCount) ≤ chunkStart ids.length nodeCount node :=
      Nat.le_add_right _ _
    omega
  owner hnodup id hid := by
    rw [← flatMap_select ids hcount] at hid
    obtain ⟨node, hnode, hmem⟩ := List.mem_flatMap.mp hid
    refine ⟨node, ⟨List.mem_range.mp hnode, hmem⟩, ?_⟩
    rintro other ⟨hother, hmem'⟩
    exact owner_unique hnodup (List.mem_range.mp hnode) hother hmem hmem'

/-- A share that exists, or another way to pick partitions. -/
def Valid : Assignment → Prop
  | sharded nodeCount nodeId => nodeId < nodeCount
  | _ => True

theorem warnings_of_valid {a : Assignment} (hvalid : a.Valid) (ids : List PartitionId) :
    a.warnings ids = [] := by
  cases a with
  | all => rfl
  | explicit configured => rfl
  | sharded nodeCount nodeId =>
    have hnode : ¬ nodeCount ≤ nodeId := Nat.not_le.mpr hvalid
    simp [warnings, selectLogged, hnode]

end Assignment

theorem Topology.partitionIds_increasing (t : Topology) : t.partitionIds.Pairwise (· < ·) :=
  List.pairwise_lt_range'

/-- **Sharding partitions the cluster.** Nodes that share the partitions own
    each of them once and about as many of them each; a share that does not
    exist is empty and logged once, and nothing else is logged. Whatever the
    assignment, a node owns partitions in their order and none of them twice. -/
theorem Assignment.sharding_partitions_cluster :
    (∀ (ids : List PartitionId) (nodeCount : Nat), 1 ≤ nodeCount → Shared ids nodeCount) ∧
    (∀ (ids : List PartitionId) (nodeCount nodeId : Nat), nodeCount ≤ nodeId →
      (sharded nodeCount nodeId).select ids = [] ∧
        (sharded nodeCount nodeId).warnings ids = [{ nodeId, nodeCount }]) ∧
    (∀ (a : Assignment) (ids : List PartitionId), a.Valid → a.warnings ids = []) ∧
    (∀ (a : Assignment) (ids : List PartitionId), (a.select ids).Sublist ids) ∧
    (∀ (a : Assignment) (t : Topology), (a.select t.partitionIds).Pairwise (· < ·) ∧
      ∀ id, (a.select t.partitionIds).count id ≤ 1) := by
  refine ⟨fun ids nodeCount hcount => shared ids hcount, ?_,
    fun a ids hvalid => warnings_of_valid hvalid ids, select_sublist, ?_⟩
  · intro ids nodeCount nodeId hnode
    simp [select, warnings, selectLogged, hnode]
  · intro a t
    have hincreasing : (a.select t.partitionIds).Pairwise (· < ·) :=
      t.partitionIds_increasing.sublist (a.select_sublist t.partitionIds)
    have hnodup : (a.select t.partitionIds).Nodup := hincreasing.imp Nat.ne_of_lt
    exact ⟨hincreasing, List.nodup_iff_count_le_one.mp hnodup⟩

/-- Seven partitions that three nodes share, and a fourth that takes itself for
    one of them. -/
theorem Assignment.three_nodes_share_seven_partitions :
    (List.range 3).map (fun node => (sharded 3 node).select [1, 2, 3, 4, 5, 6, 7]) =
        [[1, 2, 3], [4, 5], [6, 7]] ∧
      (∃! node, node < 3 ∧ 5 ∈ (sharded 3 node).select [1, 2, 3, 4, 5, 6, 7]) ∧
      (sharded 3 3).warnings [1, 2, 3, 4, 5, 6, 7] = [{ nodeId := 3, nodeCount := 3 }] ∧
      (sharded 3 2).warnings [1, 2, 3, 4, 5, 6, 7] = [] := by
  obtain ⟨hshared, hnone, hvalid, -, -⟩ := sharding_partitions_cluster
  have hthree := hshared [1, 2, 3, 4, 5, 6, 7] 3 (by decide)
  exact ⟨by decide, hthree.owner (by decide) 5 (by decide), (hnone _ 3 3 (by decide)).2,
    hvalid (sharded 3 2) _ (by decide : 2 < 3)⟩

end WorkflowEngine
