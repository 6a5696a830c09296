import Goverse.Consensus.Planner

/-! The mapping after a plan: as its planner imagines it, and as a view has it once every
transaction of the plan has been committed and applied. -/
namespace Goverse.Consensus
namespace ClusterState

/-- The view with the entries of a plan in it. -/
def update (state : ClusterState) (plan : Plan) : ClusterState :=
  plan.foldl (fun view entry => { view with shards := view.shards.insert entry.1 entry.2 }) state

/-- The view after `storeShardMapping` has stored every entry, each at a revision that is newer
than the record it replaces. -/
def FullyStored (state : ClusterState) (plan : Plan) (next : ClusterState) : Prop :=
  ∃ revs : Int → Nat, (∀ entry ∈ plan, (state.shard entry.1).modRevision < revs entry.1) ∧
    next = plan.foldl (fun view entry => view.applyStored entry.1 entry.2 (revs entry.1)) state

variable {state next : ClusterState} {plan : Plan} {shardID : Int} {info : ShardInfo}

@[simp] theorem update_append (plan rest : Plan) :
    state.update (plan ++ rest) = (state.update plan).update rest := by
  rw [update, List.foldl_append]
  rfl

@[simp] theorem nodes_update : (state.update plan).nodes = state.nodes := by
  induction plan generalizing state with
  | nil => rfl
  | cons entry plan ih => exact ih

@[simp] theorem hasNode_update (node : GoString) :
    (state.update plan).hasNode node = state.hasNode node := by
  rw [hasNode, nodes_update, hasNode]

theorem lookup_update_of_notMem (h : shardID ∉ plan.map Prod.fst) :
    (state.update plan).shards.lookup shardID = state.shards.lookup shardID := by
  induction plan generalizing state with
  | nil => rfl
  | cons entry plan ih =>
    rw [List.map_cons, List.mem_cons, not_or] at h
    calc
      (state.update (entry :: plan)).shards.lookup shardID
        = (state.shards.insert entry.1 entry.2).lookup shardID := ih h.2
      _ = state.shards.lookup shardID := AList.lookup_insert_ne h.1

theorem lookup_update_of_mem (hnodup : (plan.map Prod.fst).Nodup) (h : (shardID, info) ∈ plan) :
    (state.update plan).shards.lookup shardID = some info := by
  induction plan generalizing state with
  | nil => contradiction
  | cons entry plan ih =>
    rw [List.map_cons, List.nodup_cons] at hnodup
    rcases List.mem_cons.mp h with rfl | h
    · calc
        (state.update ((shardID, info) :: plan)).shards.lookup shardID
          = (state.shards.insert shardID info).lookup shardID := lookup_update_of_notMem hnodup.1
        _ = some info := AList.lookup_insert _
    · exact ih hnodup.2 h

theorem shard_update_of_notMem (h : shardID ∉ plan.map Prod.fst) :
    (state.update plan).shard shardID = state.shard shardID := by
  rw [shard, lookup_update_of_notMem h, shard]

theorem shard_update_of_mem (hnodup : (plan.map Prod.fst).Nodup) (h : (shardID, info) ∈ plan) :
    (state.update plan).shard shardID = info := by
  rw [shard, lookup_update_of_mem hnodup h, Option.getD_some]

section Stored

theorem FullyStored.eq_update (h : state.FullyStored plan next)
    (hnodup : (plan.map Prod.fst).Nodup) : ∃ revs : Int → Nat,
      next = state.update (plan.map fun entry =>
        (entry.1, { entry.2 with modRevision := revs entry.1 })) := by
  obtain ⟨revs, hrevs, rfl⟩ := h
  refine ⟨revs, ?_⟩
  induction plan generalizing state with
  | nil => rfl
  | cons entry plan ih =>
    rw [List.map_cons, List.nodup_cons] at hnodup
    have hstored : state.applyStored entry.1 entry.2 (revs entry.1) =
        { state with shards :=
          state.shards.insert entry.1 { entry.2 with modRevision := revs entry.1 } } :=
      if_pos (hrevs entry List.mem_cons_self)
    rw [List.foldl_cons, hstored]
    apply ih hnodup.2
    intro other hother
    have hne : other.1 ≠ entry.1 := by
      intro hsame
      exact hnodup.1 (hsame ▸ List.mem_map_of_mem hother)
    rw [shard_insert_of_ne hne]
    exact hrevs other (List.mem_cons_of_mem _ hother)

variable (h : state.FullyStored plan next) (hnodup : (plan.map Prod.fst).Nodup)
include h hnodup

theorem FullyStored.nodes_eq : next.nodes = state.nodes := by
  obtain ⟨revs, rfl⟩ := h.eq_update hnodup
  exact nodes_update

theorem FullyStored.lookup_of_mem (hmem : (shardID, info) ∈ plan) :
    ∃ rev, next.shards.lookup shardID = some { info with modRevision := rev } := by
  obtain ⟨revs, rfl⟩ := h.eq_update hnodup
  refine ⟨revs shardID, lookup_update_of_mem ?_ ?_⟩
  · rw [List.map_map]
    exact hnodup
  · exact List.mem_map.mpr ⟨_, hmem, rfl⟩

theorem FullyStored.lookup_of_notMem (hmem : shardID ∉ plan.map Prod.fst) :
    next.shards.lookup shardID = state.shards.lookup shardID := by
  obtain ⟨revs, rfl⟩ := h.eq_update hnodup
  apply lookup_update_of_notMem
  rw [List.map_map]
  exact hmem

theorem FullyStored.record_eq (shardID : Int) :
    (next.shard shardID).toShardRecord = ((state.update plan).shard shardID).toShardRecord := by
  by_cases hmem : shardID ∈ plan.map Prod.fst
  · obtain ⟨⟨id, info⟩, hentry, rfl⟩ := List.mem_map.mp hmem
    obtain ⟨rev, hlookup⟩ := h.lookup_of_mem hnodup hentry
    rw [shard, hlookup, shard_update_of_mem hnodup hentry]
    rfl
  · rw [shard, h.lookup_of_notMem hnodup hmem, shard_update_of_notMem hmem, shard]

end Stored

section Examples

/-- A view of some nodes, with the records of the shards from 0 on, all written at revision 1. -/
def ofRecords (nodes : List GoString) (records : List ShardRecord) : ClusterState :=
  { ClusterState.empty with
    nodes := nodes.foldl (fun map node => map.insert node true) ∅
    shards := records.zipIdx.foldl (fun map (record, i) => map.insert (i : Int) ⟨record, 1⟩) ∅ }

/-- Every entry is stored at the revision after that of the record it replaces. -/
def stored (state : ClusterState) (plan : Plan) : ClusterState :=
  plan.foldl (fun view entry =>
    view.applyStored entry.1 entry.2 ((state.shard entry.1).modRevision + 1)) state

theorem fullyStored_stored (state : ClusterState) (plan : Plan) :
    state.FullyStored plan (state.stored plan) :=
  ⟨fun shardID => (state.shard shardID).modRevision + 1, fun _ _ => Nat.lt_succ_self _, rfl⟩

end Examples

end ClusterState
end Goverse.Consensus
