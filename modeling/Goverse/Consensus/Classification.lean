import Goverse.Consensus.ClusterState

/-! Routing, shard locking, eviction and the object count of a release each decide from the
text of an ID whether it belongs to a shard. Routing parses the ID; the others look for a
slash. -/
namespace Goverse.Consensus

open GoString Sharding ClusterState

/-- An ID that routing resolves through the shard map is locked by, evicted with and counted
for the shard of `getShardID`; one that names its node takes no lock and is neither evicted
nor counted. -/
def ClassifiedAlike (c : Config) (state : ClusterState) (self : GoString)
    (objectIDs : List GoString) (objectID : GoString) (parsed : ParsedObjectID) : Prop :=
  if parsed.isFixedNodeFormat then
    state.getCurrentNodeForObject c objectID = .ok parsed.nodeAddress ∧
    acquireRead c.numShards objectID = none ∧
    objectID ∉ state.getObjectsToEvict c self objectIDs ∧
    ∀ shardID, localObjects c (objectID :: objectIDs) shardID = localObjects c objectIDs shardID
  else
    let shardID := getShardID objectID c.numShards
    state.getCurrentNodeForObject c objectID = state.currentNodeOfShard shardID ∧
    acquireRead c.numShards objectID = some (shardLockKey shardID) ∧
    (objectID ∈ objectIDs →
      (∀ info ∈ state.shards.lookup shardID, info.currentNode ≠ self ∨ info.targetNode ≠ self) →
      objectID ∈ state.getObjectsToEvict c self objectIDs) ∧
    localObjects c (objectID :: objectIDs) shardID = localObjects c objectIDs shardID + 1

private theorem getCurrentNodeForObject_of_validate {c : Config} {state : ClusterState}
    {objectID : GoString} {parsed : ParsedObjectID}
    (h : validateObjectID objectID c.numShards = .ok parsed) :
    state.getCurrentNodeForObject c objectID =
      if parsed.isFixedNodeFormat then .ok parsed.nodeAddress
      else state.currentNodeOfShard (getShardID objectID c.numShards) := by
  simp only [getCurrentNodeForObject, h]

section Slash

variable {c : Config} {state : ClusterState} {self objectID : GoString}
  {objectIDs : List GoString}

private theorem not_mem_getObjectsToEvict (h : objectID.contains slash = true) :
    objectID ∉ state.getObjectsToEvict c self objectIDs := by
  unfold getObjectsToEvict
  split
  · simp
  · intro hmem
    have := (List.mem_filter.mp hmem).2
    rw [h] at this
    contradiction

private theorem localObjects_cons_of_slash (h : objectID.contains slash = true) (shardID : Int) :
    localObjects c (objectID :: objectIDs) shardID = localObjects c objectIDs shardID := by
  apply List.countP_cons_of_neg
  rw [h]
  simp

private theorem mem_getObjectsToEvict (h : objectID.contains slash = false)
    (hself : state.hasNode self = true) (hmem : objectID ∈ objectIDs)
    (hrecord : ∀ info ∈ state.shards.lookup (getShardID objectID c.numShards),
      info.currentNode ≠ self ∨ info.targetNode ≠ self) :
    objectID ∈ state.getObjectsToEvict c self objectIDs := by
  unfold getObjectsToEvict
  rw [if_neg (by simp [hself])]
  refine List.mem_filter.mpr ⟨hmem, ?_⟩
  rw [h]
  cases hlookup : state.shards.lookup (getShardID objectID c.numShards) with
  | none => rfl
  | some info => simpa using hrecord info hlookup

private theorem localObjects_cons_of_not_slash (h : objectID.contains slash = false) :
    localObjects c (objectID :: objectIDs) (getShardID objectID c.numShards) =
      localObjects c objectIDs (getShardID objectID c.numShards) + 1 := by
  apply List.countP_cons_of_pos
  rw [h]
  simp

end Slash

/-- The paths agree on every accepted ID except those of the form `shard#N/...`, which
routing resolves through the shard map and the others take for IDs with a fixed node. -/
theorem classified_alike_iff_not_fixedShard (c : Config) (state : ClusterState)
    (self : GoString) (objectIDs : List GoString) (objectID : GoString) (parsed : ParsedObjectID)
    (hself : state.hasNode self = true)
    (haccepted : validateObjectID objectID c.numShards = .ok parsed) :
    ClassifiedAlike c state self objectIDs objectID parsed ↔ parsed.type ≠ .fixedShard := by
  have hroute : state.getCurrentNodeForObject c objectID = _ :=
    getCurrentNodeForObject_of_validate haccepted
  have hslash := contains_slash_of_validateObjectID haccepted
  cases htype : parsed.type with
  | fixedNode =>
    have hfixed : parsed.isFixedNodeFormat = true := by
      simp [ParsedObjectID.isFixedNodeFormat, htype]
    have hcontains : objectID.contains slash = true := hslash.mpr (by simp [htype])
    rw [if_pos hfixed] at hroute
    refine iff_of_true ?_ nofun
    rw [ClassifiedAlike, if_pos hfixed]
    refine ⟨hroute, ?_, not_mem_getObjectsToEvict hcontains, localObjects_cons_of_slash hcontains⟩
    rw [acquireRead, if_pos hcontains]
  | regular =>
    have hfixed : ¬ parsed.isFixedNodeFormat = true := by
      simp [ParsedObjectID.isFixedNodeFormat, htype]
    have hcontains : objectID.contains slash = false :=
      eq_false_of_ne_true fun h => hslash.mp h htype
    rw [if_neg hfixed] at hroute
    refine iff_of_true ?_ nofun
    rw [ClassifiedAlike, if_neg hfixed]
    refine ⟨hroute, ?_, mem_getObjectsToEvict hcontains hself,
      localObjects_cons_of_not_slash hcontains⟩
    rw [acquireRead, if_neg (ne_true_of_eq_false hcontains)]
  | fixedShard =>
    have hfixed : ¬ parsed.isFixedNodeFormat = true := by
      simp [ParsedObjectID.isFixedNodeFormat, htype]
    have hcontains : objectID.contains slash = true := hslash.mpr (by simp [htype])
    refine iff_of_false ?_ (by simp)
    rw [ClassifiedAlike, if_neg hfixed]
    rintro ⟨-, hlock, -⟩
    rw [acquireRead, if_pos hcontains] at hlock
    contradiction

section Examples

/-- Shard 0 belongs to `b`. -/
def heldByB : ClusterState :=
  { ClusterState.empty with
    nodes := ((∅ : AList fun _ : GoString => Bool).insert (lit "a") true).insert (lit "b") true
    shards := (∅ : AList fun _ : Int => ShardInfo).insert 0 ⟨⟨lit "b", lit "b", []⟩, 1⟩ }

/-- `shard#0/x` is routed to `b` through the shard map. On `a` it takes no shard lock, is
not evicted and does not count for shard 0. -/
theorem fixedShard_id_is_not_locked_evicted_or_counted :
    ∃ parsed, validateObjectID (lit "shard#0/x") twoShards.numShards = .ok parsed ∧
      parsed.isFixedNodeFormat = false ∧
      getShardID (lit "shard#0/x") twoShards.numShards = 0 ∧
      heldByB.hasNode (lit "a") = true ∧
      heldByB.getCurrentNodeForObject twoShards (lit "shard#0/x") = .ok (lit "b") ∧
      acquireRead twoShards.numShards (lit "shard#0/x") = none ∧
      heldByB.getObjectsToEvict twoShards (lit "a") [lit "shard#0/x"] = [] ∧
      localObjects twoShards [lit "shard#0/x"] 0 = 0 ∧
      ¬ ClassifiedAlike twoShards heldByB (lit "a") [lit "shard#0/x"] (lit "shard#0/x") parsed := by
  refine ⟨⟨.fixedShard, lit "shard#0/x", 0, [], lit "x"⟩, rfl, rfl, by decide, by decide, rfl,
    by decide, by decide, by decide, ?_⟩
  rintro ⟨-, hlock, -⟩
  exact absurd hlock (by decide)

theorem classified_alike_regular :
    ClassifiedAlike twoShards heldByB (lit "a") [lit "x"] (lit "x")
      ⟨.regular, lit "x", 0, [], lit "x"⟩ :=
  (classified_alike_iff_not_fixedShard twoShards heldByB (lit "a") [lit "x"] (lit "x")
    ⟨.regular, lit "x", 0, [], lit "x"⟩ (by decide) rfl).mpr (by decide)

end Examples
end Goverse.Consensus
