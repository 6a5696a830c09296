import Goverse.Util.UniqueId
import Goverse.Consensus.Classification

/-! Routing of an object and routing of a shard. `GetCurrentNodeForObject` refuses a shard that is
being moved and `GetNodeForShard` does not, so the second answers whenever the first does. -/
namespace Goverse.Consensus

open GoString Sharding ClusterState

inductive ShardRouteError where
  | invalidShardID (shardID : Int)
  | noNodeAssigned (shardID : Int)
  | notClaimed (shardID : Int)
  | notActive (currentNode : GoString) (shardID : Int)
  deriving DecidableEq, Repr

def ClusterState.getNodeForShard (c : Config) (state : ClusterState) (shardID : Int) :
    Except ShardRouteError GoString :=
  if shardID < 0 ∨ c.numShards ≤ shardID then .error (.invalidShardID shardID)
  else
    match state.shards.lookup shardID with
    | none => .error (.noNodeAssigned shardID)
    | some info =>
      if info.currentNode = [] then .error (.notClaimed shardID)
      else if state.hasNode info.currentNode = false then
        .error (.notActive info.currentNode shardID)
      else .ok info.currentNode

section Shards

variable {c : Config} {state : ClusterState} {shardID : Int} {node : GoString}

/-- What the record of a shard is like when objects are routed through it. -/
structure ServedBy (state : ClusterState) (shardID : Int) (node : GoString) : Prop where
  record : ∃ info, state.shards.lookup shardID = some info ∧ info.currentNode = node ∧
    (info.targetNode = [] ∨ info.targetNode = node)
  claimed : node ≠ []
  live : state.hasNode node = true

theorem currentNodeOfShard_ok (h : state.currentNodeOfShard shardID = .ok node) :
    ServedBy state shardID node := by
  unfold currentNodeOfShard at h
  split at h
  · contradiction
  · rename_i info hlookup
    split at h
    · contradiction
    · rename_i hclaimed
      split at h
      · contradiction
      · rename_i hlive
        split at h
        · contradiction
        · rename_i hstays
          cases h
          rw [not_and, not_not] at hstays
          rw [Bool.not_eq_false] at hlive
          refine ⟨⟨info, hlookup, rfl, ?_⟩, hclaimed, hlive⟩
          by_cases htarget : info.targetNode = []
          · exact .inl htarget
          · exact .inr (hstays htarget)

theorem ServedBy.getNodeForShard (h : ServedBy state shardID node) (hvalid : c.ValidShard shardID) :
    state.getNodeForShard c shardID = .ok node := by
  obtain ⟨⟨info, hlookup, rfl, -⟩, hclaimed, hlive⟩ := h
  have hrange : ¬ (shardID < 0 ∨ c.numShards ≤ shardID) := by
    have := hvalid.1
    have := hvalid.2
    omega
  rw [ClusterState.getNodeForShard, if_neg hrange, hlookup]
  dsimp only
  rw [if_neg hclaimed, if_neg (by rw [hlive]; decide)]

end Shards

/-- What the routing of an ID says about the ID and the state. -/
structure RoutedSoundly (c : Config) (state : ClusterState) (objectID : GoString) : Prop where
  routed : ∀ node, state.getCurrentNodeForObject c objectID = .ok node →
    (∃ parsed, validateObjectID objectID c.numShards = .ok parsed ∧
      parsed.isFixedNodeFormat = true ∧ slash ∈ objectID ∧ node = (objectID.cut slash).1) ∨
    (ServedBy state (getShardID objectID c.numShards) node ∧
      state.getNodeForShard c (getShardID objectID c.numShards) = .ok node)
  range : c.ValidShard (getShardID objectID c.numShards)
  fixedShard : ∀ parsed, validateObjectID objectID c.numShards = .ok parsed →
    parsed.type = .fixedShard → getShardID objectID c.numShards = parsed.shardID

theorem routing_is_sound (c : Config) (state : ClusterState) :
    (∀ objectID, RoutedSoundly c state objectID) ∧
      ∀ shardID ts random, c.ValidShard shardID →
        ∃ objectID parsed, createObjectIDOnShard shardID c.numShards ts random = some objectID ∧
          validateObjectID objectID c.numShards = .ok parsed ∧ parsed.type = .fixedShard ∧
          getShardID objectID c.numShards = shardID := by
  constructor
  · intro objectID
    have hrange : c.ValidShard (getShardID objectID c.numShards) :=
      getShardID_mem_range c.numShards_pos objectID
    refine ⟨fun node hnode => ?_, hrange, fun parsed => getShardID_of_validateObjectID⟩
    unfold getCurrentNodeForObject at hnode
    split at hnode
    · contradiction
    · rename_i parsed haccepted
      split at hnode
      · rename_i hfixed
        cases hnode
        refine .inl ⟨parsed, haccepted, hfixed, ?_⟩
        cases (validateObjectID_ok haccepted).1 with
        | regular | fixedShard => contradiction
        | fixedNode hslash => exact ⟨hslash, rfl⟩
      · have hserves := currentNodeOfShard_ok hnode
        exact .inr ⟨hserves, hserves.getNodeForShard hrange⟩
  · intro shardID ts random hvalid
    obtain ⟨objectID, hcreated, haccepted⟩ :=
      createObjectIDOnShard_accepted c.numShards_lt hvalid.1 hvalid.2 ts random
    exact ⟨objectID, _, hcreated, haccepted, rfl, getShardID_of_validateObjectID haccepted rfl⟩

/-- `shard#+00/x` is accepted for shard 0, and `b` serves it. -/
theorem routing_is_sound_signed :
    heldByB.getCurrentNodeForObject twoShards (lit "shard#+00/x") = .ok (lit "b") ∧
      ServedBy heldByB 0 (lit "b") ∧ heldByB.getNodeForShard twoShards 0 = .ok (lit "b") := by
  have hroute : heldByB.getCurrentNodeForObject twoShards (lit "shard#+00/x") = .ok (lit "b") := rfl
  have hshard : getShardID (lit "shard#+00/x") twoShards.numShards = 0 := by decide
  rcases ((routing_is_sound twoShards heldByB).1 _).routed _ hroute with
    ⟨parsed, haccepted, hfixed, -⟩ | hserves
  · cases haccepted
    contradiction
  · rw [hshard] at hserves
    exact ⟨hroute, hserves⟩

end Goverse.Consensus
