import Goverse.Consensus.Handover
import Goverse.Consensus.Routing

/-! The objects that `auto_load_objects` of the configuration asks for. Every node goes through the
list and calls `CreateObject` for those that are its own, without asking the others. -/
namespace Goverse.Cluster

open GoString Sharding Consensus ClusterState

structure AutoLoadObjectConfig where
  type : GoString
  id : GoString
  perShard : Bool
  perNode : Bool
  deriving DecidableEq, Repr

def perShardID (baseName : GoString) (shardID : Int) : GoString :=
  shardPrefix ++ itoa shardID ++ slash :: baseName

def perNodeID (baseName nodeAddr : GoString) : GoString := nodeAddr ++ slash :: baseName

def generateAutoLoadIDs (c : Config) (state : ClusterState) (cfg : AutoLoadObjectConfig) :
    List GoString :=
  if cfg.perShard then (shardIDs c).map (perShardID cfg.id)
  else if cfg.perNode then state.nodes.keys.map (perNodeID cfg.id)
  else [cfg.id]

/-- `GetNodeForShard` gives the address of the node that asks. -/
def isLocalShard (c : Config) (state : ClusterState) (localAddr : GoString) (shardID : Int) :
    Bool :=
  match state.getNodeForShard c shardID with
  | .error _ => false
  | .ok nodeAddr => nodeAddr = localAddr

/-- `CreateObject` refuses the ID if it does not parse or leads nowhere. -/
def loadSingleObject (c : Config) (state : ClusterState) (localAddr : GoString)
    (cfg : AutoLoadObjectConfig) : List GoString :=
  if isLocalShard c state localAddr (getShardID cfg.id c.numShards) then [cfg.id] else []

def loadPerShardObject (c : Config) (state : ClusterState) (localAddr : GoString)
    (cfg : AutoLoadObjectConfig) : List GoString :=
  ((shardIDs c).filter (isLocalShard c state localAddr)).map (perShardID cfg.id)

def loadPerNodeObject (localAddr : GoString) (cfg : AutoLoadObjectConfig) : List GoString :=
  if localAddr = [] then [] else [perNodeID cfg.id localAddr]

/-- The IDs for which one turn of the loop of `loadAutoLoadObjects` calls `CreateObject`. -/
def loadAutoLoadObject (c : Config) (state : ClusterState) (localAddr : GoString)
    (cfg : AutoLoadObjectConfig) : List GoString :=
  if cfg.perShard then loadPerShardObject c state localAddr cfg
  else if cfg.perNode then loadPerNodeObject localAddr cfg
  else loadSingleObject c state localAddr cfg

def loadAutoLoadObjects (c : Config) (state : ClusterState) (localAddr : GoString) (now : Int)
    (cfgs : List AutoLoadObjectConfig) : List (GoString × GoString) :=
  if state.isStateStable c localAddr now = false then []
  else cfgs.flatMap fun cfg =>
    (loadAutoLoadObject c state localAddr cfg).map fun objectID => (cfg.type, objectID)

/-- One node calls `CreateObject` for the object, and no other does. -/
structure PlacedOn (c : Config) (state : ClusterState) (cfg : AutoLoadObjectConfig)
    (objectID node : GoString) : Prop where
  live : state.hasNode node = true
  loaded : objectID ∈ loadAutoLoadObject c state node cfg
  unique : ∀ other, state.hasNode other = true →
    objectID ∈ loadAutoLoadObject c state other cfg → other = node

section Settled

variable {c : Config} {state : ClusterState} {cfg : AutoLoadObjectConfig} (h : Settled c state)
  (haddresses : ∀ node, state.hasNode node = true →
    node ≠ [] ∧ slash ∉ node ∧ hasPrefix node shardPrefix = false)
include h haddresses

theorem owner_of_settled {shardID : Int} (hvalid : c.ValidShard shardID) :
    ∃ node, state.hasNode node = true ∧ state.currentNodeOfShard shardID = .ok node ∧
      ∀ localAddr, isLocalShard c state localAddr shardID = true ↔ node = localAddr := by
  have hempty : state.hasNode [] = false := by
    by_contra hlive
    exact (haddresses [] (Bool.not_eq_false _ ▸ hlive)).1 rfl
  obtain ⟨info, hinfo⟩ :=
    Option.isSome_iff_exists.mp (AList.lookup_isSome.mpr (h.mem_shards hempty hvalid))
  obtain ⟨hmatch, hlive⟩ := h.shards shardID hvalid
  rw [shard, hinfo, Option.getD_some] at hmatch hlive
  rw [hmatch] at hlive
  have hroute : state.currentNodeOfShard shardID = .ok info.currentNode := by
    rw [currentNodeOfShard, hinfo]
    simp [(haddresses _ hlive).1, hlive, hmatch]
  refine ⟨_, hlive, hroute, fun localAddr => ?_⟩
  rw [isLocalShard, (currentNodeOfShard_ok hroute).getNodeForShard hvalid]
  exact decide_eq_true_iff

private theorem placed_perShard (hcfg : cfg.perShard = true) {shardID : Int}
    (hvalid : c.ValidShard shardID) : ∃ node,
      PlacedOn c state cfg (perShardID cfg.id shardID) node ∧
      state.getCurrentNodeForObject c (perShardID cfg.id shardID) = .ok node := by
  obtain ⟨node, hlive, hroute, howner⟩ := owner_of_settled h haddresses hvalid
  have hload : ∀ localAddr, loadAutoLoadObject c state localAddr cfg =
      loadPerShardObject c state localAddr cfg := fun _ => if_pos hcfg
  refine ⟨node, ⟨hlive, ?_, fun other _ hmem => ?_⟩, ?_⟩
  · rw [hload, loadPerShardObject]
    exact List.mem_map_of_mem
      (List.mem_filter.mpr ⟨mem_shardIDs.mpr hvalid, (howner node).mpr rfl⟩)
  · rw [hload, loadPerShardObject] at hmem
    obtain ⟨shardID', hlocal, hsame⟩ := List.mem_map.mp hmem
    cases itoa_injective (List.append_cancel_left (List.append_cancel_right hsame))
    exact ((howner other).mp (List.mem_filter.mp hlocal).2).symm
  · have haccepted := validateObjectID_fixedShard c.numShards_lt hvalid.1 hvalid.2 cfg.id
    have hshard := getShardID_of_validateObjectID haccepted rfl
    rw [getCurrentNodeForObject, perShardID, haccepted, hshard]
    exact hroute

omit h in
private theorem placed_perNode (hshard : cfg.perShard = false) (hcfg : cfg.perNode = true)
    {node : GoString} (hlive : state.hasNode node = true) :
    PlacedOn c state cfg (perNodeID cfg.id node) node ∧
      state.getCurrentNodeForObject c (perNodeID cfg.id node) = .ok node := by
  obtain ⟨hne, hslash, hplain⟩ := haddresses node hlive
  have hload : ∀ localAddr, state.hasNode localAddr = true →
      loadAutoLoadObject c state localAddr cfg = [perNodeID cfg.id localAddr] := by
    intro localAddr hlocal
    simp [loadAutoLoadObject, loadPerNodeObject, hshard, hcfg, (haddresses localAddr hlocal).1]
  refine ⟨⟨hlive, ?_, fun other hother hmem => ?_⟩, ?_⟩
  · rw [hload node hlive]
    exact List.mem_singleton_self _
  · rw [hload other hother, List.mem_singleton] at hmem
    exact (List.append_cancel_right hmem).symm
  · rw [getCurrentNodeForObject, validateObjectID, parseObjectID, perNodeID, if_neg (by simp),
      if_pos (by simp), cut_append hslash]
    simp [hplain, hne, ParsedObjectID.isFixedNodeFormat]

private theorem placed_single (hshard : cfg.perShard = false) (hcfg : cfg.perNode = false) :
    ∃ node, PlacedOn c state cfg cfg.id node := by
  obtain ⟨node, hlive, -, howner⟩ := owner_of_settled h haddresses
    (getShardID_mem_range c.numShards_pos cfg.id)
  have hload : ∀ localAddr, cfg.id ∈ loadAutoLoadObject c state localAddr cfg ↔
      node = localAddr := by
    intro localAddr
    simp [loadAutoLoadObject, loadSingleObject, hshard, hcfg, howner]
  exact ⟨node, hlive, (hload node).mpr rfl, fun other _ hmem => ((hload other).mp hmem).symm⟩

private theorem placed_of_settled {objectID : GoString}
    (hid : objectID ∈ generateAutoLoadIDs c state cfg) :
    ∃ node, PlacedOn c state cfg objectID node ∧ (cfg.perShard = true ∨ cfg.perNode = true →
      state.getCurrentNodeForObject c objectID = .ok node) := by
  unfold generateAutoLoadIDs at hid
  split at hid
  · rename_i hcfg
    obtain ⟨shardID, hvalid, rfl⟩ := List.mem_map.mp hid
    obtain ⟨node, hplaced, hroute⟩ :=
      placed_perShard h haddresses hcfg (mem_shardIDs.mp hvalid)
    exact ⟨node, hplaced, fun _ => hroute⟩
  · rename_i hshard
    rw [Bool.not_eq_true] at hshard
    split at hid
    · rename_i hcfg
      obtain ⟨node, hlive, rfl⟩ := List.mem_map.mp hid
      obtain ⟨hplaced, hroute⟩ :=
        placed_perNode haddresses hshard hcfg (AList.lookup_isSome.mpr hlive)
      exact ⟨node, hplaced, fun _ => hroute⟩
    · rename_i hcfg
      cases List.mem_singleton.mp hid
      obtain ⟨node, hplaced⟩ := placed_single h haddresses hshard (Bool.not_eq_true _ ▸ hcfg)
      exact ⟨node, hplaced, fun hnot => by simp_all⟩

/-- When every shard has been handed over, one node calls `CreateObject` for each of the objects.
For those with an ID of their shard or node it is the node that calls of them are routed to. -/
theorem auto_load_places_each_object_once (cfg : AutoLoadObjectConfig) (objectID : GoString)
    (hid : objectID ∈ generateAutoLoadIDs c state cfg) :
    ∃ node, PlacedOn c state cfg objectID node ∧
      (cfg.perShard = true ∨ cfg.perNode = true →
        state.getCurrentNodeForObject c objectID = .ok node) ∧
      ∀ now cfgs, cfg ∈ cfgs → state.isStateStable c node now = true →
        (cfg.type, objectID) ∈ loadAutoLoadObjects c state node now cfgs := by
  obtain ⟨node, hplaced, hroute⟩ := placed_of_settled h haddresses hid
  refine ⟨node, hplaced, hroute, fun now cfgs hcfg hstable => ?_⟩
  rw [loadAutoLoadObjects, hstable, if_neg (by decide)]
  exact List.mem_flatMap.mpr ⟨cfg, hcfg, List.mem_map_of_mem hplaced.loaded⟩

end Settled

def handedOver : ClusterState :=
  ofRecords [lit "a", lit "b"] [⟨lit "a", lit "a", []⟩, ⟨lit "b", lit "b", []⟩]

private theorem settled_handedOver : Settled twoShards handedOver := by
  have hshards : ∀ shardID ∈ shardIDs twoShards,
      (handedOver.shard shardID).targetNode = (handedOver.shard shardID).currentNode ∧
        handedOver.hasNode (handedOver.shard shardID).targetNode = true := by decide
  have hidle : ∀ entry ∈ handedOver.shards.entries, ∀ node ∈ handedOver.nodes.keys,
      claims handedOver node entry.2 = none ∧ releases node entry.2 = none := by decide
  exact ⟨fun shardID hvalid => hshards shardID (mem_shardIDs.mpr hvalid),
    fun shardID info hinfo node hnode => hidle ⟨shardID, info⟩ (AList.mem_lookup_iff.mp hinfo) node
      (AList.lookup_isSome.mp hnode)⟩

theorem auto_load_places_each_object_once_perShard :
    ∃ node, PlacedOn twoShards handedOver ⟨lit "T", lit "x", true, false⟩ (lit "shard#1/x") node ∧
      handedOver.getCurrentNodeForObject twoShards (lit "shard#1/x") = .ok node := by
  have haddresses : ∀ node ∈ handedOver.nodes.keys,
      node ≠ [] ∧ slash ∉ node ∧ hasPrefix node shardPrefix = false := by decide
  obtain ⟨node, hplaced, hroute, -⟩ := auto_load_places_each_object_once settled_handedOver
    (fun node hnode => haddresses node (AList.lookup_isSome.mp hnode))
    ⟨lit "T", lit "x", true, false⟩ (lit "shard#1/x") (by decide)
  exact ⟨node, hplaced, hroute (.inl rfl)⟩

end Goverse.Cluster
