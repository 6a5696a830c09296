import Goverse.Consensus.ClusterState

/-! The planners. Each reads the view of the node it runs on and computes the records that
`storeShardMapping` is to write. A plan is the list of entries of the source's
`updateShards`. -/
namespace Goverse.Consensus

open GoString ClusterState

abbrev Plan := List (Int × ShardInfo)

/-- `slices.Sorted(maps.Keys(state.Nodes))` -/
def sortedNodes (state : ClusterState) : List GoString :=
  state.nodes.keys.insertionSort fun a b => bytesLe a b

def shardIDs (c : Config) : List Int := (List.range c.numShards).map fun (n : Nat) => (n : Int)

section Ownership

/-- The shards `ClaimShardsForNode` collects. -/
def claimShardsForNode (state : ClusterState) (localNode : GoString) : Plan :=
  state.shards.entries.filterMap fun entry =>
    if entry.2.targetNode = localNode ∧
        (entry.2.currentNode = [] ∨ state.hasNode entry.2.currentNode = false) then
      some (entry.1, entry.2.withCurrentNode localNode)
    else none

def calcReleaseShardsForNode (state : ClusterState) (localNode : GoString)
    (localObjectsPerShard : Int → Nat) : Plan :=
  state.shards.entries.filterMap fun entry =>
    if entry.2.currentNode = localNode ∧ entry.2.targetNode ≠ [] ∧
        entry.2.targetNode ≠ localNode ∧ localObjectsPerShard entry.1 = 0 then
      some (entry.1, entry.2.withCurrentNode [])
    else none

end Ownership

section Reassign

/-- The shard has no live target and is not pinned to one. -/
def needsTarget (state : ClusterState) (info : ShardInfo) : Bool :=
  !(info.hasFlag pinned && info.targetNode != []) && !state.hasNode info.targetNode

/-- The shard has no target and a live owner, which becomes its target. -/
def respectsClaim (state : ClusterState) (info : ShardInfo) : Bool :=
  info.targetNode == [] && info.currentNode != [] && state.hasNode info.currentNode

def toAssign (c : Config) (state : ClusterState) : List Int :=
  (shardIDs c).filter fun shardID =>
    needsTarget state (state.shard shardID) && !respectsClaim state (state.shard shardID)

/-- `shuffled` and `offset` are the choices of `rand.Shuffle` and `rand.IntN`. -/
def calcReassignShardTargetNodes (c : Config) (state : ClusterState) (shuffled : List Int)
    (offset : Nat) : Option Plan :=
  let nodes := sortedNodes state
  if nodes = [] then some []
  else if shuffled.isPerm (toAssign c state) ∧ offset < nodes.length then
    some (((shardIDs c).filter fun shardID =>
        needsTarget state (state.shard shardID) && respectsClaim state (state.shard shardID)).map
      (fun shardID =>
        (shardID, (state.shard shardID).withTargetNode (state.shard shardID).currentNode)) ++
      shuffled.zipIdx.map fun (shardID, i) =>
        (shardID, (state.shard shardID).withTargetNode
          (nodes.getD ((offset + i) % nodes.length) [])))
  else none

end Reassign

section Reallocate

/-- Assigned to a live node that has not claimed it, and not pinned. -/
def isStuck (state : ClusterState) (info : ShardInfo) : Bool :=
  info.targetNode != [] && info.currentNode == [] && state.hasNode info.targetNode &&
    !info.hasFlag pinned

/-- The plan and the next `stuckShardFirstSeen`. -/
def calcReallocateStuckShards (c : Config) (state : ClusterState) (firstSeen : List (Int × Int))
    (now : Int) : Plan × List (Int × Int) :=
  if state.nodes.keys = [] then ([], [])
  else
    (state.shards.entries.filterMap fun entry =>
      if isStuck state entry.2 then
        (firstSeen.lookup entry.1).bind fun seen =>
          if now - seen < c.stuckShardTimeout then none
          else some (entry.1, entry.2.withTargetNode [])
      else none,
    state.shards.entries.filterMap fun entry =>
      if isStuck state entry.2 then
        match firstSeen.lookup entry.1 with
        | none => some (entry.1, now)
        | some seen => if now - seen < c.stuckShardTimeout then some (entry.1, seen) else none
      else none)

end Reallocate

section Rebalance

/-- The variables of the batch loop of `RebalanceShards`. -/
structure Balance where
  shardCounts : GoString → Nat
  shardsPerNode : GoString → List Int
  selectedShards : List Int
  updateShards : Plan

def Balance.start (c : Config) (state : ClusterState) : Balance where
  shardCounts node := (shardIDs c).countP fun shardID => (state.shard shardID).targetNode = node
  shardsPerNode node := (shardIDs c).filter fun shardID => (state.shard shardID).targetNode = node
  selectedShards := []
  updateShards := []

/-- The first node with the largest count. -/
def maxNode (counts : GoString → Nat) (nodes : List GoString) : Option (GoString × Nat) :=
  nodes.foldl (fun best node =>
    match best with
    | none => some (node, counts node)
    | some (_, count) => if count < counts node then some (node, counts node) else best) none

/-- The first node with the smallest count, starting from `("", numShards + 1)`. -/
def minNode (c : Config) (counts : GoString → Nat) (nodes : List GoString) : GoString × Nat :=
  nodes.foldl (fun best node => if counts node < best.2 then (node, counts node) else best)
    ([], c.numShards + 1)

/-- One round of the batch loop; none is its `break`. -/
def Balance.round (c : Config) (state : ClusterState) (nodes : List GoString) (b : Balance) :
    Option Balance :=
  match maxNode b.shardCounts nodes with
  | none => none
  | some (largest, maxCount) =>
    let (smallest, minCount) := minNode c b.shardCounts nodes
    if maxCount < minCount + 2 ∨ c.withinThreshold (maxCount - minCount) nodes.length then none
    else
      (b.shardsPerNode largest).find? (fun shardID =>
        !b.selectedShards.contains shardID && !(state.shard shardID).hasFlag pinned) |>.map
      fun shardID =>
        let counts := Function.update b.shardCounts largest (b.shardCounts largest - 1)
        let lists := Function.update b.shardsPerNode largest
          ((b.shardsPerNode largest).erase shardID)
        { shardCounts := Function.update counts smallest (counts smallest + 1)
          shardsPerNode := Function.update lists smallest (lists smallest ++ [shardID])
          selectedShards := shardID :: b.selectedShards
          updateShards := b.updateShards ++
            [(shardID, (state.shard shardID).withTargetNode smallest)] }

def Balance.rounds (c : Config) (state : ClusterState) (nodes : List GoString) :
    Nat → Balance → Balance
  | 0, b => b
  | fuel + 1, b =>
    match b.round c state nodes with
    | none => b
    | some next => next.rounds c state nodes fuel

def allAssigned (c : Config) (state : ClusterState) : Bool :=
  (shardIDs c).all fun shardID =>
    (state.shards.lookup shardID).isSome && (state.shard shardID).targetNode != []

def rebalanceShards (c : Config) (state : ClusterState) : Plan :=
  if sortedNodes state = [] then []
  else if allAssigned c state then
    ((Balance.start c state).rounds c state (sortedNodes state)
      c.rebalanceShardsBatchSize).updateShards
  else []

end Rebalance

/-! ### What a plan may change -/

inductive Job where
  | claim | release | reassign | reallocate | rebalance
  deriving DecidableEq, Repr

/-- Only the target changes. -/
def Retarget (old new : ShardRecord) : Prop :=
  new.targetNode ≠ old.targetNode ∧ new = { old with targetNode := new.targetNode }

/-- `w` becomes the owner of a shard meant for it that has no owner, or one that is not in
`view`. -/
def Claim (w : GoString) (view : ClusterState) (old new : ShardRecord) : Prop :=
  old.targetNode = w ∧ (old.currentNode = [] ∨ view.hasNode old.currentNode = false) ∧
    new = { old with currentNode := w }

/-- `w` gives up a shard meant for another node. -/
def Release (w : GoString) (old new : ShardRecord) : Prop :=
  old.currentNode = w ∧ old.targetNode ≠ [] ∧ old.targetNode ≠ w ∧
    new = { old with currentNode := [] }

def Job.Intends (job : Job) (w : GoString) (view : ClusterState) (old new : ShardRecord) : Prop :=
  match job with
  | .claim => Claim w view old new
  | .release => Release w old new
  | .reassign | .reallocate | .rebalance => Retarget old new

/-- An entry of a plan made on `view` by a node `w`. -/
structure Job.Plans (c : Config) (job : Job) (w : GoString) (view : ClusterState) (shardID : Int)
    (info : ShardInfo) : Prop where
  valid : shardID ∈ view.shards ∨ c.ValidShard shardID
  modRevision : info.modRevision = (view.shard shardID).modRevision
  intends : job.Intends w view (view.shard shardID).toShardRecord info.toShardRecord
  target : info.targetNode = (view.shard shardID).targetNode ∨ info.targetNode = [] ∨
    info.targetNode = (view.shard shardID).currentNode ∨ view.hasNode info.targetNode = true

section Plans

variable {c : Config} {state : ClusterState} {w : GoString} {shardID : Int} {info : ShardInfo}

theorem Job.Intends.flags_eq {job : Job} {old new : ShardRecord} (h : job.Intends w state old new) :
    new.flags = old.flags := by
  cases job with
  | claim => rw [h.2.2]
  | release => rw [h.2.2.2]
  | reassign | reallocate | rebalance => rw [h.2]

theorem Job.Plans.clean {job : Job} (h : job.Plans c w state shardID info)
    (htarget : CleanAddress (state.shard shardID).targetNode)
    (hcurrent : CleanAddress (state.shard shardID).currentNode)
    (hnodes : ∀ node, state.hasNode node = true → CleanAddress node) :
    CleanAddress info.targetNode ∧ CleanAddress info.currentNode := by
  constructor
  · rcases h.target with heq | heq | heq | hlive
    · rw [heq]
      exact htarget
    · rw [heq]
      exact cleanAddress_nil
    · rw [heq]
      exact hcurrent
    · exact hnodes _ hlive
  · have hintends := h.intends
    cases job with
    | claim =>
      rw [hintends.2.2, ← hintends.1]
      exact htarget
    | release =>
      rw [hintends.2.2.2]
      exact cleanAddress_nil
    | reassign | reallocate | rebalance =>
      rw [hintends.2]
      exact hcurrent

theorem shard_of_mem_entries {entry : Sigma fun _ : Int => ShardInfo}
    (h : entry ∈ state.shards.entries) :
    entry.1 ∈ state.shards ∧ state.shard entry.1 = entry.2 := by
  have hlookup : state.shards.lookup entry.1 = some entry.2 := AList.mem_lookup_iff.mpr h
  refine ⟨AList.lookup_isSome.mp (by rw [hlookup]; rfl), ?_⟩
  rw [ClusterState.shard, hlookup, Option.getD_some]

theorem validShard_of_mem_shardIDs (h : shardID ∈ shardIDs c) : c.ValidShard shardID := by
  obtain ⟨n, hn, rfl⟩ := List.mem_map.mp h
  have := List.mem_range.mp hn
  exact ⟨by omega, by omega⟩

theorem hasNode_of_mem_sortedNodes {node : GoString} (h : node ∈ sortedNodes state) :
    state.hasNode node = true := by
  have hkey : node ∈ state.nodes.keys := (List.mem_insertionSort _).mp h
  exact AList.lookup_isSome.mpr (AList.mem_keys.mpr hkey)

theorem plans_withCurrentNode {job : Job} {entry : Sigma fun _ : Int => ShardInfo}
    (h : entry ∈ state.shards.entries) (owner : GoString)
    (hintends : job.Intends w state entry.2.toShardRecord
      (entry.2.withCurrentNode owner).toShardRecord) :
    job.Plans c w state entry.1 (entry.2.withCurrentNode owner) := by
  obtain ⟨hmem, hshard⟩ := shard_of_mem_entries h
  refine ⟨.inl hmem, by rw [hshard]; rfl, ?_, .inl (by rw [hshard]; rfl)⟩
  rw [hshard]
  exact hintends

theorem claimShardsForNode_plans (h : (shardID, info) ∈ claimShardsForNode state w) :
    Job.claim.Plans c w state shardID info := by
  obtain ⟨entry, hentry, heq⟩ := List.mem_filterMap.mp h
  split at heq
  · rename_i hclaim
    cases heq
    exact plans_withCurrentNode hentry w ⟨hclaim.1, hclaim.2, rfl⟩
  · contradiction

theorem calcReleaseShardsForNode_plans {counts : Int → Nat}
    (h : (shardID, info) ∈ calcReleaseShardsForNode state w counts) :
    Job.release.Plans c w state shardID info := by
  obtain ⟨entry, hentry, heq⟩ := List.mem_filterMap.mp h
  split at heq
  · rename_i hrelease
    cases heq
    exact plans_withCurrentNode hentry [] ⟨hrelease.1, hrelease.2.1, hrelease.2.2.1, rfl⟩
  · contradiction

theorem calcReassignShardTargetNodes_plans {shuffled : List Int} {offset : Nat} {plan : Plan}
    (hplan : calcReassignShardTargetNodes c state shuffled offset = some plan)
    (h : (shardID, info) ∈ plan) : Job.reassign.Plans c w state shardID info := by
  unfold calcReassignShardTargetNodes at hplan
  dsimp only at hplan
  split at hplan
  · cases hplan
    contradiction
  · rename_i hnodes
    split at hplan
    · rename_i hchoice
      cases hplan
      rcases List.mem_append.mp h with h | h
      · obtain ⟨id, hid, heq⟩ := List.mem_map.mp h
        cases heq
        obtain ⟨hrange, hneeds⟩ := List.mem_filter.mp hid
        simp only [respectsClaim, Bool.and_eq_true, beq_iff_eq, bne_iff_ne] at hneeds
        refine ⟨.inr (validShard_of_mem_shardIDs hrange), rfl, ⟨?_, rfl⟩, .inr (.inr (.inl rfl))⟩
        simp only [ShardInfo.withTargetNode]
        rw [hneeds.2.1.1]
        exact hneeds.2.1.2
      · obtain ⟨⟨id, i⟩, hid, heq⟩ := List.mem_map.mp h
        cases heq
        have hmem : id ∈ toAssign c state := by
          refine (List.isPerm_iff.mp hchoice.1).subset ?_
          exact List.mem_of_getElem? (List.mem_zipIdx_iff_getElem?.mp hid)
        obtain ⟨hrange, hneeds⟩ := List.mem_filter.mp hmem
        have hpos := List.length_pos_iff.mpr hnodes
        have hlt := Nat.mod_lt (offset + i) hpos
        have hlive : state.hasNode
            ((sortedNodes state).getD ((offset + i) % (sortedNodes state).length) []) = true := by
          apply hasNode_of_mem_sortedNodes
          rw [List.getD_eq_getElem?_getD, List.getElem?_eq_getElem hlt, Option.getD_some]
          exact List.getElem_mem hlt
        refine ⟨.inr (validShard_of_mem_shardIDs hrange), rfl, ⟨?_, rfl⟩, .inr (.inr (.inr hlive))⟩
        intro hsame
        simp only [needsTarget, Bool.and_eq_true, Bool.not_eq_true'] at hneeds
        rw [show (state.shard id).targetNode = _ from hsame.symm] at hneeds
        simp only [ShardInfo.withTargetNode] at hneeds
        rw [hlive] at hneeds
        exact absurd hneeds.1.2 (by simp)
    · contradiction

theorem mem_calcReallocateStuckShards {firstSeen : List (Int × Int)} {now : Int}
    (h : (shardID, info) ∈ (calcReallocateStuckShards c state firstSeen now).1) :
    shardID ∈ state.shards ∧ isStuck state (state.shard shardID) = true ∧
      info = (state.shard shardID).withTargetNode [] ∧
      ∃ seen, firstSeen.lookup shardID = some seen ∧ seen + c.stuckShardTimeout ≤ now := by
  unfold calcReallocateStuckShards at h
  split at h
  · contradiction
  · obtain ⟨entry, hentry, heq⟩ := List.mem_filterMap.mp h
    obtain ⟨hmem, hshard⟩ := shard_of_mem_entries hentry
    split at heq
    · rename_i hstuck
      rw [← hshard] at hstuck heq
      obtain ⟨seen, hlookup, hseen⟩ := Option.bind_eq_some_iff.mp heq
      split at hseen
      · contradiction
      · cases hseen
        exact ⟨hmem, hstuck, rfl, seen, hlookup, by omega⟩
    · contradiction

theorem calcReallocateStuckShards_plans {firstSeen : List (Int × Int)} {now : Int}
    (h : (shardID, info) ∈ (calcReallocateStuckShards c state firstSeen now).1) :
    Job.reallocate.Plans c w state shardID info := by
  obtain ⟨hmem, hstuck, rfl, -⟩ := mem_calcReallocateStuckShards h
  simp only [isStuck, Bool.and_eq_true, bne_iff_ne] at hstuck
  exact ⟨.inl hmem, rfl, ⟨fun hsame => hstuck.1.1.1 hsame.symm, rfl⟩, .inr (.inl rfl)⟩

end Plans
end Goverse.Consensus
