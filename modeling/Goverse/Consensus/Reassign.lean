import Goverse.Consensus.Rebalance

/-! `calcReassignShardTargetNodes`. A shard that needs a target gets its live owner, if it had no
target at all, and otherwise the next node in turn from a random one on, the shards being in
random order. -/
namespace Goverse.Consensus

open GoString ClusterState Lib

/-- The shards whose owner becomes their target. -/
def respected (c : Config) (state : ClusterState) : List Int :=
  (shardIDs c).filter fun shardID =>
    needsTarget state (state.shard shardID) && respectsClaim state (state.shard shardID)

section Plan

variable {c : Config} {state : ClusterState} {shuffled : List Int} {offset : Nat}
  {shardID : Int} {info : ShardInfo}

theorem needsTarget_iff {info : ShardInfo} : needsTarget state info = true ↔
    state.hasNode info.targetNode = false ∧
      ¬ (info.hasFlag pinned = true ∧ info.targetNode ≠ []) := by
  simp only [needsTarget, Bool.and_eq_true, Bool.not_eq_true', bne, Bool.and_eq_false_iff,
    not_and, ne_eq]
  grind

/-- The entries that respect a claim. -/
def respectful (c : Config) (state : ClusterState) : Plan :=
  (respected c state).map fun shardID =>
    (shardID, (state.shard shardID).withTargetNode (state.shard shardID).currentNode)

/-- The entries that are dealt out. -/
def dealtOut (state : ClusterState) (shuffled : List Int) (offset : Nat) : Plan :=
  shuffled.zipIdx.map fun (shardID, i) =>
    (shardID, (state.shard shardID).withTargetNode
      ((sortedNodes state).getD ((offset + i) % (sortedNodes state).length) []))

theorem calcReassignShardTargetNodes_eq (hnodes : sortedNodes state ≠ [])
    (hshuffled : shuffled.Perm (toAssign c state))
    (hoffset : offset < (sortedNodes state).length) :
    calcReassignShardTargetNodes c state shuffled offset =
      some (respectful c state ++ dealtOut state shuffled offset) := by
  rw [calcReassignShardTargetNodes]
  dsimp only
  rw [if_neg hnodes, if_pos ⟨List.isPerm_iff.mpr hshuffled, hoffset⟩, respectful, dealtOut,
    respected]

theorem calcReassignShardTargetNodes_cases {plan : Plan}
    (h : calcReassignShardTargetNodes c state shuffled offset = some plan) :
    (sortedNodes state = [] ∧ plan = []) ∨
      (sortedNodes state ≠ [] ∧ shuffled.Perm (toAssign c state) ∧
        plan = respectful c state ++ dealtOut state shuffled offset) := by
  by_cases hnodes : sortedNodes state = []
  · rw [calcReassignShardTargetNodes] at h
    dsimp only at h
    rw [if_pos hnodes] at h
    cases h
    exact .inl ⟨hnodes, rfl⟩
  · have hchoice : shuffled.Perm (toAssign c state) ∧ offset < (sortedNodes state).length := by
      by_contra hnot
      rw [calcReassignShardTargetNodes] at h
      dsimp only at h
      rw [if_neg hnodes, if_neg fun hboth => hnot ⟨List.isPerm_iff.mp hboth.1, hboth.2⟩] at h
      contradiction
    rw [calcReassignShardTargetNodes_eq hnodes hchoice.1 hchoice.2] at h
    cases h
    exact .inr ⟨hnodes, hchoice.1, rfl⟩

@[simp] theorem keys_respectful : (respectful c state).map Prod.fst = respected c state := by
  rw [respectful, List.map_map]
  exact List.map_id _

@[simp] theorem keys_dealtOut : (dealtOut state shuffled offset).map Prod.fst = shuffled := by
  rw [dealtOut, List.map_map]
  exact List.zipIdx_map_fst 0 shuffled

theorem keys_append (c : Config) (state : ClusterState) (shuffled : List Int) (offset : Nat) :
    (respectful c state ++ dealtOut state shuffled offset).map Prod.fst =
      respected c state ++ shuffled := by
  rw [List.map_append, keys_respectful, keys_dealtOut]

theorem mem_keys (hshuffled : shuffled.Perm (toAssign c state)) :
    shardID ∈ respected c state ++ shuffled ↔
      shardID ∈ shardIDs c ∧ needsTarget state (state.shard shardID) = true := by
  rw [List.mem_append, hshuffled.mem_iff, respected, toAssign, List.mem_filter, List.mem_filter,
    Bool.and_eq_true, Bool.and_eq_true, Bool.not_eq_true']
  cases respectsClaim state (state.shard shardID) <;> simp

theorem nodup_keys (hshuffled : shuffled.Perm (toAssign c state)) :
    (respected c state ++ shuffled).Nodup := by
  refine List.Nodup.append (nodup_shardIDs.filter _) ?_ ?_
  · exact hshuffled.nodup_iff.mpr (nodup_shardIDs.filter _)
  · intro shardID hleft hright
    have hrespects := (List.mem_filter.mp hleft).2
    have hnot := (List.mem_filter.mp (hshuffled.mem_iff.mp hright)).2
    simp only [Bool.and_eq_true, Bool.not_eq_true'] at hrespects hnot
    rw [hrespects.2] at hnot
    exact absurd hnot.2 (by decide)

private theorem live_turn (hnodes : sortedNodes state ≠ []) (i : Nat) :
    state.hasNode ((sortedNodes state).getD ((offset + i) % (sortedNodes state).length) []) =
      true := by
  have hlt := Nat.mod_lt (offset + i) (List.length_pos_iff.mpr hnodes)
  apply hasNode_of_mem_sortedNodes
  rw [List.getD_eq_getElem?_getD, List.getElem?_eq_getElem hlt, Option.getD_some]
  exact List.getElem_mem hlt

theorem entry_spec (hnodes : sortedNodes state ≠ [])
    (hshuffled : shuffled.Perm (toAssign c state))
    (h : (shardID, info) ∈ respectful c state ++ dealtOut state shuffled offset) :
    state.hasNode info.targetNode = true ∧
      info = (state.shard shardID).withTargetNode info.targetNode ∧
      (respectsClaim state (state.shard shardID) = true →
        info.targetNode = (state.shard shardID).currentNode) := by
  rcases List.mem_append.mp h with h | h
  · obtain ⟨id, hid, heq⟩ := List.mem_map.mp h
    cases heq
    have hrespects := (List.mem_filter.mp hid).2
    simp only [respectsClaim, Bool.and_eq_true] at hrespects
    exact ⟨hrespects.2.2, rfl, fun _ => rfl⟩
  · obtain ⟨⟨id, i⟩, hid, heq⟩ := List.mem_map.mp h
    cases heq
    refine ⟨live_turn hnodes i, rfl, fun hrespects => ?_⟩
    have hmem := List.mem_of_getElem? (List.mem_zipIdx_iff_getElem?.mp hid)
    have hnot := (List.mem_filter.mp (hshuffled.mem_iff.mp hmem)).2
    rw [hrespects] at hnot
    simp at hnot

private theorem countP_dealt (hnodes : sortedNodes state ≠ [])
    (hshuffled : shuffled.Perm (toAssign c state)) (node : GoString) :
    (respectful c state ++ dealtOut state shuffled offset).countP (fun entry =>
      !respectsClaim state (state.shard entry.1) && entry.2.targetNode == node) =
      dealt (sortedNodes state) offset shuffled.length node := by
  have hnone : (respectful c state).countP (fun entry =>
      !respectsClaim state (state.shard entry.1) && entry.2.targetNode == node) = 0 := by
    rw [List.countP_eq_zero]
    intro entry hentry
    obtain ⟨id, hid, rfl⟩ := List.mem_map.mp hentry
    have hrespects := (List.mem_filter.mp hid).2
    rw [Bool.and_eq_true] at hrespects
    simp [hrespects.2]
  rw [List.countP_append, hnone, Nat.zero_add, dealt, ← countP_zipIdx, dealtOut, List.countP_map]
  apply List.countP_congr
  rintro ⟨id, i⟩ hid
  have hmem := List.mem_of_getElem? (List.mem_zipIdx_iff_getElem?.mp hid)
  have hnot := (List.mem_filter.mp (hshuffled.mem_iff.mp hmem)).2
  have hlt := Nat.mod_lt (offset + i) (List.length_pos_iff.mpr hnodes)
  simp only [Bool.and_eq_true] at hnot
  simp [hnot.2, ShardInfo.withTargetNode, List.getD_eq_getElem?_getD,
    List.getElem?_eq_getElem hlt]

theorem settled_update (hnodes : sortedNodes state ≠ [])
    (hshuffled : shuffled.Perm (toAssign c state)) (offset : Nat) (hvalid : shardID ∈ shardIDs c) :
    let after := (state.update (respectful c state ++ dealtOut state shuffled offset)).shard shardID
    state.hasNode after.targetNode = true ∨
      (after = state.shard shardID ∧ after.hasFlag pinned = true ∧ after.targetNode ≠ []) := by
  by_cases hmem : shardID ∈ respected c state ++ shuffled
  · rw [← keys_append c state shuffled offset] at hmem
    obtain ⟨⟨id, info⟩, hentry, rfl⟩ := List.mem_map.mp hmem
    have hnodup := nodup_keys hshuffled
    rw [← keys_append c state shuffled offset] at hnodup
    rw [shard_update_of_mem hnodup hentry]
    exact .inl (entry_spec hnodes hshuffled hentry).1
  · have hneeds : ¬ needsTarget state (state.shard shardID) = true :=
      fun h => hmem ((mem_keys hshuffled).mpr ⟨hvalid, h⟩)
    rw [← keys_append c state shuffled offset] at hmem
    rw [shard_update_of_notMem hmem]
    rw [needsTarget_iff, not_and_or, not_not, Bool.not_eq_false] at hneeds
    exact hneeds.imp_right fun h => ⟨rfl, h⟩

theorem calcReassignShardTargetNodes_nil {plan : Plan}
    (hsettled : ∀ shardID ∈ shardIDs c, needsTarget state (state.shard shardID) = false)
    (h : calcReassignShardTargetNodes c state shuffled offset = some plan) : plan = [] := by
  have hrespected : respected c state = [] := by
    rw [respected, List.filter_eq_nil_iff]
    intro shardID hvalid
    simp [hsettled shardID hvalid]
  have htoAssign : toAssign c state = [] := by
    rw [toAssign, List.filter_eq_nil_iff]
    intro shardID hvalid
    simp [hsettled shardID hvalid]
  rcases calcReassignShardTargetNodes_cases h with ⟨-, hplan⟩ | ⟨-, hshuffled, hplan⟩
  · exact hplan
  · rw [htoAssign, List.perm_nil] at hshuffled
    rw [hplan, respectful, hrespected, dealtOut, hshuffled]
    rfl

private theorem needsTarget_update (hnodes : sortedNodes state ≠ [])
    (hshuffled : shuffled.Perm (toAssign c state)) (offset : Nat) (hvalid : shardID ∈ shardIDs c) :
    needsTarget (state.update (respectful c state ++ dealtOut state shuffled offset))
      ((state.update (respectful c state ++ dealtOut state shuffled offset)).shard shardID) =
      false := by
  rw [← Bool.not_eq_true, needsTarget_iff, hasNode_update]
  rcases settled_update hnodes hshuffled offset hvalid with hlive | ⟨-, hpinned⟩
  · rw [hlive]
    simp
  · exact fun h => h.2 hpinned

end Plan

/-- A plan has an entry for exactly the shards that have no live target and are not pinned to one.
The new target is live, and the live owner of a shard that had no target; nothing else changes.
Nodes get the same number of the other shards up to one, and a second plan is empty. -/
theorem reassignment_is_complete_and_even (c : Config) (state : ClusterState)
    (hnodes : sortedNodes state ≠ []) (haddresses : state.hasNode [] = false)
    (shuffled : List Int) (hshuffled : shuffled.Perm (toAssign c state))
    (offset : Nat) (hoffset : offset < (sortedNodes state).length) :
    ∃ plan, calcReassignShardTargetNodes c state shuffled offset = some plan ∧
      (plan.map Prod.fst).Nodup ∧
      (∀ shardID, shardID ∈ plan.map Prod.fst ↔ c.ValidShard shardID ∧
        ((state.shard shardID).targetNode = [] ∨
          state.hasNode (state.shard shardID).targetNode = false) ∧
        ¬ ((state.shard shardID).hasFlag pinned = true ∧ (state.shard shardID).targetNode ≠ [])) ∧
      (∀ shardID info, (shardID, info) ∈ plan →
        state.hasNode info.targetNode = true ∧
        ((state.shard shardID).targetNode = [] →
          state.hasNode (state.shard shardID).currentNode = true →
          info.targetNode = (state.shard shardID).currentNode) ∧
        info.currentNode = (state.shard shardID).currentNode ∧
        info.flags = (state.shard shardID).flags ∧
        info.modRevision = (state.shard shardID).modRevision) ∧
      (∀ a b, state.hasNode a = true → state.hasNode b = true →
        plan.countP (fun entry =>
          !respectsClaim state (state.shard entry.1) && entry.2.targetNode == a) ≤
        plan.countP (fun entry =>
          !respectsClaim state (state.shard entry.1) && entry.2.targetNode == b) + 1) ∧
      ∀ shuffled' offset' plan', calcReassignShardTargetNodes c (state.update plan) shuffled'
        offset' = some plan' → plan' = [] := by
  have hempty : ∀ {node : GoString}, state.hasNode node = true → node ≠ [] := by
    rintro node hlive rfl
    rw [haddresses] at hlive
    contradiction
  refine ⟨_, calcReassignShardTargetNodes_eq hnodes hshuffled hoffset, ?_, ?_, ?_, ?_, ?_⟩
  · rw [keys_append]
    exact nodup_keys hshuffled
  · intro shardID
    rw [keys_append, mem_keys hshuffled, mem_shardIDs, needsTarget_iff]
    refine and_congr_right fun _ => and_congr_left fun _ => ⟨.inr, ?_⟩
    rintro (hnone | hdead)
    · rw [hnone]
      exact haddresses
    · exact hdead
  · intro shardID info hentry
    obtain ⟨hlive, hinfo, hrespects⟩ := entry_spec hnodes hshuffled hentry
    refine ⟨hlive, fun hnone hcurrent => hrespects ?_, ?_, ?_, ?_⟩
    · rw [respectsClaim, hnone, hcurrent]
      simpa using hempty hcurrent
    all_goals rw [hinfo]; rfl
  · intro a b ha hb
    rw [countP_dealt hnodes hshuffled, countP_dealt hnodes hshuffled]
    have hnodup : (sortedNodes state).Nodup :=
      (List.perm_insertionSort _ _).nodup_iff.mpr state.nodes.keys_nodup
    have hle := (dealt_bounds hnodup (mem_sortedNodes.mpr ha) offset shuffled.length).2
    have hge := (dealt_bounds hnodup (mem_sortedNodes.mpr hb) offset shuffled.length).1
    omega
  · intro shuffled' offset' plan' hplan'
    exact calcReassignShardTargetNodes_nil
      (fun shardID hvalid => needsTarget_update hnodes hshuffled offset hvalid) hplan'

section Examples

/-- Shard 0 has a live owner and no target, shard 1 is pinned to a dead node, shard 2 has a dead
target and shard 3 no record. -/
def halfAssigned : ClusterState :=
  ofRecords [lit "b", lit "a"]
    [⟨[], lit "b", []⟩, ⟨lit "x", [], [pinned]⟩, ⟨lit "x", lit "a", []⟩]

theorem reassignment_is_complete_and_even_half : ∃ plan,
    calcReassignShardTargetNodes fourShards halfAssigned [3, 2] 1 = some plan ∧
      (plan.map Prod.fst).Nodup ∧
      ∀ shuffled' offset' plan', calcReassignShardTargetNodes fourShards
        (halfAssigned.update plan) shuffled' offset' = some plan' → plan' = [] := by
  obtain ⟨plan, hplan, hnodup, -, -, -, hsecond⟩ := reassignment_is_complete_and_even fourShards
    halfAssigned (by decide) (by decide) [3, 2] (List.isPerm_iff.mp (by decide)) 1 (by decide)
  exact ⟨plan, hplan, hnodup, hsecond⟩

end Examples
end Goverse.Consensus
