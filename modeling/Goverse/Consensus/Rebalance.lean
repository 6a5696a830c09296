import Mathlib.Data.Rat.Floor
import Goverse.Lib.Leveling
import Goverse.Consensus.Mapping

/-! `RebalanceShards`. Its batch loop works on counts and lists that it updates as it selects
shards; they are those of the mapping with the batch so far in it, so each selection moves a
shard from a fullest live node to an emptiest one of that mapping. -/
namespace Goverse.Consensus

open GoString ClusterState Lib

/-- The configuration with a rational imbalance threshold. -/
def Config.withImbalanceThreshold (c : Config) (threshold : ℚ) : Config :=
  { c with withinThreshold := fun diff nodes =>
      decide ((diff : ℚ) ≤ threshold * (c.numShards / nodes)) }

/-- The number of shards meant for a node. -/
def targetCount (c : Config) (state : ClusterState) (node : GoString) : Nat :=
  (shardIDs c).countP fun shardID => (state.shard shardID).targetNode = node

def liveNodes (state : ClusterState) : Finset GoString := (sortedNodes state).toFinset

/-- The largest difference between the counts of two live nodes. -/
def imbalance (c : Config) (state : ClusterState) : Nat :=
  spread (liveNodes state) (targetCount c state)

/-- The counts are close enough for `RebalanceShards` to do nothing. -/
def Level (c : Config) (state : ClusterState) : Prop :=
  imbalance c state < 2 ∨ c.withinThreshold (imbalance c state) (sortedNodes state).length = true

/-- A selection of the batch loop: a shard that was not selected before and is not pinned goes
from a fullest live node to an emptiest one, in the mapping with the batch so far in it. -/
structure Selection (c : Config) (state : ClusterState) (batch : Plan) (shardID : Int)
    (info : ShardInfo) : Prop where
  valid : shardID ∈ shardIDs c
  fresh : shardID ∉ batch.map Prod.fst
  unpinned : (state.shard shardID).hasFlag pinned = false
  retargets : info = (state.shard shardID).withTargetNode info.targetNode
  fullest : Fullest (liveNodes state) (targetCount c (state.update batch))
    (state.shard shardID).targetNode
  emptiest : Emptiest (liveNodes state) (targetCount c (state.update batch)) info.targetNode
  gap : targetCount c (state.update batch) info.targetNode + 2 ≤
    targetCount c (state.update batch) (state.shard shardID).targetNode

section Counts

variable {c : Config} {state : ClusterState}

theorem nodup_shardIDs : (shardIDs c).Nodup :=
  List.nodup_range.map fun _ _ h => Int.ofNat.inj h

@[simp] theorem mem_shardIDs {shardID : Int} : shardID ∈ shardIDs c ↔ c.ValidShard shardID := by
  refine ⟨validShard_of_mem_shardIDs, fun h => ?_⟩
  obtain ⟨n, rfl⟩ := Int.eq_ofNat_of_zero_le h.1
  have := h.2
  exact List.mem_map.mpr ⟨n, List.mem_range.mpr (by omega), rfl⟩

private theorem targetCount_le (node : GoString) : targetCount c state node ≤ c.numShards := by
  have hlength : (shardIDs c).length = c.numShards := by simp [shardIDs]
  rw [targetCount, ← hlength]
  exact List.countP_le_length

private theorem targetCount_congr {other : ClusterState}
    (h : ∀ shardID, (other.shard shardID).targetNode = (state.shard shardID).targetNode) :
    targetCount c other = targetCount c state := by
  funext node
  simp only [targetCount, h]

@[simp] theorem mem_sortedNodes {node : GoString} :
    node ∈ sortedNodes state ↔ state.hasNode node = true := by
  refine ⟨hasNode_of_mem_sortedNodes, fun h => ?_⟩
  apply (List.mem_insertionSort _).mpr
  exact AList.mem_keys.mp (AList.lookup_isSome.mp h)

@[simp] theorem mem_liveNodes {node : GoString} :
    node ∈ liveNodes state ↔ state.hasNode node = true := by
  rw [liveNodes, List.mem_toFinset, mem_sortedNodes]

@[simp] theorem liveNodes_update (plan : Plan) :
    liveNodes (state.update plan) = liveNodes state := by
  rw [liveNodes, sortedNodes, nodes_update]
  rfl

end Counts

namespace Selection

variable {c : Config} {state : ClusterState} {batch : Plan} {shardID : Int} {info : ShardInfo}

theorem ne (h : Selection c state batch shardID info) :
    (state.shard shardID).targetNode ≠ info.targetNode := by
  intro hsame
  have := h.gap
  rw [hsame] at this
  omega

private theorem shard_eq (h : Selection c state batch shardID info) :
    (state.update batch).shard shardID = state.shard shardID :=
  shard_update_of_notMem h.fresh

theorem targetCount_eq (h : Selection c state batch shardID info) :
    targetCount c (state.update (batch ++ [(shardID, info)])) =
      move (targetCount c (state.update batch)) (state.shard shardID).targetNode
        info.targetNode := by
  rw [update_append]
  refine countP_move nodup_shardIDs h.valid ?_ ?_ h.ne ?_
  · rw [h.shard_eq]
  · exact congrArg (fun info : ShardInfo => info.targetNode) (shard_insert_self _)
  · intro other hother
    exact congrArg (fun info : ShardInfo => info.targetNode) (shard_insert_of_ne hother)

private theorem imbalance_le (h : Selection c state batch shardID info) :
    imbalance c (state.update (batch ++ [(shardID, info)])) ≤ imbalance c (state.update batch) := by
  rw [imbalance, imbalance, liveNodes_update, liveNodes_update, h.targetCount_eq]
  exact spread_move_le h.fullest h.emptiest h.gap

theorem squares_lt (h : Selection c state batch shardID info) :
    squares (liveNodes state) (targetCount c (state.update (batch ++ [(shardID, info)]))) <
      squares (liveNodes state) (targetCount c (state.update batch)) := by
  rw [h.targetCount_eq]
  exact squares_move_lt h.fullest.1 h.emptiest.1 h.gap

private theorem donor_ge (h : Selection c state batch shardID info) :
    targetCount c (state.update (batch ++ [(shardID, info)])) info.targetNode ≤
      targetCount c (state.update (batch ++ [(shardID, info)]))
        (state.shard shardID).targetNode := by
  have := h.gap
  rw [h.targetCount_eq, move_lo, move_hi h.ne]
  omega

end Selection

/-! ### The batch loop -/

/-- Every entry of a batch was selected after those before it. -/
def Selected (c : Config) (state : ClusterState) (batch : Plan) : Prop :=
  ∀ before shardID info after, batch = before ++ (shardID, info) :: after →
    Selection c state before shardID info

namespace Selected

variable {c : Config} {state : ClusterState} {batch : Plan} {shardID : Int} {info : ShardInfo}

theorem concat (h : Selected c state batch) (hnew : Selection c state batch shardID info) :
    Selected c state (batch ++ [(shardID, info)]) := by
  intro before id other after heq
  rcases List.eq_nil_or_concat after with rfl | ⟨after, last, rfl⟩
  · obtain ⟨rfl, hentry⟩ := List.append_inj' heq rfl
    cases hentry
    exact hnew
  · rw [List.concat_eq_append, ← List.cons_append, ← List.append_assoc] at heq
    exact h before id other after (List.append_inj' heq rfl).1

theorem init (h : Selected c state (batch ++ [(shardID, info)])) : Selected c state batch := by
  intro before id other after heq
  exact h before id other (after ++ [(shardID, info)]) (by rw [heq, List.append_assoc]; rfl)

theorem of_mem (h : Selected c state batch) (hmem : (shardID, info) ∈ batch) :
    ∃ before, Selection c state before shardID info := by
  obtain ⟨before, after, rfl⟩ := List.append_of_mem hmem
  exact ⟨before, h before shardID info after rfl⟩

theorem nodup (h : Selected c state batch) : (batch.map Prod.fst).Nodup := by
  induction batch using List.reverseRecOn with
  | nil => exact List.nodup_nil
  | append_singleton batch entry ih =>
    rw [List.map_append, List.nodup_append_comm]
    exact List.nodup_cons.mpr ⟨(h batch entry.1 entry.2 [] rfl).fresh, ih h.init⟩

private theorem squares_lt (h : Selected c state batch) (hne : batch ≠ []) :
    squares (liveNodes state) (targetCount c (state.update batch)) <
      squares (liveNodes state) (targetCount c state) := by
  induction batch using List.reverseRecOn with
  | nil => contradiction
  | append_singleton batch entry ih =>
    have hlast := (h batch entry.1 entry.2 [] rfl).squares_lt
    rcases List.eq_nil_or_concat batch with rfl | ⟨_, _, rfl⟩
    · exact hlast
    · exact hlast.trans (ih h.init (by simp))

end Selected

theorem maxNode_cases (counts : GoString → Nat) (nodes : List GoString) :
    (nodes = [] ∧ maxNode counts nodes = none) ∨
      ∃ node ∈ nodes, maxNode counts nodes = some (node, counts node) ∧
        ∀ other ∈ nodes, counts other ≤ counts node := by
  induction nodes using List.reverseRecOn with
  | nil => exact .inl ⟨rfl, rfl⟩
  | append_singleton nodes last ih =>
    right
    rw [maxNode, List.foldl_append, List.foldl_cons, List.foldl_nil, ← maxNode]
    simp only [List.mem_append, List.mem_singleton]
    rcases ih with ⟨rfl, hnone⟩ | ⟨best, hbest, hsome, hmax⟩
    · rw [hnone]
      refine ⟨last, .inr rfl, rfl, ?_⟩
      rintro other (hother | rfl)
      · contradiction
      · exact Nat.le_refl _
    · rw [hsome]
      by_cases hless : counts best < counts last
      · refine ⟨last, .inr rfl, if_pos hless, ?_⟩
        rintro other (hother | rfl)
        · exact Nat.le_of_lt (Nat.lt_of_le_of_lt (hmax other hother) hless)
        · exact Nat.le_refl _
      · refine ⟨best, .inl hbest, if_neg hless, ?_⟩
        rintro other (hother | rfl)
        · exact hmax other hother
        · exact Nat.le_of_not_lt hless

theorem maxNode_spec {counts : GoString → Nat} {nodes : List GoString} {node : GoString}
    {count : Nat} (h : maxNode counts nodes = some (node, count)) :
    node ∈ nodes ∧ count = counts node ∧ ∀ other ∈ nodes, counts other ≤ count := by
  rcases maxNode_cases counts nodes with ⟨-, hnone⟩ | ⟨best, hbest, hsome, hmax⟩
  · rw [hnone] at h
    contradiction
  · rw [hsome] at h
    cases h
    exact ⟨hbest, rfl, hmax⟩

theorem minNode_spec (c : Config) (counts : GoString → Nat) (nodes : List GoString) :
    (∀ other ∈ nodes, (minNode c counts nodes).2 ≤ counts other) ∧
      (minNode c counts nodes = ([], c.numShards + 1) ∨
        ((minNode c counts nodes).2 = counts (minNode c counts nodes).1 ∧
          (minNode c counts nodes).1 ∈ nodes)) := by
  induction nodes using List.reverseRecOn with
  | nil => exact ⟨nofun, .inl rfl⟩
  | append_singleton nodes last ih =>
    have hfold : minNode c counts (nodes ++ [last]) =
        if counts last < (minNode c counts nodes).2 then (last, counts last)
        else minNode c counts nodes := by
      rw [minNode, List.foldl_append, List.foldl_cons, List.foldl_nil]
      rfl
    rw [hfold]
    simp only [List.mem_append, List.mem_singleton]
    split
    · rename_i hless
      refine ⟨?_, .inr ⟨rfl, .inr rfl⟩⟩
      rintro other (hother | rfl)
      · exact Nat.le_of_lt (Nat.lt_of_lt_of_le hless (ih.1 other hother))
      · exact Nat.le_refl _
    · rename_i hless
      refine ⟨?_, ih.2.imp_right fun h => ⟨h.1, .inl h.2⟩⟩
      rintro other (hother | rfl)
      · exact ih.1 other hother
      · exact Nat.le_of_not_lt hless

namespace Balance

variable {c : Config} {state : ClusterState} {b next : Balance}

/-- The variables of the loop describe the mapping with the batch so far in it. -/
structure Tied (c : Config) (state : ClusterState) (b : Balance) : Prop where
  counts : b.shardCounts = targetCount c (state.update b.updateShards)
  nodup : ∀ node, (b.shardsPerNode node).Nodup
  lists : ∀ node shardID, shardID ∈ b.shardsPerNode node ↔
    shardID ∈ shardIDs c ∧ ((state.update b.updateShards).shard shardID).targetNode = node
  selected : ∀ shardID, shardID ∈ b.selectedShards ↔ shardID ∈ b.updateShards.map Prod.fst

theorem tied_start : (Balance.start c state).Tied c state := by
  refine ⟨rfl, fun node => nodup_shardIDs.filter _, fun node shardID => ?_, fun shardID => Iff.rfl⟩
  rw [Balance.start, List.mem_filter, decide_eq_true_iff]
  rfl

/-- The shard that a round takes from `largest`. -/
def candidate (state : ClusterState) (b : Balance) (largest : GoString) : Option Int :=
  (b.shardsPerNode largest).find? fun shardID =>
    !b.selectedShards.contains shardID && !(state.shard shardID).hasFlag pinned

/-- The variables after a round that takes `shardID`. -/
def select (state : ClusterState) (b : Balance) (largest smallest : GoString) (shardID : Int) :
    Balance where
  shardCounts := move b.shardCounts largest smallest
  shardsPerNode := Function.update
    (Function.update b.shardsPerNode largest ((b.shardsPerNode largest).erase shardID)) smallest
    (b.shardsPerNode smallest ++ [shardID])
  selectedShards := shardID :: b.selectedShards
  updateShards := b.updateShards ++ [(shardID, (state.shard shardID).withTargetNode smallest)]

section Select

variable {largest smallest : GoString} {shardID : Int}

@[simp] theorem listed_smallest : (b.select state largest smallest shardID).shardsPerNode smallest =
    b.shardsPerNode smallest ++ [shardID] :=
  Function.update_self ..

@[simp] theorem listed_largest (h : largest ≠ smallest) :
    (b.select state largest smallest shardID).shardsPerNode largest =
      (b.shardsPerNode largest).erase shardID := by
  dsimp only [select]
  rw [Function.update_of_ne h, Function.update_self]

theorem listed_of_ne {node : GoString} (hsmall : node ≠ smallest) (hlarge : node ≠ largest) :
    (b.select state largest smallest shardID).shardsPerNode node = b.shardsPerNode node := by
  dsimp only [select]
  rw [Function.update_of_ne hsmall, Function.update_of_ne hlarge]

theorem Tied.nodup_select (hb : b.Tied c state) (hfresh : shardID ∉ b.shardsPerNode smallest)
    (node : GoString) :
    ((b.select state largest smallest shardID).shardsPerNode node).Nodup := by
  by_cases hnode : node = smallest
  · subst hnode
    rw [listed_smallest, List.nodup_append_comm]
    exact List.nodup_cons.mpr ⟨hfresh, hb.nodup node⟩
  · by_cases hlarge : node = largest
    · subst hlarge
      rw [listed_largest hnode]
      exact (hb.nodup node).erase _
    · rw [listed_of_ne hnode hlarge]
      exact hb.nodup node

theorem Tied.mem_select (hb : b.Tied c state) (hne : smallest ≠ largest)
    (honly : ∀ node, shardID ∈ b.shardsPerNode node → node = largest) (node : GoString)
    (id : Int) : id ∈ (b.select state largest smallest shardID).shardsPerNode node ↔
      if id = shardID then node = smallest else id ∈ b.shardsPerNode node := by
  by_cases hnode : node = smallest
  · subst hnode
    rw [listed_smallest, List.mem_append, List.mem_singleton]
    by_cases hid : id = shardID <;> simp [hid]
  · by_cases hlarge : node = largest
    · subst hlarge
      rw [listed_largest hnode, (hb.nodup node).mem_erase_iff]
      by_cases hid : id = shardID <;> simp [hid, hnode]
    · rw [listed_of_ne hnode hlarge]
      by_cases hid : id = shardID
      · subst hid
        simp only [if_true, iff_false_right hnode]
        exact fun hmem => hlarge (honly node hmem)
      · rw [if_neg hid]

end Select

theorem round_cases (hb : b.Tied c state) (hnodes : sortedNodes state ≠ []) :
    ∃ largest smallest,
      Fullest (liveNodes state) b.shardCounts largest ∧
      Emptiest (liveNodes state) b.shardCounts smallest ∧
      maxNode b.shardCounts (sortedNodes state) = some (largest, b.shardCounts largest) ∧
      b.round c state (sortedNodes state) =
        if b.shardCounts largest < b.shardCounts smallest + 2 ∨
          c.withinThreshold (b.shardCounts largest - b.shardCounts smallest)
            (sortedNodes state).length = true then none
        else (b.candidate state largest).map (b.select state largest smallest) := by
  rcases maxNode_cases b.shardCounts (sortedNodes state) with
    ⟨hempty, -⟩ | ⟨largest, hlargest, hmax, hge⟩
  · exact absurd hempty hnodes
  obtain ⟨hle, hmin | ⟨hcount, hsmallest⟩⟩ :=
    minNode_spec c b.shardCounts (sortedNodes state)
  · have hbound : b.shardCounts largest ≤ c.numShards := by
      rw [hb.counts]
      exact targetCount_le _
    have hstart := hle largest hlargest
    rw [hmin] at hstart
    dsimp only at hstart
    omega
  · refine ⟨largest, (minNode c b.shardCounts (sortedNodes state)).1,
      ⟨List.mem_toFinset.mpr hlargest, fun a ha => hge a (List.mem_toFinset.mp ha)⟩,
      ⟨List.mem_toFinset.mpr hsmallest, fun a ha => ?_⟩, hmax, ?_⟩
    · rw [← hcount]
      exact hle a (List.mem_toFinset.mp ha)
    · rw [round, hmax]
      dsimp only
      rw [hcount]
      split
      · rfl
      · rename_i hgap
        have hne : (minNode c b.shardCounts (sortedNodes state)).1 ≠ largest := by
          intro hsame
          rw [hsame] at hgap
          omega
        rw [candidate]
        congr 1
        funext shardID
        rw [select, move, Function.update_of_ne hne, Function.update_of_ne hne]

theorem Tied.select (hb : b.Tied c state) {largest smallest : GoString} {shardID : Int}
    (hmax : Fullest (liveNodes state) b.shardCounts largest)
    (hmin : Emptiest (liveNodes state) b.shardCounts smallest)
    (hgap : b.shardCounts smallest + 2 ≤ b.shardCounts largest)
    (hfound : b.candidate state largest = some shardID) :
    (b.select state largest smallest shardID).Tied c state ∧
      Selection c state b.updateShards shardID
        ((state.shard shardID).withTargetNode smallest) := by
  have hlisted := (hb.lists largest shardID).mp (List.mem_of_find?_eq_some hfound)
  have hfree := List.find?_some hfound
  simp only [Bool.and_eq_true, Bool.not_eq_true', List.contains_eq_mem,
    decide_eq_false_iff_not] at hfree
  have hfresh : shardID ∉ b.updateShards.map Prod.fst := mt (hb.selected shardID).mpr hfree.1
  have htarget : (state.shard shardID).targetNode = largest := by
    rw [← hlisted.2, shard_update_of_notMem hfresh]
  rw [hb.counts] at hmax hmin hgap
  have hselection : Selection c state b.updateShards shardID
      ((state.shard shardID).withTargetNode smallest) :=
    ⟨hlisted.1, hfresh, hfree.2, rfl, htarget ▸ hmax, hmin, htarget ▸ hgap⟩
  have hne : smallest ≠ largest := htarget ▸ hselection.ne.symm
  have hafter : ∀ id,
      ((state.update (b.select state largest smallest shardID).updateShards).shard id).targetNode =
        if id = shardID then smallest
        else ((state.update b.updateShards).shard id).targetNode := by
    intro id
    dsimp only [Balance.select]
    rw [update_append]
    by_cases hid : id = shardID
    · subst hid
      rw [if_pos rfl]
      exact congrArg (fun info : ShardInfo => info.targetNode) (shard_insert_self _)
    · rw [if_neg hid]
      exact congrArg (fun info : ShardInfo => info.targetNode) (shard_insert_of_ne hid)
  have honly : ∀ node, shardID ∈ b.shardsPerNode node → node = largest := by
    intro node hmem
    rw [hb.lists, hlisted.2] at hmem
    exact hmem.2.symm
  refine ⟨⟨?_, ?_, ?_, ?_⟩, hselection⟩
  · exact (htarget ▸ hb.counts ▸ hselection.targetCount_eq).symm
  · exact hb.nodup_select fun hmem => hne (honly smallest hmem)
  · intro node id
    rw [hafter, hb.mem_select hne honly]
    by_cases hid : id = shardID
    · subst hid
      simp [hlisted.1, eq_comm]
    · simp only [if_neg hid]
      exact hb.lists node id
  · intro id
    simp only [Balance.select, List.mem_cons, List.map_append, List.map_cons, List.map_nil,
      List.mem_append, List.not_mem_nil, or_false, hb.selected id]
    exact or_comm

theorem Tied.round (hb : b.Tied c state) (hnodes : sortedNodes state ≠ [])
    (h : b.round c state (sortedNodes state) = some next) : next.Tied c state ∧
      ∃ shardID info, next.updateShards = b.updateShards ++ [(shardID, info)] ∧
        Selection c state b.updateShards shardID info := by
  obtain ⟨largest, smallest, hmax, hmin, -, hround⟩ := round_cases hb hnodes
  rw [hround] at h
  split at h
  · contradiction
  · rename_i hgap
    obtain ⟨shardID, hfound, rfl⟩ := Option.map_eq_some_iff.mp h
    obtain ⟨htied, hselection⟩ := hb.select hmax hmin (by omega) hfound
    exact ⟨htied, shardID, _, rfl, hselection⟩

theorem Tied.rounds (hb : b.Tied c state) (hnodes : sortedNodes state ≠ [])
    (hs : Selected c state b.updateShards) (fuel : Nat) :
    Selected c state (b.rounds c state (sortedNodes state) fuel).updateShards ∧
      b.updateShards <+: (b.rounds c state (sortedNodes state) fuel).updateShards ∧
      (b.rounds c state (sortedNodes state) fuel).updateShards.length ≤
        b.updateShards.length + fuel := by
  induction fuel generalizing b with
  | zero => exact ⟨hs, List.prefix_rfl, Nat.le_refl _⟩
  | succ fuel ih =>
    rw [Balance.rounds]
    split
    · exact ⟨hs, List.prefix_rfl, by omega⟩
    · rename_i next hnext
      obtain ⟨htied, shardID, info, hupdate, hselection⟩ := hb.round hnodes hnext
      have hsel := hs.concat hselection
      rw [← hupdate] at hsel
      obtain ⟨hall, hbefore, hlength⟩ := ih htied hsel
      refine ⟨hall, ?_, ?_⟩
      · exact (hupdate ▸ List.prefix_append _ _).trans hbefore
      · rw [hupdate, List.length_append, List.length_singleton] at hlength
        omega

end Balance

/-! ### A batch -/

section Batch

variable {c : Config} {state : ClusterState}

theorem rebalanceShards_selected (c : Config) (state : ClusterState) :
    Selected c state (rebalanceShards c state) ∧
      (rebalanceShards c state).length ≤ c.rebalanceShardsBatchSize := by
  have hnone : Selected c state [] := by
    intro before shardID info after heq
    simp at heq
  unfold rebalanceShards
  split
  · exact ⟨hnone, Nat.zero_le _⟩
  · rename_i hnodes
    split
    · obtain ⟨hall, -, hlength⟩ :=
        Balance.tied_start.rounds hnodes hnone c.rebalanceShardsBatchSize
      exact ⟨hall, by simpa [Balance.start] using hlength⟩
    · exact ⟨hnone, Nat.zero_le _⟩

theorem rebalanceShards_plans {w : GoString} {shardID : Int} {info : ShardInfo}
    (h : (shardID, info) ∈ rebalanceShards c state) :
    Job.rebalance.Plans c w state shardID info := by
  obtain ⟨before, hselection⟩ := (rebalanceShards_selected c state).1.of_mem h
  have hlive := mem_liveNodes.mp hselection.emptiest.1
  refine ⟨.inr (mem_shardIDs.mp hselection.valid), ?_, ⟨hselection.ne.symm, ?_⟩,
    .inr (.inr (.inr hlive))⟩
  all_goals rw [hselection.retargets]; rfl

theorem rebalanceShards_eq_nil_iff_round (hnodes : sortedNodes state ≠ [])
    (hassigned : allAssigned c state = true) (hbatch : 1 ≤ c.rebalanceShardsBatchSize) :
    rebalanceShards c state = [] ↔
      (Balance.start c state).round c state (sortedNodes state) = none := by
  obtain ⟨fuel, hfuel⟩ := Nat.exists_eq_add_of_le hbatch
  rw [rebalanceShards, if_neg hnodes, if_pos hassigned, hfuel, Nat.add_comm, Balance.rounds]
  cases hround : (Balance.start c state).round c state (sortedNodes state) with
  | none => exact iff_of_true rfl rfl
  | some next =>
    refine iff_of_false (fun hnil => ?_) (by simp)
    obtain ⟨htied, shardID, info, hupdate, hselection⟩ := Balance.tied_start.round hnodes hround
    have hselected : Selected c state next.updateShards := by
      rw [hupdate]
      refine Selected.concat ?_ hselection
      intro before id other after heq
      simp [Balance.start] at heq
    have hkept := (htied.rounds hnodes hselected fuel).2.1
    rw [hnil, List.prefix_nil, hupdate] at hkept
    simp at hkept

theorem rebalanceShards_eq_nil_iff (hnodes : sortedNodes state ≠ [])
    (hassigned : allAssigned c state = true) (hbatch : 1 ≤ c.rebalanceShardsBatchSize) :
    rebalanceShards c state = [] ↔ Level c state ∨
      ∃ largest, maxNode (targetCount c state) (sortedNodes state) =
          some (largest, targetCount c state largest) ∧
        ∀ shardID ∈ shardIDs c, (state.shard shardID).targetNode = largest →
          (state.shard shardID).hasFlag pinned = true := by
  have htied : (Balance.start c state).Tied c state := Balance.tied_start
  obtain ⟨largest, smallest, hmax, hmin, hmaxNode, hround⟩ := Balance.round_cases htied hnodes
  have hcounts : (Balance.start c state).shardCounts = targetCount c state := rfl
  rw [hcounts] at hmax hmin hmaxNode hround
  have hlevel : (targetCount c state largest < targetCount c state smallest + 2 ∨
      c.withinThreshold (targetCount c state largest - targetCount c state smallest)
        (sortedNodes state).length = true) ↔ Level c state := by
    rw [Level, imbalance, spread_eq hmax hmin]
    have := hmax.2 smallest hmin.1
    exact or_congr (by omega) Iff.rfl
  have hcandidate : (Balance.start c state).candidate state largest = none ↔
      ∀ shardID ∈ shardIDs c, (state.shard shardID).targetNode = largest →
        (state.shard shardID).hasFlag pinned = true := by
    simp [Balance.candidate, Balance.start]
  rw [rebalanceShards_eq_nil_iff_round hnodes hassigned hbatch, hround]
  split
  · rename_i hstop
    exact iff_of_true rfl (.inl (hlevel.mp hstop))
  · rename_i hgo
    rw [Option.map_eq_none_iff, hcandidate]
    constructor
    · intro hpinned
      exact .inr ⟨largest, hmaxNode, hpinned⟩
    · rintro (hstop | ⟨other, hother, hpinned⟩)
      · exact absurd (hlevel.mpr hstop) hgo
      · rw [hmaxNode] at hother
        cases hother
        exact hpinned

end Batch

/-! ### Repeated batches -/

/-- What repeated batches need to come to an end: nothing is pinned or meant for a dead node, and
the empty address, which stands for no target, is not a node. -/
structure Movable (c : Config) (state : ClusterState) : Prop where
  nodes : sortedNodes state ≠ []
  addresses : state.hasNode [] = false
  assigned : allAssigned c state = true
  unpinned : ∀ shardID ∈ shardIDs c, (state.shard shardID).hasFlag pinned = false
  live : ∀ shardID ∈ shardIDs c, state.hasNode (state.shard shardID).targetNode = true

section Repeated

variable {c : Config} {state next : ClusterState}

private theorem targetCount_stored (h : state.FullyStored (rebalanceShards c state) next) :
    targetCount c next = targetCount c (state.update (rebalanceShards c state)) := by
  apply targetCount_congr
  intro shardID
  rw [h.record_eq (rebalanceShards_selected c state).1.nodup]

theorem liveNodes_stored (h : state.FullyStored (rebalanceShards c state) next) :
    liveNodes next = liveNodes state ∧ sortedNodes next = sortedNodes state := by
  have hnodes := h.nodes_eq (rebalanceShards_selected c state).1.nodup
  rw [liveNodes, sortedNodes, hnodes]
  exact ⟨rfl, rfl⟩

theorem Movable.stored (hm : Movable c state)
    (h : state.FullyStored (rebalanceShards c state) next) : Movable c next := by
  have hselected := (rebalanceShards_selected c state).1
  have hnodes := h.nodes_eq hselected.nodup
  have hhas : ∀ node, next.hasNode node = state.hasNode node := by
    intro node
    rw [hasNode, hnodes, hasNode]
  -- a shard of the batch has a new live target, any other is as it was
  have hshard : ∀ shardID ∈ shardIDs c, (next.shards.lookup shardID).isSome = true ∧
      (next.shard shardID).hasFlag pinned = false ∧
      state.hasNode (next.shard shardID).targetNode = true := by
    intro shardID hvalid
    by_cases hmem : shardID ∈ (rebalanceShards c state).map Prod.fst
    · obtain ⟨⟨id, info⟩, hentry, rfl⟩ := List.mem_map.mp hmem
      obtain ⟨before, hselection⟩ := hselected.of_mem hentry
      obtain ⟨rev, hlookup⟩ := h.lookup_of_mem hselected.nodup hentry
      rw [ClusterState.shard, hlookup]
      refine ⟨rfl, ?_, mem_liveNodes.mp hselection.emptiest.1⟩
      have hflag := hselection.unpinned
      rw [hselection.retargets]
      exact hflag
    · have hlookup := h.lookup_of_notMem hselected.nodup hmem
      have hassigned := List.all_eq_true.mp hm.assigned shardID hvalid
      rw [ClusterState.shard, hlookup, ← ClusterState.shard]
      rw [Bool.and_eq_true] at hassigned
      exact ⟨hassigned.1, hm.unpinned shardID hvalid, hm.live shardID hvalid⟩
  refine ⟨?_, ?_, ?_, ?_, ?_⟩
  · rw [(liveNodes_stored h).2]
    exact hm.nodes
  · rw [hhas]
    exact hm.addresses
  · apply List.all_eq_true.mpr
    intro shardID hvalid
    obtain ⟨hsome, -, hlive⟩ := hshard shardID hvalid
    rw [hsome, Bool.true_and, bne_iff_ne]
    intro hempty
    rw [hempty, hm.addresses] at hlive
    contradiction
  · exact fun shardID hvalid => (hshard shardID hvalid).2.1
  · intro shardID hvalid
    rw [hhas]
    exact (hshard shardID hvalid).2.2

theorem Movable.eq_nil_iff (hm : Movable c state) (hbatch : 1 ≤ c.rebalanceShardsBatchSize) :
    rebalanceShards c state = [] ↔ Level c state := by
  rw [rebalanceShards_eq_nil_iff hm.nodes hm.assigned hbatch]
  refine ⟨?_, .inl⟩
  rintro (hlevel | ⟨largest, hmax, hpinned⟩)
  · exact hlevel
  -- the largest count is zero, and then all are
  · have hzero : targetCount c state largest = 0 := by
      rw [targetCount, List.countP_eq_zero]
      intro shardID hvalid htarget
      have := hpinned shardID hvalid (of_decide_eq_true htarget)
      rw [hm.unpinned shardID hvalid] at this
      contradiction
    left
    apply Nat.lt_of_le_of_lt (spread_le (d := 0) ?_) Nat.two_pos
    intro a ha b hb
    have := (maxNode_spec hmax).2.2 a (List.mem_toFinset.mp ha)
    omega

theorem Movable.squares_lt (hm : Movable c state) (hbatch : 1 ≤ c.rebalanceShardsBatchSize)
    (hlevel : ¬ Level c state) (h : state.FullyStored (rebalanceShards c state) next) :
    squares (liveNodes next) (targetCount c next) <
      squares (liveNodes state) (targetCount c state) := by
  rw [(liveNodes_stored h).1, targetCount_stored h]
  exact (rebalanceShards_selected c state).1.squares_lt (mt (hm.eq_nil_iff hbatch).mp hlevel)

theorem Movable.reaches_level {run : ℕ → ClusterState} (hm : Movable c (run 0))
    (hbatch : 1 ≤ c.rebalanceShardsBatchSize)
    (hrun : ∀ i, (run i).FullyStored (rebalanceShards c (run i)) (run (i + 1))) :
    ∃ n, Level c (run n) ∧ rebalanceShards c (run n) = [] := by
  have hmovable : ∀ i, Movable c (run i) := by
    intro i
    induction i with
    | zero => exact hm
    | succ i ih => exact ih.stored (hrun i)
  by_contra hnever
  have hlevel : ∀ i, ¬ Level c (run i) := by
    intro i hi
    exact hnever ⟨i, hi, ((hmovable i).eq_nil_iff hbatch).mpr hi⟩
  have hbound : ∀ i, squares (liveNodes (run i)) (targetCount c (run i)) + i ≤
      squares (liveNodes (run 0)) (targetCount c (run 0)) := by
    intro i
    induction i with
    | zero => exact Nat.le_refl _
    | succ i ih =>
      have := (hmovable i).squares_lt hbatch (hlevel i) (hrun i)
      omega
  have := hbound (squares (liveNodes (run 0)) (targetCount c (run 0)) + 1)
  omega

end Repeated

/-- A batch has at most the configured number of shards, each once. Every selection takes a shard
that is not pinned from one live node to another and changes nothing but its target; the node
that gives it still has as many shards as the one that gets it, the largest difference of the
counts does not grow, and the sum of their squares falls. So if nothing is pinned, all targets
are live and no node has the empty address, batches that are stored end in counts that are level,
where nothing more is selected. -/
theorem rebalancing_improves_and_ends (c : Config) (threshold : ℚ) (state : ClusterState)
    (hnodes : sortedNodes state ≠ []) (hassigned : allAssigned c state = true) :
    (rebalanceShards (c.withImbalanceThreshold threshold) state).length ≤
      c.rebalanceShardsBatchSize ∧
    ((rebalanceShards (c.withImbalanceThreshold threshold) state).map Prod.fst).Nodup ∧
    (∀ before shardID info after, rebalanceShards (c.withImbalanceThreshold threshold) state =
        before ++ (shardID, info) :: after →
      c.ValidShard shardID ∧ (state.shard shardID).hasFlag pinned = false ∧
      state.hasNode (state.shard shardID).targetNode = true ∧
      state.hasNode info.targetNode = true ∧
      info.targetNode ≠ (state.shard shardID).targetNode ∧
      info = (state.shard shardID).withTargetNode info.targetNode ∧
      targetCount c (state.update (before ++ [(shardID, info)])) info.targetNode ≤
        targetCount c (state.update (before ++ [(shardID, info)]))
          (state.shard shardID).targetNode ∧
      imbalance c (state.update (before ++ [(shardID, info)])) ≤ imbalance c (state.update before) ∧
      squares (liveNodes state) (targetCount c (state.update (before ++ [(shardID, info)]))) <
        squares (liveNodes state) (targetCount c (state.update before))) ∧
    (1 ≤ c.rebalanceShardsBatchSize → state.hasNode [] = false →
      (∀ shardID, c.ValidShard shardID → (state.shard shardID).hasFlag pinned = false ∧
        state.hasNode (state.shard shardID).targetNode = true) →
      ∀ run : ℕ → ClusterState, run 0 = state →
        (∀ i, (run i).FullyStored
          (rebalanceShards (c.withImbalanceThreshold threshold) (run i)) (run (i + 1))) →
        ∃ n, (imbalance c (run n) < 2 ∨ (imbalance c (run n) : ℚ) ≤
            threshold * (c.numShards / (sortedNodes (run n)).length)) ∧
          rebalanceShards (c.withImbalanceThreshold threshold) (run n) = []) := by
  obtain ⟨hselected, hlength⟩ := rebalanceShards_selected (c.withImbalanceThreshold threshold) state
  refine ⟨hlength, hselected.nodup, ?_, ?_⟩
  · intro before shardID info after hsplit
    have h := hselected before shardID info after hsplit
    exact ⟨mem_shardIDs.mp h.valid, h.unpinned, mem_liveNodes.mp h.fullest.1,
      mem_liveNodes.mp h.emptiest.1, h.ne.symm, h.retargets, h.donor_ge, h.imbalance_le,
      h.squares_lt⟩
  · intro hbatch haddresses hshards run hstart hrun
    have hmovable : Movable (c.withImbalanceThreshold threshold) (run 0) := by
      rw [hstart]
      exact ⟨hnodes, haddresses, hassigned,
        fun shardID hvalid => (hshards shardID (mem_shardIDs.mp hvalid)).1,
        fun shardID hvalid => (hshards shardID (mem_shardIDs.mp hvalid)).2⟩
    obtain ⟨n, hlevel, hnil⟩ := hmovable.reaches_level hbatch hrun
    exact ⟨n, hlevel.imp_right of_decide_eq_true, hnil⟩

section Examples

/-- Four shards, one of which may move at a time. -/
def fourShards : Config := { twoShards with
  numShards := 4, numShards_pos := by decide, numShards_lt := by decide }

def fifth : ℚ := 1 / 5

/-- Every shard is meant for `a`. -/
def allOnA (nodes : List GoString) : ClusterState :=
  ofRecords nodes (List.replicate 4 ⟨lit "a", lit "a", []⟩)

/-- Batch after batch is stored. -/
def batches (state : ClusterState) (n : ℕ) : ClusterState :=
  (fun view =>
    view.stored (rebalanceShards (fourShards.withImbalanceThreshold fifth) view))^[n] state

theorem fullyStored_batches (state : ClusterState) (i : ℕ) : (batches state i).FullyStored
    (rebalanceShards (fourShards.withImbalanceThreshold fifth) (batches state i))
    (batches state (i + 1)) := by
  rw [batches, batches, Function.iterate_succ_apply']
  exact fullyStored_stored _ _

theorem rebalancing_improves_and_ends_twoNodes :
    ∃ n, (imbalance fourShards (batches (allOnA [lit "a", lit "b"]) n) < 2 ∨
        (imbalance fourShards (batches (allOnA [lit "a", lit "b"]) n) : ℚ) ≤ fifth *
          (fourShards.numShards /
            (sortedNodes (batches (allOnA [lit "a", lit "b"]) n)).length)) ∧
      rebalanceShards (fourShards.withImbalanceThreshold fifth)
        (batches (allOnA [lit "a", lit "b"]) n) = [] := by
  refine (rebalancing_improves_and_ends fourShards fifth (allOnA [lit "a", lit "b"])
    (by decide) (by decide)).2.2.2 (by decide) (by decide) ?_ (batches _) rfl
    (fullyStored_batches _)
  intro shardID hvalid
  have hall : ∀ shardID ∈ shardIDs fourShards,
      ((allOnA [lit "a", lit "b"]).shard shardID).hasFlag pinned = false ∧
        (allOnA [lit "a", lit "b"]).hasNode
          ((allOnA [lit "a", lit "b"]).shard shardID).targetNode = true := by decide
  exact hall shardID (mem_shardIDs.mpr hvalid)

/-- A node with the empty address gets a shard, which then counts as one without a target: no
batch is selected any more, however uneven the counts are. -/
theorem empty_address_stops_rebalancing :
    0 < fifth ∧ 1 ≤ fourShards.rebalanceShardsBatchSize ∧
    sortedNodes (allOnA [lit "a", []]) ≠ [] ∧
    allAssigned fourShards (allOnA [lit "a", []]) = true ∧
    (∀ shardID, fourShards.ValidShard shardID →
      ((allOnA [lit "a", []]).shard shardID).hasFlag pinned = false ∧
      (allOnA [lit "a", []]).hasNode ((allOnA [lit "a", []]).shard shardID).targetNode = true) ∧
    ∃ run : ℕ → ClusterState, run 0 = allOnA [lit "a", []] ∧
      (∀ i, (run i).FullyStored
        (rebalanceShards (fourShards.withImbalanceThreshold fifth) (run i)) (run (i + 1))) ∧
      ∀ n, ¬ (imbalance fourShards (run n) < 2 ∨ (imbalance fourShards (run n) : ℚ) ≤
        fifth * (fourShards.numShards / (sortedNodes (run n)).length)) := by
  have hall : ∀ shardID ∈ shardIDs fourShards,
      ((allOnA [lit "a", []]).shard shardID).hasFlag pinned = false ∧
        (allOnA [lit "a", []]).hasNode
          ((allOnA [lit "a", []]).shard shardID).targetNode = true := by decide
  refine ⟨by norm_num [fifth], by decide, by decide, by decide,
    fun shardID hvalid => hall shardID (mem_shardIDs.mpr hvalid), batches (allOnA [lit "a", []]),
    rfl, fullyStored_batches _, ?_⟩
  have hstops : ∀ n, batches (allOnA [lit "a", []]) (n + 1) = batches (allOnA [lit "a", []]) 1 := by
    intro n
    induction n with
    | zero => rfl
    | succ n ih =>
      have hnil : rebalanceShards (fourShards.withImbalanceThreshold fifth)
          (batches (allOnA [lit "a", []]) 1) = [] := by decide +kernel
      rw [batches, Function.iterate_succ_apply', ← batches, ih, hnil]
      rfl
  have huneven : ∀ n, 2 ≤ imbalance fourShards (batches (allOnA [lit "a", []]) n) ∧
      (sortedNodes (batches (allOnA [lit "a", []]) n)).length = 2 := by
    intro n
    cases n with
    | zero => decide +kernel
    | succ n =>
      rw [hstops]
      decide +kernel
  intro n hlevel
  obtain ⟨himbalance, hlength⟩ := huneven n
  rcases hlevel with hless | hless
  · omega
  · have hcast : (2 : ℚ) ≤ imbalance fourShards (batches (allOnA [lit "a", []]) n) := by
      exact_mod_cast himbalance
    have hbound := hcast.trans hless
    rw [hlength] at hbound
    norm_num [fifth, fourShards] at hbound

end Examples

/-! ### Donors other than the fullest node -/

/-- A live node that an unpinned shard is meant for has at least two shards more than an emptiest
node, and more than the threshold allows. -/
def Overfull (c : Config) (threshold : ℚ) (state : ClusterState) (node : GoString) : Prop :=
  state.hasNode node = true ∧
    (∃ shardID, c.ValidShard shardID ∧ (state.shard shardID).targetNode = node ∧
      (state.shard shardID).hasFlag pinned = false) ∧
    ∃ least, Emptiest (liveNodes state) (targetCount c state) least ∧
      targetCount c state least + 2 ≤ targetCount c state node ∧
      threshold * (c.numShards / (sortedNodes state).length) <
        ((targetCount c state node - targetCount c state least : ℕ) : ℚ)

theorem Overfull.not_level {c : Config} {threshold : ℚ} {state : ClusterState} {node : GoString}
    (h : Overfull c threshold state node) : ¬ Level (c.withImbalanceThreshold threshold) state := by
  obtain ⟨hlive, -, least, hleast, hgap, hthreshold⟩ := h
  have hspread : targetCount c state node - targetCount c state least ≤
      imbalance (c.withImbalanceThreshold threshold) state :=
    sub_le_spread (mem_liveNodes.mpr hlive) hleast.1
  rintro (hless | hwithin)
  · omega
  · have hle := of_decide_eq_true hwithin
    have hcast : ((targetCount c state node - targetCount c state least : ℕ) : ℚ) ≤
        imbalance (c.withImbalanceThreshold threshold) state := by
      exact_mod_cast hspread
    exact absurd (hthreshold.trans_le (hcast.trans hle)) (lt_irrefl _)

/-- The loop looks at one donor only, the first live node with the largest count. That nothing is
selected says that no other node is overfull exactly if that node is the target of an unpinned
shard, or no node is overfull anyway. -/
theorem rebalancing_is_blocked_iff (c : Config) (threshold : ℚ) (state : ClusterState)
    (hnodes : sortedNodes state ≠ []) (hassigned : allAssigned c state = true)
    (hbatch : 1 ≤ c.rebalanceShardsBatchSize) :
    (rebalanceShards (c.withImbalanceThreshold threshold) state = [] →
      ¬ ∃ node, Overfull c threshold state node) ↔
    ((∃ node, Overfull c threshold state node) → ∀ largest count,
      maxNode (targetCount c state) (sortedNodes state) = some (largest, count) →
        ∃ shardID, c.ValidShard shardID ∧ (state.shard shardID).targetNode = largest ∧
          (state.shard shardID).hasFlag pinned = false) := by
  have hnil := rebalanceShards_eq_nil_iff (c := c.withImbalanceThreshold threshold) hnodes
    hassigned hbatch
  constructor
  · rintro hclaim hover largest count hmax
    have hcount := (maxNode_spec hmax).2.1
    subst hcount
    by_contra hnone
    refine hclaim (hnil.mpr (.inr ⟨largest, hmax, ?_⟩)) hover
    intro shardID hvalid htarget
    by_contra hpinned
    exact hnone ⟨shardID, mem_shardIDs.mp hvalid, htarget, Bool.eq_false_iff.mpr hpinned⟩
  · rintro hfree hempty ⟨node, hover⟩
    rcases hnil.mp hempty with hlevel | ⟨largest, hmax, hpinned⟩
    · exact hover.not_level hlevel
    · obtain ⟨shardID, hvalid, htarget, hflag⟩ := hfree ⟨node, hover⟩ largest _ hmax
      have := hpinned shardID (mem_shardIDs.mpr hvalid) htarget
      rw [hflag] at this
      contradiction

section Examples

def fiveShards : Config := { twoShards with
  numShards := 5, numShards_pos := by decide, numShards_lt := by decide }

/-- Three shards are meant for `a`, two for `b` and none for `c`. -/
def threeTwoNone (flags : List GoString) : ClusterState :=
  ofRecords [lit "a", lit "b", lit "c"]
    (List.replicate 3 ⟨lit "a", lit "a", flags⟩ ++ List.replicate 2 ⟨lit "b", lit "b", []⟩)

theorem overfull_b (flags : List GoString) :
    Overfull fiveShards fifth (threeTwoNone flags) (lit "b") := by
  have hb : targetCount fiveShards (threeTwoNone flags) (lit "b") = 2 := rfl
  have hc : targetCount fiveShards (threeTwoNone flags) (lit "c") = 0 := rfl
  have hlength : (sortedNodes (threeTwoNone flags)).length = 3 := rfl
  refine ⟨rfl, ⟨3, by decide, rfl, rfl⟩, lit "c", ⟨?_, ?_⟩, ?_, ?_⟩
  · exact mem_liveNodes.mpr rfl
  · intro a _
    rw [hc]
    exact Nat.zero_le _
  · rw [hb, hc]
  · rw [hb, hc, hlength]
    norm_num [fifth, fiveShards]

theorem rebalancing_is_blocked_iff_unpinned :
    Overfull fiveShards fifth (threeTwoNone []) (lit "b") ∧
      rebalanceShards (fiveShards.withImbalanceThreshold fifth) (threeTwoNone []) ≠ [] := by
  refine ⟨overfull_b [], fun hnil => ?_⟩
  have hblocked := (rebalancing_is_blocked_iff fiveShards fifth (threeTwoNone []) (by decide)
    (by decide) (by decide)).mpr
  refine hblocked ?_ hnil ⟨lit "b", overfull_b []⟩
  intro _ largest count hmax
  have hlargest : maxNode (targetCount fiveShards (threeTwoNone []))
      (sortedNodes (threeTwoNone [])) = some (lit "a", 3) := by decide
  rw [hlargest] at hmax
  cases hmax
  exact ⟨0, by decide, by decide, by decide⟩

theorem pinned_shards_block_rebalancing :
    sortedNodes (threeTwoNone [pinned]) ≠ [] ∧
    allAssigned fiveShards (threeTwoNone [pinned]) = true ∧
    1 ≤ fiveShards.rebalanceShardsBatchSize ∧
    rebalanceShards (fiveShards.withImbalanceThreshold fifth) (threeTwoNone [pinned]) = [] ∧
    Overfull fiveShards fifth (threeTwoNone [pinned]) (lit "b") :=
  ⟨by decide, by decide, by decide, by decide +kernel, overfull_b [pinned]⟩

end Examples
end Goverse.Consensus
