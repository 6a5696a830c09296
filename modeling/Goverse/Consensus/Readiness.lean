import Goverse.Consensus.Snapshot
import Goverse.Consensus.Handover

/-! `IsReady` compares the number of records with the number of shards and looks at the records
there are. That this covers every shard rests on all keys of the map being shards, which every
writer of the map has to keep: loads, watch events and the local updates of the planners. -/
namespace Goverse.Consensus

open GoString Lib ClusterState

variable {c : Config}

def getEffectiveMinQuorum (minQuorum : Int) : Int := if minQuorum ≤ 0 then 1 else minQuorum

/-- `IsReady` of a manager that has its etcd manager or not, at the quorum that was set last. -/
def isReady (c : Config) (etcdManager : Bool) (minQuorum : Int) (state : ClusterState) : Bool :=
  etcdManager && decide (state.revision ≠ 0) && decide (state.nodes.keys.length ≠ 0) &&
    decide (getEffectiveMinQuorum minQuorum ≤ state.nodes.keys.length) &&
    isFullyAssignedAndClaimed c state

/-- A manager and the entries of its plans that are being stored. -/
structure Observer where
  node : Node
  storing : Plan

inductive ObserverLabel where
  /-- A load or a reload. Its answer may hold any keys. -/
  | load (kvs : List (GoString × GoString × Nat)) (revision : Nat) (now : Int)
  | event (w : Write GoString GoString) (rev : Nat) (now : Int)
  | plan (job : Job) (self : GoString) (objectIDs : List GoString) (choice : Choice)
  /-- The local update after the transaction of an entry. -/
  | applyLocal (j rev : Nat)

namespace Observer

variable {s t : Observer}

def step (c : Config) (s : Observer) : ObserverLabel → Option Observer
  | .load kvs revision now =>
    some { s with node := { s.node with view := loadAnswer c kvs revision now } }
  | .event w rev now =>
    some { s with node := { s.node with view := s.node.view.handleEvent c now w rev } }
  | .plan job self objectIDs choice =>
    (job.plan c s.node self objectIDs choice).map fun (plan, firstSeen) =>
      { node := { s.node with stuckShardFirstSeen := firstSeen }, storing := s.storing ++ plan }
  | .applyLocal j rev =>
    s.storing[j]?.map fun (shardID, info) =>
      { s with node := { s.node with view := s.node.view.applyStored shardID info rev } }

/-- A run starts with the first load. -/
def machine (c : Config) : Machine Observer ObserverLabel where
  Init s := (∃ kvs revision now, s.node.view = loadAnswer c kvs revision now) ∧ s.storing = []
  step := step c

structure InRange (c : Config) (s : Observer) : Prop where
  view : ∀ shardID ∈ s.node.view.shards, c.ValidShard shardID
  storing : ∀ entry ∈ s.storing, c.ValidShard entry.1

end Observer

section Views

variable {view : ClusterState}

theorem valid_of_mem_insert {shardID : Int} {info : ShardInfo} (hvalid : c.ValidShard shardID)
    (h : ∀ id ∈ view.shards, c.ValidShard id) :
    ∀ id ∈ view.shards.insert shardID info, c.ValidShard id := by
  intro id hid
  rcases (AList.mem_insert _).mp hid with rfl | hid
  · exact hvalid
  · exact h id hid

private theorem valid_loadKey (kv : GoString × GoString × Nat)
    (h : ∀ id ∈ view.shards, c.ValidShard id) :
    ∀ id ∈ (view.loadKey c kv).shards, c.ValidShard id := by
  have heffect := loadKey_effect c view kv
  generalize view.loadKey c kv = next at heffect ⊢
  cases heffect with
  | shard _ hshard => exact valid_of_mem_insert (valid_of_shardOfKey hshard) h
  | leader | node | gate | ignored => exact h

theorem valid_loadAnswer (c : Config) (kvs : List (GoString × GoString × Nat)) (revision : Nat)
    (now : Int) : ∀ id ∈ (loadAnswer c kvs revision now).shards, c.ValidShard id := by
  apply List.foldlRecOn
    (motive := fun view : ClusterState => ∀ id ∈ view.shards, c.ValidShard id)
  · exact fun id hid => absurd hid (AList.notMem_empty id)
  · intro view h kv _
    exact valid_loadKey kv h

theorem valid_handleEvent (w : Write GoString GoString) (rev : Nat) (now : Int)
    (h : ∀ id ∈ view.shards, c.ValidShard id) :
    ∀ id ∈ (view.handleEvent c now w rev).shards, c.ValidShard id := by
  have heffect := handleEvent_effect c view now w rev
  generalize view.handleEvent c now w rev = next at heffect ⊢
  cases heffect with
  | other _ hshards =>
    rw [hshards]
    exact h
  | join | part => exact h
  | record _ hshard => exact valid_of_mem_insert (valid_of_shardOfKey hshard) h
  | forget => exact fun id hid => h id (AList.mem_erase.mp hid).2

theorem valid_applyStored {shardID : Int} (hvalid : c.ValidShard shardID) (info : ShardInfo)
    (rev : Nat) (h : ∀ id ∈ view.shards, c.ValidShard id) :
    ∀ id ∈ (view.applyStored shardID info rev).shards, c.ValidShard id := by
  unfold ClusterState.applyStored
  split
  · exact valid_of_mem_insert hvalid h
  · exact h

/-- As many keys as shards, all of them shards: no shard is missing. -/
private theorem mem_shards_of_length (hvalid : ∀ id ∈ view.shards, c.ValidShard id)
    (hlength : view.shards.keys.length = c.numShards) {shardID : Int}
    (h : c.ValidShard shardID) : shardID ∈ view.shards := by
  have hsub : view.shards.keys ⊆ shardIDs c := by
    intro id hid
    exact mem_shardIDs.mpr (hvalid id (AList.mem_keys.mpr hid))
  have hperm : view.shards.keys.Perm (shardIDs c) := by
    refine (List.subperm_of_subset view.shards.keys_nodup hsub).perm_of_length_le ?_
    rw [hlength, shardIDs, List.length_map, List.length_range]
  exact AList.mem_keys.mpr (hperm.mem_iff.mpr (mem_shardIDs.mpr h))

private theorem lookup_of_isFullyAssignedAndClaimed (hvalid : ∀ id ∈ view.shards, c.ValidShard id)
    (h : isFullyAssignedAndClaimed c view = true) {shardID : Int}
    (hshard : c.ValidShard shardID) :
    ∃ info, view.shards.lookup shardID = some info ∧ info.targetNode ≠ [] ∧
      info.currentNode ≠ [] := by
  obtain ⟨hlength, hall⟩ := Bool.and_eq_true_iff.mp h
  have hmem := mem_shards_of_length hvalid (beq_iff_eq.mp hlength) hshard
  obtain ⟨info, hlookup⟩ := Option.isSome_iff_exists.mp (AList.lookup_isSome.mpr hmem)
  have hentry := List.all_eq_true.mp hall ⟨shardID, info⟩ (AList.mem_lookup_iff.mp hlookup)
  exact ⟨info, hlookup, by simpa using hentry⟩

end Views

namespace Observer

variable {s t : Observer}

theorem InRange.step (h : s.InRange c) {label : ObserverLabel} (hstep : s.step c label = some t) :
    t.InRange c := by
  cases label with
  | load kvs revision now =>
    cases hstep
    exact ⟨valid_loadAnswer c kvs revision now, h.storing⟩
  | event w rev now =>
    cases hstep
    exact ⟨valid_handleEvent w rev now h.view, h.storing⟩
  | plan job self objectIDs choice =>
    obtain ⟨⟨plan, firstSeen⟩, hplan, rfl⟩ := Option.map_eq_some_iff.mp hstep
    refine ⟨h.view, fun entry hentry => ?_⟩
    rcases List.mem_append.mp hentry with hentry | hentry
    · exact h.storing entry hentry
    · exact (Job.plan_plans hplan hentry).validShard h.view
  | applyLocal j rev =>
    obtain ⟨entry, hentry, rfl⟩ := Option.map_eq_some_iff.mp hstep
    have hvalid := h.storing entry (List.mem_of_getElem? hentry)
    exact ⟨valid_applyStored hvalid entry.2 rev h.view, h.storing⟩

theorem inRange_of_reachable (h : (machine c).Reachable Machine.Any s) : s.InRange c := by
  apply h.invariant
  · rintro s ⟨⟨kvs, revision, now, hview⟩, hstoring⟩
    refine ⟨?_, by simp [hstoring]⟩
    rw [hview]
    exact valid_loadAnswer c kvs revision now
  · exact fun hs _ hst => hs.step hst

theorem readiness_is_sound (c : Config) (s : Observer)
    (hreach : (machine c).Reachable Machine.Any s) :
    (∀ shardID ∈ s.node.view.shards, c.ValidShard shardID) ∧
      ∀ etcdManager minQuorum, isReady c etcdManager minQuorum s.node.view = true →
        (∀ shardID, c.ValidShard shardID → ∃ info, s.node.view.shards.lookup shardID = some info ∧
          info.targetNode ≠ [] ∧ info.currentNode ≠ []) ∧
        getEffectiveMinQuorum minQuorum ≤ s.node.view.nodes.keys.length := by
  have hrange := (inRange_of_reachable hreach).view
  refine ⟨hrange, fun etcdManager minQuorum hready => ?_⟩
  obtain ⟨hquorum, hfull⟩ := Bool.and_eq_true_iff.mp hready
  refine ⟨fun shardID => lookup_of_isFullyAssignedAndClaimed hrange hfull, ?_⟩
  exact of_decide_eq_true (Bool.and_eq_true_iff.mp hquorum).2

/-- The answer to the first load of a manager with one node and a shard that has no owner yet. -/
def halfClaimed : List (GoString × GoString × Nat) :=
  [(lit "/g/nodes/a", lit "a", 1), (lit "/g/shard/0", lit "a,a", 2),
    (lit "/g/shard/1", lit "a,", 3), (lit "/g/shard/7", lit "a,a", 4)]

def halfReady : Observer :=
  ⟨⟨⟨loadAnswer twoShards halfClaimed 4 0, .unloaded⟩, [], []⟩, []⟩

/-- The node claims the other shard, and then everything is ready. -/
theorem readiness_is_sound_claimed :
    isReady twoShards true 1 halfReady.node.view = false ∧
      ∃ s : Observer, (machine twoShards).Reachable Machine.Any s ∧
        isReady twoShards true 1 s.node.view = true ∧
        (∀ shardID, twoShards.ValidShard shardID →
          ∃ info, s.node.view.shards.lookup shardID = some info ∧ info.targetNode ≠ [] ∧
            info.currentNode ≠ []) ∧
        getEffectiveMinQuorum 1 ≤ s.node.view.nodes.keys.length := by
  have hrun : ((machine twoShards).exec Machine.Any halfReady
      [.plan .claim (lit "a") [] ⟨true, 0, [], 0⟩, .applyLocal 0 5]).any
        (fun s => isReady twoShards true 1 s.node.view) = true := by decide
  obtain ⟨s, hreach, hready⟩ := Machine.exec_reachable hrun ⟨⟨halfClaimed, 4, 0, rfl⟩, rfl⟩
  exact ⟨by decide, s, hreach, hready, (readiness_is_sound twoShards s hreach).2 true 1 hready⟩

end Observer
end Goverse.Consensus
