import Goverse.Consensus.Ownership

/-! How the view of a node moves. Events and local updates never take a shard back to an
older version, a loaded view has the last version of every shard, and a registration that
is not deleted stays in every view that has it. -/
namespace Goverse.Consensus

open GoString Lib Sharding ClusterState

variable {c : Config} {etcd : Etcd} {view : ClusterState}

/-- The key a node registers under. -/
def Config.nodeKey (c : Config) (node : GoString) : GoString := c.nodesPrefix ++ node

section Loading

theorem load_establishes {P : ClusterState → Prop} (now : Int) {key value : GoString} {rev : Nat}
    (hget : etcd.get key = some (value, rev)) (hkey : hasPrefix key c.etcdPrefix = true)
    (hmakes : ∀ view, P (ClusterState.loadKey c view (key, value, rev)))
    (hkeeps : ∀ {view key value rev}, P view → etcd.get key = some (value, rev) →
      P (ClusterState.loadKey c view (key, value, rev))) : P (load c etcd now) := by
  have hread : (key, value, rev) ∈ (etcd.live.filter fun kv =>
      hasPrefix kv.1 c.etcdPrefix).insertionSort fun a b => bytesLe a.1 b.1 :=
    (List.mem_insertionSort _).mpr (List.mem_filter.mpr ⟨Feed.mem_live.mpr hget, hkey⟩)
  obtain ⟨before, after, hsplit⟩ := List.append_of_mem hread
  unfold load loadAnswer
  rw [hsplit, List.foldl_append, List.foldl_cons]
  apply List.foldlRecOn (motive := P)
  · exact hmakes _
  · intro view h kv hkv
    have hkv : kv ∈ before ++ (key, value, rev) :: after := by simp [hkv]
    rw [← hsplit, List.mem_insertionSort, List.mem_filter] at hkv
    exact hkeeps h (Feed.mem_live.mp hkv.1)

@[simp] theorem loadKey_revision (kv : GoString × GoString × Nat) :
    (view.loadKey c kv).revision = view.revision := by
  have heffect := loadKey_effect c view kv
  generalize view.loadKey c kv = next at heffect ⊢
  cases heffect <;> rfl

@[simp] theorem loadAnswer_revision (kvs : List (GoString × GoString × Nat)) (rev : Nat)
    (now : Int) : (loadAnswer c kvs rev now).revision = rev := by
  apply List.foldlRecOn (motive := fun view : ClusterState => view.revision = rev)
  · rfl
  · intro view h kv _
    exact (loadKey_revision kv).trans h

@[simp] theorem load_revision (now : Int) : (load c etcd now).revision = etcd.length :=
  loadAnswer_revision _ _ now

end Loading

section Shards

theorem History.not_deleted (h : History c etcd) (shardID : Int) :
    ⟨c.shardKey shardID, none⟩ ∉ etcd := by
  intro hmem
  obtain ⟨_, _, -, -, heq⟩ := h.stored hmem (hasPrefix_shardKey shardID)
  have := congrArg Write.value heq
  contradiction

theorem lookup_load (hist : History c etcd) (now : Int) {shardID : Int}
    (hvalid : c.ValidShard shardID) {value : GoString} {rev : Nat}
    (hget : etcd.get (c.shardKey shardID) = some (value, rev)) :
    (load c etcd now).shards.lookup shardID = some (parseShardInfo value rev) := by
  refine load_establishes
    (P := fun view => view.shards.lookup shardID = some (parseShardInfo value rev)) now hget
    (hasPrefix_etcdPrefix_shardKey shardID) (fun view => ?_) ?_
  · rw [loadKey_shardKey hvalid]
    exact AList.lookup_insert _
  · intro view key value' rev' h hget'
    have heffect := loadKey_effect c view (key, value', rev')
    generalize view.loadKey c (key, value', rev') = next at heffect ⊢
    cases heffect with
    | leader | node | gate | ignored => exact h
    | @shard id hkey hid =>
      obtain ⟨other, record, hother, -, heq⟩ :=
        hist.stored (Log.version_of_get hget').mem hkey
      obtain rfl : key = c.shardKey other := congrArg Write.key heq
      obtain rfl : other = id := Option.some.inj ((shardOfKey_shardKey hother).symm.trans hid)
      by_cases hsame : shardID = other
      · subst hsame
        cases hget.symm.trans hget'
        exact AList.lookup_insert _
      · exact (AList.lookup_insert_ne hsame).trans h

theorem handleEvent_newer (hist : History c etcd) (now : Int) {w : Write GoString GoString}
    (hw : w ∈ etcd) (rev : Nat) (shardID : Int) : (view.shard shardID).modRevision ≤
      ((view.handleEvent c now w rev).shard shardID).modRevision := by
  have heffect := handleEvent_effect c view now w rev
  generalize view.handleEvent c now w rev = next at heffect ⊢
  cases heffect with
  | other nodes shards => rw [ClusterState.shard, ClusterState.shard, shards]
  | join | part => exact Nat.le_refl _
  | record hkey hshard hvalue hnewer =>
    rename_i id value
    by_cases hsame : shardID = id
    · subst hsame
      rw [shard_insert_self]
      exact Nat.le_of_lt hnewer
    · rw [shard_insert_of_ne hsame]
  | forget hkey hvalue =>
    obtain ⟨_, _, -, -, rfl⟩ := hist.stored hw (hasPrefix_of_isBelow hkey)
    contradiction

theorem applyStored_newer (id : Int) (info : ShardInfo) (rev : Nat) (shardID : Int) :
    (view.shard shardID).modRevision ≤
      ((view.applyStored id info rev).shard shardID).modRevision := by
  unfold ClusterState.applyStored
  split
  · rename_i hnewer
    by_cases hsame : shardID = id
    · subst hsame
      rw [shard_insert_self]
      exact Nat.le_of_lt hnewer
    · rw [shard_insert_of_ne hsame]
  · exact Nat.le_refl _

end Shards

section Nodes

variable {a : GoString}

theorem hasNode_insert (node : GoString) (lastChange : Option Int)
    (h : node = a ∨ view.hasNode a = true) :
    ClusterState.hasNode
      { view with nodes := view.nodes.insert node true, lastChange := lastChange } a = true := by
  rw [hasNode]
  by_cases hsame : a = node
  · subst hsame
    rw [AList.lookup_insert]
    rfl
  · rw [AList.lookup_insert_ne hsame]
    exact h.resolve_left (Ne.symm hsame)

private theorem loadKey_hasNode (h : view.hasNode a = true) (kv : GoString × GoString × Nat) :
    (view.loadKey c kv).hasNode a = true := by
  have heffect := loadKey_effect c view kv
  generalize view.loadKey c kv = next at heffect ⊢
  cases heffect with
  | node => exact hasNode_insert _ _ (.inr h)
  | leader | gate | shard | ignored => exact h

theorem load_hasNode (now : Int) {rev : Nat} (hget : etcd.get (c.nodeKey a) = some (a, rev)) :
    (load c etcd now).hasNode a = true := by
  refine load_establishes (P := fun view => view.hasNode a = true) now hget
    (hasPrefix_etcdPrefix_node a) (fun view => ?_) fun h _ => loadKey_hasNode h _
  rw [Config.nodeKey, loadKey_node]
  exact hasNode_insert _ _ (.inl rfl)

theorem handleEvent_hasNode (h : view.hasNode a = true) (now : Int) {w : Write GoString GoString}
    (hkept : w ≠ ⟨c.nodeKey a, none⟩) (rev : Nat) :
    (view.handleEvent c now w rev).hasNode a = true := by
  have heffect := handleEvent_effect c view now w rev
  generalize view.handleEvent c now w rev = next at heffect ⊢
  cases heffect with
  | other nodes =>
    rw [hasNode, nodes]
    exact h
  | join => exact hasNode_insert _ _ (.inr h)
  | part hkey hvalue =>
    have hother : a ≠ w.key.drop c.nodesPrefix.length := by
      rintro rfl
      refine hkept ?_
      rw [Config.nodeKey, ← eq_append_of_hasPrefix (hasPrefix_of_isBelow hkey), ← hvalue]
    rw [hasNode]
    exact (congrArg Option.isSome (AList.lookup_erase_ne hother)).trans h
  | record | forget => exact h

@[simp] theorem handleEvent_revision (now : Int) (w : Write GoString GoString) (rev : Nat) :
    (view.handleEvent c now w rev).revision = view.revision := by
  have heffect := handleEvent_effect c view now w rev
  generalize view.handleEvent c now w rev = next at heffect ⊢
  cases heffect with
  | other _ _ revision => exact revision
  | join | part | record | forget => rfl

@[simp] theorem applyStored_hasNode (shardID : Int) (info : ShardInfo) (rev : Nat) :
    (view.applyStored shardID info rev).hasNode a = view.hasNode a := by
  unfold ClusterState.applyStored
  split <;> rfl

@[simp] theorem applyStored_revision (shardID : Int) (info : ShardInfo) (rev : Nat) :
    (view.applyStored shardID info rev).revision = view.revision := by
  unfold ClusterState.applyStored
  split <;> rfl

end Nodes

/-! ### The state before the first load -/

def ClusterState.Blank (view : ClusterState) : Prop := view.nodes = ∅ ∧ view.shards = ∅

theorem Blank.not_hasNode (h : view.Blank) (a : GoString) : view.hasNode a = false := by
  rw [hasNode, h.1]
  rfl

theorem Blank.lookup (h : view.Blank) (shardID : Int) : view.shards.lookup shardID = none := by
  rw [h.2]
  rfl

theorem Job.plan_of_blank {job : Job} {node : Node} {self : GoString} {objectIDs : List GoString}
    {choice : Choice} {plan : Plan} {firstSeen : List (Int × Int)} (h : node.view.Blank)
    (hplan : job.plan c node self objectIDs choice = some (plan, firstSeen)) : plan = [] := by
  have hsorted : sortedNodes node.view = [] := by
    rw [sortedNodes, h.1]
    rfl
  cases job with
  | claim =>
    cases hplan
    rw [claimShardsForNode, h.2]
    rfl
  | release =>
    cases hplan
    rw [calcReleaseShardsForNode, h.2]
    rfl
  | reassign =>
    obtain ⟨plan', hplan', heq⟩ := Option.map_eq_some_iff.mp hplan
    cases heq
    rw [calcReassignShardTargetNodes, hsorted] at hplan'
    exact (Option.some.inj hplan').symm
  | reallocate =>
    have hfst := congrArg Prod.fst (Option.some.inj hplan)
    rw [calcReallocateStuckShards, h.1] at hfst
    exact hfst.symm
  | rebalance =>
    cases hplan
    rw [rebalanceShards, hsorted]
    rfl

/-! ### What a step does to a node -/

namespace World

inductive NodeEffect (c : Config) (s t : World) (a : GoString) : Label → Prop
  | same {label : Label} (hmember : (t.nodes a).toMember = (s.nodes a).toMember) :
      NodeEffect c s t a label
  | watch {event : WatchEvent} {m : Member}
      (hcase : (s.nodes a).toMember.StepCase c (Etcd.source c s.etcd) event m)
      (hmember : (t.nodes a).toMember = m) : NodeEffect c s t a (.watch a event)
  | applyLocal {self j : Nat} {job : Job} {decided : ClusterState} {held : List GoString}
      {tasks : List Task} {task : Task} {rev : Nat}
      (hself : s.threads[self]? = some ⟨a, .operation job (.store decided held tasks)⟩)
      (hj : tasks[j]? = some task)
      (hmember : (t.nodes a).toMember = { (s.nodes a).toMember with
        view := (s.nodes a).view.applyStored task.shardID task.info rev }) :
      NodeEffect c s t a (.task self j .applyLocal)

variable {s t : World}

theorem NodeEffect.of_setNode {label : Label} {a b : GoString} {node : Node}
    (hnodes : t.nodes = (s.setNode b node).nodes)
    (hself : a = b → t.nodes a = node → NodeEffect c s t a label) : NodeEffect c s t a label := by
  by_cases hb : a = b
  · apply hself hb
    rw [hnodes, hb, nodes_setNode_self]
  · have hsame : t.nodes a = s.nodes a := by
      rw [hnodes, nodes_setNode_of_ne s hb]
    exact .same (by rw [hsame])

theorem step_node {label : Label} (h : s.step c label = some t) (a : GoString) :
    NodeEffect c s t a label := by
  cases step_cases h with
  | environment | spawn | walk | lock | unlock | rlock | runlock | finish | commit =>
    exact .same rfl
  | evict | plan | insert =>
    refine NodeEffect.of_setNode rfl ?_
    rintro rfl hnode
    exact .same (by rw [hnode])
  | watch hcase =>
    refine NodeEffect.of_setNode rfl ?_
    rintro rfl hnode
    exact .watch hcase (by rw [hnode])
  | applyLocal hthread hj hstate =>
    refine NodeEffect.of_setNode rfl ?_
    rintro rfl hnode
    exact .applyLocal hthread hj (by rw [hnode])

end World
end Goverse.Consensus
