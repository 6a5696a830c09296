import Mathlib.Data.List.AList
import Mathlib.Data.List.Sort
import Goverse.Lib.Revision
import Goverse.Sharding.ObjectId
import Goverse.Consensus.ShardInfo

/-! The in-memory view of the cluster: how it is loaded from etcd, how watch events change
it, how objects are routed with it, and the loop of a node that keeps it up to date. The shard
map of the source is never nil outside its tests, so it is a map here. -/
namespace Goverse.Consensus

open GoString Lib

abbrev Etcd := Log GoString GoString

structure Config where
  etcdPrefix : GoString
  numShards : Nat
  numShards_pos : 0 < numShards
  /-- An `int` of the source. -/
  numShards_lt : numShards < 2 ^ 63
  minQuorum : Nat
  stabilityDuration : Int
  stuckShardTimeout : Int
  rebalanceShardsBatchSize : Nat
  /-- `float64(diff) <= imbalanceThreshold * (float64(numShards) / float64(nodes))`, on the
  difference and the number of nodes. -/
  withinThreshold : Nat → Nat → Bool

namespace Config

variable (c : Config)

def nodesPrefix : GoString := c.etcdPrefix ++ lit "/nodes/"

def gatesPrefix : GoString := c.etcdPrefix ++ lit "/gates/"

def shardsPrefix : GoString := c.etcdPrefix ++ lit "/shard/"

def leaderKey : GoString := c.etcdPrefix ++ lit "/leader"

def shardKey (shardID : Int) : GoString := c.shardsPrefix ++ itoa shardID

def ValidShard (shardID : Int) : Prop := 0 ≤ shardID ∧ shardID < c.numShards

instance (shardID : Int) : Decidable (c.ValidShard shardID) := by
  unfold ValidShard
  infer_instance

end Config

/-- A small cluster: two shards, and every imbalance counts. -/
def twoShards : Config where
  etcdPrefix := lit "/g"
  numShards := 2
  numShards_pos := by decide
  numShards_lt := by decide
  minQuorum := 1
  stabilityDuration := 0
  stuckShardTimeout := 60
  rebalanceShardsBatchSize := 1
  withinThreshold := fun _ _ => false

structure ClusterState where
  nodes : AList fun _ : GoString => Bool
  gates : AList fun _ : GoString => Bool
  shards : AList fun _ : Int => ShardInfo
  leader : GoString
  leaderModRevision : Nat
  revision : Nat
  /-- None is the zero time. -/
  lastChange : Option Int

namespace ClusterState

/-- The state before the first load. -/
def empty : ClusterState := ⟨∅, ∅, ∅, [], 0, 0, none⟩

def hasNode (state : ClusterState) (node : GoString) : Bool := (state.nodes.lookup node).isSome

def hasGate (state : ClusterState) (gate : GoString) : Bool := (state.gates.lookup gate).isSome

/-- `Shards[shardID]`, the zero value for a missing shard. -/
def shard (state : ClusterState) (shardID : Int) : ShardInfo :=
  (state.shards.lookup shardID).getD .zero

@[simp] theorem shard_insert_self {state : ClusterState} {shardID : Int} {info : ShardInfo}
    (shards : AList fun _ : Int => ShardInfo) :
    ({ state with shards := shards.insert shardID info } : ClusterState).shard shardID = info := by
  rw [shard, AList.lookup_insert, Option.getD_some]

@[simp] theorem shard_insert_of_ne {state : ClusterState} {shardID other : Int} {info : ShardInfo}
    (h : other ≠ shardID) :
    ({ state with shards := state.shards.insert shardID info } : ClusterState).shard other =
      state.shard other := by
  rw [shard, AList.lookup_insert_ne h, shard]

/-- Every shard has a target and an owner. -/
def isFullyAssignedAndClaimed (c : Config) (state : ClusterState) : Bool :=
  state.shards.keys.length == c.numShards &&
    state.shards.entries.all fun entry => entry.2.targetNode != [] && entry.2.currentNode != []

def allShardsHaveMatchingCurrentAndTarget (c : Config) (state : ClusterState) : Bool :=
  isFullyAssignedAndClaimed c state &&
    state.shards.entries.all fun entry => entry.2.targetNode == entry.2.currentNode

def isStable (state : ClusterState) (duration now : Int) : Bool :=
  match state.lastChange with
  | none => false
  | some changed => state.nodes.keys ≠ [] ∧ duration ≤ now - changed

/-- `IsStateStable` of the manager whose address is `self`. -/
def isStateStable (c : Config) (state : ClusterState) (self : GoString) (now : Int) : Bool :=
  (state.hasNode self || state.hasGate self) && state.isStable c.stabilityDuration now &&
    (!state.hasNode self || decide (max c.minQuorum 1 ≤ state.nodes.keys.length))

section Watch

variable (c : Config) (state : ClusterState) (now : Int)

/-- The shard a key under `/shard/` is about, if the handlers take it. -/
def shardOfKey (key : GoString) : Option Int :=
  (atoi (key.drop c.shardsPrefix.length)).filter fun shardID => c.ValidShard shardID

def handleNodeEvent (w : Write GoString GoString) : ClusterState :=
  match w.value with
  | some nodeAddress =>
    { state with nodes := state.nodes.insert nodeAddress true, lastChange := some now }
  | none =>
    { state with
      nodes := state.nodes.erase (w.key.drop c.nodesPrefix.length), lastChange := some now }

def handleGateEvent (w : Write GoString GoString) : ClusterState :=
  match w.value with
  | some gateAddress =>
    { state with gates := state.gates.insert gateAddress true, lastChange := some now }
  | none =>
    { state with
      gates := state.gates.erase (w.key.drop c.gatesPrefix.length), lastChange := some now }

def handleShardEvent (w : Write GoString GoString) (rev : Nat) : ClusterState :=
  match shardOfKey c w.key with
  | none => state
  | some shardID =>
    if rev ≤ (state.shard shardID).modRevision then state
    else
      match w.value with
      | some value =>
        { state with shards := state.shards.insert shardID (parseShardInfo value rev) }
      | none => { state with shards := state.shards.erase shardID }

def handleLeaderEvent (w : Write GoString GoString) (rev : Nat) : ClusterState :=
  if rev ≤ state.leaderModRevision then state
  else
    match w.value with
    | none => { state with leader := [], leaderModRevision := 0, lastChange := some now }
    | some value => { state with leader := value, leaderModRevision := rev, lastChange := some now }

/-- `len(key) > len(head) && key[:len(head)] == head` -/
def isBelow (key head : GoString) : Bool :=
  decide (head.length < key.length) && key.take head.length == head

/-- One event of `watchPrefixOnce`; the watch is on the keys under the prefix. -/
def handleEvent (w : Write GoString GoString) (rev : Nat) : ClusterState :=
  if hasPrefix w.key c.etcdPrefix = false then state
  else if w.key = c.leaderKey then state.handleLeaderEvent now w rev
  else if isBelow w.key c.nodesPrefix then state.handleNodeEvent c now w
  else if isBelow w.key c.gatesPrefix then state.handleGateEvent c now w
  else if isBelow w.key c.shardsPrefix then state.handleShardEvent c w rev
  else state

/-- One key of the answer `loadClusterStateFromEtcd` reads. -/
def loadKey (kv : GoString × GoString × Nat) : ClusterState :=
  if kv.1 = c.leaderKey then { state with leader := kv.2.1, leaderModRevision := kv.2.2 }
  else if hasPrefix kv.1 c.nodesPrefix then
    { state with nodes := state.nodes.insert kv.2.1 true }
  else if hasPrefix kv.1 c.gatesPrefix then
    { state with gates := state.gates.insert kv.2.1 true }
  else if hasPrefix kv.1 c.shardsPrefix then
    match shardOfKey c kv.1 with
    | none => state
    | some shardID =>
      { state with shards := state.shards.insert shardID (parseShardInfo kv.2.1 kv.2.2) }
  else state

end Watch

/-- Everything an event can do to the nodes and the shards of a view. -/
inductive EventEffect (c : Config) (state : ClusterState) (w : Write GoString GoString)
    (rev : Nat) : ClusterState → Prop
  | other {next : ClusterState} (nodes : next.nodes = state.nodes)
      (shards : next.shards = state.shards) (revision : next.revision = state.revision) :
      EventEffect c state w rev next
  | join {address : GoString} {lastChange : Option Int} (hkey : isBelow w.key c.nodesPrefix = true)
      (hvalue : w.value = some address) : EventEffect c state w rev
        { state with nodes := state.nodes.insert address true, lastChange := lastChange }
  | part {lastChange : Option Int} (hkey : isBelow w.key c.nodesPrefix = true)
      (hvalue : w.value = none) : EventEffect c state w rev
        { state with
          nodes := state.nodes.erase (w.key.drop c.nodesPrefix.length), lastChange := lastChange }
  | record {shardID : Int} {value : GoString} (hkey : isBelow w.key c.shardsPrefix = true)
      (hshard : shardOfKey c w.key = some shardID) (hvalue : w.value = some value)
      (hnewer : (state.shard shardID).modRevision < rev) : EventEffect c state w rev
        { state with shards := state.shards.insert shardID (parseShardInfo value rev) }
  | forget {shardID : Int} (hkey : isBelow w.key c.shardsPrefix = true)
      (hvalue : w.value = none) : EventEffect c state w rev
        { state with shards := state.shards.erase shardID }

theorem handleEvent_effect (c : Config) (state : ClusterState) (now : Int)
    (w : Write GoString GoString) (rev : Nat) :
    EventEffect c state w rev (state.handleEvent c now w rev) := by
  unfold handleEvent
  split
  · exact .other rfl rfl rfl
  · split
    · unfold handleLeaderEvent
      split
      · exact .other rfl rfl rfl
      · split <;> exact .other rfl rfl rfl
    · split
      · rename_i hkey
        unfold handleNodeEvent
        split
        · rename_i address hvalue
          exact .join hkey hvalue
        · rename_i hvalue
          exact .part hkey hvalue
      · split
        · unfold handleGateEvent
          split <;> exact .other rfl rfl rfl
        · split
          · rename_i hkey
            unfold handleShardEvent
            split
            · exact .other rfl rfl rfl
            · rename_i shardID hshard
              split
              · exact .other rfl rfl rfl
              · rename_i hnewer
                split
                · rename_i value hvalue
                  exact .record hkey hshard hvalue (Nat.lt_of_not_le hnewer)
                · rename_i hvalue
                  exact .forget hkey hvalue
          · exact .other rfl rfl rfl

/-- Everything a key of the answer can do to a view. -/
inductive LoadEffect (c : Config) (state : ClusterState) (kv : GoString × GoString × Nat) :
    ClusterState → Prop
  | leader (hkey : kv.1 = c.leaderKey) :
      LoadEffect c state kv { state with leader := kv.2.1, leaderModRevision := kv.2.2 }
  | node (hkey : hasPrefix kv.1 c.nodesPrefix = true) :
      LoadEffect c state kv { state with nodes := state.nodes.insert kv.2.1 true }
  | gate : LoadEffect c state kv { state with gates := state.gates.insert kv.2.1 true }
  | shard {shardID : Int} (hkey : hasPrefix kv.1 c.shardsPrefix = true)
      (hshard : shardOfKey c kv.1 = some shardID) : LoadEffect c state kv
        { state with shards := state.shards.insert shardID (parseShardInfo kv.2.1 kv.2.2) }
  | ignored : LoadEffect c state kv state

theorem loadKey_effect (c : Config) (state : ClusterState) (kv : GoString × GoString × Nat) :
    LoadEffect c state kv (state.loadKey c kv) := by
  unfold loadKey
  split
  · rename_i hkey
    exact .leader hkey
  · split
    · rename_i hkey
      exact .node hkey
    · split
      · exact .gate
      · split
        · rename_i hkey
          split
          · exact .ignored
          · rename_i hshard
            exact .shard hkey hshard
        · exact .ignored

/-- The order of Go's strings, and of the keys of a range read. -/
def bytesLe (a b : GoString) : Bool := !(List.lex b a (· < ·))

/-- `loadClusterStateFromEtcd` on the answer to its range read. -/
def loadAnswer (c : Config) (kvs : List (GoString × GoString × Nat)) (revision : Nat)
    (now : Int) : ClusterState :=
  ((kvs.filter fun kv => hasPrefix kv.1 c.etcdPrefix).insertionSort
    fun a b => bytesLe a.1 b.1).foldl (loadKey c)
    { empty with revision := revision, lastChange := some now }

def load (c : Config) (etcd : Etcd) (now : Int) : ClusterState :=
  loadAnswer c etcd.live etcd.length now

/-- The local update of `storeShardMapping` after a transaction at revision `rev`. -/
def applyStored (state : ClusterState) (shardID : Int) (info : ShardInfo) (rev : Nat) :
    ClusterState :=
  if (state.shard shardID).modRevision < rev then
    { state with shards := state.shards.insert shardID { info with modRevision := rev } }
  else state

section Routing

open Sharding

inductive RouteError where
  | invalidID (error : ParseError)
  | noNodeAssigned (shardID : Int)
  | notClaimed (shardID : Int)
  | notActive (currentNode : GoString) (shardID : Int)
  | migrating (shardID : Int) (currentNode targetNode : GoString)
  deriving DecidableEq, Repr

/-- The part of `GetCurrentNodeForObject` that looks a shard up. -/
def currentNodeOfShard (state : ClusterState) (shardID : Int) : Except RouteError GoString :=
  match state.shards.lookup shardID with
  | none => .error (.noNodeAssigned shardID)
  | some info =>
    if info.currentNode = [] then .error (.notClaimed shardID)
    else if state.hasNode info.currentNode = false then
      .error (.notActive info.currentNode shardID)
    else if info.targetNode ≠ [] ∧ info.targetNode ≠ info.currentNode then
      .error (.migrating shardID info.currentNode info.targetNode)
    else .ok info.currentNode

def getCurrentNodeForObject (c : Config) (state : ClusterState) (objectID : GoString) :
    Except RouteError GoString :=
  match validateObjectID objectID c.numShards with
  | .error error => .error (.invalidID error)
  | .ok parsed =>
    if parsed.isFixedNodeFormat then .ok parsed.nodeAddress
    else state.currentNodeOfShard (getShardID objectID c.numShards)

def getObjectsToEvict (c : Config) (state : ClusterState) (localAddr : GoString)
    (objectIDs : List GoString) : List GoString :=
  if state.hasNode localAddr = false then []
  else objectIDs.filter fun objectID =>
    !objectID.contains slash &&
      match state.shards.lookup (getShardID objectID c.numShards) with
      | none => true
      | some info => decide (info.currentNode ≠ localAddr ∨ info.targetNode ≠ localAddr)

/-- `localObjectsPerShard` of `releaseShardOwnership`, at one shard. -/
def localObjects (c : Config) (objectIDs : List GoString) (shardID : Int) : Nat :=
  objectIDs.countP fun objectID =>
    !objectID.contains slash && getShardID objectID c.numShards == shardID

end Routing

end ClusterState

/-! ### Keys -/

section Keys

open ClusterState

variable {c : Config} {view : ClusterState}

@[simp] theorem shardOfKey_shardKey {shardID : Int} (h : c.ValidShard shardID) :
    shardOfKey c (c.shardKey shardID) = some shardID := by
  obtain ⟨n, rfl⟩ := Int.eq_ofNat_of_zero_le h.1
  have hlt : n < 2 ^ 63 := by
    have := h.2
    have := c.numShards_lt
    omega
  simp only [shardOfKey, Config.shardKey, List.drop_left, atoi_itoa hlt]
  simpa using h

theorem valid_of_shardOfKey {key : GoString} {shardID : Int} (h : shardOfKey c key = some shardID) :
    c.ValidShard shardID := by
  simpa using (Option.filter_eq_some_iff.mp h).2

theorem shardKey_injective {shardID shardID' : Int} (h : c.ValidShard shardID)
    (h' : c.ValidShard shardID') (heq : c.shardKey shardID = c.shardKey shardID') :
    shardID = shardID' := by
  have := shardOfKey_shardKey h
  rw [heq, shardOfKey_shardKey h'] at this
  exact (Option.some.inj this).symm

@[simp] theorem hasPrefix_etcdPrefix_leaderKey : hasPrefix c.leaderKey c.etcdPrefix = true :=
  hasPrefix_append _ _

@[simp] theorem hasPrefix_etcdPrefix_node (a : GoString) :
    hasPrefix (c.nodesPrefix ++ a) c.etcdPrefix = true := by
  simp [Config.nodesPrefix]

@[simp] theorem hasPrefix_etcdPrefix_gate (a : GoString) :
    hasPrefix (c.gatesPrefix ++ a) c.etcdPrefix = true := by
  simp [Config.gatesPrefix]

@[simp] theorem hasPrefix_etcdPrefix_shardKey (shardID : Int) :
    hasPrefix (c.shardKey shardID) c.etcdPrefix = true := by
  simp [Config.shardKey, Config.shardsPrefix]

@[simp] theorem hasPrefix_shardKey (shardID : Int) :
    hasPrefix (c.shardKey shardID) c.shardsPrefix = true :=
  hasPrefix_append _ _

@[simp] theorem not_hasPrefix_nodes (shardID : Int) :
    hasPrefix (c.shardKey shardID) c.nodesPrefix = false := by
  rw [Config.shardKey, Config.shardsPrefix, Config.nodesPrefix, List.append_assoc,
    hasPrefix_append_append]
  rfl

@[simp] theorem not_hasPrefix_gates (shardID : Int) :
    hasPrefix (c.shardKey shardID) c.gatesPrefix = false := by
  rw [Config.shardKey, Config.shardsPrefix, Config.gatesPrefix, List.append_assoc,
    hasPrefix_append_append]
  rfl

@[simp] theorem not_hasPrefix_nodesPrefix (a : GoString) :
    hasPrefix (c.gatesPrefix ++ a) c.nodesPrefix = false := by
  rw [Config.gatesPrefix, Config.nodesPrefix, List.append_assoc, hasPrefix_append_append]
  rfl

@[simp] theorem nodesPrefix_ne_leaderKey (a : GoString) : c.nodesPrefix ++ a ≠ c.leaderKey := by
  simp [Config.nodesPrefix, Config.leaderKey, lit]

@[simp] theorem gatesPrefix_ne_leaderKey (a : GoString) : c.gatesPrefix ++ a ≠ c.leaderKey := by
  simp [Config.gatesPrefix, Config.leaderKey, lit]

@[simp] theorem shardKey_ne_leaderKey (shardID : Int) : c.shardKey shardID ≠ c.leaderKey := by
  simp [Config.shardKey, Config.shardsPrefix, Config.leaderKey, lit]

@[simp] theorem gatesPrefix_ne_nodesPrefix (a b : GoString) :
    c.gatesPrefix ++ a ≠ c.nodesPrefix ++ b := by
  simp [Config.gatesPrefix, Config.nodesPrefix, lit]

@[simp] theorem shardKey_ne_nodesPrefix (shardID : Int) (a : GoString) :
    c.shardKey shardID ≠ c.nodesPrefix ++ a := by
  simp [Config.shardKey, Config.shardsPrefix, Config.nodesPrefix, lit]

@[simp] theorem shardKey_ne_gatesPrefix (shardID : Int) (a : GoString) :
    c.shardKey shardID ≠ c.gatesPrefix ++ a := by
  simp [Config.shardKey, Config.shardsPrefix, Config.gatesPrefix, lit]

@[simp] theorem loadKey_node (a value : GoString) (rev : Nat) :
    view.loadKey c (c.nodesPrefix ++ a, value, rev) =
      { view with nodes := view.nodes.insert value true } := by
  simp [loadKey]

@[simp] theorem loadKey_gate (a value : GoString) (rev : Nat) :
    view.loadKey c (c.gatesPrefix ++ a, value, rev) =
      { view with gates := view.gates.insert value true } := by
  simp [loadKey]

theorem loadKey_shardKey {shardID : Int} (hvalid : c.ValidShard shardID) (value : GoString)
    (rev : Nat) : view.loadKey c (c.shardKey shardID, value, rev) =
      { view with shards := view.shards.insert shardID (parseShardInfo value rev) } := by
  simp [loadKey, shardOfKey_shardKey hvalid]

theorem hasPrefix_of_isBelow {key head : GoString} (h : isBelow key head = true) :
    hasPrefix key head = true := by
  simp only [isBelow, Bool.and_eq_true, beq_iff_eq] at h
  refine List.isPrefixOf_iff_prefix.mpr ?_
  rw [← h.2]
  exact List.take_prefix _ _

theorem isBelow_of_not_hasPrefix {key head : GoString} (h : hasPrefix key head = false) :
    isBelow key head = false := by
  refine eq_false_of_ne_true fun hbelow => ?_
  rw [hasPrefix_of_isBelow hbelow] at h
  contradiction

theorem isBelow_append {head a : GoString} (h : a ≠ []) : isBelow (head ++ a) head = true := by
  simp [isBelow, List.length_pos_iff, h]

theorem isBelow_shardKey {shardID : Int} (h : c.ValidShard shardID) :
    isBelow (c.shardKey shardID) c.shardsPrefix = true := by
  refine isBelow_append fun hnil => ?_
  have hshard := shardOfKey_shardKey h
  rw [shardOfKey, Config.shardKey, List.drop_left, hnil] at hshard
  contradiction

end Keys

/-! ### The loop that follows etcd -/

/-- Where `watchPrefix` is. A view is loaded once before the first watch, and again after a
watch has ended; if that fails the watch starts again from the last loaded revision. The cursor
counts the writes that have been handled. -/
inductive Watch where
  | unloaded
  | loading (snapshot : ClusterState)
  | idle
  | watching (cursor : Nat)

def Watch.cursor : Watch → Option Nat
  | .watching cursor => some cursor
  | _ => none

structure Member where
  view : ClusterState
  watch : Watch

inductive WatchEvent where
  | load (now : Int)
  | install
  | connect
  | disconnect
  | deliver (now : Int)
  deriving DecidableEq, Repr

/-- What etcd answers: to a load, to a watch, and the first write of a watch that starts after a
revision. -/
structure Source where
  snapshot : Int → ClusterState
  feed : Feed GoString GoString
  position : Nat → Nat

def Etcd.source (c : Config) (etcd : Etcd) : Source := ⟨ClusterState.load c etcd, etcd.feed, id⟩

namespace Member

/-- `watchPrefix` of one node. -/
def step (c : Config) (source : Source) (m : Member) : WatchEvent → Option Member
  | .load now =>
    match m.watch with
    | .unloaded | .idle => some { m with watch := .loading (source.snapshot now) }
    | _ => none
  | .install =>
    match m.watch with
    | .loading snapshot => some ⟨snapshot, .idle⟩
    | _ => none
  | .connect =>
    match m.watch with
    | .idle => some { m with watch := .watching (source.position m.view.revision) }
    | _ => none
  | .disconnect =>
    match m.watch with
    | .watching _ => some { m with watch := .idle }
    | _ => none
  | .deliver now =>
    match m.watch with
    | .watching cursor =>
      source.feed[cursor]?.map fun (w, rev) =>
        ⟨m.view.handleEvent c now w rev, .watching (cursor + 1)⟩
    | _ => none

/-- Everything a step can do. -/
inductive StepCase (c : Config) (source : Source) (m : Member) : WatchEvent → Member → Prop
  | load {now : Int} (hwatch : m.watch = .unloaded ∨ m.watch = .idle) :
      StepCase c source m (.load now) { m with watch := .loading (source.snapshot now) }
  | install {snapshot : ClusterState} (hwatch : m.watch = .loading snapshot) :
      StepCase c source m .install ⟨snapshot, .idle⟩
  | connect (hwatch : m.watch = .idle) : StepCase c source m .connect
      { m with watch := .watching (source.position m.view.revision) }
  | disconnect {cursor : Nat} (hwatch : m.watch = .watching cursor) :
      StepCase c source m .disconnect { m with watch := .idle }
  | deliver {now : Int} {cursor : Nat} {w : Write GoString GoString} {rev : Nat}
      (hwatch : m.watch = .watching cursor) (he : source.feed[cursor]? = some (w, rev)) :
      StepCase c source m (.deliver now)
        ⟨m.view.handleEvent c now w rev, .watching (cursor + 1)⟩

theorem step_cases {c : Config} {source : Source} {m next : Member} {event : WatchEvent}
    (h : m.step c source event = some next) : StepCase c source m event next := by
  cases event with
  | load now =>
    rw [step] at h
    split at h
    · rename_i hwatch
      cases h
      exact .load (.inl hwatch)
    · rename_i hwatch
      cases h
      exact .load (.inr hwatch)
    · contradiction
  | install =>
    rw [step] at h
    split at h
    · rename_i hwatch
      cases h
      exact .install hwatch
    · contradiction
  | connect =>
    rw [step] at h
    split at h
    · rename_i hwatch
      cases h
      exact .connect hwatch
    · contradiction
  | disconnect =>
    rw [step] at h
    split at h
    · rename_i hwatch
      cases h
      exact .disconnect hwatch
    · contradiction
  | deliver now =>
    rw [step] at h
    split at h
    · rename_i hwatch
      obtain ⟨e, he, rfl⟩ := Option.map_eq_some_iff.mp h
      exact .deliver hwatch he
    · contradiction

end Member
end Goverse.Consensus
