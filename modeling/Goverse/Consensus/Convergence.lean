import Goverse.Consensus.Snapshot

/-! One consensus manager and its etcd. Three things write its view: the events of a watch
session, the snapshot of a reload, and the local update after a transaction of its own. A
session that ends may be followed by one that starts again at the revision of the last
load, so that events come twice. -/
namespace Goverse.Consensus

open GoString Lib ClusterState Sharding

/-- A transaction of `storeShardMapping` that etcd has reported as committed and whose local
update is still to come. -/
structure Committed where
  shardID : Int
  info : ShardInfo
  rev : Nat

structure Manager extends Member where
  etcd : Timeline GoString GoString
  committed : List Committed

inductive ManagerLabel where
  /-- A transaction of registrations, leases or elections. -/
  | environment (txn : Transaction GoString GoString)
  /-- A put of another manager, or one of this manager that was reported as an error. -/
  | peer (shardID : Int) (record : ShardRecord)
  | store (shardID : Int) (info : ShardInfo)
  | applyLocal (j : Nat)
  | watch (event : WatchEvent)

/-- A write outside `/shard/` whose value, if it registers a node or a gate, is the suffix
of its key. -/
def Registration (c : Config) (w : Write GoString GoString) : Prop :=
  hasPrefix w.key c.shardsPrefix = false ∧
    (hasPrefix w.key c.nodesPrefix = true →
      ∀ address ∈ w.value, address = w.key.drop c.nodesPrefix.length) ∧
    (hasPrefix w.key c.gatesPrefix = true →
      ∀ address ∈ w.value, address = w.key.drop c.gatesPrefix.length)

instance (c : Config) (w : Write GoString GoString) : Decidable (Registration c w) := by
  unfold Registration
  infer_instance

/-- The transaction of `storeShardMapping` for one shard. -/
def putShard (c : Config) (shardID : Int) (record : ShardRecord) : Transaction GoString GoString :=
  ⟨[⟨c.shardKey shardID, some (formatShardInfo record)⟩], by simp⟩

namespace Manager

def feed (s : Manager) : Feed GoString GoString := Timeline.feed 0 s.etcd

def source (c : Config) (s : Manager) : Source where
  snapshot := loadAt c s.etcd s.etcd.length
  feed := s.feed
  position rev := (Timeline.feed 0 (s.etcd.take rev)).length

/-- A transaction of `storeShardMapping` compares the revision its record was read at. -/
def step (c : Config) (s : Manager) : ManagerLabel → Option Manager
  | .environment txn =>
    if ∀ w ∈ txn.writes, Registration c w then some { s with etcd := s.etcd ++ [txn] } else none
  | .peer shardID record =>
    if c.ValidShard shardID then some { s with etcd := s.etcd ++ [putShard c shardID record] }
    else none
  | .store shardID info =>
    if c.ValidShard shardID ∧
        ((s.feed.get (c.shardKey shardID)).map Prod.snd).getD 0 = info.modRevision then
      some { s with
        etcd := s.etcd ++ [putShard c shardID info.toShardRecord]
        committed := s.committed ++ [⟨shardID, info, s.etcd.length + 1⟩] }
    else none
  | .applyLocal j =>
    s.committed[j]?.map fun txn =>
      { s with
        view := s.view.applyStored txn.shardID txn.info txn.rev
        committed := s.committed.eraseIdx j }
  | .watch event => (s.toMember.step c (s.source c) event).map fun m => { s with toMember := m }

/-- Everything a step can do. -/
inductive StepCase (c : Config) (s : Manager) : ManagerLabel → Manager → Prop
  | environment {txn : Transaction GoString GoString}
      (hwrites : ∀ w ∈ txn.writes, Registration c w) :
      StepCase c s (.environment txn) { s with etcd := s.etcd ++ [txn] }
  | peer {shardID : Int} {record : ShardRecord} (hvalid : c.ValidShard shardID) :
      StepCase c s (.peer shardID record) { s with etcd := s.etcd ++ [putShard c shardID record] }
  | store {shardID : Int} {info : ShardInfo} (hvalid : c.ValidShard shardID) :
      StepCase c s (.store shardID info)
        { s with
          etcd := s.etcd ++ [putShard c shardID info.toShardRecord]
          committed := s.committed ++ [⟨shardID, info, s.etcd.length + 1⟩] }
  | applyLocal {j : Nat} {txn : Committed} (htxn : s.committed[j]? = some txn) :
      StepCase c s (.applyLocal j)
        { s with
          view := s.view.applyStored txn.shardID txn.info txn.rev
          committed := s.committed.eraseIdx j }
  | watch {event : WatchEvent} {m : Member}
      (hcase : s.toMember.StepCase c (s.source c) event m) :
      StepCase c s (.watch event) { s with toMember := m }

theorem step_cases {c : Config} {s t : Manager} {label : ManagerLabel}
    (h : s.step c label = some t) : StepCase c s label t := by
  cases label with
  | environment txn =>
    simp only [step] at h
    split at h
    · rename_i hwrites
      cases h
      exact .environment hwrites
    · contradiction
  | peer shardID record =>
    simp only [step] at h
    split at h
    · rename_i hvalid
      cases h
      exact .peer hvalid
    · contradiction
  | store shardID info =>
    simp only [step] at h
    split at h
    · rename_i hguard
      cases h
      exact .store hguard.1
    · contradiction
  | applyLocal j =>
    obtain ⟨txn, htxn, rfl⟩ := Option.map_eq_some_iff.mp h
    exact .applyLocal htxn
  | watch event =>
    obtain ⟨m, hm, rfl⟩ := Option.map_eq_some_iff.mp h
    exact .watch (Member.step_cases hm)

def start : Manager := ⟨⟨.empty, .unloaded⟩, [], []⟩

def machine (c : Config) : Machine Manager ManagerLabel where
  Init s := s = start
  step := step c

end Manager

/-- No registration has an empty address, and the records of this manager are of clean
addresses and flags. -/
def Manager.Clean (c : Config) (_ : Manager) : ManagerLabel → Prop
  | .environment txn => ∀ w ∈ txn.writes, w.key ≠ c.nodesPrefix ∧ w.key ≠ c.gatesPrefix
  | .store _ info => info.WellFormed
  | _ => True

/-- The record of a shard that etcd stored at its revision. -/
def IsStored (c : Config) (etcd : Timeline GoString GoString) (shardID : Int) (info : ShardInfo) :
    Prop :=
  ∃ value, (⟨c.shardKey shardID, some value⟩, info.modRevision) ∈ Timeline.feed 0 etcd ∧
    info = parseShardInfo value info.modRevision

/-- The nodes, gates and shards of a view are those of a fresh load. -/
structure UpToDate (c : Config) (etcd : Timeline GoString GoString) (view : ClusterState) :
    Prop where
  nodes : ∀ now address,
    view.nodes.lookup address = (loadAt c etcd etcd.length now).nodes.lookup address
  gates : ∀ now address,
    view.gates.lookup address = (loadAt c etcd etcd.length now).gates.lookup address
  shards : ∀ now shardID,
    view.shards.lookup shardID = (loadAt c etcd etcd.length now).shards.lookup shardID

structure Manager.Convergent (c : Config) (s : Manager) : Prop where
  stored : ∀ shardID info, s.view.shards.lookup shardID = some info →
    IsStored c s.etcd shardID info
  upToDate : s.watch.cursor = some s.feed.length → s.committed = [] → UpToDate c s.etcd s.view

/-! ### What a view says about etcd -/

section Views

variable {c : Config} {etcd : Timeline GoString GoString} {view : ClusterState}

/-- Every write is one the handlers understand, and no shard is deleted. -/
structure Tidy (c : Config) (w : Write GoString GoString) : Prop where
  keyed : WellKeyed c w
  kept : ∀ shardID, w.key = c.shardKey shardID → w.value ≠ none

def Stores (c : Config) (etcd : Timeline GoString GoString) (view : ClusterState) : Prop :=
  ∀ shardID info, view.shards.lookup shardID = some info →
    c.ValidShard shardID ∧ IsStored c etcd shardID info

/-- The writes up to the last load. -/
def loadedWrites (etcd : Timeline GoString GoString) (view : ClusterState) :
    Feed GoString GoString :=
  Timeline.feed 0 (etcd.take view.revision)

/-- A session that has handled the first `cursor` writes, and those up to the last load. -/
structure Positioned (etcd : Timeline GoString GoString) (view : ClusterState) (cursor : Nat) :
    Prop where
  revision : view.revision ≤ etcd.length
  start : (loadedWrites etcd view).length ≤ cursor
  bound : cursor ≤ (Timeline.feed 0 etcd).length

/-- A view as it was loaded at its revision. -/
structure Loaded (c : Config) (etcd : Timeline GoString GoString) (view : ClusterState) :
    Prop where
  revision : view.revision ≤ etcd.length
  decodes : Decodes c (loadedWrites etcd view).get view

/-- The view of a manager whose session has handled the first `cursor` writes. An old event
takes no shard back, but it may take back a node or a gate until the later events come
again. -/
structure Follows (c : Config) (etcd : Timeline GoString GoString) (view : ClusterState)
    (cursor : Nat) : Prop extends Positioned etcd view cursor where
  nodes : ∀ a, (Timeline.feed 0 etcd).Tracks cursor (c.nodesPrefix ++ a)
    (Option.map fun _ => true) (view.nodes.lookup a)
  gates : ∀ a, (Timeline.feed 0 etcd).Tracks cursor (c.gatesPrefix ++ a)
    (Option.map fun _ => true) (view.gates.lookup a)
  shards : ∀ shardID, c.ValidShard shardID → ∀ e ∈ (Timeline.feed 0 etcd).take cursor,
    e.1.key = c.shardKey shardID → e.2 ≤ (view.shard shardID).modRevision

@[simp] theorem loadAt_revision (c : Config) (etcd : Timeline GoString GoString) (rev : Nat)
    (now : Int) : (loadAt c etcd rev now).revision = rev := loadAnswer_revision _ rev now

theorem loadedWrites_grow (h : view.revision ≤ etcd.length) (txn : Transaction GoString GoString) :
    loadedWrites (etcd ++ [txn]) view = loadedWrites etcd view := by
  rw [loadedWrites, List.take_append_of_le_length h, loadedWrites]

theorem loadedWrites_eq_take (etcd : Timeline GoString GoString) (view : ClusterState) :
    (Timeline.feed 0 etcd).take (loadedWrites etcd view).length = loadedWrites etcd view := by
  rw [Timeline.feed_eq_append_take etcd view.revision, loadedWrites, List.take_left]

namespace Positioned

variable {cursor : Nat}

theorem loaded (h : view.revision ≤ etcd.length) :
    Positioned etcd view (loadedWrites etcd view).length := by
  refine ⟨h, Nat.le_refl _, ?_⟩
  rw [← loadedWrites_eq_take etcd view, List.length_take]
  exact Nat.min_le_right _ _

theorem grow (h : Positioned etcd view cursor) (txn : Transaction GoString GoString) :
    Positioned (etcd ++ [txn]) view cursor := by
  refine ⟨?_, ?_, ?_⟩
  · rw [List.length_append]
    exact Nat.le_add_right_of_le h.revision
  · rw [loadedWrites_grow h.revision]
    exact h.start
  · rw [Timeline.feed_concat, List.length_append]
    exact Nat.le_add_right_of_le h.bound

theorem congr {next : ClusterState} (h : Positioned etcd view cursor)
    (hrevision : next.revision = view.revision) : Positioned etcd next cursor := by
  refine ⟨?_, ?_, h.bound⟩
  · rw [hrevision]
    exact h.revision
  · rw [loadedWrites, hrevision]
    exact h.start

theorem next (h : Positioned etcd view cursor) {e : Write GoString GoString × Nat}
    (he : (Timeline.feed 0 etcd)[cursor]? = some e) : Positioned etcd view (cursor + 1) :=
  ⟨h.revision, Nat.le_succ_of_le h.start, (List.getElem?_eq_some_iff.mp he).1⟩

end Positioned

theorem loaded_loadAt (htidy : ∀ txn ∈ etcd, ∀ w ∈ txn.writes, Tidy c w) (now : Int) :
    Loaded c etcd (loadAt c etcd etcd.length now) where
  revision := by rw [loadAt_revision]
  decodes := by
    rw [loadedWrites, loadAt_revision]
    exact decodes_loadAt (fun txn htxn w hw => (htidy txn htxn w hw).keyed) _ now

theorem IsStored.grow {shardID : Int} {info : ShardInfo} (h : IsStored c etcd shardID info)
    (txn : Transaction GoString GoString) : IsStored c (etcd ++ [txn]) shardID info := by
  obtain ⟨value, hmem, hinfo⟩ := h
  rw [IsStored, Timeline.feed_concat]
  exact ⟨value, List.mem_append_left _ hmem, hinfo⟩

theorem Stores.grow (h : Stores c etcd view) (txn : Transaction GoString GoString) :
    Stores c (etcd ++ [txn]) view :=
  fun shardID info hlookup =>
    ⟨(h shardID info hlookup).1, (h shardID info hlookup).2.grow txn⟩

theorem Stores.insert (h : Stores c etcd view) {shardID : Int} {info : ShardInfo}
    (hvalid : c.ValidShard shardID) (hinfo : IsStored c etcd shardID info) :
    Stores c etcd { view with shards := view.shards.insert shardID info } := by
  intro id other hlookup
  by_cases hid : id = shardID
  · subst hid
    cases (AList.lookup_insert _).symm.trans hlookup
    exact ⟨hvalid, hinfo⟩
  · exact h id other ((AList.lookup_insert_ne hid).symm.trans hlookup)

theorem Loaded.grow (h : Loaded c etcd view) (txn : Transaction GoString GoString) :
    Loaded c (etcd ++ [txn]) view where
  revision := by
    rw [List.length_append]
    exact Nat.le_add_right_of_le h.revision
  decodes := by
    rw [loadedWrites_grow h.revision]
    exact h.decodes

theorem Loaded.stores (h : Loaded c etcd view) : Stores c etcd view := by
  intro shardID info hlookup
  rw [h.decodes.shards shardID] at hlookup
  split at hlookup
  · rename_i hvalid
    obtain ⟨found, hget, rfl⟩ := Option.map_eq_some_iff.mp hlookup
    refine ⟨hvalid, found.1, ?_, rfl⟩
    rw [Timeline.feed_eq_append_take etcd view.revision]
    exact List.mem_append_left _ (Feed.mem_of_get hget)
  · contradiction

theorem Loaded.follows (h : Loaded c etcd view)
    (htidy : ∀ txn ∈ etcd, ∀ w ∈ txn.writes, Tidy c w) :
    Follows c etcd view (loadedWrites etcd view).length := by
  refine ⟨.loaded h.revision, fun a => .inl ?_, fun a => .inl ?_, ?_⟩
  · rw [loadedWrites_eq_take]
    exact h.decodes.nodes a
  · rw [loadedWrites_eq_take]
    exact h.decodes.gates a
  · intro shardID hvalid e he hkey
    rw [loadedWrites_eq_take] at he
    have hkept : ∀ e' ∈ loadedWrites etcd view, e'.1.key = e.1.key → e'.1.value ≠ none := by
      intro e' he' hsame
      obtain ⟨txn, htxn, hw⟩ := Timeline.mem_of_mem_feed he'
      exact (htidy txn (List.mem_of_mem_take htxn) e'.1 hw).kept shardID (hsame.trans hkey)
    obtain ⟨found, hfound⟩ := Feed.exists_get_of_mem he hkept
    have hle := (Timeline.feed_ordered 0 _).le_get he hfound
    rw [hkey] at hfound
    rw [ClusterState.shard, h.decodes.shards shardID, if_pos hvalid, hfound]
    exact hle

theorem Follows.grow {cursor : Nat} (h : Follows c etcd view cursor)
    (txn : Transaction GoString GoString) : Follows c (etcd ++ [txn]) view cursor where
  toPositioned := h.toPositioned.grow txn
  nodes a := by
    rw [Timeline.feed_concat]
    exact (h.nodes a).append h.bound _
  gates a := by
    rw [Timeline.feed_concat]
    exact (h.gates a).append h.bound _
  shards shardID hvalid e he := by
    rw [Timeline.feed_concat, List.take_append_of_le_length h.bound] at he
    exact h.shards shardID hvalid e he

theorem Follows.reconnect {cursor : Nat} (h : Follows c etcd view cursor) :
    Follows c etcd view (loadedWrites etcd view).length where
  toPositioned := .loaded h.revision
  nodes a := (h.nodes a).rewind h.start
  gates a := (h.gates a).rewind h.start
  shards shardID hvalid e he := by
    refine h.shards shardID hvalid e ?_
    rw [← Nat.min_eq_left h.start, ← List.take_take] at he
    exact List.mem_of_mem_take he

theorem Follows.applyStored {cursor : Nat} (h : Follows c etcd view cursor) (shardID : Int)
    (info : ShardInfo) (rev : Nat) : Follows c etcd (view.applyStored shardID info rev) cursor := by
  have hnodes : (view.applyStored shardID info rev).nodes = view.nodes := by
    unfold ClusterState.applyStored
    split <;> rfl
  have hgates : (view.applyStored shardID info rev).gates = view.gates := by
    unfold ClusterState.applyStored
    split <;> rfl
  refine ⟨h.congr (applyStored_revision shardID info rev), by rw [hnodes]; exact h.nodes,
    by rw [hgates]; exact h.gates, ?_⟩
  intro id hvalid e he hkey
  exact Nat.le_trans (h.shards id hvalid e he hkey) (applyStored_newer shardID info rev id)

/-! ### An event -/

variable {w : Write GoString GoString} {rev : Nat}

theorem handleLeaderEvent_frame (view : ClusterState) (now : Int) (w : Write GoString GoString)
    (rev : Nat) : (view.handleLeaderEvent now w rev).nodes = view.nodes ∧
      (view.handleLeaderEvent now w rev).gates = view.gates ∧
      (view.handleLeaderEvent now w rev).shards = view.shards := by
  unfold handleLeaderEvent
  split
  · exact ⟨rfl, rfl, rfl⟩
  · split <;> exact ⟨rfl, rfl, rfl⟩

theorem handleShardEvent_frame (c : Config) (view : ClusterState) (w : Write GoString GoString)
    (rev : Nat) : (view.handleShardEvent c w rev).nodes = view.nodes ∧
      (view.handleShardEvent c w rev).gates = view.gates := by
  unfold handleShardEvent
  split
  · exact ⟨rfl, rfl⟩
  · split
    · exact ⟨rfl, rfl⟩
    · split <;> exact ⟨rfl, rfl⟩

private theorem nodes_handleEvent (hw : WellKeyed c w) (now : Int) (a : GoString) :
    (view.handleEvent c now w rev).nodes.lookup a =
      if w.key = c.nodesPrefix ++ a then w.value.map fun _ => true else view.nodes.lookup a := by
  cases hw.addressed with
  | leader =>
    rw [handleEvent_leader, if_neg (nodesPrefix_ne_leaderKey a).symm,
      (handleLeaderEvent_frame view now _ rev).1]
  | node hne hvalue =>
    rw [handleEvent_node now hne]
    simp only [lookup_enroll hvalue, List.append_cancel_left_eq, eq_comm]
  | @gate b value hne =>
    rw [handleEvent_gate now hne, if_neg (gatesPrefix_ne_nodesPrefix b a)]
  | shard hvalid =>
    rw [handleEvent_shard now hvalid, if_neg (shardKey_ne_nodesPrefix _ a),
      (handleShardEvent_frame c view _ rev).1]
  | other hignored => rw [handleEvent_ignored now hignored, if_neg (hignored.ne_nodesPrefix a)]

private theorem gates_handleEvent (hw : WellKeyed c w) (now : Int) (a : GoString) :
    (view.handleEvent c now w rev).gates.lookup a =
      if w.key = c.gatesPrefix ++ a then w.value.map fun _ => true else view.gates.lookup a := by
  cases hw.addressed with
  | leader =>
    rw [handleEvent_leader, if_neg (gatesPrefix_ne_leaderKey a).symm,
      (handleLeaderEvent_frame view now _ rev).2.1]
  | @node b value hne =>
    rw [handleEvent_node now hne, if_neg (gatesPrefix_ne_nodesPrefix a b).symm]
  | gate hne hvalue =>
    rw [handleEvent_gate now hne]
    simp only [lookup_enroll hvalue, List.append_cancel_left_eq, eq_comm]
  | shard hvalid =>
    rw [handleEvent_shard now hvalid, if_neg (shardKey_ne_gatesPrefix _ a),
      (handleShardEvent_frame c view _ rev).2]
  | other hignored => rw [handleEvent_ignored now hignored, if_neg (hignored.ne_gatesPrefix a)]

theorem shards_handleEvent (view : ClusterState) (rev : Nat) (hw : Tidy c w) (now : Int) :
    ((view.handleEvent c now w rev).shards = view.shards ∧
      ∀ shardID, c.ValidShard shardID → w.key = c.shardKey shardID →
        rev ≤ (view.shard shardID).modRevision) ∨
    ∃ shardID value, c.ValidShard shardID ∧ w = ⟨c.shardKey shardID, some value⟩ ∧
      (view.shard shardID).modRevision < rev ∧
      (view.handleEvent c now w rev).shards =
        view.shards.insert shardID (parseShardInfo value rev) := by
  cases hw.keyed.addressed with
  | leader =>
    refine .inl ⟨?_, fun shardID _ hkey => absurd hkey.symm (shardKey_ne_leaderKey shardID)⟩
    rw [handleEvent_leader, (handleLeaderEvent_frame view now _ rev).2.2]
  | @node a value hne =>
    refine .inl ⟨?_, fun shardID _ hkey => absurd hkey.symm (shardKey_ne_nodesPrefix shardID a)⟩
    rw [handleEvent_node now hne]
  | @gate a value hne =>
    refine .inl ⟨?_, fun shardID _ hkey => absurd hkey.symm (shardKey_ne_gatesPrefix shardID a)⟩
    rw [handleEvent_gate now hne]
  | @shard shardID value hvalid =>
    rw [handleEvent_shard now hvalid, handleShardEvent]
    simp only [shardOfKey_shardKey hvalid]
    split
    · rename_i hold
      refine .inl ⟨rfl, fun id hvalid' hkey => ?_⟩
      obtain rfl := shardKey_injective hvalid hvalid' hkey
      exact hold
    · rename_i hnewer
      cases value with
      | none => exact absurd rfl (hw.kept shardID rfl)
      | some value => exact .inr ⟨shardID, value, hvalid, rfl, Nat.lt_of_not_le hnewer, rfl⟩
  | other hignored =>
    refine .inl ⟨?_, fun shardID hvalid hkey => absurd hkey (hignored.ne_shardKey hvalid)⟩
    rw [handleEvent_ignored now hignored]

theorem Stores.handleEvent (h : Stores c etcd view) (hw : Tidy c w) (now : Int)
    (hmem : (w, rev) ∈ Timeline.feed 0 etcd) : Stores c etcd (view.handleEvent c now w rev) := by
  rcases shards_handleEvent view rev hw now with
    ⟨hshards, -⟩ | ⟨shardID, value, hvalid, rfl, -, hshards⟩
  · rw [Stores, hshards]
    exact h
  · rw [Stores, hshards]
    exact h.insert hvalid ⟨value, hmem, rfl⟩

theorem Follows.deliver {cursor : Nat} (h : Follows c etcd view cursor)
    (he : (Timeline.feed 0 etcd)[cursor]? = some (w, rev)) (hw : Tidy c w) (now : Int) :
    Follows c etcd (view.handleEvent c now w rev) (cursor + 1) := by
  refine ⟨(h.next he).congr (handleEvent_revision now w rev), fun a => ?_, fun a => ?_, ?_⟩
  · rw [nodes_handleEvent hw.keyed]
    split
    · rename_i hkey
      exact .next_self he hkey (by rw [Option.map_map]; rfl)
    · rename_i hkey
      exact (h.nodes a).next_of_ne he hkey
  · rw [gates_handleEvent hw.keyed]
    split
    · rename_i hkey
      exact .next_self he hkey (by rw [Option.map_map]; rfl)
    · rename_i hkey
      exact (h.gates a).next_of_ne he hkey
  · intro shardID hvalid e hmem hkey
    rw [Feed.take_succ_of_getElem? he] at hmem
    rcases shards_handleEvent view rev hw now with
      ⟨hshards, hold⟩ | ⟨id, value, hid, rfl, hnewer, hshards⟩
    · rw [ClusterState.shard, hshards, ← ClusterState.shard]
      rcases mem_concat_cases hmem with hmem | rfl
      · exact h.shards shardID hvalid e hmem hkey
      · exact hold shardID hvalid hkey
    · rw [ClusterState.shard, hshards]
      by_cases hsame : shardID = id
      · subst hsame
        rw [AList.lookup_insert]
        rcases mem_concat_cases hmem with hmem | rfl
        · exact Nat.le_of_lt (Nat.lt_of_le_of_lt (h.shards shardID hvalid e hmem hkey) hnewer)
        · exact Nat.le_refl _
      · rw [AList.lookup_insert_ne hsame, ← ClusterState.shard]
        rcases mem_concat_cases hmem with hmem | rfl
        · exact h.shards shardID hvalid e hmem hkey
        · exact absurd (shardKey_injective hid hvalid hkey).symm hsame

theorem Stores.applyStored (h : Stores c etcd view) {txn : Committed}
    (hvalid : c.ValidShard txn.shardID)
    (hstored : IsStored c etcd txn.shardID { txn.info with modRevision := txn.rev }) :
    Stores c etcd (view.applyStored txn.shardID txn.info txn.rev) := by
  unfold ClusterState.applyStored
  split
  · exact h.insert hvalid hstored
  · exact h

theorem Follows.upToDate (h : Follows c etcd view (Timeline.feed 0 etcd).length)
    (hstores : Stores c etcd view) (htidy : ∀ txn ∈ etcd, ∀ w ∈ txn.writes, Tidy c w) :
    UpToDate c etcd view := by
  have hload : ∀ now, Decodes c (Feed.get (Timeline.feed 0 etcd))
      (loadAt c etcd etcd.length now) := by
    intro now
    have hfresh := (loaded_loadAt htidy now).decodes
    rwa [loadedWrites, loadAt_revision, List.take_length] at hfresh
  refine ⟨fun now a => ?_, fun now a => ?_, fun now shardID => ?_⟩
  · rw [(hload now).nodes a]
    exact (h.nodes a).finish
  · rw [(hload now).gates a]
    exact (h.gates a).finish
  · rw [(hload now).shards shardID]
    split
    · rename_i hvalid
      have hshards := h.shards shardID hvalid
      rw [List.take_length] at hshards
      cases hlookup : view.shards.lookup shardID with
      | none =>
        cases hget : Feed.get (Timeline.feed 0 etcd) (c.shardKey shardID) with
        | none => rfl
        | some found =>
          have hle := hshards _ (Feed.mem_of_get hget) rfl
          have hpos := (Timeline.feed_ordered 0 etcd).pos _ (Feed.mem_of_get hget)
          rw [ClusterState.shard, hlookup] at hle
          exact absurd hle (Nat.not_le_of_lt hpos)
      | some info =>
        obtain ⟨-, value, hmem, hinfo⟩ := hstores shardID info hlookup
        have hkept : ∀ e ∈ Timeline.feed 0 etcd, e.1.key = c.shardKey shardID →
            e.1.value ≠ none := by
          intro e he hkey
          obtain ⟨txn, htxn, hw⟩ := Timeline.mem_of_mem_feed he
          exact (htidy txn htxn e.1 hw).kept shardID hkey
        obtain ⟨found, hget⟩ := Feed.exists_get_of_mem hmem hkept
        have hlower := (Timeline.feed_ordered 0 etcd).le_get hmem hget
        have hupper := hshards _ (Feed.mem_of_get hget) rfl
        rw [ClusterState.shard, hlookup, Option.getD_some] at hupper
        have hrev : info.modRevision = found.2 := Nat.le_antisymm hlower hupper
        have hsame := (Timeline.feed_ordered 0 etcd).unique hmem (Feed.mem_of_get hget) rfl hrev
        have hvalue : value = found.1 := by
          simpa using congrArg (·.1.value) hsame
        rw [hget, Option.map_some, hinfo, hvalue, hrev]
    · rename_i hinvalid
      cases hlookup : view.shards.lookup shardID with
      | none => rfl
      | some info => exact absurd (hstores shardID info hlookup).1 hinvalid

end Views

/-! ### Runs -/

namespace Manager

variable {c : Config} {s t : Manager}

def WatchSound (c : Config) (etcd : Timeline GoString GoString) (view : ClusterState) :
    Watch → Prop
  | .unloaded => True
  | .loading snapshot => Loaded c etcd snapshot
  | .idle => ∃ cursor, Follows c etcd view cursor
  | .watching cursor => Follows c etcd view cursor

structure Sound (c : Config) (s : Manager) : Prop where
  tidy : ∀ txn ∈ s.etcd, ∀ w ∈ txn.writes, Tidy c w
  stores : Stores c s.etcd s.view
  committed : ∀ txn ∈ s.committed, c.ValidShard txn.shardID ∧
    IsStored c s.etcd txn.shardID { txn.info with modRevision := txn.rev }
  watch : WatchSound c s.etcd s.view s.watch

theorem sound_start (c : Config) : start.Sound c :=
  ⟨by simp [start], by simp [Stores, start, ClusterState.empty], by simp [start], trivial⟩

theorem WatchSound.grow {etcd : Timeline GoString GoString} {view : ClusterState} {watch : Watch}
    (h : WatchSound c etcd view watch) (txn : Transaction GoString GoString) :
    WatchSound c (etcd ++ [txn]) view watch := by
  cases watch with
  | unloaded => trivial
  | loading snapshot => exact Loaded.grow h txn
  | idle =>
    obtain ⟨cursor, hfollows⟩ := h
    exact ⟨cursor, hfollows.grow txn⟩
  | watching cursor => exact Follows.grow h txn

theorem Sound.grow (h : s.Sound c) {txn : Transaction GoString GoString}
    (htxn : ∀ w ∈ txn.writes, Tidy c w) : Sound c { s with etcd := s.etcd ++ [txn] } where
  tidy other hother := by
    rcases mem_concat_cases hother with hother | rfl
    · exact h.tidy other hother
    · exact htxn
  stores := h.stores.grow txn
  committed other hother :=
    ⟨(h.committed other hother).1, (h.committed other hother).2.grow txn⟩
  watch := h.watch.grow txn

private theorem tidy_of_registration {w : Write GoString GoString} (h : Registration c w)
    (hnode : w.key ≠ c.nodesPrefix) (hgate : w.key ≠ c.gatesPrefix) : Tidy c w := by
  have hsuffix : ∀ {head : GoString}, hasPrefix w.key head = true → w.key ≠ head →
      w.key.drop head.length ≠ [] := by
    intro head hbelow hne hnil
    have heq := eq_append_of_hasPrefix hbelow
    rw [hnil, List.append_nil] at heq
    exact hne heq
  refine ⟨⟨fun hbelow => ⟨hsuffix hbelow hnode, h.2.1 hbelow⟩,
    fun hbelow => ⟨hsuffix hbelow hgate, h.2.2 hbelow⟩, fun hbelow => ?_⟩, fun shardID hkey => ?_⟩
  · rw [h.1] at hbelow
    contradiction
  · have hbelow := h.1
    rw [hkey, hasPrefix_shardKey] at hbelow
    contradiction

private theorem tidy_putShard {shardID : Int} (hvalid : c.ValidShard shardID)
    (record : ShardRecord) : ∀ w ∈ (putShard c shardID record).writes, Tidy c w := by
  intro w hw
  rw [List.mem_singleton.mp hw]
  refine ⟨⟨fun hbelow => ?_, fun hbelow => ?_, fun _ id hid => ?_⟩, fun _ _ => by simp⟩
  · rw [not_hasPrefix_nodes] at hbelow
    contradiction
  · rw [not_hasPrefix_gates] at hbelow
    contradiction
  · cases (shardOfKey_shardKey hvalid).symm.trans hid
    rfl

theorem isStored_putShard {etcd : Timeline GoString GoString} {shardID : Int} {info : ShardInfo}
    (hwell : info.WellFormed) :
    IsStored c (etcd ++ [putShard c shardID info.toShardRecord]) shardID
      { info with modRevision := etcd.length + 1 } := by
  refine ⟨formatShardInfo info.toShardRecord, ?_, ?_⟩
  · rw [Timeline.feed_concat]
    exact List.mem_append_right _ (List.mem_singleton.mpr rfl)
  · rw [parseShardInfo, parseRecord_formatShardInfo hwell]

theorem WatchSound.applyStored {etcd : Timeline GoString GoString} {view : ClusterState}
    {watch : Watch} (h : WatchSound c etcd view watch) (shardID : Int) (info : ShardInfo)
    (rev : Nat) : WatchSound c etcd (view.applyStored shardID info rev) watch := by
  cases watch with
  | unloaded => trivial
  | loading snapshot => exact h
  | idle =>
    obtain ⟨cursor, hfollows⟩ := h
    exact ⟨cursor, hfollows.applyStored shardID info rev⟩
  | watching cursor => exact Follows.applyStored h shardID info rev

theorem Sound.step (h : s.Sound c) {label : ManagerLabel} (hclean : Clean c s label)
    (hstep : s.step c label = some t) : t.Sound c := by
  have hwatch := h.watch
  cases step_cases hstep with
  | environment hwrites =>
    exact h.grow fun w hw =>
      tidy_of_registration (hwrites w hw) (hclean w hw).1 (hclean w hw).2
  | @peer shardID record hvalid => exact h.grow (tidy_putShard hvalid record)
  | @store shardID info hvalid =>
    have hgrow := h.grow (tidy_putShard hvalid info.toShardRecord)
    refine ⟨hgrow.tidy, hgrow.stores, fun txn htxn => ?_, hgrow.watch⟩
    rcases mem_concat_cases htxn with htxn | rfl
    · exact hgrow.committed txn htxn
    · exact ⟨hvalid, isStored_putShard hclean⟩
  | applyLocal htxn =>
    obtain ⟨hvalid, hstored⟩ := h.committed _ (List.mem_of_getElem? htxn)
    exact ⟨h.tidy, h.stores.applyStored hvalid hstored,
      fun other hother => h.committed other (List.mem_of_mem_eraseIdx hother),
      h.watch.applyStored _ _ _⟩
  | watch hcase =>
    cases hcase with
    | load => exact ⟨h.tidy, h.stores, h.committed, loaded_loadAt h.tidy _⟩
    | @install snapshot hloading =>
      rw [hloading] at hwatch
      have hloaded : Loaded c s.etcd snapshot := hwatch
      exact ⟨h.tidy, hloaded.stores, h.committed, _, hloaded.follows h.tidy⟩
    | connect hidle =>
      rw [hidle] at hwatch
      obtain ⟨cursor, hfollows⟩ := hwatch
      exact ⟨h.tidy, h.stores, h.committed, hfollows.reconnect⟩
    | @disconnect cursor hwatching =>
      rw [hwatching] at hwatch
      exact ⟨h.tidy, h.stores, h.committed, cursor, hwatch⟩
    | @deliver now cursor w rev hwatching he =>
      rw [hwatching] at hwatch
      have hmem := List.mem_of_getElem? he
      obtain ⟨txn, htxn, hw⟩ := Timeline.mem_of_mem_feed hmem
      have htidy := h.tidy txn htxn w hw
      exact ⟨h.tidy, h.stores.handleEvent htidy now hmem, h.committed,
        Follows.deliver hwatch he htidy now⟩

theorem sound_of_reachable (h : (machine c).Reachable (Clean c) s) : s.Sound c :=
  h.invariant (fun hinit => hinit ▸ sound_start c) fun hs hok hst => hs.step hok hst

theorem Sound.upToDate (h : s.Sound c) (hdone : s.watch.cursor = some s.feed.length) :
    UpToDate c s.etcd s.view := by
  have hwatch := h.watch
  cases hwatching : s.watch with
  | watching cursor =>
    rw [hwatching] at hwatch hdone
    cases hdone
    exact Follows.upToDate hwatch h.stores h.tidy
  | unloaded | loading | idle =>
    rw [hwatching] at hdone
    contradiction

theorem cluster_view_converges (c : Config) (s : Manager)
    (hreach : (machine c).Reachable (Clean c) s) : s.Convergent c := by
  have hsound := sound_of_reachable hreach
  exact ⟨fun shardID info hlookup => (hsound.stores shardID info hlookup).2,
    fun hcursor _ => hsound.upToDate hcursor⟩

instance (c : Config) (s : Manager) : (label : ManagerLabel) → Decidable (Clean c s label)
  | .environment txn =>
    inferInstanceAs (Decidable
      (∀ w ∈ txn.writes, w.key ≠ c.nodesPrefix ∧ w.key ≠ c.gatesPrefix))
  | .store _ info => inferInstanceAs (Decidable info.toShardRecord.WellFormed)
  | .peer _ _ | .applyLocal _ | .watch _ =>
    isTrue trivial

def registers (address : GoString) : ManagerLabel :=
  .environment ⟨[⟨twoShards.nodesPrefix ++ address, some address⟩], by simp⟩

/-- The transaction of a manager is committed, another manager writes the shard again, and
both events come twice. The local update comes last. -/
def replayed : List ManagerLabel :=
  [registers (lit "a"), .watch (.load 0), .watch .install, .watch .connect,
    .store 0 ⟨⟨lit "a", [], []⟩, 0⟩, .peer 0 ⟨lit "a", lit "a", []⟩, .watch (.deliver 0),
    .watch (.deliver 0), .watch .disconnect, .watch .connect, .watch (.deliver 1),
    .watch (.deliver 1), .applyLocal 0]

theorem cluster_view_converges_replayed :
    ∃ s, (machine twoShards).Reachable (Clean twoShards) s ∧ s.Convergent twoShards ∧
      s.watch.cursor = some s.feed.length ∧ s.committed = [] ∧
      s.view.shards.lookup 0 = some ⟨⟨lit "a", lit "a", []⟩, 3⟩ := by
  have hrun : ((machine twoShards).exec (Clean twoShards) start replayed).any (fun s => decide
      (s.watch.cursor = some s.feed.length ∧ s.committed = [] ∧
        s.view.shards.lookup 0 = some ⟨⟨lit "a", lit "a", []⟩, 3⟩)) = true := by decide
  obtain ⟨s, hreach, hs⟩ := Machine.exec_reachable hrun rfl
  exact ⟨s, hreach, cluster_view_converges twoShards s hreach, of_decide_eq_true hs⟩

/-- The leader stores the address of a node with a comma in it as the target of a shard. -/
def commaAddress : List ManagerLabel :=
  [registers (lit "a,b"), .watch (.load 0), .watch .install,
    .store 0 ⟨⟨lit "a,b", [], []⟩, 0⟩, .applyLocal 0]

/-- A node registers under the empty address while it is watched. -/
def emptyAddress : List ManagerLabel :=
  [.watch (.load 0), .watch .install, .watch .connect, registers [], .watch (.deliver 0)]

/-- With unclean addresses a record in memory may differ from the one etcd has at its
revision, and a view whose session has handled every event from a fresh load. -/
theorem unclean_addresses_diverge :
    (∃ s, (machine twoShards).Reachable Machine.Any s ∧
      ∃ info, s.view.shards.lookup 0 = some info ∧ ¬ IsStored twoShards s.etcd 0 info) ∧
    ∃ s, (machine twoShards).Reachable Machine.Any s ∧ s.watch.cursor = some s.feed.length ∧
      s.committed = [] ∧ ¬ UpToDate twoShards s.etcd s.view := by
  constructor
  · have hrun : ((machine twoShards).exec Machine.Any start commaAddress).any (fun s => decide
        (s.view.shards.lookup 0 = some ⟨⟨lit "a,b", [], []⟩, 2⟩ ∧
          ∀ e ∈ s.feed, e.2 = 2 → e.1.value.map parseRecord = some ⟨lit "a", lit "b", []⟩)) =
        true := by decide
    obtain ⟨s, hreach, hs⟩ := Machine.exec_reachable hrun rfl
    obtain ⟨hlookup, hparse⟩ := of_decide_eq_true hs
    refine ⟨s, hreach, _, hlookup, ?_⟩
    rintro ⟨value, hmem, hinfo⟩
    have hread := Option.some.inj (hparse _ hmem rfl)
    have htarget := congrArg (fun info => info.targetNode) hinfo
    rw [parseShardInfo, hread] at htarget
    exact absurd htarget (by decide)
  · have hrun : ((machine twoShards).exec Machine.Any start emptyAddress).any (fun s => decide
        (s.watch.cursor = some s.feed.length ∧ s.committed = [] ∧
          s.view.nodes.lookup [] = none ∧
          (loadAt twoShards s.etcd s.etcd.length 0).nodes.lookup [] = some true)) =
        true := by decide
    obtain ⟨s, hreach, hs⟩ := Machine.exec_reachable hrun rfl
    obtain ⟨hcursor, hcommitted, hview, hload⟩ := of_decide_eq_true hs
    refine ⟨s, hreach, hcursor, hcommitted, fun h => ?_⟩
    have hsame := h.nodes 0 []
    rw [hview, hload] at hsame
    contradiction

end Manager
end Goverse.Consensus
