import Goverse.Lib.Feed
import Goverse.Consensus.Views

/-! A view as a decoding of the store. Loading reads every key once, and an event is one
more write. Both are the same function on what is decoded, so following the watch from a
loaded view and loading again agree. -/
namespace Goverse.Consensus

open GoString Lib ClusterState

variable {c : Config} {view : ClusterState}

abbrev Store := GoString → Option (GoString × Nat)

def Store.write (store : Store) (w : Write GoString GoString) (rev : Nat) : Store :=
  Function.update store w.key (w.value.map (·, rev))

/-- The addresses registered under a prefix. -/
def Lists (head : GoString) (store : Store) (members : AList fun _ : GoString => Bool) : Prop :=
  ∀ a, members.lookup a = (store (head ++ a)).map fun _ => true

structure Decodes (c : Config) (store : Store) (view : ClusterState) : Prop where
  nodes : Lists c.nodesPrefix store view.nodes
  gates : Lists c.gatesPrefix store view.gates
  shards : ∀ shardID, view.shards.lookup shardID =
    if c.ValidShard shardID then
      (store (c.shardKey shardID)).map fun found => parseShardInfo found.1 found.2
    else none
  leader : view.leader = ((store c.leaderKey).map Prod.fst).getD []
  leaderModRevision : view.leaderModRevision = ((store c.leaderKey).map Prod.snd).getD 0

/-- Registrations have a non-empty suffix equal to their value, and a key that is read as
the number of a shard is its canonical decimal. -/
structure WellKeyed (c : Config) (w : Write GoString GoString) : Prop where
  node : hasPrefix w.key c.nodesPrefix = true → w.key.drop c.nodesPrefix.length ≠ [] ∧
    ∀ address ∈ w.value, address = w.key.drop c.nodesPrefix.length
  gate : hasPrefix w.key c.gatesPrefix = true → w.key.drop c.gatesPrefix.length ≠ [] ∧
    ∀ address ∈ w.value, address = w.key.drop c.gatesPrefix.length
  shard : hasPrefix w.key c.shardsPrefix = true →
    ∀ shardID ∈ shardOfKey c w.key, w.key = c.shardKey shardID

instance (c : Config) (w : Write GoString GoString) : Decidable (WellKeyed c w) :=
  decidable_of_iff (_ ∧ _ ∧ _) ⟨fun h => ⟨h.1, h.2.1, h.2.2⟩, fun h => ⟨h.node, h.gate, h.shard⟩⟩

/-! ### The keys a view is made of -/

section Keys

/-- A key that no handler and no load takes anything from. -/
structure Ignored (c : Config) (key : GoString) : Prop where
  leader : key ≠ c.leaderKey
  node : hasPrefix key c.nodesPrefix = false
  gate : hasPrefix key c.gatesPrefix = false
  shard : hasPrefix key c.shardsPrefix = true → shardOfKey c key = none

/-- Every write there can be, by its key. -/
inductive Addressed (c : Config) : Write GoString GoString → Prop
  | leader {value : Option GoString} : Addressed c ⟨c.leaderKey, value⟩
  | node {a : GoString} {value : Option GoString} (hne : a ≠ []) (hvalue : ∀ v ∈ value, v = a) :
      Addressed c ⟨c.nodesPrefix ++ a, value⟩
  | gate {a : GoString} {value : Option GoString} (hne : a ≠ []) (hvalue : ∀ v ∈ value, v = a) :
      Addressed c ⟨c.gatesPrefix ++ a, value⟩
  | shard {shardID : Int} {value : Option GoString} (hvalid : c.ValidShard shardID) :
      Addressed c ⟨c.shardKey shardID, value⟩
  | other {w : Write GoString GoString} (hignored : Ignored c w.key) : Addressed c w

theorem Ignored.ne_nodesPrefix {key : GoString} (h : Ignored c key) (a : GoString) :
    key ≠ c.nodesPrefix ++ a := by
  rintro rfl
  exact absurd h.node (by simp)

theorem Ignored.ne_gatesPrefix {key : GoString} (h : Ignored c key) (a : GoString) :
    key ≠ c.gatesPrefix ++ a := by
  rintro rfl
  exact absurd h.gate (by simp)

theorem Ignored.ne_shardKey {key : GoString} (h : Ignored c key) {shardID : Int}
    (hvalid : c.ValidShard shardID) : key ≠ c.shardKey shardID := by
  rintro rfl
  have := h.shard (hasPrefix_shardKey shardID)
  rw [shardOfKey_shardKey hvalid] at this
  contradiction

theorem WellKeyed.addressed {w : Write GoString GoString} (h : WellKeyed c w) :
    Addressed c w := by
  obtain ⟨key, value⟩ := w
  by_cases hleader : key = c.leaderKey
  · subst hleader
    exact .leader
  · cases hnode : hasPrefix key c.nodesPrefix with
    | true =>
      obtain ⟨hne, hvalue⟩ := h.node hnode
      rw [eq_append_of_hasPrefix hnode]
      exact .node hne hvalue
    | false =>
      cases hgate : hasPrefix key c.gatesPrefix with
      | true =>
        obtain ⟨hne, hvalue⟩ := h.gate hgate
        rw [eq_append_of_hasPrefix hgate]
        exact .gate hne hvalue
      | false =>
        by_cases hshard : hasPrefix key c.shardsPrefix = true
        · cases hid : shardOfKey c key with
          | none => exact .other ⟨hleader, hnode, hgate, fun _ => hid⟩
          | some shardID =>
            obtain rfl : key = c.shardKey shardID := h.shard hshard shardID hid
            exact .shard (valid_of_shardOfKey hid)
        · exact .other ⟨hleader, hnode, hgate, fun hbelow => absurd hbelow hshard⟩

end Keys

/-! ### One write -/

section Write

variable {store : Store} {w : Write GoString GoString} {rev : Nat}

@[simp] theorem Store.write_self (store : Store) (w : Write GoString GoString) (rev : Nat) :
    store.write w rev w.key = w.value.map (·, rev) :=
  Function.update_self ..

@[simp] theorem Store.write_of_ne {key : GoString} (h : w.key ≠ key) :
    store.write w rev key = store key :=
  Function.update_of_ne (Ne.symm h) ..

theorem Lists.frame {head : GoString} {members : AList fun _ : GoString => Bool}
    (h : Lists head store members) (hne : ∀ a, w.key ≠ head ++ a) :
    Lists head (store.write w rev) members := by
  intro a
  rw [Store.write_of_ne (hne a)]
  exact h a

/-- The members after a write of the key of `a`. -/
def enroll (members : AList fun _ : GoString => Bool) (a : GoString) :
    Option GoString → AList fun _ : GoString => Bool
  | some address => members.insert address true
  | none => members.erase a

theorem lookup_enroll {members : AList fun _ : GoString => Bool} {a : GoString}
    {value : Option GoString} (hvalue : ∀ v ∈ value, v = a) (b : GoString) :
    (enroll members a value).lookup b =
      if b = a then value.map fun _ => true else members.lookup b := by
  cases value with
  | none =>
    split
    · subst b
      exact AList.lookup_erase _ _
    · rename_i hb
      exact AList.lookup_erase_ne hb
  | some address =>
    obtain rfl := hvalue address rfl
    split
    · subst b
      exact AList.lookup_insert _
    · rename_i hb
      exact AList.lookup_insert_ne hb

theorem Lists.enroll {head a : GoString} {value : Option GoString}
    {members : AList fun _ : GoString => Bool} (h : Lists head store members)
    (hvalue : ∀ v ∈ value, v = a) :
    Lists head (store.write ⟨head ++ a, value⟩ rev) (enroll members a value) := by
  intro b
  rw [lookup_enroll hvalue]
  split
  · subst b
    rw [Store.write_self, Option.map_map]
    rfl
  · rename_i hb
    rw [Store.write_of_ne fun heq => hb (List.append_cancel_left heq).symm]
    exact h b

theorem Decodes.shards_frame (h : Decodes c store view)
    (hne : ∀ shardID, c.ValidShard shardID → w.key ≠ c.shardKey shardID) (shardID : Int) :
    view.shards.lookup shardID =
      if c.ValidShard shardID then
        (store.write w rev (c.shardKey shardID)).map fun found => parseShardInfo found.1 found.2
      else none := by
  rw [h.shards shardID]
  split
  · rename_i hvalid
    rw [Store.write_of_ne (hne shardID hvalid)]
  · rfl

theorem Decodes.shards_write (h : Decodes c store view) {shardID : Int} {value : Option GoString}
    {shards : AList fun _ : Int => ShardInfo} (hvalid : c.ValidShard shardID)
    (hself : shards.lookup shardID = value.map (parseShardInfo · rev))
    (hother : ∀ id, id ≠ shardID → shards.lookup id = view.shards.lookup id) (id : Int) :
    shards.lookup id =
      if c.ValidShard id then
        (store.write ⟨c.shardKey shardID, value⟩ rev (c.shardKey id)).map
          fun found => parseShardInfo found.1 found.2
      else none := by
  by_cases hid : id = shardID
  · subst hid
    rw [hself, if_pos hvalid, Store.write_self, Option.map_map]
    rfl
  · rw [hother id hid, h.shards id]
    split
    · rename_i hvalid'
      rw [Store.write_of_ne fun heq => hid (shardKey_injective hvalid hvalid' heq).symm]
    · rfl

theorem Decodes.ignored (h : Decodes c store view) (hw : Ignored c w.key) :
    Decodes c (store.write w rev) view where
  nodes := h.nodes.frame hw.ne_nodesPrefix
  gates := h.gates.frame hw.ne_gatesPrefix
  shards := h.shards_frame fun _ => hw.ne_shardKey
  leader := by rw [Store.write_of_ne hw.leader]; exact h.leader
  leaderModRevision := by rw [Store.write_of_ne hw.leader]; exact h.leaderModRevision

theorem Decodes.leader_write (h : Decodes c store view) {value : Option GoString}
    {lastChange : Option Int} :
    Decodes c (store.write ⟨c.leaderKey, value⟩ rev)
      { view with
        leader := value.getD []
        leaderModRevision := (value.map fun _ => rev).getD 0
        lastChange := lastChange } where
  nodes := h.nodes.frame fun a => (nodesPrefix_ne_leaderKey a).symm
  gates := h.gates.frame fun a => (gatesPrefix_ne_leaderKey a).symm
  shards := h.shards_frame fun shardID _ => (shardKey_ne_leaderKey shardID).symm
  leader := by
    rw [Store.write_self]
    cases value <;> rfl
  leaderModRevision := by
    rw [Store.write_self]
    cases value <;> rfl

theorem Decodes.node_write (h : Decodes c store view) {a : GoString} {value : Option GoString}
    {nodes : AList fun _ : GoString => Bool} {lastChange : Option Int}
    (hnodes : Lists c.nodesPrefix (store.write ⟨c.nodesPrefix ++ a, value⟩ rev) nodes) :
    Decodes c (store.write ⟨c.nodesPrefix ++ a, value⟩ rev)
      { view with nodes := nodes, lastChange := lastChange } where
  nodes := hnodes
  gates := h.gates.frame fun b => (gatesPrefix_ne_nodesPrefix b a).symm
  shards := h.shards_frame fun shardID _ => (shardKey_ne_nodesPrefix shardID a).symm
  leader := by rw [Store.write_of_ne (nodesPrefix_ne_leaderKey a)]; exact h.leader
  leaderModRevision := by
    rw [Store.write_of_ne (nodesPrefix_ne_leaderKey a)]
    exact h.leaderModRevision

theorem Decodes.gate_write (h : Decodes c store view) {a : GoString} {value : Option GoString}
    {gates : AList fun _ : GoString => Bool} {lastChange : Option Int}
    (hgates : Lists c.gatesPrefix (store.write ⟨c.gatesPrefix ++ a, value⟩ rev) gates) :
    Decodes c (store.write ⟨c.gatesPrefix ++ a, value⟩ rev)
      { view with gates := gates, lastChange := lastChange } where
  nodes := h.nodes.frame fun b => gatesPrefix_ne_nodesPrefix a b
  gates := hgates
  shards := h.shards_frame fun shardID _ => (shardKey_ne_gatesPrefix shardID a).symm
  leader := by rw [Store.write_of_ne (gatesPrefix_ne_leaderKey a)]; exact h.leader
  leaderModRevision := by
    rw [Store.write_of_ne (gatesPrefix_ne_leaderKey a)]
    exact h.leaderModRevision

theorem Decodes.shard_write (h : Decodes c store view) {shardID : Int} {value : Option GoString}
    {shards : AList fun _ : Int => ShardInfo} (hvalid : c.ValidShard shardID)
    (hself : shards.lookup shardID = value.map (parseShardInfo · rev))
    (hother : ∀ id, id ≠ shardID → shards.lookup id = view.shards.lookup id) :
    Decodes c (store.write ⟨c.shardKey shardID, value⟩ rev) { view with shards := shards } where
  nodes := h.nodes.frame fun a => shardKey_ne_nodesPrefix shardID a
  gates := h.gates.frame fun a => shardKey_ne_gatesPrefix shardID a
  shards := h.shards_write hvalid hself hother
  leader := by rw [Store.write_of_ne (shardKey_ne_leaderKey shardID)]; exact h.leader
  leaderModRevision := by
    rw [Store.write_of_ne (shardKey_ne_leaderKey shardID)]
    exact h.leaderModRevision

end Write

/-! ### Loading -/

section Loading

variable {store : Store}

theorem Decodes.loadKey (h : Decodes c store view) {key value : GoString} {rev : Nat}
    (hw : WellKeyed c ⟨key, some value⟩) :
    Decodes c (store.write ⟨key, some value⟩ rev) (view.loadKey c (key, value, rev)) := by
  generalize hwrite : (⟨key, some value⟩ : Write GoString GoString) = w at hw
  cases hw.addressed with
  | leader =>
    cases hwrite
    rw [ClusterState.loadKey, if_pos rfl]
    exact h.leader_write
  | node hne hvalue =>
    cases hwrite
    rw [loadKey_node]
    exact h.node_write (h.nodes.enroll hvalue)
  | gate hne hvalue =>
    cases hwrite
    rw [loadKey_gate]
    exact h.gate_write (h.gates.enroll hvalue)
  | shard hvalid =>
    cases hwrite
    rw [loadKey_shardKey hvalid]
    exact h.shard_write hvalid (AList.lookup_insert _) fun id hid => AList.lookup_insert_ne hid
  | other hignored =>
    subst hwrite
    have hsame : view.loadKey c (key, value, rev) = view := by
      rw [ClusterState.loadKey, if_neg hignored.leader, if_neg (by rw [hignored.node]; decide),
        if_neg (by rw [hignored.gate]; decide)]
      split
      · rename_i hbelow
        rw [hignored.shard hbelow]
      · rfl
    rw [hsame]
    exact h.ignored hignored

theorem decodes_empty (c : Config) (revision : Nat) (lastChange : Option Int) :
    Decodes c (fun _ => none)
      { ClusterState.empty with revision := revision, lastChange := lastChange } where
  nodes _ := rfl
  gates _ := rfl
  shards _ := by
    rw [Option.map_none, ite_self]
    rfl
  leader := rfl
  leaderModRevision := rfl

theorem Decodes.congr (h : Decodes c store view) {store' : Store}
    (heq : ∀ rest, store' (c.etcdPrefix ++ rest) = store (c.etcdPrefix ++ rest)) :
    Decodes c store' view where
  nodes a := by
    rw [h.nodes a, Config.nodesPrefix, List.append_assoc, heq]
  gates a := by
    rw [h.gates a, Config.gatesPrefix, List.append_assoc, heq]
  shards shardID := by
    rw [h.shards shardID, Config.shardKey, Config.shardsPrefix, List.append_assoc, heq]
  leader := by
    rw [h.leader, Config.leaderKey, heq]
  leaderModRevision := by
    rw [h.leaderModRevision, Config.leaderKey, heq]

theorem Decodes.loadKeys (h : Decodes c store view) {kvs : List (GoString × GoString × Nat)}
    (hkeys : ∀ kv ∈ kvs, WellKeyed c ⟨kv.1, some kv.2.1⟩) :
    Decodes c (kvs.foldl (fun store kv => store.write ⟨kv.1, some kv.2.1⟩ kv.2.2) store)
      (kvs.foldl (ClusterState.loadKey c) view) := by
  induction kvs generalizing store view with
  | nil => exact h
  | cons kv kvs ih =>
    exact ih (h.loadKey (hkeys kv List.mem_cons_self))
      fun other hother => hkeys other (List.mem_cons_of_mem _ hother)

theorem foldl_write_eq {read : Store} {kvs : List (GoString × GoString × Nat)}
    (hread : ∀ kv ∈ kvs, read kv.1 = some kv.2) (store : Store) (key : GoString) :
    kvs.foldl (fun store kv => store.write ⟨kv.1, some kv.2.1⟩ kv.2.2) store key =
      if key ∈ kvs.map Prod.fst then read key else store key := by
  induction kvs generalizing store with
  | nil => simp
  | cons kv kvs ih =>
    rw [List.foldl_cons, List.map_cons,
      ih fun other hother => hread other (List.mem_cons_of_mem _ hother)]
    by_cases hrest : key ∈ kvs.map Prod.fst
    · rw [if_pos hrest, if_pos (List.mem_cons_of_mem _ hrest)]
    · rw [if_neg hrest]
      by_cases hkey : kv.1 = key
      · subst hkey
        rw [if_pos List.mem_cons_self, hread kv List.mem_cons_self]
        exact Store.write_self _ _ _
      · rw [if_neg (by simp [Ne.symm hkey, hrest])]
        exact Store.write_of_ne hkey

private theorem decodes_loadAnswer {feed : Feed GoString GoString}
    (hkeys : ∀ e ∈ feed, WellKeyed c e.1) (revision : Nat) (now : Int) :
    Decodes c feed.get (loadAnswer c feed.live revision now) := by
  have hmem : ∀ kv, kv ∈ ((feed.live.filter fun kv => hasPrefix kv.1 c.etcdPrefix).insertionSort
      fun a b => bytesLe a.1 b.1) ↔
        feed.get kv.1 = some kv.2 ∧ hasPrefix kv.1 c.etcdPrefix = true := by
    intro kv
    rw [List.mem_insertionSort, List.mem_filter, ← Feed.mem_live]
  have hload := (decodes_empty c revision (some now)).loadKeys
    fun kv hkv => hkeys _ (Feed.mem_of_get ((hmem kv).mp hkv).1)
  refine hload.congr fun rest => ?_
  rw [foldl_write_eq fun kv hkv => ((hmem kv).mp hkv).1]
  cases hget : feed.get (c.etcdPrefix ++ rest) with
  | none => rw [ite_self]
  | some found =>
    rw [if_pos]
    exact List.mem_map.mpr ⟨(_, found), (hmem _).mpr ⟨hget, hasPrefix_append _ _⟩, rfl⟩

end Loading

/-! ### Events -/

section Events

variable {store : Store} {w : Write GoString GoString} {rev : Nat}

@[simp] theorem handleEvent_leader (now : Int) {value : Option GoString} :
    view.handleEvent c now ⟨c.leaderKey, value⟩ rev =
      view.handleLeaderEvent now ⟨c.leaderKey, value⟩ rev := by
  simp [ClusterState.handleEvent]

theorem handleEvent_node (now : Int) {a : GoString} {value : Option GoString} (hne : a ≠ []) :
    view.handleEvent c now ⟨c.nodesPrefix ++ a, value⟩ rev =
      { view with nodes := enroll view.nodes a value, lastChange := some now } := by
  cases value <;> simp [ClusterState.handleEvent, isBelow_append hne, handleNodeEvent, enroll]

theorem handleEvent_gate (now : Int) {a : GoString} {value : Option GoString} (hne : a ≠ []) :
    view.handleEvent c now ⟨c.gatesPrefix ++ a, value⟩ rev =
      { view with gates := enroll view.gates a value, lastChange := some now } := by
  cases value <;> simp [ClusterState.handleEvent, isBelow_of_not_hasPrefix, isBelow_append hne,
    handleGateEvent, enroll]

theorem handleEvent_shard (now : Int) {shardID : Int} {value : Option GoString}
    (hvalid : c.ValidShard shardID) :
    view.handleEvent c now ⟨c.shardKey shardID, value⟩ rev =
      view.handleShardEvent c ⟨c.shardKey shardID, value⟩ rev := by
  simp [ClusterState.handleEvent, isBelow_of_not_hasPrefix, isBelow_shardKey hvalid]

theorem handleEvent_ignored (now : Int) (hw : Ignored c w.key) :
    view.handleEvent c now w rev = view := by
  rw [ClusterState.handleEvent]
  split
  · rfl
  · rw [if_neg hw.leader, if_neg (by rw [isBelow_of_not_hasPrefix hw.node]; decide),
      if_neg (by rw [isBelow_of_not_hasPrefix hw.gate]; decide)]
    split
    · rename_i hbelow
      rw [handleShardEvent, hw.shard (hasPrefix_of_isBelow hbelow)]
    · rfl

private theorem handleLeaderEvent_of_newer {value : Option GoString} (now : Int)
    (hnewer : view.leaderModRevision < rev) :
    view.handleLeaderEvent now ⟨c.leaderKey, value⟩ rev =
      { view with
        leader := value.getD []
        leaderModRevision := (value.map fun _ => rev).getD 0
        lastChange := some now } := by
  rw [handleLeaderEvent, if_neg (Nat.not_le_of_lt hnewer)]
  cases value <;> rfl

theorem Decodes.handleEvent (h : Decodes c store view) (hw : WellKeyed c w) (now : Int)
    (hpos : 0 < rev) (hnewer : ∀ found, store w.key = some found → found.2 < rev) :
    Decodes c (store.write w rev) (view.handleEvent c now w rev) := by
  cases hw.addressed with
  | leader =>
    have hmod : view.leaderModRevision < rev := by
      rw [h.leaderModRevision]
      cases hfound : store c.leaderKey with
      | none => exact hpos
      | some found => exact hnewer found hfound
    rw [handleEvent_leader, handleLeaderEvent_of_newer now hmod]
    exact h.leader_write
  | node hne hvalue =>
    rw [handleEvent_node now hne]
    exact h.node_write (h.nodes.enroll hvalue)
  | gate hne hvalue =>
    rw [handleEvent_gate now hne]
    exact h.gate_write (h.gates.enroll hvalue)
  | @shard shardID value hvalid =>
    have hmod : (view.shard shardID).modRevision < rev := by
      rw [ClusterState.shard, h.shards shardID, if_pos hvalid]
      cases hfound : store (c.shardKey shardID) with
      | none => exact hpos
      | some found => exact hnewer found hfound
    rw [handleEvent_shard now hvalid, handleShardEvent]
    simp only [shardOfKey_shardKey hvalid, if_neg (Nat.not_le_of_lt hmod)]
    cases value with
    | none =>
      exact h.shard_write hvalid (AList.lookup_erase _ _) fun id hid => AList.lookup_erase_ne hid
    | some value =>
      exact h.shard_write hvalid (AList.lookup_insert _) fun id hid => AList.lookup_insert_ne hid
  | other hignored =>
    rw [handleEvent_ignored now hignored]
    exact h.ignored hignored

private theorem get_concat_eq_write (feed : Feed GoString GoString)
    (e : Write GoString GoString × Nat) :
    Feed.get (feed ++ [e]) = Store.write feed.get e.1 e.2 := by
  funext key
  rw [Feed.get_concat, Store.write, Function.update_apply]
  by_cases hkey : e.1.key = key
  · rw [if_pos hkey, if_pos hkey.symm]
  · rw [if_neg hkey, if_neg (Ne.symm hkey)]

/-- Events in order, each handled at some time. -/
def ClusterState.follow (c : Config) (clock : Write GoString GoString × Nat → Int)
    (view : ClusterState) (events : Feed GoString GoString) : ClusterState :=
  events.foldl (fun view e => view.handleEvent c (clock e) e.1 e.2) view

theorem Decodes.follow {past events : Feed GoString GoString} (h : Decodes c past.get view)
    (clock : Write GoString GoString × Nat → Int) (hordered : Feed.Ordered (past ++ events))
    (hkeys : ∀ e ∈ events, WellKeyed c e.1) :
    Decodes c (Feed.get (past ++ events)) (view.follow c clock events) := by
  induction events generalizing past view with
  | nil =>
    rw [List.append_nil]
    exact h
  | cons e events ih =>
    rw [List.append_cons] at hordered ⊢
    have hnow : Feed.Ordered (past ++ [e]) := by
      have := hordered.take (past ++ [e]).length
      rwa [List.take_left] at this
    refine ih ?_ hordered fun e' he' => hkeys e' (List.mem_cons_of_mem _ he')
    rw [get_concat_eq_write]
    refine h.handleEvent (hkeys e List.mem_cons_self) _ ?_ fun found hfound => hnow.get_lt hfound
    exact hordered.pos e (by simp)

end Events

/-! ### Following and loading -/

/-- The same maps, whatever the order in which they were filled. -/
structure SameView (a b : ClusterState) : Prop where
  nodes : ∀ address, a.nodes.lookup address = b.nodes.lookup address
  gates : ∀ address, a.gates.lookup address = b.gates.lookup address
  shards : ∀ shardID, a.shards.lookup shardID = b.shards.lookup shardID
  leader : a.leader = b.leader
  leaderModRevision : a.leaderModRevision = b.leaderModRevision

theorem Decodes.same {store : Store} {a b : ClusterState} (ha : Decodes c store a)
    (hb : Decodes c store b) : SameView a b where
  nodes address := (ha.nodes address).trans (hb.nodes address).symm
  gates address := (ha.gates address).trans (hb.gates address).symm
  shards shardID := (ha.shards shardID).trans (hb.shards shardID).symm
  leader := ha.leader.trans hb.leader.symm
  leaderModRevision := ha.leaderModRevision.trans hb.leaderModRevision.symm

/-- `loadClusterStateFromEtcd` when etcd is at revision `rev`. -/
def loadAt (c : Config) (etcd : Timeline GoString GoString) (rev : Nat) (now : Int) :
    ClusterState :=
  loadAnswer c (Feed.live (Timeline.feed 0 (etcd.take rev))) rev now

/-- The events of the revisions after `first` up to `last`. -/
def eventsBetween (etcd : Timeline GoString GoString) (first last : Nat) : Feed GoString GoString :=
  Timeline.feed first ((etcd.take last).drop first)

theorem decodes_loadAt {etcd : Timeline GoString GoString}
    (hkeys : ∀ txn ∈ etcd, ∀ w ∈ txn.writes, WellKeyed c w) (rev : Nat) (now : Int) :
    Decodes c (Feed.get (Timeline.feed 0 (etcd.take rev))) (loadAt c etcd rev now) := by
  refine decodes_loadAnswer (fun e he => ?_) rev now
  obtain ⟨txn, htxn, hw⟩ := Timeline.mem_of_mem_feed he
  exact hkeys txn (List.mem_of_mem_take htxn) e.1 hw

theorem followed_view_equals_loaded_view (c : Config) (etcd : Timeline GoString GoString)
    (hkeys : ∀ txn ∈ etcd, ∀ w ∈ txn.writes, WellKeyed c w) (first last : Nat)
    (hle : first ≤ last) (clock : Write GoString GoString × Nat → Int) (now now' : Int) :
    SameView ((loadAt c etcd first now).follow c clock (eventsBetween etcd first last))
      (loadAt c etcd last now') := by
  have hsplit := Timeline.feed_take_of_le hle etcd
  have hordered := Timeline.feed_ordered 0 (etcd.take last)
  have hevents : ∀ e ∈ eventsBetween etcd first last, WellKeyed c e.1 := by
    intro e he
    obtain ⟨txn, htxn, hw⟩ := Timeline.mem_of_mem_feed he
    exact hkeys txn (List.mem_of_mem_take (List.mem_of_mem_drop htxn)) e.1 hw
  rw [hsplit] at hordered
  have hfollow := (decodes_loadAt hkeys first now).follow clock hordered hevents
  rw [← hsplit] at hfollow
  exact hfollow.same (decodes_loadAt hkeys last now')

/-- A node and a gate register together, the node takes a shard and the lead, and then both
registrations end at once. Shard keys that are not numeric or not in range come in between. -/
def busyTimeline : Timeline GoString GoString :=
  [⟨[⟨lit "/g/nodes/a", some (lit "a")⟩, ⟨lit "/g/gates/b", some (lit "b")⟩], by decide⟩,
   ⟨[⟨lit "/g/shard/1", some (lit "a,")⟩], by decide⟩,
   ⟨[⟨lit "/g/leader", some (lit "a")⟩, ⟨lit "/g/shard/x", some (lit "a,a")⟩,
     ⟨lit "/g/shard/7", some (lit "a,a")⟩], by decide⟩,
   ⟨[⟨lit "/g/nodes/a", none⟩, ⟨lit "/g/gates/b", none⟩, ⟨lit "/g/leader", none⟩], by decide⟩]

theorem followed_view_equals_loaded_view_busy :
    (∀ txn ∈ busyTimeline, ∀ w ∈ txn.writes, WellKeyed twoShards w) ∧
      SameView ((loadAt twoShards busyTimeline 1 0).follow twoShards (fun e => e.2)
        (eventsBetween busyTimeline 1 4)) (loadAt twoShards busyTimeline 4 9) := by
  have hkeys : ∀ txn ∈ busyTimeline, ∀ w ∈ txn.writes, WellKeyed twoShards w := by decide
  exact ⟨hkeys, followed_view_equals_loaded_view twoShards busyTimeline hkeys 1 4 (by decide) _ 0 9⟩

end Goverse.Consensus
