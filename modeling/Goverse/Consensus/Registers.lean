import Goverse.Lib.Register
import Goverse.Consensus.Convergence
import Goverse.Consensus.Leader
import Goverse.Consensus.Readiness

/-! The leader and the shards of a view as registers: a load fills each with what etcd holds of its
key, an event of the key is observed, and a local update amends it. -/
namespace Goverse.Consensus

open GoString Lib ClusterState

variable {c : Config} {view : ClusterState}

/-! ### The two kinds of records -/

def shardRegister : Register GoString ShardInfo where
  make := parseShardInfo
  rev := ShardInfo.modRevision
  rev_make _ _ := rfl

def leaderRegister : Register GoString (GoString × Nat) where
  make := Prod.mk
  rev := Prod.snd
  rev_make _ _ := rfl

/-- The leader of a view; revision 0 stands for none. -/
def ClusterState.leaderCell (view : ClusterState) : Option (GoString × Nat) :=
  if view.leaderModRevision = 0 then none else some (view.leader, view.leaderModRevision)

/-- A key that is read as the number of a shard is its canonical decimal. -/
def Canonical (c : Config) (w : Write GoString GoString) : Prop :=
  hasPrefix w.key c.shardsPrefix = true → ∀ shardID ∈ shardOfKey c w.key, w.key = c.shardKey shardID

instance (c : Config) (w : Write GoString GoString) : Decidable (Canonical c w) := by
  unfold Canonical
  infer_instance

/-- Every write there can be, by what it is to the leader and the shards of a view. -/
inductive Concerns (c : Config) : Write GoString GoString → Prop
  | leader {value : Option GoString} : Concerns c ⟨c.leaderKey, value⟩
  | shard {shardID : Int} {value : Option GoString} (hvalid : c.ValidShard shardID) :
      Concerns c ⟨c.shardKey shardID, value⟩
  | neither {w : Write GoString GoString} (hleader : w.key ≠ c.leaderKey)
      (hshard : hasPrefix w.key c.shardsPrefix = true → shardOfKey c w.key = none) : Concerns c w

theorem Canonical.concerns {w : Write GoString GoString} (h : Canonical c w) : Concerns c w := by
  obtain ⟨key, value⟩ := w
  by_cases hleader : key = c.leaderKey
  · subst hleader
    exact .leader
  by_cases hbelow : hasPrefix key c.shardsPrefix = true
  · cases hshard : shardOfKey c key with
    | none => exact .neither hleader fun _ => hshard
    | some shardID =>
      have hkey : key = c.shardKey shardID := h hbelow shardID hshard
      rw [hkey]
      exact .shard (valid_of_shardOfKey hshard)
  · exact .neither hleader fun h => absurd h hbelow

/-- A view shows the leader and the shards of a store. -/
structure Shows (c : Config) (store : Store) (view : ClusterState) : Prop where
  range : ∀ shardID ∈ view.shards, c.ValidShard shardID
  shards : ∀ shardID, c.ValidShard shardID →
    view.shards.lookup shardID = shardRegister.decode (store (c.shardKey shardID))
  leader : view.leaderCell = leaderRegister.decode (store c.leaderKey)
  unled : view.leaderModRevision = 0 → view.leader = []

theorem Shows.same {store : Store} {a b : ClusterState} (ha : Shows c store a)
    (hb : Shows c store b) : a.leader = b.leader ∧ a.leaderModRevision = b.leaderModRevision ∧
      ∀ shardID, a.shards.lookup shardID = b.shards.lookup shardID := by
  have hleader : a.leader = b.leader ∧ a.leaderModRevision = b.leaderModRevision := by
    have hcell := ha.leader.trans hb.leader.symm
    unfold leaderCell at hcell
    split at hcell <;> split at hcell
    · rename_i hzero hzero'
      exact ⟨(ha.unled hzero).trans (hb.unled hzero').symm, hzero.trans hzero'.symm⟩
    · contradiction
    · contradiction
    · simpa using hcell
  refine ⟨hleader.1, hleader.2, fun shardID => ?_⟩
  by_cases hvalid : c.ValidShard shardID
  · rw [ha.shards shardID hvalid, hb.shards shardID hvalid]
  · rw [AList.lookup_eq_none.mpr fun h => hvalid (ha.range shardID h),
      AList.lookup_eq_none.mpr fun h => hvalid (hb.range shardID h)]

/-! ### Loading -/

section Loading

variable {store : Store}

theorem Shows.write_neither (h : Shows c store view) {next : ClusterState}
    {w : Write GoString GoString} {rev : Nat} (hleader : w.key ≠ c.leaderKey)
    (hshard : hasPrefix w.key c.shardsPrefix = true → shardOfKey c w.key = none)
    (hnext : next.shards = view.shards ∧ next.leader = view.leader ∧
      next.leaderModRevision = view.leaderModRevision) : Shows c (store.write w rev) next where
  range := by
    rw [hnext.1]
    exact h.range
  shards shardID hvalid := by
    rw [hnext.1, h.shards shardID hvalid, Store.write_of_ne]
    rintro hkey
    rw [hkey, shardOfKey_shardKey hvalid] at hshard
    exact absurd (hshard (hasPrefix_shardKey shardID)) (by simp)
  leader := by
    rw [leaderCell, hnext.2.1, hnext.2.2, ← leaderCell, h.leader, Store.write_of_ne hleader]
  unled := by
    rw [hnext.2.1, hnext.2.2]
    exact h.unled

theorem Shows.write_leader (h : Shows c store view) {value : GoString} {rev : Nat}
    (hpos : 0 < rev) : Shows c (store.write ⟨c.leaderKey, some value⟩ rev)
      { view with leader := value, leaderModRevision := rev } where
  range := h.range
  shards shardID hvalid := by
    rw [Store.write_of_ne (shardKey_ne_leaderKey shardID).symm]
    exact h.shards shardID hvalid
  leader := by
    rw [Store.write_self, leaderCell, if_neg (Nat.ne_of_gt hpos)]
    rfl
  unled hzero := absurd hzero (Nat.ne_of_gt hpos)

theorem Shows.write_shard (h : Shows c store view) {shardID : Int} (hvalid : c.ValidShard shardID)
    {value : GoString} {rev : Nat} : Shows c (store.write ⟨c.shardKey shardID, some value⟩ rev)
      { view with shards := view.shards.insert shardID (parseShardInfo value rev) } where
  range := valid_of_mem_insert hvalid h.range
  shards id hid := by
    by_cases hsame : id = shardID
    · subst hsame
      rw [AList.lookup_insert, Store.write_self]
      rfl
    · rw [AList.lookup_insert_ne hsame, h.shards id hid,
        Store.write_of_ne fun heq => hsame (shardKey_injective hvalid hid heq).symm]
  leader := by
    rw [Store.write_of_ne (shardKey_ne_leaderKey shardID)]
    exact h.leader
  unled := h.unled

theorem Shows.loadKey (h : Shows c store view) {kv : GoString × GoString × Nat}
    (hw : Canonical c ⟨kv.1, some kv.2.1⟩) (hpos : 0 < kv.2.2) :
    Shows c (store.write ⟨kv.1, some kv.2.1⟩ kv.2.2) (view.loadKey c kv) := by
  obtain ⟨key, value, rev⟩ := kv
  generalize hwrite : (⟨key, some value⟩ : Write GoString GoString) = w at hw
  cases hw.concerns with
  | leader =>
    cases hwrite
    rw [ClusterState.loadKey, if_pos rfl]
    exact h.write_leader hpos
  | shard hvalid =>
    cases hwrite
    rw [loadKey_shardKey hvalid]
    exact h.write_shard hvalid
  | neither hleader hshard =>
    subst hwrite
    refine h.write_neither hleader hshard ?_
    rw [ClusterState.loadKey, if_neg hleader]
    split
    · exact ⟨rfl, rfl, rfl⟩
    split
    · exact ⟨rfl, rfl, rfl⟩
    split
    · rename_i hbelow
      rw [hshard hbelow]
      exact ⟨rfl, rfl, rfl⟩
    · exact ⟨rfl, rfl, rfl⟩

theorem Shows.loadKeys (h : Shows c store view) {kvs : List (GoString × GoString × Nat)}
    (hkeys : ∀ kv ∈ kvs, Canonical c ⟨kv.1, some kv.2.1⟩ ∧ 0 < kv.2.2) :
    Shows c (kvs.foldl (fun store kv => store.write ⟨kv.1, some kv.2.1⟩ kv.2.2) store)
      (kvs.foldl (ClusterState.loadKey c) view) := by
  induction kvs generalizing store view with
  | nil => exact h
  | cons kv kvs ih =>
    obtain ⟨hcanonical, hpos⟩ := hkeys kv List.mem_cons_self
    apply ih (h.loadKey hcanonical hpos)
    exact fun other hother => hkeys other (List.mem_cons_of_mem _ hother)

theorem shows_empty (c : Config) (revision : Nat) (lastChange : Option Int) :
    Shows c (fun _ => none)
      { ClusterState.empty with revision := revision, lastChange := lastChange } where
  range shardID h := absurd h (AList.notMem_empty shardID)
  shards _ _ := rfl
  leader := rfl
  unled _ := rfl

theorem shows_loadAnswer {feed : Feed GoString GoString} (hordered : feed.Ordered)
    (hkeys : ∀ e ∈ feed, Canonical c e.1) (revision : Nat) (now : Int) :
    Shows c feed.get (loadAnswer c feed.live revision now) := by
  have hread : ∀ kv ∈ ((feed.live.filter fun kv => hasPrefix kv.1 c.etcdPrefix).insertionSort
      fun a b => bytesLe a.1 b.1), feed.get kv.1 = some kv.2 := by
    intro kv hkv
    rw [List.mem_insertionSort, List.mem_filter] at hkv
    exact Feed.mem_live.mp hkv.1
  have hload := (shows_empty c revision (some now)).loadKeys fun kv hkv =>
    ⟨hkeys _ (Feed.mem_of_get (hread kv hkv)), hordered.pos _ (Feed.mem_of_get (hread kv hkv))⟩
  have hfound : ∀ rest, (((feed.live.filter fun kv => hasPrefix kv.1 c.etcdPrefix).insertionSort
      fun a b => bytesLe a.1 b.1).foldl
        (fun store kv => Store.write store ⟨kv.1, some kv.2.1⟩ kv.2.2) fun _ => none)
          (c.etcdPrefix ++ rest) = feed.get (c.etcdPrefix ++ rest) := by
    intro rest
    rw [foldl_write_eq hread]
    cases hget : feed.get (c.etcdPrefix ++ rest) with
    | none => rw [ite_self]
    | some found =>
      refine if_pos (List.mem_map.mpr ⟨(_, found), ?_, rfl⟩)
      rw [List.mem_insertionSort, List.mem_filter]
      exact ⟨Feed.mem_live.mpr hget, hasPrefix_append _ _⟩
  refine ⟨hload.range, fun shardID hvalid => ?_, ?_, hload.unled⟩
  · have hshard := hload.shards shardID hvalid
    rw [Config.shardKey, Config.shardsPrefix, List.append_assoc] at hshard ⊢
    rw [← hfound]
    exact hshard
  · have hleader := hload.leader
    rw [Config.leaderKey] at hleader ⊢
    rw [← hfound]
    exact hleader

end Loading

/-! ### Events and local updates -/

section Updates

variable {w : Write GoString GoString} {rev : Nat}

@[simp] theorem age_lookup (shardID : Int) :
    shardRegister.age (view.shards.lookup shardID) = (view.shard shardID).modRevision := by
  rw [ClusterState.shard]
  cases view.shards.lookup shardID <;> rfl

@[simp] theorem age_leaderCell : leaderRegister.age view.leaderCell = view.leaderModRevision := by
  unfold leaderCell
  split
  · rename_i hzero
    exact hzero.symm
  · rfl

private theorem lookup_handleShardEvent {shardID id : Int} {value : Option GoString}
    (hvalid : c.ValidShard shardID) :
    (view.handleShardEvent c ⟨c.shardKey shardID, value⟩ rev).shards.lookup id =
      if id = shardID then shardRegister.observe (view.shards.lookup id) value rev
      else view.shards.lookup id := by
  rw [handleShardEvent, shardOfKey_shardKey hvalid]
  dsimp only
  by_cases hsame : id = shardID
  · subst hsame
    rw [if_pos rfl, Register.observe, age_lookup]
    split
    · rfl
    · cases value with
      | none => exact AList.lookup_erase _ _
      | some value => exact AList.lookup_insert _
  · rw [if_neg hsame]
    split
    · rfl
    · cases value with
      | none => exact AList.lookup_erase_ne hsame
      | some value => exact AList.lookup_insert_ne hsame

private theorem leaderCell_handleLeaderEvent {value : Option GoString} (now : Int)
    (hpos : 0 < rev) : (view.handleLeaderEvent now ⟨c.leaderKey, value⟩ rev).leaderCell =
      leaderRegister.observe view.leaderCell value rev := by
  rw [handleLeaderEvent, Register.observe, age_leaderCell]
  split
  · rfl
  · cases value with
    | none => rfl
    | some value => exact if_neg (Nat.ne_of_gt hpos)

private theorem handleEvent_shards_neither (now : Int) (hleader : w.key ≠ c.leaderKey)
    (hshard : hasPrefix w.key c.shardsPrefix = true → shardOfKey c w.key = none) :
    (view.handleEvent c now w rev).shards = view.shards := by
  unfold ClusterState.handleEvent
  rw [if_neg hleader]
  split
  · rfl
  split
  · unfold handleNodeEvent
    split <;> rfl
  split
  · unfold handleGateEvent
    split <;> rfl
  split
  · rename_i hbelow
    rw [handleShardEvent, hshard (hasPrefix_of_isBelow hbelow)]
  · rfl

theorem lookup_handleEvent (hw : Canonical c w) (now : Int) {shardID : Int}
    (hvalid : c.ValidShard shardID) :
    (view.handleEvent c now w rev).shards.lookup shardID =
      if w.key = c.shardKey shardID then
        shardRegister.observe (view.shards.lookup shardID) w.value rev
      else view.shards.lookup shardID := by
  cases hw.concerns with
  | leader =>
    rw [handleEvent_leader, (handleLeaderEvent_frame view now _ rev).2.2,
      if_neg (shardKey_ne_leaderKey shardID).symm]
  | @shard id value hid =>
    rw [handleEvent_shard now hid, lookup_handleShardEvent hid]
    by_cases hsame : shardID = id
    · subst hsame
      rw [if_pos rfl, if_pos rfl]
    · rw [if_neg hsame, if_neg fun heq => hsame (shardKey_injective hid hvalid heq).symm]
  | neither hleader hshard =>
    rw [handleEvent_shards_neither now hleader hshard, if_neg]
    intro hkey
    rw [hkey, shardOfKey_shardKey hvalid] at hshard
    exact absurd (hshard (hasPrefix_shardKey shardID)) (by simp)

theorem leaderCell_handleEvent (now : Int) (hpos : 0 < rev) :
    (view.handleEvent c now w rev).leaderCell =
      if w.key = c.leaderKey then leaderRegister.observe view.leaderCell w.value rev
      else view.leaderCell := by
  by_cases hkey : w.key = c.leaderKey
  · obtain ⟨key, value⟩ := w
    subst hkey
    rw [if_pos rfl, handleEvent_leader, leaderCell_handleLeaderEvent now hpos]
  · obtain ⟨hleader, hrev⟩ := Election.handleEvent_leader_of_ne view now rev hkey
    rw [if_neg hkey, leaderCell, hleader, hrev, leaderCell]

theorem unled_handleEvent (now : Int) (h : view.leaderModRevision = 0 → view.leader = [])
    (hpos : 0 < rev) : (view.handleEvent c now w rev).leaderModRevision = 0 →
      (view.handleEvent c now w rev).leader = [] := by
  by_cases hkey : w.key = c.leaderKey
  · obtain ⟨key, value⟩ := w
    subst hkey
    rw [handleEvent_leader, handleLeaderEvent]
    split
    · exact h
    · cases value with
      | none => exact fun _ => rfl
      | some value => exact fun hzero => absurd hzero (Nat.ne_of_gt hpos)
  · obtain ⟨hleader, hrev⟩ := Election.handleEvent_leader_of_ne view now rev hkey
    rw [hleader, hrev]
    exact h

theorem lookup_applyStored (shardID : Int) (info : ShardInfo) (rev : Nat) (id : Int) :
    (view.applyStored shardID info rev).shards.lookup id =
      if id = shardID then
        shardRegister.amend (view.shards.lookup id) { info with modRevision := rev }
      else view.shards.lookup id := by
  rw [ClusterState.applyStored]
  by_cases hsame : id = shardID
  · subst hsame
    rw [if_pos rfl, Register.amend, age_lookup]
    change (if _ then _ else _ : ClusterState).shards.lookup id = if _ < rev then _ else _
    split
    · exact AList.lookup_insert _
    · rfl
  · rw [if_neg hsame]
    split
    · exact AList.lookup_insert_ne hsame
    · rfl

@[simp] theorem leaderCell_applyStored (shardID : Int) (info : ShardInfo) (rev : Nat) :
    (view.applyStored shardID info rev).leaderCell = view.leaderCell := by
  unfold ClusterState.applyStored
  split <;> rfl

theorem leaderCell_applyLeader (self : GoString) (hpos : 0 < rev) :
    (view.applyLeader self rev).leaderCell = leaderRegister.amend view.leaderCell (self, rev) := by
  rw [applyLeader, Register.amend, age_leaderCell]
  change (if _ then _ else _ : ClusterState).leaderCell = if _ < rev then _ else _
  split
  · exact if_neg (Nat.ne_of_gt hpos)
  · rfl

end Updates

end Goverse.Consensus
