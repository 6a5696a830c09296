import Goverse.Consensus.Ownership
import Goverse.Consensus.Reassign

/-! Shards that are pinned to a target. No planner moves one, so it stays where it is if the view
a plan is made on has the flags that are stored. A view has them unless a flag was written with
white space after `f=`: such a flag is trimmed when its record is stored, but not in the memory
of the node that stores it. -/
namespace Goverse.Consensus

open GoString Lib Sharding ClusterState

variable {c : Config} {etcd : Etcd}

/-- Anything but a node that registers under an unclean address, and a record with white space
between an `f=` and a flag. -/
def Legible (c : Config) (w : Write GoString GoString) : Prop :=
  (hasPrefix w.key c.nodesPrefix = true → ∀ address ∈ w.value, CleanAddress address) ∧
    (hasPrefix w.key c.shardsPrefix = true → ∀ value ∈ w.value, Gapless value)

instance (c : Config) (w : Write GoString GoString) : Decidable (Legible c w) := by
  unfold Legible
  infer_instance

/-- A record is the one in etcd, if the shard's key has a version of its revision. -/
structure Grounds (c : Config) (etcd : Etcd) (shardID : Int) (info : ShardInfo) : Prop where
  wellFormed : info.WellFormed
  recent : info.modRevision ≤ etcd.length
  version : ∀ value, etcd.Version (c.shardKey shardID) info.modRevision value →
    info.toShardRecord = parseRecord value

structure Grounded (c : Config) (etcd : Etcd) (view : ClusterState) : Prop where
  valid : ∀ shardID ∈ view.shards, c.ValidShard shardID
  shards : ∀ shardID, Grounds c etcd shardID (view.shard shardID)
  nodes : ∀ node, view.hasNode node = true → CleanAddress node

theorem grounds_zero (shardID : Int) : Grounds c etcd shardID .zero :=
  ⟨ShardInfo.zero_wellFormed, Nat.zero_le _, fun _ h => absurd h.pos (Nat.lt_irrefl 0)⟩

theorem Grounds.concat {shardID : Int} {info : ShardInfo} (h : Grounds c etcd shardID info)
    (w : Write GoString GoString) : Grounds c (etcd ++ [w]) shardID info := by
  have hrecent := h.recent
  refine ⟨h.wellFormed, ?_, fun value hversion => ?_⟩
  · rw [List.length_append]
    omega
  · rcases Log.version_concat_cases hversion with hold | ⟨hrev, -⟩
    · exact h.version value hold
    · omega

namespace Grounded

variable {view : ClusterState}

theorem start (lastChange : Option Int) (revision : Nat) : Grounded c etcd
    { ClusterState.empty with revision := revision, lastChange := lastChange } where
  valid shardID h := absurd h (AList.notMem_empty shardID)
  shards _ := grounds_zero _
  nodes node h := by simp [ClusterState.empty, hasNode] at h

theorem concat (h : Grounded c etcd view) (w : Write GoString GoString) :
    Grounded c (etcd ++ [w]) view :=
  ⟨h.valid, fun shardID => (h.shards shardID).concat w, h.nodes⟩

theorem congr {next : ClusterState} (h : Grounded c etcd view) (hnodes : next.nodes = view.nodes)
    (hshards : next.shards = view.shards) : Grounded c etcd next := by
  refine ⟨?_, fun shardID => ?_, fun node hnode => ?_⟩
  · rw [hshards]
    exact h.valid
  · rw [shard, hshards]
    exact h.shards shardID
  · rw [hasNode, hnodes] at hnode
    exact h.nodes node hnode

theorem insertShard (h : Grounded c etcd view) {shardID : Int} {info : ShardInfo}
    (hvalid : c.ValidShard shardID) (hinfo : Grounds c etcd shardID info) :
    Grounded c etcd { view with shards := view.shards.insert shardID info } := by
  refine ⟨fun id hid => ?_, fun id => ?_, h.nodes⟩
  · rcases (AList.mem_insert _).mp hid with rfl | hid
    · exact hvalid
    · exact h.valid id hid
  · by_cases hid : id = shardID
    · subst hid
      rw [shard_insert_self]
      exact hinfo
    · rw [shard_insert_of_ne hid]
      exact h.shards id

theorem eraseShard (h : Grounded c etcd view) (shardID : Int) :
    Grounded c etcd { view with shards := view.shards.erase shardID } := by
  refine ⟨fun id hid => h.valid id (AList.mem_erase.mp hid).2, fun id => ?_, h.nodes⟩
  by_cases hid : id = shardID
  · subst hid
    rw [shard, AList.lookup_erase]
    exact grounds_zero id
  · rw [shard, AList.lookup_erase_ne hid]
    exact h.shards id

theorem insertNode (h : Grounded c etcd view) {address : GoString}
    (hclean : CleanAddress address) (lastChange : Option Int) : Grounded c etcd
      { view with nodes := view.nodes.insert address true, lastChange := lastChange } := by
  refine ⟨h.valid, h.shards, fun node hnode => ?_⟩
  by_cases hsame : node = address
  · rw [hsame]
    exact hclean
  · rw [hasNode, AList.lookup_insert_ne hsame] at hnode
    exact h.nodes node hnode

theorem eraseNode (h : Grounded c etcd view) (address : GoString) (lastChange : Option Int) :
    Grounded c etcd
      { view with nodes := view.nodes.erase address, lastChange := lastChange } := by
  refine ⟨h.valid, h.shards, fun node hnode => ?_⟩
  by_cases hsame : node = address
  · rw [hasNode, hsame, AList.lookup_erase] at hnode
    contradiction
  · rw [hasNode, AList.lookup_erase_ne hsame] at hnode
    exact h.nodes node hnode

/-- The record of a key that the handlers take for the key of a shard. If it is another key, the
key of the shard has no version of its revision. -/
theorem read (h : Grounded c etcd view) {key value : GoString} {rev : Nat} {shardID : Int}
    (hlegible : Legible c ⟨key, some value⟩) (hversion : etcd.Version key rev value)
    (hkey : hasPrefix key c.shardsPrefix = true) (hshard : shardOfKey c key = some shardID) :
    Grounded c etcd { view with
      shards := view.shards.insert shardID (parseShardInfo value rev) } := by
  have hvalid : c.ValidShard shardID := by
    have := (Option.filter_eq_some_iff.mp hshard).2
    simpa using this
  refine h.insertShard hvalid ⟨parseRecord_wellFormed (hlegible.2 hkey value rfl),
    hversion.le_revision, fun other hother => ?_⟩
  rw [(hversion.unique hother).2]
  rfl

theorem handleEvent (h : Grounded c etcd view) (hist : ∀ w ∈ etcd, Legible c w) (now : Int)
    {w : Write GoString GoString} {cursor : Nat} (hw : etcd[cursor]? = some w) :
    Grounded c etcd (view.handleEvent c now w (cursor + 1)) := by
  have hlegible := hist w (List.mem_of_getElem? hw)
  have heffect := handleEvent_effect c view now w (cursor + 1)
  generalize view.handleEvent c now w (cursor + 1) = next at heffect ⊢
  cases heffect with
  | other nodes shards => exact h.congr nodes shards
  | join hkey hvalue => exact h.insertNode (hlegible.1 (hasPrefix_of_isBelow hkey) _ hvalue) _
  | part => exact h.eraseNode _ _
  | record hkey hshard hvalue hnewer =>
    rename_i shardID value
    obtain ⟨key, stored⟩ := w
    cases hvalue
    exact h.read hlegible ⟨cursor, rfl, hw⟩ (hasPrefix_of_isBelow hkey) hshard
  | forget => exact h.eraseShard _

theorem load (hist : ∀ w ∈ etcd, Legible c w) (now : Int) :
    Grounded c etcd (ClusterState.load c etcd now) := by
  refine load_induction now (start _ _) fun {view key value rev} h hget => ?_
  have hversion := Log.version_of_get hget
  have hlegible := hist _ hversion.mem
  have heffect := loadKey_effect c view (key, value, rev)
  generalize view.loadKey c (key, value, rev) = next at heffect ⊢
  cases heffect with
  | leader | gate => exact h.congr rfl rfl
  | node hkey => exact h.insertNode (hlegible.1 hkey value rfl) _
  | shard hkey hshard => exact h.read hlegible hversion hkey hshard
  | ignored => exact h

theorem applyStored (h : Grounded c etcd view) {shardID : Int} {info : ShardInfo} {rev : Nat}
    (hvalid : c.ValidShard shardID) (hwell : info.WellFormed)
    (hversion : etcd.Version (c.shardKey shardID) rev (formatShardInfo info.toShardRecord)) :
    Grounded c etcd (view.applyStored shardID info rev) := by
  unfold ClusterState.applyStored
  split
  · refine h.insertShard hvalid ⟨hwell, hversion.le_revision, fun value hvalue => ?_⟩
    rw [← (hversion.unique hvalue).2, parseRecord_formatShardInfo hwell]
  · exact h

private theorem recordOf_eq (h : Grounded c etcd view) {shardID : Int}
    (hmod : etcd.modRevision (c.shardKey shardID) = (view.shard shardID).modRevision)
    (hsome : (etcd.get (c.shardKey shardID)).isSome = true) :
    recordOf c etcd shardID = (view.shard shardID).toShardRecord := by
  obtain ⟨⟨value, rev⟩, hget⟩ := Option.isSome_iff_exists.mp hsome
  have hversion := Log.version_of_get hget
  rw [Log.modRevision, hget, Option.map_some, Option.getD_some] at hmod
  rw [recordOf, hget, (h.shards shardID).version value (hmod ▸ hversion)]
  rfl

end Grounded

/-! ### Plans -/

/-- A shard that is pinned to a target keeps it. -/
def KeepsPin (view : ClusterState) (shardID : Int) (info : ShardInfo) : Prop :=
  (view.shard shardID).hasFlag pinned = true → (view.shard shardID).targetNode ≠ [] →
    info.targetNode = (view.shard shardID).targetNode

theorem Job.plan_keepsPin {job : Job} {node : Node} {self : GoString} {objectIDs : List GoString}
    {choice : Choice} {plan : Plan} {firstSeen : List (Int × Int)} {shardID : Int}
    {info : ShardInfo} (hplan : job.plan c node self objectIDs choice = some (plan, firstSeen))
    (h : (shardID, info) ∈ plan) : KeepsPin node.view shardID info := by
  have hintends := (Job.plan_plans hplan h).intends
  intro hflag htarget
  cases job with
  | claim =>
    rw [hintends.2.2]
  | release =>
    rw [hintends.2.2.2]
  | reassign =>
    obtain ⟨plan', hplan', heq⟩ := Option.map_eq_some_iff.mp hplan
    cases heq
    rcases calcReassignShardTargetNodes_cases hplan' with ⟨-, rfl⟩ | ⟨-, hshuffled, rfl⟩
    · contradiction
    · have hkey := List.mem_map_of_mem (f := Prod.fst) h
      rw [keys_append] at hkey
      have hneeds := (mem_keys hshuffled).mp hkey
      exact absurd ⟨hflag, htarget⟩ (needsTarget_iff.mp hneeds.2).2
  | reallocate =>
    have hfst := congrArg Prod.fst (Option.some.inj hplan)
    dsimp only at hfst
    subst hfst
    obtain ⟨-, hstuck, -⟩ := mem_calcReallocateStuckShards h
    simp [isStuck, hflag] at hstuck
  | rebalance =>
    cases hplan
    obtain ⟨before, hselection⟩ := (rebalanceShards_selected c node.view).1.of_mem h
    rw [hselection.unpinned] at hflag
    contradiction

def groundedRule (c : Config) : ViewRule c where
  Admits := Legible c
  Holds := Grounded c
  Plans job a view shardID info := job.Plans c a view shardID info ∧ KeepsPin view shardID info
  foreign h := ⟨h.2, fun hkey => by rw [h.1] at hkey; contradiction⟩
  empty _ := .start none 0
  concat w h := h.concat w
  load now hist := .load hist now
  event now hist h hw := h.handleEvent hist now hw
  plans hplan h := ⟨Job.plan_plans hplan h, Job.plan_keepsPin hplan h⟩
  stores hist hdecided hplans := by
    have hwell := hplans.1.wellFormed (hdecided.shards _).wellFormed hdecided.nodes
    refine ⟨fun hkey => ?_, fun _ value hvalue => gapless_iff.mpr fun flag hflag => ?_⟩
    · rw [not_hasPrefix_nodes] at hkey
      contradiction
    · cases hvalue
      rw [parseRecord_formatShardInfo hwell] at hflag
      exact (hwell.flags flag hflag).2.2
  applied hist hview hdecided hplans hversion :=
    hview.applyStored (hplans.1.validShard hdecided.valid)
      (hplans.1.wellFormed (hdecided.shards _).wellFormed hdecided.nodes) hversion

namespace World

variable {s t : World}

private theorem grounded_commits (h : s.Follows (groundedRule c)) {self j : Nat} {a : GoString}
    {job : Job} {decided : ClusterState} {task : Task}
    (hc : Commits c s t self j a job decided task) :
    Grounded c s.etcd decided ∧ job.Plans c a decided task.shardID task.info ∧
      KeepsPin decided task.shardID task.info := by
  obtain ⟨held, tasks, hself, hj⟩ := hc.thread
  obtain ⟨hdecided, htask⟩ := h.stores hself hj
  exact ⟨hdecided, htask.plans⟩

theorem pinned_step (h : s.Follows (groundedRule c)) {label : Label}
    (hstep : s.step c label = some t) {shardID : Int} (hvalid : c.ValidShard shardID)
    (hflag : pinned ∈ (recordOf c s.etcd shardID).flags)
    (htarget : (recordOf c s.etcd shardID).targetNode ≠ []) :
    (recordOf c t.etcd shardID).targetNode = (recordOf c s.etcd shardID).targetNode ∧
      pinned ∈ (recordOf c t.etcd shardID).flags := by
  have hstores : ∀ {self j a job decided task}, Commits c s t self j a job decided task →
      c.ValidShard task.shardID :=
    fun hc => (grounded_commits h hc).2.1.validShard (grounded_commits h hc).1.valid
  rcases shard_cases hstep hvalid hstores with
    ⟨hsame, -⟩ | ⟨self, j, reported, a, job, decided, task, -, hc, rfl⟩
  · rw [recordOf, hsame]
    exact ⟨rfl, hflag⟩
  · obtain ⟨hdecided, hplans, hkeeps⟩ := grounded_commits h hc
    have hsome : (s.etcd.get (c.shardKey task.shardID)).isSome = true := by
      by_contra hnone
      rw [recordOf, Option.not_isSome_iff_eq_none.mp hnone] at htarget
      exact htarget rfl
    have hold := hdecided.recordOf_eq (hc.modRevision.trans hplans.modRevision) hsome
    have hnew : recordOf c t.etcd task.shardID = task.info.toShardRecord := by
      rw [hc.etcd, recordOf_concat_self, parseRecord_formatShardInfo
        (hplans.wellFormed (hdecided.shards _).wellFormed hdecided.nodes)]
    rw [hold] at hflag htarget ⊢
    rw [hnew]
    refine ⟨hkeeps (List.elem_eq_true_of_mem hflag) htarget, ?_⟩
    rw [hplans.intends.flags_eq]
    exact hflag

/-- Whatever the nodes plan and store, a shard that is pinned to a target stays pinned to it. -/
theorem pinned_shard_keeps_its_target (c : Config) (etcd : Etcd)
    (hcontent : ∀ w ∈ etcd, Legible c w) (s t : World) (before after : List Label)
    (hs : (machine c).Steps Machine.Any (start etcd) before s)
    (ht : (machine c).Steps Machine.Any s after t)
    (shardID : Int) (hvalid : c.ValidShard shardID)
    (hflag : pinned ∈ (recordOf c s.etcd shardID).flags)
    (htarget : (recordOf c s.etcd shardID).targetNode ≠ []) :
    (recordOf c t.etcd shardID).targetNode = (recordOf c s.etcd shardID).targetNode ∧
      pinned ∈ (recordOf c t.etcd shardID).flags := by
  have hfollows : s.Follows (groundedRule c) :=
    hs.preserves (fun h _ hstep => h.step hstep) (follows_start hcontent)
  -- The target of `s` is carried along the run, with the invariant of the views.
  have hkeeps := ht.preserves (I := fun u => u.Follows (groundedRule c) ∧
    (recordOf c u.etcd shardID).targetNode = (recordOf c s.etcd shardID).targetNode ∧
    pinned ∈ (recordOf c u.etcd shardID).flags) ?_ ⟨hfollows, rfl, hflag⟩
  · exact hkeeps.2
  · intro u label v hu _ hstep
    obtain ⟨hfollows, hkept, hflag⟩ := hu
    obtain ⟨hkept', hflag'⟩ := pinned_step hfollows hstep hvalid hflag (hkept ▸ htarget)
    exact ⟨hfollows.step hstep, hkept'.trans hkept, hflag'⟩

section Examples

def written (shardID : Int) (value : String) : Write GoString GoString :=
  ⟨twoShards.shardKey shardID, some (lit value)⟩

/-- Shard 0 is pinned to `a`, which has not claimed it yet; the flag stands after `gap`. -/
def pinnedToA (gap : String) : Etcd :=
  [registered nodeA, registered nodeB, written 0 ("a,,f=" ++ gap ++ "pinned"), written 1 "a,a"]

def claimByA : List Label :=
  [.watch nodeA (.load 0), .watch nodeA .install, .operate nodeA .claim, .thread 0 quiet,
    .thread 0 quiet, .thread 0 quiet, .thread 0 quiet, .task 0 0 (.commit true),
    .task 0 0 .applyLocal]

def rebalanceByA : List Label :=
  [.operate nodeA .rebalance, .thread 1 quiet, .task 1 0 (.commit true)]

theorem pinned_shard_keeps_its_target_claimed :
    ∃ s t : World, (machine twoShards).Steps Machine.Any (start (pinnedToA "")) claimByA s ∧
      (machine twoShards).Steps Machine.Any s rebalanceByA t ∧
      (recordOf twoShards t.etcd 1).targetNode = nodeB ∧
      (recordOf twoShards t.etcd 0).targetNode = (recordOf twoShards s.etcd 0).targetNode ∧
      pinned ∈ (recordOf twoShards t.etcd 0).flags := by
  have hrun : ((machine twoShards).exec Machine.Any (start (pinnedToA "")) claimByA).any
      (fun s => decide (pinned ∈ (recordOf twoShards s.etcd 0).flags ∧
        (recordOf twoShards s.etcd 0).targetNode ≠ []) &&
        ((machine twoShards).exec Machine.Any s rebalanceByA).any fun t => decide
          ((recordOf twoShards t.etcd 1).targetNode = nodeB)) = true := by decide
  obtain ⟨s, hs, htest⟩ := Machine.exec_any hrun
  obtain ⟨hpinned, hrest⟩ := Bool.and_eq_true_iff.mp htest
  obtain ⟨hflag, htarget⟩ := of_decide_eq_true hpinned
  obtain ⟨t, ht, hmoved⟩ := Machine.exec_any hrest
  have hcontent : ∀ w ∈ pinnedToA "", Legible twoShards w := by
    decide
  exact ⟨s, t, hs, ht, of_decide_eq_true hmoved, pinned_shard_keeps_its_target twoShards _ hcontent
    s t _ _ hs ht 0 (by decide) hflag htarget⟩

/-- The claim stores the trimmed flag and keeps the other in memory, so the next rebalance of
the same node does not see that the shard is pinned. -/
theorem gap_before_flag_unpins_shard :
    ∃ s t : World, (machine twoShards).Steps Machine.Any (start (pinnedToA " ")) claimByA s ∧
      (machine twoShards).Steps Machine.Any s rebalanceByA t ∧
      recordOf twoShards s.etcd 0 = ⟨nodeA, nodeA, [pinned]⟩ ∧
      (recordOf twoShards t.etcd 0).targetNode = nodeB := by
  have hrun : ((machine twoShards).exec Machine.Any (start (pinnedToA " ")) claimByA).any
      (fun s => decide (recordOf twoShards s.etcd 0 = ⟨nodeA, nodeA, [pinned]⟩) &&
        ((machine twoShards).exec Machine.Any s rebalanceByA).any fun t => decide
          ((recordOf twoShards t.etcd 0).targetNode = nodeB)) = true := by decide
  obtain ⟨s, hs, htest⟩ := Machine.exec_any hrun
  obtain ⟨hrecord, hrest⟩ := Bool.and_eq_true_iff.mp htest
  obtain ⟨t, ht, hmoved⟩ := Machine.exec_any hrest
  exact ⟨s, t, hs, ht, of_decide_eq_true hrecord, of_decide_eq_true hmoved⟩

end Examples
end World
end Goverse.Consensus
