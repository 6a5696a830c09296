import Goverse.Consensus.Rebalance
import Goverse.Consensus.ViewRule

/-! Every record a node holds in memory, with its revision, is a version that was in etcd.
A transaction that compares the revision therefore replaces exactly the record its plan was
made for. -/
namespace Goverse.Consensus

open GoString Lib Sharding ClusterState

variable {c : Config} {etcd : Etcd}

def History (c : Config) (etcd : Etcd) : Prop := ∀ w ∈ etcd, Foreign c w ∨ Stored c w

/-- The record of a shard in etcd; a missing one counts as empty. -/
def recordOf (c : Config) (etcd : Etcd) (shardID : Int) : ShardRecord :=
  ((etcd.get (c.shardKey shardID)).map fun found => parseRecord found.1).getD
    ShardInfo.zero.toShardRecord

def IsVersion (c : Config) (etcd : Etcd) (shardID : Int) (info : ShardInfo) : Prop :=
  ∃ value, etcd.Version (c.shardKey shardID) info.modRevision value ∧
    info = parseShardInfo value info.modRevision

structure Faithful (c : Config) (etcd : Etcd) (view : ClusterState) : Prop where
  shards : ∀ shardID info, view.shards.lookup shardID = some info →
    c.ValidShard shardID ∧ IsVersion c etcd shardID info
  nodes : ∀ node, view.hasNode node = true → CleanAddress node

section History

theorem History.stored (h : History c etcd) {w : Write GoString GoString} (hw : w ∈ etcd)
    (hkey : hasPrefix w.key c.shardsPrefix = true) : Stored c w := by
  rcases h w hw with hforeign | hstored
  · rw [hforeign.1] at hkey
    contradiction
  · exact hstored

theorem History.clean (h : History c etcd) {w : Write GoString GoString} (hw : w ∈ etcd)
    (hkey : hasPrefix w.key c.nodesPrefix = true) {address : GoString}
    (hvalue : w.value = some address) : CleanAddress address := by
  rcases h w hw with hforeign | ⟨shardID, record, -, -, rfl⟩
  · exact hforeign.2 hkey address hvalue
  · rw [not_hasPrefix_nodes] at hkey
    contradiction

theorem History.isVersion (h : History c etcd) {key value : GoString} {rev : Nat} {shardID : Int}
    (hversion : etcd.Version key rev value) (hkey : hasPrefix key c.shardsPrefix = true)
    (hshard : shardOfKey c key = some shardID) :
    c.ValidShard shardID ∧ IsVersion c etcd shardID (parseShardInfo value rev) := by
  obtain ⟨id, record, hvalid, -, heq⟩ := h.stored hversion.mem hkey
  cases heq
  rw [shardOfKey_shardKey hvalid] at hshard
  cases hshard
  exact ⟨hvalid, _, hversion, rfl⟩

theorem History.wellFormed (h : History c etcd) {shardID : Int} {info : ShardInfo}
    (hversion : IsVersion c etcd shardID info) : info.WellFormed := by
  obtain ⟨value, hvalue, hinfo⟩ := hversion
  obtain ⟨id, record, -, hwell, heq⟩ := h.stored hvalue.mem (hasPrefix_shardKey shardID)
  obtain rfl : value = formatShardInfo record := Option.some.inj (congrArg Write.value heq)
  rw [hinfo, parseShardInfo, parseRecord_formatShardInfo hwell]
  exact hwell

end History

section Views

variable {view : ClusterState}

theorem faithful_empty (lastChange : Option Int) (revision : Nat) :
    Faithful c etcd { ClusterState.empty with revision := revision, lastChange := lastChange } := by
  refine ⟨fun shardID info h => ?_, fun node h => ?_⟩
  · simp [ClusterState.empty] at h
  · simp [ClusterState.empty, hasNode] at h

theorem IsVersion.concat {shardID : Int} {info : ShardInfo} (h : IsVersion c etcd shardID info)
    (w : Write GoString GoString) : IsVersion c (etcd ++ [w]) shardID info := by
  obtain ⟨value, hvalue, hinfo⟩ := h
  exact ⟨value, hvalue.concat w, hinfo⟩

theorem Faithful.concat (h : Faithful c etcd view) (w : Write GoString GoString) :
    Faithful c (etcd ++ [w]) view :=
  ⟨fun shardID info hlookup => (h.shards shardID info hlookup).imp_right (·.concat w), h.nodes⟩

theorem Faithful.insertShard (h : Faithful c etcd view) {shardID : Int} {info : ShardInfo}
    (hvalid : c.ValidShard shardID) (hinfo : IsVersion c etcd shardID info) :
    Faithful c etcd { view with shards := view.shards.insert shardID info } := by
  refine ⟨fun id other hlookup => ?_, h.nodes⟩
  by_cases hid : id = shardID
  · subst hid
    rw [AList.lookup_insert] at hlookup
    cases hlookup
    exact ⟨hvalid, hinfo⟩
  · rw [AList.lookup_insert_ne hid] at hlookup
    exact h.shards id other hlookup

theorem Faithful.eraseShard (h : Faithful c etcd view) (shardID : Int) :
    Faithful c etcd { view with shards := view.shards.erase shardID } := by
  refine ⟨fun id other hlookup => ?_, h.nodes⟩
  by_cases hid : id = shardID
  · subst hid
    rw [AList.lookup_erase] at hlookup
    contradiction
  · rw [AList.lookup_erase_ne hid] at hlookup
    exact h.shards id other hlookup

theorem Faithful.insertNode (h : Faithful c etcd view) {address : GoString}
    (hclean : CleanAddress address) (lastChange : Option Int) :
    Faithful c etcd
      { view with nodes := view.nodes.insert address true, lastChange := lastChange } := by
  refine ⟨h.shards, fun node hnode => ?_⟩
  by_cases hsame : node = address
  · rw [hsame]
    exact hclean
  · rw [hasNode, AList.lookup_insert_ne hsame] at hnode
    exact h.nodes node hnode

theorem Faithful.eraseNode (h : Faithful c etcd view) (address : GoString)
    (lastChange : Option Int) :
    Faithful c etcd
      { view with nodes := view.nodes.erase address, lastChange := lastChange } := by
  refine ⟨h.shards, fun node hnode => ?_⟩
  by_cases hsame : node = address
  · rw [hasNode, hsame, AList.lookup_erase] at hnode
    contradiction
  · rw [hasNode, AList.lookup_erase_ne hsame] at hnode
    exact h.nodes node hnode

theorem Faithful.handleEvent (h : Faithful c etcd view) (hist : History c etcd) (now : Int)
    {w : Write GoString GoString} {cursor : Nat} (hw : etcd[cursor]? = some w) :
    Faithful c etcd (view.handleEvent c now w (cursor + 1)) := by
  have hmem := List.mem_of_getElem? hw
  have heffect := handleEvent_effect c view now w (cursor + 1)
  generalize view.handleEvent c now w (cursor + 1) = next at heffect ⊢
  cases heffect with
  | other nodes shards =>
    refine ⟨fun shardID info hlookup => ?_, fun node hnode => ?_⟩
    · rw [shards] at hlookup
      exact h.shards shardID info hlookup
    · rw [hasNode, nodes] at hnode
      exact h.nodes node hnode
  | join hkey hvalue =>
    exact h.insertNode (hist.clean hmem (hasPrefix_of_isBelow hkey) hvalue) _
  | part => exact h.eraseNode _ _
  | record hkey hshard hvalue hnewer =>
    rename_i shardID value
    have hversion : etcd.Version w.key (cursor + 1) value := by
      refine ⟨cursor, rfl, ?_⟩
      rw [hw, ← hvalue]
    obtain ⟨hvalid, hinfo⟩ := hist.isVersion hversion (hasPrefix_of_isBelow hkey) hshard
    exact h.insertShard hvalid hinfo
  | forget => exact h.eraseShard _

theorem Faithful.loadKey (h : Faithful c etcd view) (hist : History c etcd)
    {key value : GoString} {rev : Nat} (hversion : etcd.Version key rev value) :
    Faithful c etcd (view.loadKey c (key, value, rev)) := by
  have heffect := loadKey_effect c view (key, value, rev)
  generalize view.loadKey c (key, value, rev) = next at heffect ⊢
  cases heffect with
  | leader | gate => exact ⟨h.shards, h.nodes⟩
  | node hkey => exact h.insertNode (hist.clean hversion.mem hkey rfl) _
  | shard hkey hshard =>
    obtain ⟨hvalid, hinfo⟩ := hist.isVersion hversion hkey hshard
    exact h.insertShard hvalid hinfo
  | ignored => exact h

theorem load_induction {P : ClusterState → Prop} (now : Int)
    (hstart : P { ClusterState.empty with revision := etcd.length, lastChange := some now })
    (hkey : ∀ {view key value rev}, P view → etcd.get key = some (value, rev) →
      P (ClusterState.loadKey c view (key, value, rev))) : P (load c etcd now) := by
  apply List.foldlRecOn (motive := P)
  · exact hstart
  · intro view h kv hkv
    rw [List.mem_insertionSort, List.mem_filter] at hkv
    exact hkey h (Feed.mem_live.mp hkv.1)

private theorem faithful_load (hist : History c etcd) (now : Int) :
    Faithful c etcd (load c etcd now) :=
  load_induction now (faithful_empty _ _)
    fun h hget => h.loadKey hist (Log.version_of_get hget)

theorem Faithful.applyStored (h : Faithful c etcd view) {shardID : Int} {info : ShardInfo}
    {rev : Nat} (hvalid : c.ValidShard shardID) (hwell : info.WellFormed)
    (hversion : etcd.Version (c.shardKey shardID) rev (formatShardInfo info.toShardRecord)) :
    Faithful c etcd (view.applyStored shardID info rev) := by
  unfold ClusterState.applyStored
  split
  · refine h.insertShard hvalid ⟨_, hversion, ?_⟩
    rw [parseShardInfo, parseRecord_formatShardInfo hwell]
  · exact h

theorem Faithful.recordOf_eq (h : Faithful c etcd view) {shardID : Int}
    (hmod : etcd.modRevision (c.shardKey shardID) = (view.shard shardID).modRevision) :
    recordOf c etcd shardID = (view.shard shardID).toShardRecord := by
  unfold ClusterState.shard at hmod ⊢
  cases hlookup : view.shards.lookup shardID with
  | none =>
    rw [hlookup] at hmod
    rw [recordOf, Log.get_eq_none_of_modRevision hmod]
    rfl
  | some info =>
    rw [hlookup] at hmod
    obtain ⟨-, value, hversion, hinfo⟩ := h.shards shardID info hlookup
    rw [recordOf, hversion.get_of_modRevision hmod]
    exact (congrArg ShardInfo.toShardRecord hinfo).symm

theorem Faithful.shard_wellFormed (h : Faithful c etcd view) (hist : History c etcd)
    (shardID : Int) : (view.shard shardID).WellFormed := by
  unfold ClusterState.shard
  cases hlookup : view.shards.lookup shardID with
  | none => exact ShardInfo.zero_wellFormed
  | some info => exact hist.wellFormed (h.shards shardID info hlookup).2

theorem Faithful.validShard (h : Faithful c etcd view) {shardID : Int}
    (hmem : shardID ∈ view.shards) : c.ValidShard shardID := by
  obtain ⟨info, hinfo⟩ := Option.isSome_iff_exists.mp (AList.lookup_isSome.mpr hmem)
  exact (h.shards shardID info hinfo).1

theorem Faithful.modRevision_le (h : Faithful c etcd view) (shardID : Int) :
    (view.shard shardID).modRevision ≤ etcd.length := by
  unfold ClusterState.shard
  cases hlookup : view.shards.lookup shardID with
  | none => exact Nat.zero_le _
  | some info =>
    obtain ⟨-, value, hversion, -⟩ := h.shards shardID info hlookup
    exact hversion.le_revision

end Views

section Plans

variable {job : Job} {w : GoString} {view : ClusterState} {shardID : Int} {info : ShardInfo}

theorem Job.Plans.validShard (h : job.Plans c w view shardID info)
    (hvalid : ∀ shardID ∈ view.shards, c.ValidShard shardID) : c.ValidShard shardID :=
  h.valid.elim (hvalid shardID) id

theorem Job.Plans.wellFormed (h : job.Plans c w view shardID info)
    (hold : (view.shard shardID).WellFormed)
    (hnodes : ∀ node, view.hasNode node = true → CleanAddress node) : info.WellFormed := by
  obtain ⟨htarget, hcurrent⟩ := h.clean hold.target hold.current hnodes
  exact ⟨htarget, hcurrent, by rw [h.intends.flags_eq]; exact hold.flags⟩

theorem Job.plan_plans {node : Node} {objectIDs : List GoString} {choice : Choice} {plan : Plan}
    {firstSeen : List (Int × Int)}
    (hplan : job.plan c node w objectIDs choice = some (plan, firstSeen))
    (h : (shardID, info) ∈ plan) : job.Plans c w node.view shardID info := by
  cases job with
  | claim =>
    cases hplan
    exact claimShardsForNode_plans h
  | release =>
    cases hplan
    exact calcReleaseShardsForNode_plans h
  | reassign =>
    obtain ⟨plan', hplan', heq⟩ := Option.map_eq_some_iff.mp hplan
    cases heq
    exact calcReassignShardTargetNodes_plans hplan' h
  | reallocate =>
    have hfst := congrArg Prod.fst (Option.some.inj hplan)
    dsimp only at hfst
    subst hfst
    exact calcReallocateStuckShards_plans h
  | rebalance =>
    cases hplan
    exact rebalanceShards_plans h

end Plans

/-! ### The invariant -/

/-- Every view is faithful to the versions in etcd. -/
def faithfulRule (c : Config) : ViewRule c where
  Admits w := Foreign c w ∨ Stored c w
  Holds := Faithful c
  Plans := Job.Plans c
  foreign := .inl
  empty _ := faithful_empty none 0
  concat w h := h.concat w
  load now hist := faithful_load hist now
  event now hist h hw := h.handleEvent hist now hw
  plans := Job.plan_plans
  stores hist hdecided hplans := .inr ⟨_, _, hplans.validShard fun _ => hdecided.validShard,
    hplans.wellFormed (hdecided.shard_wellFormed hist _) hdecided.nodes, rfl⟩
  applied hist hview hdecided hplans hversion :=
    hview.applyStored (hplans.validShard fun _ => hdecided.validShard)
      (hplans.wellFormed (hdecided.shard_wellFormed hist _) hdecided.nodes) hversion

namespace World

variable {s t : World}

abbrev Sound (c : Config) (s : World) : Prop := s.Follows (faithfulRule c)

theorem sound_of_reachable {ok : World → Label → Prop} (h : (machine c).Reachable ok s) :
    s.Sound c := by
  refine h.invariant ?_ fun hs _ hstep => hs.step hstep
  rintro s ⟨etcd, hetcd, rfl⟩
  exact follows_start hetcd

theorem Sound.decided (h : s.Sound c) {th : Thread} (hth : th ∈ s.threads) {job : Job}
    {decided : ClusterState} (hdecides : th.Decides job decided) :
    Faithful c s.etcd decided := by
  obtain ⟨phase, tasks, hwork, hplanned⟩ := hdecides
  exact (h.threads th hth job phase hwork decided tasks hplanned).1

/-! ### Transitions of a shard's record -/

@[simp] theorem recordOf_concat_self (shardID : Int) (value : GoString) :
    recordOf c (etcd ++ [⟨c.shardKey shardID, some value⟩]) shardID = parseRecord value := by
  rw [recordOf, Log.get_concat, if_pos rfl]
  rfl

@[simp] theorem get_concat_of_ne {w : Write GoString GoString} {shardID : Int}
    (h : w.key ≠ c.shardKey shardID) :
    Log.get (etcd ++ [w]) (c.shardKey shardID) = etcd.get (c.shardKey shardID) := by
  rw [Log.get_concat, if_neg h]

theorem Sound.commits (h : s.Sound c) {self j : Nat} {a : GoString} {job : Job}
    {decided : ClusterState} {task : Task} (hc : Commits c s t self j a job decided task) :
    c.ValidShard task.shardID ∧
    s.etcd.modRevision (c.shardKey task.shardID) = (decided.shard task.shardID).modRevision ∧
    job.Intends a decided (recordOf c s.etcd task.shardID) (recordOf c t.etcd task.shardID) := by
  obtain ⟨held, tasks, hself, hj⟩ := hc.thread
  obtain ⟨hdecided, htask⟩ := h.stores hself hj
  have hplans : job.Plans c a decided task.shardID task.info := htask.plans
  have hmod := hc.modRevision.trans hplans.modRevision
  have hfaithful : Faithful c s.etcd decided := hdecided
  refine ⟨hplans.validShard fun _ => hfaithful.validShard, hmod, ?_⟩
  rw [hfaithful.recordOf_eq hmod, hc.etcd, recordOf_concat_self, parseRecord_formatShardInfo
    (hplans.wellFormed (hfaithful.shard_wellFormed h.history _) hfaithful.nodes)]
  exact hplans.intends

theorem shard_cases {label : Label} (hstep : s.step c label = some t) {shardID : Int}
    (hvalid : c.ValidShard shardID)
    (hstores : ∀ {self j a job decided task}, Commits c s t self j a job decided task →
      c.ValidShard task.shardID) :
    (t.etcd.get (c.shardKey shardID) = s.etcd.get (c.shardKey shardID) ∧
      ∀ rev value, t.etcd.Version (c.shardKey shardID) rev value →
        s.etcd.Version (c.shardKey shardID) rev value) ∨
    ∃ self j reported a job decided task, label = .task self j (.commit reported) ∧
      Commits c s t self j a job decided task ∧ task.shardID = shardID := by
  have hother : ∀ {w : Write GoString GoString}, w.key ≠ c.shardKey shardID →
      t.etcd = s.etcd ++ [w] →
      t.etcd.get (c.shardKey shardID) = s.etcd.get (c.shardKey shardID) ∧
        ∀ rev value, t.etcd.Version (c.shardKey shardID) rev value →
          s.etcd.Version (c.shardKey shardID) rev value := by
    intro w hkey etcd
    rw [etcd]
    refine ⟨get_concat_of_ne hkey, fun rev value hversion => ?_⟩
    rcases Log.version_concat_cases hversion with hold | ⟨-, hw⟩
    · exact hold
    · exact absurd (congrArg Write.key hw) hkey
  cases step_etcd hstep with
  | same etcd =>
    rw [etcd]
    exact .inl ⟨rfl, fun _ _ hversion => hversion⟩
  | foreign hforeign etcd =>
    refine .inl (hother (fun hkey => ?_) etcd)
    have := hforeign.1
    rw [hkey, hasPrefix_shardKey] at this
    contradiction
  | commit hcommits =>
    rename_i task
    by_cases hsame : task.shardID = shardID
    · exact .inr ⟨_, _, _, _, _, _, task, rfl, hcommits, hsame⟩
    · refine .inl (hother (fun hkey => ?_) hcommits.etcd)
      exact hsame (shardKey_injective (hstores hcommits) hvalid hkey)

/-- The node whose transaction a label may commit, and the view it planned on. -/
def committer (s : World) : Label → Option (GoString × ClusterState)
  | .task self _ (.commit _) =>
    match s.threads[self]? with
    | some ⟨a, .operation _ (.store decided _ _)⟩ => some (a, decided)
    | _ => none
  | _ => none

def ExactlyOne (p q r : Prop) : Prop := (p ∧ ¬q ∧ ¬r) ∨ (¬p ∧ q ∧ ¬r) ∨ (¬p ∧ ¬q ∧ r)

private theorem exactlyOne_of_intends {job : Job} {w : GoString} {view : ClusterState}
    {old new : ShardRecord} (h : job.Intends w view old new) :
    ExactlyOne (Retarget old new) (Claim w view old new) (Release w old new) := by
  have htarget : ∀ {node : GoString}, new = { old with currentNode := node } →
      ¬ Retarget old new := by
    intro node hnew hretarget
    exact hretarget.1 (by rw [hnew])
  cases job with
  | claim =>
    refine .inr (.inl ⟨htarget h.2.2, h, ?_⟩)
    exact fun hrelease => hrelease.2.2.1 h.1
  | release =>
    refine .inr (.inr ⟨htarget h.2.2.2, ?_, h⟩)
    exact fun hclaim => h.2.2.1 hclaim.1
  | reassign | reallocate | rebalance =>
    exact .inl ⟨h, fun hclaim => htarget hclaim.2.2 h, fun hrelease => htarget hrelease.2.2.2 h⟩

/-- `a` is in the node view of every node that plans, and commits no release of the shard. -/
def Undisturbed (a : GoString) (shardID : Int) (s : World) : Label → Prop
  | .thread self _ =>
    match s.threads[self]? with
    | some ⟨w, .operation _ (.plan _)⟩ => (s.nodes w).view.hasNode a = true
    | _ => True
  | .task self j (.commit _) =>
    match s.threads[self]? with
    | some ⟨w, .operation .release (.store _ _ tasks)⟩ =>
      w = a → ∀ task ∈ tasks[j]?, task.shardID ≠ shardID
    | _ => True
  | _ => True

/-- The shard has belonged to `a` since revision `m`, and every plan on a newer record of it
was made with `a` in the node view. -/
structure Kept (c : Config) (a : GoString) (shardID : Int) (m : Nat) (s : World) : Prop where
  sound : s.Sound c
  recent : m ≤ s.etcd.modRevision (c.shardKey shardID)
  current : (recordOf c s.etcd shardID).currentNode = a
  alive : ∀ th ∈ s.threads, ∀ job decided, th.Decides job decided →
    m ≤ (decided.shard shardID).modRevision → decided.hasNode a = true

theorem Kept.step {a : GoString} {shardID : Int} {m : Nat} (h : s.Kept c a shardID m)
    (ha : a ≠ []) (hvalid : c.ValidShard shardID) {label : Label}
    (hok : Undisturbed a shardID s label) (hstep : s.step c label = some t) :
    t.Kept c a shardID m := by
  have halive : ∀ th ∈ t.threads, ∀ job decided, th.Decides job decided →
      m ≤ (decided.shard shardID).modRevision → decided.hasNode a = true := by
    intro th hth job decided hdecides hm
    rcases step_decides hstep hth hdecides with
      ⟨old, hold, -, hdecided⟩ | ⟨self, choice, objectIDs, _, _, rfl, hself, -, -, rfl⟩
    · exact h.alive old hold job decided hdecided hm
    · simpa only [Undisturbed, hself] using hok
  rcases shard_cases hstep hvalid fun hc => (h.sound.commits hc).1 with
    ⟨hsame, -⟩ | ⟨self, j, reported, w, job, decided, task, rfl, hcommits, rfl⟩
  · refine ⟨h.sound.step hstep, ?_, ?_, halive⟩
    · rw [Log.modRevision, hsame]
      exact h.recent
    · rw [recordOf, hsame]
      exact h.current
  · obtain ⟨-, hmod, hintends⟩ := h.sound.commits hcommits
    obtain ⟨held, tasks, hself, hj⟩ := hcommits.thread
    have hhas : decided.hasNode a = true :=
      h.alive _ (List.mem_of_getElem? hself) job decided ⟨_, _, rfl, rfl⟩ (hmod ▸ h.recent)
    have hrevision : t.etcd.modRevision (c.shardKey task.shardID) = s.etcd.length + 1 := by
      rw [Log.modRevision, hcommits.etcd, Log.get_concat, if_pos rfl]
      rfl
    have hbefore : s.etcd.modRevision (c.shardKey task.shardID) ≤ s.etcd.length := by
      rw [hmod]
      exact (h.sound.decided (List.mem_of_getElem? hself) ⟨_, _, rfl, rfl⟩).modRevision_le _
    refine ⟨h.sound.step hstep, ?_, ?_, halive⟩
    · have := h.recent
      omega
    · cases job with
      | claim =>
        rcases hintends.2.1 with hempty | hdead
        · exact absurd (h.current.symm.trans hempty) ha
        · rw [h.current, hhas] at hdead
          contradiction
      | release =>
        have hw : w = a := hintends.1.symm.trans h.current
        simp only [Undisturbed, hself] at hok
        exact absurd rfl (hok hw task hj)
      | reassign | reallocate | rebalance =>
        rw [hintends.2]
        exact h.current

/-- Every committed write to a shard is one of a retarget, a claim by its target of a shard
without a live owner, and a release by its owner, and keeps the flags. After a claim by `a`
the shard stays `a`'s for as long as every node that plans has `a` in its view and `a` does
not release it. -/
theorem shard_ownership_transitions_are_legal (c : Config) (s t : World)
    (hreach : (machine c).Reachable Machine.Any s) (label : Label)
    (hstep : s.step c label = some t) (shardID : Int) (hvalid : c.ValidShard shardID)
    (hwrites : t.etcd.modRevision (c.shardKey shardID) ≠ s.etcd.modRevision (c.shardKey shardID)) :
    ∃ w view, s.committer label = some (w, view) ∧
      ExactlyOne (Retarget (recordOf c s.etcd shardID) (recordOf c t.etcd shardID))
        (Claim w view (recordOf c s.etcd shardID) (recordOf c t.etcd shardID))
        (Release w (recordOf c s.etcd shardID) (recordOf c t.etcd shardID)) ∧
      (recordOf c t.etcd shardID).flags = (recordOf c s.etcd shardID).flags ∧
      (Claim w view (recordOf c s.etcd shardID) (recordOf c t.etcd shardID) → w ≠ [] →
        ∀ labels u, (machine c).Steps (Undisturbed w shardID) t labels u →
          (recordOf c u.etcd shardID).currentNode = w) := by
  have hsound := sound_of_reachable hreach
  rcases shard_cases hstep hvalid fun hc => (hsound.commits hc).1 with
    ⟨hsame, -⟩ | ⟨self, j, reported, w, job, decided, task, rfl, hcommits, rfl⟩
  · rw [Log.modRevision, Log.modRevision, hsame] at hwrites
    contradiction
  · obtain ⟨-, -, hintends⟩ := hsound.commits hcommits
    obtain ⟨held, tasks, hself, hj⟩ := hcommits.thread
    refine ⟨w, decided, by simp only [committer, hself], exactlyOne_of_intends hintends,
      hintends.flags_eq, fun hclaim hw labels u hrun => ?_⟩
    have hkept : t.Kept c w task.shardID t.etcd.length := by
      refine ⟨hsound.step hstep, ?_, ?_, ?_⟩
      · rw [Log.modRevision, hcommits.etcd, Log.get_concat, if_pos rfl]
        simp
      · rw [hclaim.2.2]
      · intro th hth job' decided' hdecides hm
        rcases step_decides hstep hth hdecides with
          ⟨old, hold, -, hdecided⟩ | ⟨_, _, _, _, _, hlabel, -⟩
        · have hle := (hsound.decided hold hdecided).modRevision_le task.shardID
          rw [hcommits.etcd, List.length_append, List.length_singleton] at hm
          omega
        · contradiction
    exact (hrun.preserves (fun h hok hst => h.step hw hvalid hok hst) hkept).current

section Examples

def nodeA : GoString := lit "a"

def nodeB : GoString := lit "b"

def registered (node : GoString) : Write GoString GoString :=
  ⟨twoShards.nodesPrefix ++ node, some node⟩

def quiet : Choice := ⟨true, 0, [], 0⟩

/-- `a` loads its view, becomes the target of both shards, and plans to claim shard 0. -/
def firstClaim : List Label :=
  [.watch nodeA (.load 0), .watch nodeA .install, .operate nodeA .reassign,
    .thread 0 ⟨true, 0, [0, 1], 0⟩, .task 0 0 (.commit true), .task 0 0 .applyLocal,
    .operate nodeA .claim, .thread 1 quiet, .thread 1 quiet, .thread 1 quiet, .thread 1 quiet]

theorem shard_ownership_transitions_are_legal_firstClaim :
    ∃ s t : World, (machine twoShards).Reachable Machine.Any s ∧
      s.step twoShards (.task 1 0 (.commit true)) = some t ∧
      (recordOf twoShards t.etcd 0).currentNode = nodeA ∧
      ∃ w view, s.committer (.task 1 0 (.commit true)) = some (w, view) ∧
        ExactlyOne (Retarget (recordOf twoShards s.etcd 0) (recordOf twoShards t.etcd 0))
          (Claim w view (recordOf twoShards s.etcd 0) (recordOf twoShards t.etcd 0))
          (Release w (recordOf twoShards s.etcd 0) (recordOf twoShards t.etcd 0)) := by
  have hrun : ((machine twoShards).exec Machine.Any (start [registered nodeA]) firstClaim).any
      (fun s => (s.step twoShards (.task 1 0 (.commit true))).any fun t => decide
        (t.etcd.modRevision (twoShards.shardKey 0) ≠ s.etcd.modRevision (twoShards.shardKey 0) ∧
          (recordOf twoShards t.etcd 0).currentNode = nodeA)) = true := by decide
  have hforeign : ∀ w ∈ [registered nodeA], Foreign twoShards w := by decide
  obtain ⟨s, hreach, hs⟩ := Machine.exec_reachable hrun ⟨_, fun w hw => .inl (hforeign w hw), rfl⟩
  obtain ⟨t, ht, htest⟩ := (Option.any_eq_true _ _).mp hs
  obtain ⟨hwrites, hcurrent⟩ := of_decide_eq_true htest
  obtain ⟨w, view, hcommitter, hone, -⟩ := shard_ownership_transitions_are_legal twoShards s t
    hreach (.task 1 0 (.commit true)) ht 0 (by decide) hwrites
  exact ⟨s, t, hreach, ht, hcurrent, w, view, hcommitter, hone⟩

end Examples
end World
end Goverse.Consensus
