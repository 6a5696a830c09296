import Goverse.Consensus.Routing
import Goverse.Consensus.ShardLocks
import Goverse.Consensus.Views

/-! A server request checks that its node owns the shard, and only then does `createObject`
take the shard's read lock. A release holds the write lock while it commits, so it excludes
the requests that have the read lock, but not those between the check and the lock, nor those
whose ID takes no lock. -/
namespace Goverse.Consensus

open GoString Lib Sharding ClusterState

variable {c : Config} {etcd : Etcd} {view : ClusterState} {a : GoString}

/-- Routing resolves the ID through the shard map. -/
def ShardRouted (c : Config) (objectID : GoString) : Prop :=
  (validateObjectID objectID c.numShards).toOption.any
    (fun parsed => !parsed.isFixedNodeFormat) = true

instance (c : Config) (objectID : GoString) : Decidable (ShardRouted c objectID) :=
  inferInstanceAs (Decidable (_ = true))

/-- Routing by the record leads to `a`. -/
def Serves (a : GoString) (record : ShardRecord) : Prop :=
  a ≠ [] ∧ record.currentNode = a ∧ (record.targetNode = [] ∨ record.targetNode = a)

private theorem serves_of_route {objectID : GoString} (hrouted : ShardRouted c objectID)
    (h : (view.getCurrentNodeForObject c objectID).toOption = some a) :
    ∃ info, view.shards.lookup (getShardID objectID c.numShards) = some info ∧
      Serves a info.toShardRecord := by
  unfold ShardRouted at hrouted
  unfold getCurrentNodeForObject at h
  cases hvalidate : validateObjectID objectID c.numShards with
  | error error =>
    rw [hvalidate] at hrouted
    contradiction
  | ok parsed =>
    rw [hvalidate] at hrouted h
    have hnode : parsed.isFixedNodeFormat = false := by simpa [Except.toOption] using hrouted
    simp only [hnode, Bool.false_eq_true, if_false] at h
    cases hroute : view.currentNodeOfShard (getShardID objectID c.numShards) with
    | error error =>
      rw [hroute] at h
      contradiction
    | ok node =>
      rw [hroute] at h
      obtain rfl : node = a := Option.some.inj h
      obtain ⟨⟨info, hlookup, hcurrent, htarget⟩, hclaimed, -⟩ := currentNodeOfShard_ok hroute
      exact ⟨info, hlookup, hclaimed, hcurrent, htarget⟩

section Abreast

/-- Every version of a shard that leads to `a`, when `a` has the shard no more, is older than
the view's. -/
def Abreast (c : Config) (etcd : Etcd) (a : GoString) (view : ClusterState) : Prop :=
  ∀ shardID, c.ValidShard shardID → (recordOf c etcd shardID).currentNode ≠ a →
    ∀ rev value, etcd.Version (c.shardKey shardID) rev value → Serves a (parseRecord value) →
      rev < (view.shard shardID).modRevision

theorem Abreast.current (h : Abreast c etcd a view) (hview : Faithful c etcd view) {shardID : Int}
    {info : ShardInfo} (hlookup : view.shards.lookup shardID = some info)
    (hserves : Serves a info.toShardRecord) : (recordOf c etcd shardID).currentNode = a := by
  by_contra howner
  obtain ⟨hvalid, value, hversion, hinfo⟩ := hview.shards shardID info hlookup
  have hserved : Serves a (parseRecord value) := by
    rw [hinfo] at hserves
    exact hserves
  have hlt := h shardID hvalid howner info.modRevision value hversion hserved
  rw [ClusterState.shard, hlookup, Option.getD_some] at hlt
  exact Nat.lt_irrefl _ hlt

theorem Abreast.mono (h : Abreast c etcd a view) {next : ClusterState}
    (hnewer : ∀ shardID, (view.shard shardID).modRevision ≤ (next.shard shardID).modRevision) :
    Abreast c etcd a next :=
  fun shardID hvalid howner rev value hversion hserves =>
    Nat.lt_of_lt_of_le (h shardID hvalid howner rev value hversion hserves) (hnewer shardID)

theorem lt_of_serves (hist : History c etcd) {shardID : Int} {rev : Nat} {value : GoString}
    (hversion : etcd.Version (c.shardKey shardID) rev value)
    (hserves : Serves a (parseRecord value)) (hnot : ¬ Serves a (recordOf c etcd shardID)) :
    ∃ last value', etcd.get (c.shardKey shardID) = some (value', last) ∧ rev < last := by
  obtain ⟨value', last, hget⟩ := hversion.get_of_not_deleted (hist.not_deleted shardID)
  refine ⟨last, value', hget, Nat.lt_of_le_of_ne (hversion.le_of_get hget) ?_⟩
  rintro rfl
  refine hnot ?_
  rw [recordOf, hget, ((Log.version_of_get hget).unique hversion).2]
  exact hserves

private theorem abreast_load (hist : History c etcd) (now : Int) :
    Abreast c etcd a (load c etcd now) := by
  intro shardID hvalid howner rev value hversion hserves
  obtain ⟨last, value', hget, hlt⟩ := lt_of_serves hist hversion hserves fun h => howner h.2.1
  rw [ClusterState.shard, lookup_load hist now hvalid hget]
  exact hlt

end Abreast

/-! ### The lease of `a` -/

/-- The registration of `a` is neither deleted nor overwritten. -/
def LeaseAlive (c : Config) (a : GoString) (_ : World) : Label → Prop
  | .environment w => w.key = c.nodeKey a → w.value = some a
  | _ => True

/-- The view was loaded at revision `n` or later, and has `a`. -/
def Informed (a : GoString) (n : Nat) (view : ClusterState) : Prop :=
  view.hasNode a = true ∧ n ≤ view.revision

def Node.Knows (a : GoString) (n : Nat) (node : Node) : Prop :=
  match node.watch with
  | .unloaded => node.view.Blank
  | .loading snapshot => (node.view.Blank ∨ Informed a n node.view) ∧ Informed a n snapshot
  | .idle => Informed a n node.view
  | .watching cursor => Informed a n node.view ∧ n ≤ cursor

section Knows

variable {n : Nat} {node next : Node}

theorem Node.Knows.blank_or_informed (h : node.Knows a n) :
    node.view.Blank ∨ Informed a n node.view := by
  unfold Node.Knows at h
  split at h
  · exact .inl h
  · exact h.1
  · exact .inr h
  · exact .inr h.1

theorem Node.Knows.setView (h : node.Knows a n) (hhas : node.view.hasNode a = true)
    (hview : Informed a n node.view → Informed a n next.view)
    (hwatch : next.watch = node.watch) : next.Knows a n := by
  have hinformed : Informed a n next.view := by
    rcases h.blank_or_informed with hblank | hinformed
    · rw [Blank.not_hasNode hblank] at hhas
      contradiction
    · exact hview hinformed
  rw [Node.Knows] at h ⊢
  rw [hwatch]
  cases hold : node.watch with
  | unloaded =>
    rw [hold] at h
    rw [Blank.not_hasNode h] at hhas
    contradiction
  | loading snapshot =>
    rw [hold] at h
    exact ⟨.inr hinformed, h.2⟩
  | idle => exact hinformed
  | watching cursor =>
    rw [hold] at h
    exact ⟨hinformed, h.2⟩

end Knows

namespace World

variable {s t : World} {n : Nat}

/-- Since revision `n` the registration of `a` is there, and every view that was loaded has
it. -/
structure Alive (c : Config) (a : GoString) (n : Nat) (s : World) : Prop where
  registered : ∃ rev, s.etcd.get (c.nodeKey a) = some (a, rev)
  since : ∀ i, n ≤ i → s.etcd[i]? ≠ some ⟨c.nodeKey a, none⟩
  length : n ≤ s.etcd.length
  nodes : ∀ b, (s.nodes b).Knows a n
  plans : ∀ th ∈ s.threads, ∀ job decided, th.Decides job decided →
    decided.hasNode a = true ∧ (s.nodes th.node).view.hasNode a = true

theorem alive_start {rev : Nat} (h : etcd.get (c.nodeKey a) = some (a, rev)) :
    (start etcd).Alive c a etcd.length := by
  refine ⟨⟨rev, h⟩, fun i hi => ?_, Nat.le_refl _, fun b => ⟨rfl, rfl⟩, fun th hth => ?_⟩
  · change etcd[i]? ≠ _
    rw [List.getElem?_eq_none hi]
    nofun
  · simp [start] at hth

theorem step_lease {label : Label} (hok : LeaseAlive c a s label)
    (hstep : s.step c label = some t) :
    t.etcd = s.etcd ∨ ∃ w, t.etcd = s.etcd ++ [w] ∧ (w.key = c.nodeKey a → w.value = some a) := by
  cases step_etcd hstep with
  | same etcd => exact .inl etcd
  | foreign _ etcd => exact .inr ⟨_, etcd, hok⟩
  | commit hcommits =>
    exact .inr ⟨_, hcommits.etcd, fun hkey => absurd hkey (shardKey_ne_nodesPrefix _ _)⟩

theorem Alive.informed_load (h : s.Alive c a n) (now : Int) : Informed a n (load c s.etcd now) := by
  obtain ⟨rev, hget⟩ := h.registered
  refine ⟨load_hasNode now hget, ?_⟩
  rw [load_revision]
  exact h.length

theorem Alive.node (h : s.Alive c a n) {label : Label} (hstep : s.step c label = some t)
    (b : GoString) : (t.nodes b).Knows a n ∧
      ((s.nodes b).view.hasNode a = true → (t.nodes b).view.hasNode a = true) := by
  have hknows := h.nodes b
  cases step_node hstep b with
  | same hmember =>
    rw [Node.Knows, hmember]
    exact ⟨hknows, id⟩
  | watch hcase hmember =>
    rw [Node.Knows, hmember]
    cases hcase with
    | load => exact ⟨⟨hknows.blank_or_informed, h.informed_load _⟩, id⟩
    | install hwatch =>
      rw [Node.Knows, hwatch] at hknows
      exact ⟨hknows.2, fun _ => hknows.2.1⟩
    | connect hwatch =>
      rw [Node.Knows, hwatch] at hknows
      exact ⟨⟨hknows, hknows.2⟩, id⟩
    | disconnect hwatch =>
      rw [Node.Knows, hwatch] at hknows
      exact ⟨hknows.1, id⟩
    | @deliver now cursor w rev hwatch he =>
      rw [Node.Knows, hwatch] at hknows
      obtain ⟨⟨hhas, hrevision⟩, hcursor⟩ := hknows
      obtain ⟨hw, rfl⟩ := Log.getElem?_feed.mp he
      have hkept := handleEvent_hasNode hhas now (fun heq => h.since cursor hcursor (heq ▸ hw))
        (cursor + 1)
      refine ⟨⟨⟨hkept, ?_⟩, Nat.le_succ_of_le hcursor⟩, fun _ => hkept⟩
      rw [handleEvent_revision]
      exact hrevision
  | applyLocal hself hj hmember =>
    obtain ⟨-, hhas⟩ := h.plans _ (List.mem_of_getElem? hself) _ _ ⟨_, _, rfl, rfl⟩
    refine ⟨hknows.setView hhas (fun hinformed => ?_) (by rw [hmember]), fun _ => ?_⟩
    · rw [hmember, Informed, applyStored_hasNode, applyStored_revision]
      exact hinformed
    · rw [hmember, applyStored_hasNode]
      exact hhas

theorem Alive.step (h : s.Alive c a n) {label : Label} (hok : LeaseAlive c a s label)
    (hstep : s.step c label = some t) : t.Alive c a n := by
  have hplans : ∀ th ∈ t.threads, ∀ job decided, th.Decides job decided →
      decided.hasNode a = true ∧ (t.nodes th.node).view.hasNode a = true := by
    intro th hth job decided hdecides
    rcases step_decides hstep hth hdecides with
      ⟨old, hold, hnode, hdecided⟩ | ⟨self, choice, objectIDs, plan, _, -, -, hplan, hne, rfl⟩
    · obtain ⟨hhas, hview⟩ := h.plans old hold job decided hdecided
      rw [hnode] at hview
      exact ⟨hhas, (h.node hstep _).2 hview⟩
    · have hview : (s.nodes th.node).view.hasNode a = true := by
        rcases (h.nodes th.node).blank_or_informed with hblank | hinformed
        · exact absurd (Job.plan_of_blank hblank hplan) hne
        · exact hinformed.1
      exact ⟨hview, (h.node hstep _).2 hview⟩
  rcases step_lease hok hstep with hsame | ⟨w, hgrow, hw⟩
  · refine ⟨?_, ?_, ?_, fun b => (h.node hstep b).1, hplans⟩
    · rw [hsame]
      exact h.registered
    · rw [hsame]
      exact h.since
    · rw [hsame]
      exact h.length
  · refine ⟨?_, fun i hi => ?_, ?_, fun b => (h.node hstep b).1, hplans⟩
    · rw [hgrow, Log.get_concat]
      by_cases hkey : w.key = c.nodeKey a
      · rw [if_pos hkey, hw hkey]
        exact ⟨_, rfl⟩
      · rw [if_neg hkey]
        exact h.registered
    · intro hdeleted
      rw [hgrow] at hdeleted
      rcases getElem?_concat_cases hdeleted with ⟨-, rfl⟩ | hold
      · exact absurd (hw rfl) nofun
      · exact h.since i hi hold
    · rw [hgrow, List.length_append]
      exact Nat.le_add_right_of_le h.length

end World

/-! ### Requests and releases -/

/-- A request of `a` that has passed the ownership check and not yet inserted its object. -/
def Thread.Admitted (a objectID : GoString) (th : Thread) : Prop :=
  th.node = a ∧ (th.work = .request objectID .enter ∨ th.work = .request objectID .create)

/-- An admitted request of `a` for the shard that does not have the shard's read lock. -/
def Thread.Exposed (c : Config) (a : GoString) (shardID : Int) (th : Thread) : Prop :=
  th.node = a ∧
    match th.work with
    | .request objectID .enter =>
      ShardRouted c objectID ∧ getShardID objectID c.numShards = shardID
    | .request objectID .create =>
      ShardRouted c objectID ∧ getShardID objectID c.numShards = shardID ∧
        acquireRead c.numShards objectID = none
    | _ => False

instance (c : Config) (a : GoString) (shardID : Int) (th : Thread) :
    Decidable (th.Exposed c a shardID) := by
  unfold Thread.Exposed
  split <;> infer_instance

/-- A release of `a` commits on a shard only while no request for it is exposed, and a reload
does not take `a`'s view of a shard back to an older version. -/
def Fenced (c : Config) (a : GoString) (s : World) : Label → Prop
  | .task self j (.commit _) =>
    match s.threads[self]? with
    | some ⟨b, .operation .release (.store _ _ tasks)⟩ =>
      b = a → ∀ task ∈ tasks[j]?, ∀ th ∈ s.threads, ¬ th.Exposed c a task.shardID
    | _ => True
  | .watch b .install =>
    match (s.nodes b).watch with
    | .loading snapshot =>
      b = a → ∀ entry ∈ (s.nodes b).view.shards.entries,
        entry.2.modRevision ≤ (snapshot.shard entry.1).modRevision
    | _ => True
  | _ => True

instance (c : Config) (a : GoString) (s : World) (label : Label) :
    Decidable (LeaseAlive c a s label) := by
  unfold LeaseAlive
  split <;> infer_instance

instance (c : Config) (a : GoString) (s : World) (label : Label) :
    Decidable (Fenced c a s label) := by
  unfold Fenced
  split
  · split <;> infer_instance
  · split <;> infer_instance
  · infer_instance

namespace World

variable {s t : World} {n : Nat}

structure Safe (c : Config) (a : GoString) (n : Nat) (s : World) : Prop where
  sound : s.Sound c
  locked : s.Locked c
  alive : s.Alive c a n
  abreast : (s.nodes a).view.Blank ∨ Abreast c s.etcd a (s.nodes a).view
  snapshot : ∀ snapshot, (s.nodes a).watch = .loading snapshot → (s.nodes a).view.Blank →
    Abreast c s.etcd a snapshot
  plans : ∀ th ∈ s.threads, th.node = a → ∀ job decided, th.Decides job decided →
    ∀ shardID, (decided.shard shardID).modRevision ≤ ((s.nodes a).view.shard shardID).modRevision
  requests : ∀ th ∈ s.threads, ∀ objectID, th.Admitted a objectID → ShardRouted c objectID →
    a ≠ [] ∧ (recordOf c s.etcd (getShardID objectID c.numShards)).currentNode = a

theorem safe_start (h : ∀ w ∈ etcd, Foreign c w ∨ Stored c w) {rev : Nat}
    (hlease : etcd.get (c.nodeKey a) = some (a, rev)) :
    (start etcd).Safe c a etcd.length := by
  refine ⟨follows_start h, locked_start etcd, alive_start hlease, .inl ⟨rfl, rfl⟩, ?_, ?_, ?_⟩
  · intro snapshot hload
    simp [start] at hload
  · intro th hth
    simp [start] at hth
  · intro th hth
    simp [start] at hth

/-- What a commit does to a shard that `a` has: another node may not claim it while the lease
of `a` is alive, so the shard stays with `a` or `a` releases it. -/
theorem Safe.owner_cases (h : s.Safe c a n) (ha : a ≠ []) {self j : Nat} {b : GoString} {job : Job}
    {decided : ClusterState} {task : Task} (hcommits : Commits c s t self j b job decided task)
    (howner : (recordOf c s.etcd task.shardID).currentNode = a) :
    (recordOf c t.etcd task.shardID).currentNode = a ∨
      (job = .release ∧ b = a ∧ Release a (recordOf c s.etcd task.shardID)
        (recordOf c t.etcd task.shardID)) := by
  obtain ⟨-, -, hintends⟩ := h.sound.commits hcommits
  obtain ⟨held, tasks, hself, -⟩ := hcommits.thread
  obtain ⟨hlive, -⟩ := h.alive.plans _ (List.mem_of_getElem? hself) job decided ⟨_, _, rfl, rfl⟩
  cases job with
  | claim =>
    rcases hintends.2.1 with hempty | hdead
    · exact absurd (howner.symm.trans hempty) ha
    · rw [howner, hlive] at hdead
      contradiction
  | release =>
    obtain rfl : b = a := hintends.1.symm.trans howner
    exact .inr ⟨rfl, rfl, hintends⟩
  | reassign | reallocate | rebalance =>
    refine .inl ?_
    rw [hintends.2]
    exact howner

theorem Safe.abreast_step (h : s.Safe c a n) {label : Label} (hstep : s.step c label = some t)
    (hview : Abreast c s.etcd a view)
    (hplans : ∀ th ∈ s.threads, th.node = a → ∀ job decided, th.Decides job decided →
      ∀ shardID, (decided.shard shardID).modRevision ≤ (view.shard shardID).modRevision) :
    Abreast c t.etcd a view := by
  intro shardID hvalid howner rev value hversion hserves
  rcases shard_cases hstep hvalid fun hc => (h.sound.commits hc).1 with
    ⟨hsame, hversions⟩ | ⟨self, j, reported, b, job, decided, task, -, hcommits, rfl⟩
  · rw [recordOf, hsame] at howner
    exact hview shardID hvalid howner rev value (hversions rev value hversion) hserves
  · rw [hcommits.etcd] at hversion
    rcases Log.version_concat_cases hversion with hold | ⟨-, heq⟩
    · by_cases hbefore : (recordOf c s.etcd task.shardID).currentNode = a
      · obtain ⟨rfl, rfl, hrelease⟩ :=
          (h.owner_cases hserves.1 hcommits hbefore).resolve_left howner
        obtain ⟨last, value', hget, hlt⟩ := lt_of_serves h.sound.history hold hserves
          fun hserved => hserved.2.2.elim hrelease.2.1 hrelease.2.2.1
        obtain ⟨-, hmod, -⟩ := h.sound.commits hcommits
        obtain ⟨held, tasks, hself, -⟩ := hcommits.thread
        have hlast : s.etcd.modRevision (c.shardKey task.shardID) = last := by
          rw [Log.modRevision, hget]
          rfl
        have hle := hplans _ (List.mem_of_getElem? hself) rfl _ decided ⟨_, _, rfl, rfl⟩
          task.shardID
        omega
      · exact hview _ hvalid hbefore rev value hold hserves
    · obtain rfl : formatShardInfo task.info.toShardRecord = value :=
        Option.some.inj (congrArg Write.value heq)
      rw [hcommits.etcd, recordOf_concat_self] at howner
      exact absurd hserves.2.1 howner

theorem Safe.newer (h : s.Safe c a n) {label : Label} (hok : Fenced c a s label)
    (hstep : s.step c label = some t) (shardID : Int) :
    ((s.nodes a).view.shard shardID).modRevision ≤
      ((t.nodes a).view.shard shardID).modRevision := by
  cases step_node hstep a with
  | same hmember => rw [hmember]
  | watch hcase hmember =>
    rw [hmember]
    cases hcase with
    | load | connect | disconnect => exact Nat.le_refl _
    | install hwatch =>
      simp only [Fenced, hwatch] at hok
      cases hlookup : (s.nodes a).view.shards.lookup shardID with
      | none =>
        rw [ClusterState.shard, hlookup]
        exact Nat.zero_le _
      | some info =>
        rw [ClusterState.shard, hlookup]
        exact hok trivial ⟨shardID, info⟩ (AList.mem_lookup_iff.mp hlookup)
    | deliver _ he =>
      obtain ⟨hw, rfl⟩ := Log.getElem?_feed.mp he
      exact handleEvent_newer h.sound.history _ (List.mem_of_getElem? hw) _ shardID
  | applyLocal _ _ hmember =>
    rw [hmember]
    exact applyStored_newer _ _ _ shardID

theorem Safe.not_blank_of_decides (h : s.Safe c a n) {th : Thread} (hth : th ∈ s.threads)
    (hnode : th.node = a) {job : Job} {decided : ClusterState} (hdecides : th.Decides job decided) :
    ¬ (s.nodes a).view.Blank := by
  intro hblank
  have hhas := (h.alive.plans th hth job decided hdecides).2
  rw [hnode, Blank.not_hasNode hblank] at hhas
  contradiction

theorem Safe.snapshot_step (h : s.Safe c a n) {label : Label} (hstep : s.step c label = some t)
    {snapshot : ClusterState} (hwatch : (s.nodes a).watch = .loading snapshot)
    (hblank : (s.nodes a).view.Blank) : Abreast c t.etcd a snapshot :=
  h.abreast_step hstep (h.snapshot snapshot hwatch hblank) fun _ hth hnode _ _ hdecides =>
    absurd hblank (h.not_blank_of_decides hth hnode hdecides)

theorem Safe.views_step (h : s.Safe c a n) {label : Label} (hok : Fenced c a s label)
    (hstep : s.step c label = some t) :
    (t.nodes a).view.Blank ∨ Abreast c t.etcd a (t.nodes a).view := by
  rcases h.abreast with hblank | habreast
  · cases step_node hstep a with
    | same hmember =>
      rw [hmember]
      exact .inl hblank
    | watch hcase hmember =>
      rw [hmember]
      cases hcase with
      | load | connect | disconnect => exact .inl hblank
      | install hwatch => exact .inr (h.snapshot_step hstep hwatch hblank)
      | deliver hwatch =>
        have hknows := h.alive.nodes a
        rw [Node.Knows, hwatch] at hknows
        have hhas := hknows.1.1
        rw [Blank.not_hasNode hblank] at hhas
        contradiction
    | applyLocal hself =>
      exact absurd hblank
        (h.not_blank_of_decides (List.mem_of_getElem? hself) rfl ⟨_, _, rfl, rfl⟩)
  · exact .inr ((h.abreast_step hstep habreast h.plans).mono (h.newer hok hstep))

theorem Safe.snapshots_step (h : s.Safe c a n) {label : Label} (hstep : s.step c label = some t)
    {snapshot : ClusterState} (hload : (t.nodes a).watch = .loading snapshot)
    (hblank : (t.nodes a).view.Blank) : Abreast c t.etcd a snapshot := by
  cases step_node hstep a with
  | same hmember =>
    rw [hmember] at hload hblank
    exact h.snapshot_step hstep hload hblank
  | watch hcase hmember =>
    rw [hmember] at hload
    cases hcase with
    | load =>
      cases hload
      cases step_etcd hstep with
      | same etcd =>
        rw [etcd]
        exact abreast_load h.sound.history _
    | install | connect | disconnect | deliver => contradiction
  | applyLocal hself =>
    have hhas := (h.alive.plans _ (List.mem_of_getElem? hself) _ _ ⟨_, _, rfl, rfl⟩).2
    have := (h.alive.node hstep a).2 hhas
    rw [Blank.not_hasNode hblank] at this
    contradiction

theorem step_admits {label : Label} (hstep : s.step c label = some t) {th : Thread}
    (hth : th ∈ t.threads) {objectID : GoString} (h : th.Admitted a objectID) :
    (∃ old ∈ s.threads, old.Admitted a objectID) ∨
      (t.etcd = s.etcd ∧
        ((s.nodes a).view.getCurrentNodeForObject c objectID).toOption = some a) := by
  obtain ⟨rfl, hwork⟩ := h
  have hold : ∀ {other : Thread}, other ∈ s.threads → other.node = th.node →
      (other.work = .request objectID .enter ∨ other.work = .request objectID .create) →
      ∃ old ∈ s.threads, old.Admitted th.node objectID :=
    fun hmem hnode hother => ⟨_, hmem, hnode, hother⟩
  have hset : ∀ {self : Nat} {b : GoString} {work : Work}, th ∈ s.threads.set self ⟨b, work⟩ →
      th = ⟨b, work⟩ ∨ ∃ old ∈ s.threads, old.Admitted th.node objectID := by
    intro self b work hmem
    rcases eq_or_mem_of_mem_set hmem with heq | hj
    · exact .inl heq
    · exact .inr (hold hj rfl hwork)
  cases step_cases hstep with
  | environment | evict | watch => exact .inl (hold hth rfl hwork)
  | spawn hfresh =>
    rcases mem_concat_cases hth with hmem | rfl
    · exact .inl (hold hmem rfl hwork)
    · cases hfresh with
      | operation | request => simp at hwork
  | walk hself hwalks =>
    rcases hset hth with rfl | hadmitted
    · cases hwalks with
      | checked hroute =>
        obtain rfl : _ = objectID := by simpa using hwork
        exact .inr ⟨rfl, hroute⟩
      | entered hlock =>
        obtain rfl : _ = objectID := by simpa using hwork
        exact .inl (hold (List.mem_of_getElem? hself) rfl (.inl rfl))
      | count | stable | unstable | locked | stored | unlocked | refused | found | left =>
        simp at hwork
    · exact .inl hadmitted
  | rlock hself =>
    rcases hset hth with rfl | hadmitted
    · obtain rfl : _ = objectID := by simpa using hwork
      exact .inl (hold (List.mem_of_getElem? hself) rfl (.inl rfl))
    · exact .inl hadmitted
  | plan | lock | unlock | runlock | insert | finish | commit | applyLocal =>
    rcases hset hth with rfl | hadmitted
    · simp at hwork
    · exact .inl hadmitted

theorem Safe.not_released (h : s.Safe c a n) {self j : Nat} {reported : Bool}
    (hok : Fenced c a s (.task self j (.commit reported))) {decided : ClusterState} {task : Task}
    (hcommits : Commits c s t self j a .release decided task) {th : Thread}
    (hth : th ∈ s.threads) {objectID : GoString} (hadmitted : th.Admitted a objectID)
    (hrouted : ShardRouted c objectID) : task.shardID ≠ getShardID objectID c.numShards := by
  intro hshard
  obtain ⟨held, tasks, hself, hj⟩ := hcommits.thread
  obtain ⟨rfl, hwork⟩ := hadmitted
  simp only [Fenced, hself] at hok
  have hfence := hok trivial task hj th hth
  rcases hwork with hwork | hwork
  · refine hfence ⟨rfl, ?_⟩
    rw [hwork]
    exact ⟨hrouted, hshard.symm⟩
  · cases hlock : acquireRead c.numShards objectID with
    | none =>
      refine hfence ⟨rfl, ?_⟩
      rw [hwork]
      exact ⟨hrouted, hshard.symm, hlock⟩
    | some key =>
      have hkey : shardLockKey task.shardID = key := by
        unfold acquireRead at hlock
        split at hlock
        · contradiction
        · rw [hshard]
          exact Option.some.inj hlock
      have hheld : shardLockKey task.shardID ∈ held :=
        h.locked.covered _ (List.mem_of_getElem? hself) rfl task (List.mem_of_getElem? hj)
      obtain ⟨i, hi⟩ := List.mem_iff_getElem?.mp hth
      have hshared : th.holds c (th.node, key) = some .shared := by
        refine Thread.holds_eq_some_iff.mpr ⟨rfl, .inr ⟨rfl, ?_, ?_⟩⟩
        · rw [Thread.held, hwork]
          exact List.not_mem_nil
        · rw [Thread.shared, hwork]
          exact hlock
      have hsame : i = self := by
        refine h.locked.disciplined.excludes hself (k := (th.node, key)) ?_ hi ?_
        · exact Thread.holds_eq_some_iff.mpr ⟨rfl, .inl ⟨rfl, hkey ▸ hheld⟩⟩
        · rw [hshared]
          exact Option.some_ne_none _
      rw [hsame, hself] at hi
      rw [← Option.some.inj hi] at hwork
      contradiction

theorem Safe.requests_step (h : s.Safe c a n) {label : Label} (hok : Fenced c a s label)
    (hstep : s.step c label = some t) {th : Thread} (hth : th ∈ t.threads) {objectID : GoString}
    (hadmitted : th.Admitted a objectID) (hrouted : ShardRouted c objectID) :
    a ≠ [] ∧ (recordOf c t.etcd (getShardID objectID c.numShards)).currentNode = a := by
  rcases step_admits hstep hth hadmitted with ⟨old, hold, hold'⟩ | ⟨hetcd, hroute⟩
  · obtain ⟨ha, howner⟩ := h.requests old hold objectID hold' hrouted
    refine ⟨ha, ?_⟩
    rcases shard_cases hstep (getShardID_mem_range c.numShards_pos objectID)
        fun hc => (h.sound.commits hc).1 with
      ⟨hsame, -⟩ | ⟨self, j, reported, b, job, decided, task, rfl, hcommits, hshard⟩
    · rw [recordOf, hsame]
      exact howner
    · rw [← hshard] at howner ⊢
      rcases h.owner_cases ha hcommits howner with hkept | ⟨rfl, rfl, -⟩
      · exact hkept
      · exact absurd hshard (h.not_released hok hcommits hold hold' hrouted)
  · obtain ⟨info, hlookup, hserves⟩ := serves_of_route hrouted hroute
    refine ⟨hserves.1, ?_⟩
    rw [hetcd]
    rcases h.abreast with hblank | habreast
    · rw [Blank.lookup hblank] at hlookup
      contradiction
    · exact habreast.current (h.sound.views a) hlookup hserves

theorem Safe.step (h : s.Safe c a n) {label : Label} (hlease : LeaseAlive c a s label)
    (hok : Fenced c a s label) (hstep : s.step c label = some t) : t.Safe c a n := by
  refine ⟨h.sound.step hstep, h.locked.step hstep, h.alive.step hlease hstep,
    h.views_step hok hstep, fun _ => h.snapshots_step hstep, ?_,
    fun _ hth _ => h.requests_step hok hstep hth⟩
  intro th hth hnode job decided hdecides shardID
  refine Nat.le_trans ?_ (h.newer hok hstep shardID)
  rcases step_decides hstep hth hdecides with
    ⟨old, hold, hsame, hdecided⟩ | ⟨_, _, _, _, _, -, -, -, -, rfl⟩
  · exact h.plans old hold (hsame.trans hnode) job decided hdecided shardID
  · rw [hnode]

theorem step_inserts {label : Label} (hstep : s.step c label = some t) {objectID : GoString}
    (hbefore : objectID ∉ (s.nodes a).objects) (hafter : objectID ∈ (t.nodes a).objects) :
    ∃ self : Nat, s.threads[self]? = some ⟨a, .request objectID .create⟩ := by
  have hset : ∀ {b : GoString} {node : Node}, t.nodes = (s.setNode b node).nodes →
      b = a ∧ objectID ∈ node.objects := by
    intro b node hnodes
    rw [hnodes] at hafter
    by_cases hb : a = b
    · subst hb
      rw [nodes_setNode_self] at hafter
      exact ⟨rfl, hafter⟩
    · rw [nodes_setNode_of_ne s hb] at hafter
      exact absurd hafter hbefore
  cases step_cases hstep with
  | environment | spawn | walk | lock | unlock | rlock | runlock | finish | commit =>
    exact absurd hafter hbefore
  | evict =>
    obtain ⟨rfl, hmem⟩ := hset rfl
    exact absurd (List.mem_of_mem_erase hmem) hbefore
  | watch | plan | applyLocal =>
    obtain ⟨rfl, hmem⟩ := hset rfl
    exact absurd hmem hbefore
  | insert hself =>
    obtain ⟨rfl, hmem⟩ := hset rfl
    rcases List.mem_cons.mp hmem with rfl | hmem
    · exact ⟨_, hself⟩
    · exact absurd hmem hbefore

/-- While the lease of `a` is alive and its releases are fenced, an object is inserted on `a`
only while `a` has the object's shard. -/
theorem no_activation_on_released_shard (c : Config) (a : GoString) (etcd : Etcd)
    (hetcd : ∀ w ∈ etcd, Foreign c w ∨ Stored c w) (rev : Nat)
    (hlease : etcd.get (c.nodeKey a) = some (a, rev)) (labels : List Label) (s : World)
    (hrun : (machine c).Steps (fun s label => LeaseAlive c a s label ∧ Fenced c a s label)
      (start etcd) labels s)
    (label : Label) (t : World) (hstep : s.step c label = some t) (objectID : GoString)
    (hrouted : ShardRouted c objectID) (hbefore : objectID ∉ (s.nodes a).objects)
    (hafter : objectID ∈ (t.nodes a).objects) :
    (recordOf c s.etcd (getShardID objectID c.numShards)).currentNode = a := by
  have hsafe : s.Safe c a etcd.length :=
    hrun.preserves (fun h hok hst => h.step hok.1 hok.2 hst) (safe_start hetcd hlease)
  obtain ⟨self, hself⟩ := step_inserts hstep hbefore hafter
  exact (hsafe.requests _ (List.mem_of_getElem? hself) objectID ⟨rfl, .inr rfl⟩ hrouted).2

section Examples

/-- An ID of shard 0. -/
def player : GoString := lit "q"

/-- `a` becomes the target of both shards and claims them. -/
def claimBoth : List Label :=
  [.watch nodeA (.load 0), .watch nodeA .install, .watch nodeA .connect, .operate nodeA .reassign,
    .thread 0 ⟨true, 0, [0, 1], 0⟩, .task 0 0 (.commit true), .task 0 0 .applyLocal,
    .task 0 1 (.commit true), .task 0 1 .applyLocal, .operate nodeA .claim, .thread 1 quiet,
    .thread 1 quiet, .thread 1 quiet, .thread 1 quiet, .thread 1 quiet, .task 1 0 (.commit true),
    .task 1 0 .applyLocal, .task 1 1 (.commit true), .task 1 1 .applyLocal, .thread 1 quiet,
    .thread 1 quiet, .thread 1 quiet, .thread 1 quiet]

/-- A request passes the ownership check and enters the lock. -/
def arrival : List Label := [.request nodeA player, .thread 2 quiet, .thread 2 quiet]

theorem no_activation_on_released_shard_firstObject :
    ∃ s t : World, s.step twoShards (.thread 2 quiet) = some t ∧
      player ∈ (t.nodes nodeA).objects ∧
      (recordOf twoShards s.etcd (getShardID player twoShards.numShards)).currentNode = nodeA := by
  have hrun : ((machine twoShards).exec
      (fun s label => LeaseAlive twoShards nodeA s label ∧ Fenced twoShards nodeA s label)
      (start [registered nodeA]) (claimBoth ++ arrival)).any
      (fun s => (s.step twoShards (.thread 2 quiet)).any fun t => decide
        (player ∉ (s.nodes nodeA).objects ∧ player ∈ (t.nodes nodeA).objects)) = true := by decide
  obtain ⟨s, hsteps, hs⟩ := Machine.exec_any hrun
  obtain ⟨t, ht, htest⟩ := (Option.any_eq_true _ _).mp hs
  obtain ⟨hbefore, hafter⟩ := of_decide_eq_true htest
  have hforeign : ∀ w ∈ [registered nodeA], Foreign twoShards w := by decide
  exact ⟨s, t, ht, hafter, no_activation_on_released_shard twoShards nodeA [registered nodeA]
    (fun w hw => .inl (hforeign w hw)) 1 (by decide) _ s hsteps (.thread 2 quiet) t ht player
    (by decide) hbefore hafter⟩

/-- The request passes the check, `b` joins and `a` moves shard 0 to it and releases it, and
only then does the request take the lock. -/
def overtaken : List Label :=
  [.request nodeA player, .thread 2 quiet, .environment (registered nodeB)] ++
    List.replicate 5 (.watch nodeA (.deliver 0)) ++
    [.operate nodeA .rebalance, .thread 3 quiet, .task 3 0 (.commit true), .task 3 0 .applyLocal,
    .operate nodeA .release, .thread 4 quiet, .thread 4 quiet, .thread 4 quiet, .thread 4 quiet,
    .thread 4 quiet, .task 4 0 (.commit true), .task 4 0 .applyLocal, .thread 4 quiet,
    .thread 4 quiet, .thread 2 quiet]

theorem overtaken_request_activates_on_released_shard :
    ∃ s t : World, (machine twoShards).Steps (LeaseAlive twoShards nodeA)
        (start [registered nodeA]) (claimBoth ++ overtaken) s ∧
      s.step twoShards (.thread 2 quiet) = some t ∧ ShardRouted twoShards player ∧
      player ∉ (s.nodes nodeA).objects ∧ player ∈ (t.nodes nodeA).objects ∧
      (recordOf twoShards s.etcd (getShardID player twoShards.numShards)).currentNode = [] := by
  have hrun : ((machine twoShards).exec (LeaseAlive twoShards nodeA)
      (start [registered nodeA]) (claimBoth ++ overtaken)).any
      (fun s => (s.step twoShards (.thread 2 quiet)).any fun t => decide
        (ShardRouted twoShards player ∧ player ∉ (s.nodes nodeA).objects ∧
          player ∈ (t.nodes nodeA).objects ∧
          (recordOf twoShards s.etcd (getShardID player twoShards.numShards)).currentNode = [])) =
      true := by decide
  obtain ⟨s, hsteps, hs⟩ := Machine.exec_any hrun
  obtain ⟨t, ht, htest⟩ := (Option.any_eq_true _ _).mp hs
  exact ⟨s, t, hsteps, ht, of_decide_eq_true htest⟩

end Examples
end World
end Goverse.Consensus
