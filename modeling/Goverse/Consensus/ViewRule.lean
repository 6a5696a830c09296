import Goverse.Consensus.World

/-! Invariants of all views of a cluster at once. What every view of a node satisfies is also
satisfied by the snapshots that are being loaded and by the views that plans were made on; a
rule names such a property, and what its steps have to keep. -/
namespace Goverse.Consensus

open GoString Lib Sharding ClusterState

variable {c : Config}

/-- `Admits` is about the writes in etcd, `Holds` about a view, and `Plans` about an entry of a
plan that a node made on a view. -/
structure ViewRule (c : Config) where
  Admits : Write GoString GoString → Prop
  Holds : Etcd → ClusterState → Prop
  Plans : Job → GoString → ClusterState → Int → ShardInfo → Prop
  foreign : ∀ {w}, Foreign c w → Admits w
  empty : ∀ etcd, Holds etcd ClusterState.empty
  concat : ∀ {etcd view} w, Holds etcd view → Holds (etcd ++ [w]) view
  load : ∀ {etcd} now, (∀ w ∈ etcd, Admits w) → Holds etcd (ClusterState.load c etcd now)
  event : ∀ {etcd view w cursor} now, (∀ w ∈ etcd, Admits w) → Holds etcd view →
    etcd[cursor]? = some w → Holds etcd (view.handleEvent c now w (cursor + 1))
  plans : ∀ {job node a objectIDs choice plan firstSeen shardID info},
    Job.plan c node a objectIDs choice job = some (plan, firstSeen) →
    (shardID, info) ∈ plan → Plans job a node.view shardID info
  stores : ∀ {etcd job a decided shardID info}, (∀ w ∈ etcd, Admits w) → Holds etcd decided →
    Plans job a decided shardID info →
    Admits ⟨c.shardKey shardID, some (formatShardInfo info.toShardRecord)⟩
  applied : ∀ {etcd view job a decided shardID info rev}, (∀ w ∈ etcd, Admits w) →
    Holds etcd view → Holds etcd decided → Plans job a decided shardID info →
    etcd.Version (c.shardKey shardID) rev (formatShardInfo info.toShardRecord) →
    Holds etcd (view.applyStored shardID info rev)

structure Task.Follows (R : ViewRule c) (etcd : Etcd) (job : Job) (a : GoString)
    (decided : ClusterState) (task : Task) : Prop where
  plans : R.Plans job a decided task.shardID task.info
  committed : ∀ rev, task.state = .committed rev →
    etcd.Version (c.shardKey task.shardID) rev (formatShardInfo task.info.toShardRecord)

def Thread.Follows (R : ViewRule c) (etcd : Etcd) (th : Thread) : Prop :=
  ∀ job phase, th.work = .operation job phase → ∀ decided tasks,
    phase.planned = some (decided, tasks) →
      R.Holds etcd decided ∧ ∀ task ∈ tasks, task.Follows R etcd job th.node decided

structure World.Follows (R : ViewRule c) (s : World) : Prop where
  history : ∀ w ∈ s.etcd, R.Admits w
  views : ∀ a, R.Holds s.etcd (s.nodes a).view
  snapshots : ∀ a snapshot, (s.nodes a).watch = .loading snapshot → R.Holds s.etcd snapshot
  threads : ∀ th ∈ s.threads, th.Follows R s.etcd

section Threads

variable {R : ViewRule c} {etcd : Etcd}

theorem Thread.Follows.concat {th : Thread} (h : th.Follows R etcd)
    (w : Write GoString GoString) : th.Follows R (etcd ++ [w]) := by
  intro job phase hwork decided tasks hplanned
  obtain ⟨hdecided, htasks⟩ := h job phase hwork decided tasks hplanned
  refine ⟨R.concat w hdecided, fun task htask => ?_⟩
  obtain ⟨hplans, hcommitted⟩ := htasks task htask
  exact ⟨hplans, fun rev hrev => (hcommitted rev hrev).concat w⟩

theorem follows_of_unplanned {a : GoString} {job : Job} {phase : Phase}
    (h : phase.planned = none) : Thread.Follows R etcd ⟨a, .operation job phase⟩ := by
  intro job' phase' hwork decided tasks hplanned
  cases hwork
  rw [h] at hplanned
  contradiction

theorem follows_of_request {a objectID : GoString} {phase : RequestPhase} :
    Thread.Follows R etcd ⟨a, .request objectID phase⟩ := by
  intro job phase' hwork
  contradiction

theorem follows_of_planned {a : GoString} {job : Job} {phase : Phase} {decided : ClusterState}
    {tasks : List Task} (hplanned : phase.planned = some (decided, tasks))
    (hdecided : R.Holds etcd decided)
    (htasks : ∀ task ∈ tasks, task.Follows R etcd job a decided) :
    Thread.Follows R etcd ⟨a, .operation job phase⟩ := by
  intro job' phase' hwork decided' tasks' hplanned'
  cases hwork
  rw [hplanned] at hplanned'
  cases hplanned'
  exact ⟨hdecided, htasks⟩

private theorem follows_of_fresh {th : Thread} (h : th.Fresh) : th.Follows R etcd := by
  intro job phase hwork decided tasks hplanned
  exact absurd ⟨phase, tasks, hwork, hplanned⟩ h.not_decides

theorem Walks.follows {node : Node} {a : GoString} {work work' : Work}
    (h : Walks c node a work work') (hth : Thread.Follows R etcd ⟨a, work⟩) :
    Thread.Follows R etcd ⟨a, work'⟩ := by
  cases h with
  | locked =>
    obtain ⟨hdecided, htasks⟩ := hth _ _ rfl _ _ rfl
    exact follows_of_planned rfl hdecided htasks
  | count | stable | unstable | stored | unlocked => exact follows_of_unplanned rfl
  | checked | refused | entered | found | left => exact follows_of_request

private theorem follows_of_setTask {a : GoString} {job : Job} {decided : ClusterState}
    {held : List GoString} {tasks : List Task} {j : Nat} {task : Task} {state : TaskState}
    (hth : Thread.Follows R etcd ⟨a, .operation job (.store decided held tasks)⟩)
    (hj : tasks[j]? = some task)
    (hcommitted : ∀ rev, state = .committed rev → etcd.Version (c.shardKey task.shardID) rev
      (formatShardInfo task.info.toShardRecord)) :
    Thread.Follows R etcd ⟨a, .operation job
      (.store decided held (tasks.set j { task with state := state }))⟩ := by
  obtain ⟨hdecided, htasks⟩ := hth _ _ rfl _ _ rfl
  refine follows_of_planned rfl hdecided fun other hother => ?_
  rcases eq_or_mem_of_mem_set hother with rfl | hi
  · exact ⟨(htasks task (List.mem_of_getElem? hj)).plans, hcommitted⟩
  · exact htasks other hi

end Threads

namespace World

variable {R : ViewRule c} {s t : World}

theorem follows_start {etcd : Etcd} (h : ∀ w ∈ etcd, R.Admits w) : (start etcd).Follows R :=
  ⟨h, fun _ => R.empty etcd, fun _ _ hload => by simp [start] at hload,
    fun th hth => by simp [start] at hth⟩

namespace Follows

theorem grow (h : s.Follows R) {w : Write GoString GoString} (hw : R.Admits w) :
    ({ s with etcd := s.etcd ++ [w] } : World).Follows R := by
  refine ⟨fun v hv => ?_, fun a => R.concat w (h.views a),
    fun a snapshot hload => R.concat w (h.snapshots a snapshot hload),
    fun th hth => (h.threads th hth).concat w⟩
  rcases mem_concat_cases hv with hv | rfl
  · exact h.history v hv
  · exact hw

theorem relock (h : s.Follows R) (a key : GoString) (l : RWLock) : (s.relock a key l).Follows R :=
  ⟨h.history, h.views, h.snapshots, h.threads⟩

theorem setNode (h : s.Follows R) (a : GoString) {node : Node} (hview : R.Holds s.etcd node.view)
    (hload : ∀ snapshot, node.watch = .loading snapshot → R.Holds s.etcd snapshot) :
    (s.setNode a node).Follows R := by
  refine ⟨h.history, fun b => ?_, fun b => ?_, h.threads⟩
  · by_cases hb : b = a
    · subst hb
      rw [nodes_setNode_self]
      exact hview
    · rw [nodes_setNode_of_ne s hb]
      exact h.views b
  · by_cases hb : b = a
    · subst hb
      rw [nodes_setNode_self]
      exact hload
    · rw [nodes_setNode_of_ne s hb]
      exact h.snapshots b

theorem goto (h : s.Follows R) (self : Nat) {a : GoString} {work : Work}
    (hwork : Thread.Follows R s.etcd ⟨a, work⟩) : (s.goto self a work).Follows R := by
  refine ⟨h.history, h.views, h.snapshots, fun th hth => ?_⟩
  rcases eq_or_mem_of_mem_set hth with rfl | hj
  · exact hwork
  · exact h.threads th hj

theorem spawn (h : s.Follows R) {th : Thread} (hth : th.Follows R s.etcd) :
    ({ s with threads := s.threads ++ [th] } : World).Follows R := by
  refine ⟨h.history, h.views, h.snapshots, fun other hother => ?_⟩
  rcases mem_concat_cases hother with hother | rfl
  · exact h.threads other hother
  · exact hth

theorem stores (h : s.Follows R) {self j : Nat} {a : GoString} {job : Job}
    {decided : ClusterState} {held : List GoString} {tasks : List Task} {task : Task}
    (hself : s.threads[self]? = some ⟨a, .operation job (.store decided held tasks)⟩)
    (hj : tasks[j]? = some task) :
    R.Holds s.etcd decided ∧ task.Follows R s.etcd job a decided := by
  obtain ⟨hdecided, htasks⟩ := h.threads _ (List.mem_of_getElem? hself) job _ rfl decided tasks rfl
  exact ⟨hdecided, htasks task (List.mem_of_getElem? hj)⟩

theorem step (h : s.Follows R) {label : Label} (hstep : s.step c label = some t) :
    t.Follows R := by
  have hmoving : ∀ {self : Nat} {th : Thread}, s.threads[self]? = some th →
      th.Follows R s.etcd := fun hself => h.threads _ (List.mem_of_getElem? hself)
  cases step_cases hstep with
  | environment hforeign => exact h.grow (R.foreign hforeign)
  | spawn hfresh => exact h.spawn (follows_of_fresh hfresh)
  | evict => exact h.setNode _ (h.views _) (h.snapshots _)
  | watch hcase =>
    cases hcase with
    | load =>
      refine h.setNode _ (h.views _) fun snapshot hload => ?_
      cases hload
      exact R.load _ h.history
    | install hwatch => exact h.setNode _ (h.snapshots _ _ hwatch) nofun
    | connect | disconnect => exact h.setNode _ (h.views _) nofun
    | deliver hwatch he =>
      obtain ⟨hw, rfl⟩ := Log.getElem?_feed.mp he
      exact h.setNode _ (R.event _ h.history (h.views _) hw) nofun
  | walk hself hwalks => exact h.goto _ (hwalks.follows (hmoving hself))
  | plan hself hplan =>
    rename_i self choice a job objectIDs plan firstSeen
    refine Follows.goto (h.setNode a ?_ ?_) self ?_
    · exact h.views a
    · exact h.snapshots a
    rcases afterPlan_planned job (s.nodes a).view plan with hnone | ⟨-, hsome⟩
    · exact follows_of_unplanned hnone
    · refine follows_of_planned hsome (h.views a) fun task htask => ?_
      obtain ⟨⟨shardID, info⟩, hentry, rfl⟩ := List.mem_map.mp htask
      exact ⟨R.plans hplan hentry, nofun⟩
  | lock hself hl =>
    obtain ⟨hdecided, htasks⟩ := hmoving hself _ _ rfl _ _ rfl
    exact (h.relock _ _ _).goto _ (follows_of_planned rfl hdecided htasks)
  | unlock => exact (h.relock _ _ _).goto _ (follows_of_unplanned rfl)
  | rlock | runlock => exact (h.relock _ _ _).goto _ follows_of_request
  | insert =>
    refine Follows.goto (h.setNode _ ?_ ?_) _ follows_of_request
    · exact h.views _
    · exact h.snapshots _
  | finish hself hj => exact h.goto _ (follows_of_setTask (hmoving hself) hj nofun)
  | commit hself hj hmod =>
    obtain ⟨hdecided, htask⟩ := h.stores hself hj
    refine (h.grow (R.stores h.history hdecided htask.plans)).goto _ ?_
    refine follows_of_setTask ((hmoving hself).concat _) hj fun rev hrev => ?_
    split at hrev
    · cases hrev
      exact Log.version_concat s.etcd _ _
    · contradiction
  | applyLocal hself hj hstate =>
    obtain ⟨hdecided, htask⟩ := h.stores hself hj
    refine Follows.goto (h.setNode _ ?_ ?_) _ (follows_of_setTask (hmoving hself) hj nofun)
    · exact R.applied h.history (h.views _) hdecided htask.plans (htask.committed _ hstate)
    · exact h.snapshots _

end Follows
end World
end Goverse.Consensus
