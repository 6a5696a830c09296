import Goverse.Consensus.World

/-! The shard locks of the nodes. A claim or a release has the write locks of all its shards
while it stores, and a request that creates an object has the read lock of the object's
shard, if the ID has one. -/
namespace Goverse.Consensus

open GoString Lib Sharding ClusterState

/-- The keys of the write locks a thread has. -/
def Thread.held (th : Thread) : List GoString :=
  match th.work with
  | .operation _ (.lock _ held _ _) | .operation _ (.store _ held _)
  | .operation _ (.unlock held) => held
  | _ => []

/-- The key of the read lock a thread has. -/
def Thread.shared (c : Config) (th : Thread) : Option GoString :=
  match th.work with
  | .request objectID .create | .request objectID .leave => acquireRead c.numShards objectID
  | _ => none

def Thread.holds (c : Config) (th : Thread) (key : GoString × GoString) : Option Mode :=
  if key.1 ≠ th.node then none
  else if key.2 ∈ th.held then some .exclusive
  else if th.shared c = some key.2 then some .shared
  else none

/-- An operation that locks its shards has, or is about to take, the lock of each of them. -/
def Thread.Covered (th : Thread) : Prop :=
  match th.work with
  | .operation _ (.lock _ held todo tasks) =>
    ∀ task ∈ tasks, shardLockKey task.shardID ∈ held ∨ task.shardID ∈ todo
  | .operation job (.store _ held tasks) =>
    job.locks = true → ∀ task ∈ tasks, shardLockKey task.shardID ∈ held
  | _ => True

variable {c : Config}

theorem Thread.Fresh.held {th : Thread} (h : th.Fresh) : th.held = [] := by
  cases h with
  | operation a job =>
    cases job with
    | release => by_cases ha : a = [] <;> simp [Thread.held, Job.start, ha]
    | _ => rfl
  | request => rfl

theorem Thread.Fresh.shared {th : Thread} (h : th.Fresh) : th.shared c = none := by
  cases h with
  | operation | request => rfl

theorem Thread.Fresh.covered {th : Thread} (h : th.Fresh) : th.Covered := by
  cases h with
  | operation a job =>
    cases job with
    | release => by_cases ha : a = [] <;> simp [Thread.Covered, Job.start, ha]
    | _ => trivial
  | request => trivial

theorem Thread.holds_eq_some_iff {th : Thread} {key : GoString × GoString} {mode : Mode} :
    th.holds c key = some mode ↔ key.1 = th.node ∧ ((mode = .exclusive ∧ key.2 ∈ th.held) ∨
      (mode = .shared ∧ key.2 ∉ th.held ∧ th.shared c = some key.2)) := by
  unfold Thread.holds
  by_cases hnode : key.1 = th.node
  · by_cases hheld : key.2 ∈ th.held
    · cases mode <;> simp [hnode, hheld]
    · by_cases hshared : th.shared c = some key.2
      · cases mode <;> simp [hnode, hheld, hshared]
      · cases mode <;> simp [hnode, hheld, hshared]
  · simp [hnode]

theorem Thread.holds_eq_none {th : Thread} (hheld : th.held = []) (hshared : th.shared c = none)
    (key : GoString × GoString) : th.holds c key = none := by
  simp [Thread.holds, hheld, hshared]

theorem Thread.holds_keep {th next : Thread} (hnode : next.node = th.node)
    (hheld : next.held = th.held)
    (hshared : next.shared c = th.shared c ∨ next.shared c = none) (key : GoString × GoString)
    (mode : Mode) (h : next.holds c key = some mode) : th.holds c key = some mode := by
  rw [Thread.holds_eq_some_iff, hnode, hheld] at h
  rw [Thread.holds_eq_some_iff]
  refine ⟨h.1, h.2.imp_right fun ⟨hmode, hnot, hkey⟩ => ⟨hmode, hnot, ?_⟩⟩
  rcases hshared with hsame | hnone
  · rw [← hsame]
    exact hkey
  · rw [hnone] at hkey
    contradiction

structure World.Locked (c : Config) (s : World) : Prop where
  disciplined : Disciplined s.locks (Thread.holds c) s.threads
  nodup : ∀ th ∈ s.threads, th.held.Nodup
  covered : ∀ th ∈ s.threads, th.Covered

namespace World

variable {s t : World}

theorem locked_start (etcd : Etcd) : (start etcd).Locked c :=
  ⟨fun i th key h => by simp [start] at h, fun th h => by simp [start] at h,
    fun th h => by simp [start] at h⟩

theorem Locked.set (h : s.Locked c) {locks : GoString × GoString → RWLock} {self : Nat}
    {next : Thread} (hdisciplined : Disciplined locks (Thread.holds c) (s.threads.set self next))
    (hnodup : next.held.Nodup) (hcovered : next.Covered) :
    Locked c { s with locks := locks, threads := s.threads.set self next } := by
  refine ⟨hdisciplined, fun th hth => ?_, fun th hth => ?_⟩
  · rcases eq_or_mem_of_mem_set hth with rfl | hj
    · exact hnodup
    · exact h.nodup th hj
  · rcases eq_or_mem_of_mem_set hth with rfl | hj
    · exact hcovered
    · exact h.covered th hj

theorem Locked.setNode (h : s.Locked c) (a : GoString) (node : Node) :
    (s.setNode a node).Locked c :=
  ⟨h.disciplined, h.nodup, h.covered⟩

theorem Locked.setEtcd (h : s.Locked c) (etcd : Etcd) : Locked c { s with etcd := etcd } :=
  ⟨h.disciplined, h.nodup, h.covered⟩

theorem Locked.goto (h : s.Locked c) {self : Nat} {a : GoString} {work work' : Work}
    (hself : s.threads[self]? = some ⟨a, work⟩)
    (hheld : Thread.held ⟨a, work'⟩ = Thread.held ⟨a, work⟩)
    (hshared : Thread.shared c ⟨a, work'⟩ = Thread.shared c ⟨a, work⟩ ∨
      Thread.shared c ⟨a, work'⟩ = none)
    (hcovered : Thread.Covered ⟨a, work'⟩) : (s.goto self a work').Locked c := by
  refine h.set ?_ ?_ hcovered
  · exact h.disciplined.move hself (Thread.holds_keep rfl hheld hshared)
  · rw [hheld]
    exact h.nodup _ (List.mem_of_getElem? hself)

theorem Walks.locks {node : Node} {a : GoString} {work work' : Work}
    (h : Walks c node a work work') : Thread.held ⟨a, work'⟩ = Thread.held ⟨a, work⟩ ∧
      (Thread.shared c ⟨a, work'⟩ = Thread.shared c ⟨a, work⟩ ∨
        Thread.shared c ⟨a, work'⟩ = none) := by
  cases h with
  | entered hlock => exact ⟨rfl, .inr hlock⟩
  | found => exact ⟨rfl, .inl rfl⟩
  | left => exact ⟨rfl, .inr rfl⟩
  | count | stable | unstable | locked | stored | unlocked | checked | refused =>
    exact ⟨rfl, .inr rfl⟩

theorem Walks.covered {node : Node} {a : GoString} {work work' : Work}
    (h : Walks c node a work work') (hold : Thread.Covered ⟨a, work⟩) :
    Thread.Covered ⟨a, work'⟩ := by
  cases h with
  | locked => exact fun _ task htask => (hold task htask).resolve_right (by simp)
  | count | stable | unstable | stored | unlocked | checked | refused | entered | found | left =>
    trivial

private theorem covered_setTask {a : GoString} {job : Job} {decided : ClusterState}
    {held : List GoString} {tasks : List Task} {j : Nat} {task : Task} {state : TaskState}
    (hj : tasks[j]? = some task)
    (h : Thread.Covered ⟨a, .operation job (.store decided held tasks)⟩) :
    Thread.Covered ⟨a, .operation job
      (.store decided held (tasks.set j { task with state := state }))⟩ := by
  intro hlocks other hother
  rcases eq_or_mem_of_mem_set hother with rfl | hi
  · exact h hlocks task (List.mem_of_getElem? hj)
  · exact h hlocks other hi

private theorem afterPlan_covered (a : GoString) (job : Job) (view : ClusterState) (plan : Plan) :
    Thread.Covered ⟨a, .operation job (afterPlan job view plan)⟩ := by
  unfold afterPlan
  dsimp only
  split
  · trivial
  · split
    · intro task htask
      obtain ⟨⟨shardID, info⟩, hentry, rfl⟩ := List.mem_map.mp htask
      exact .inr ((List.mem_insertionSort _).mpr (List.mem_map.mpr ⟨_, hentry, rfl⟩))
    · rename_i hlocks
      exact fun hjob => absurd hjob hlocks

@[simp] theorem afterPlan_held (a : GoString) (job : Job) (view : ClusterState) (plan : Plan) :
    Thread.held ⟨a, .operation job (afterPlan job view plan)⟩ = [] := by
  unfold afterPlan
  dsimp only
  split
  · rfl
  · split <;> rfl

theorem Locked.spawn (h : s.Locked c) {th : Thread} (hfresh : th.Fresh) :
    Locked c { s with threads := s.threads ++ [th] } := by
  constructor
  case disciplined =>
    exact h.disciplined.spawn fun key => Thread.holds_eq_none hfresh.held hfresh.shared key
  case nodup =>
    intro th' hth
    rcases List.mem_append.mp hth with hth | hth
    · exact h.nodup th' hth
    · rw [List.mem_singleton.mp hth, hfresh.held]
      exact List.nodup_nil
  case covered =>
    intro th' hth
    rcases mem_concat_cases hth with hth | rfl
    · exact h.covered th' hth
    · exact hfresh.covered

/-- A thread takes the lock of the next shard: nobody has it, not even the thread itself. -/
theorem Locked.lock (h : s.Locked c) {self : Nat} {a : GoString} {job : Job}
    {decided : ClusterState} {held : List GoString} {shardID : Int} {todo : List Int}
    {tasks : List Task} {l : RWLock}
    (hself : s.threads[self]? =
      some ⟨a, .operation job (.lock decided held (shardID :: todo) tasks)⟩)
    (hl : (s.locks (a, shardLockKey shardID)).lock self = some l) :
    ((s.relock a (shardLockKey shardID) l).goto self a
      (.operation job (.lock decided (shardLockKey shardID :: held) todo tasks))).Locked c := by
  have hth := List.mem_of_getElem? hself
  have hnot : shardLockKey shardID ∉ held := by
    intro hmem
    have hwriter := (h.disciplined self _ (a, shardLockKey shardID) hself).1
      (Thread.holds_eq_some_iff.mpr ⟨rfl, .inl ⟨rfl, hmem⟩⟩)
    simp [RWLock.lock, hwriter] at hl
  refine h.set (h.disciplined.lock hself hl ?_ ?_) ?_ ?_
  · exact Thread.holds_eq_some_iff.mpr ⟨rfl, .inl ⟨rfl, List.mem_cons_self⟩⟩
  · rintro ⟨b, key⟩ mode hne hholds
    obtain ⟨rfl, ⟨rfl, hmem⟩ | ⟨-, -, hshared⟩⟩ := Thread.holds_eq_some_iff.mp hholds
    · rcases List.mem_cons.mp hmem with rfl | hmem
      · exact absurd rfl hne
      · exact Thread.holds_eq_some_iff.mpr ⟨rfl, .inl ⟨rfl, hmem⟩⟩
    · contradiction
  · exact List.nodup_cons.mpr ⟨hnot, h.nodup _ hth⟩
  · intro task htask
    rcases h.covered _ hth task htask with hheld | htodo
    · exact .inl (List.mem_cons_of_mem _ hheld)
    · rcases List.mem_cons.mp htodo with heq | htodo
      · exact .inl (by rw [heq]; exact List.mem_cons_self)
      · exact .inr htodo

theorem Locked.unlock (h : s.Locked c) {self : Nat} {a : GoString} {job : Job} {key : GoString}
    {held : List GoString}
    (hself : s.threads[self]? = some ⟨a, .operation job (.unlock (key :: held))⟩) :
    ((s.relock a key (s.locks (a, key)).unlock).goto self a
      (.operation job (.unlock held))).Locked c := by
  obtain ⟨hnot, hnodup⟩ := List.nodup_cons.mp (h.nodup _ (List.mem_of_getElem? hself))
  refine h.set (h.disciplined.unlock hself ?_ ?_ ?_) hnodup trivial
  · exact Thread.holds_eq_some_iff.mpr ⟨rfl, .inl ⟨rfl, List.mem_cons_self⟩⟩
  · simpa [Thread.holds, Thread.held, Thread.shared] using hnot
  · rintro ⟨b, key'⟩ mode hne hholds
    obtain ⟨rfl, ⟨rfl, hmem⟩ | ⟨-, -, hshared⟩⟩ := Thread.holds_eq_some_iff.mp hholds
    · exact Thread.holds_eq_some_iff.mpr ⟨rfl, .inl ⟨rfl, List.mem_cons_of_mem _ hmem⟩⟩
    · contradiction

theorem Locked.step (h : s.Locked c) {label : Label} (hstep : s.step c label = some t) :
    t.Locked c := by
  have hcovered : ∀ {self : Nat} {th : Thread}, s.threads[self]? = some th → th.Covered :=
    fun hself => h.covered _ (List.mem_of_getElem? hself)
  cases step_cases hstep with
  | environment => exact h.setEtcd _
  | evict | watch => exact h.setNode _ _
  | spawn hfresh => exact h.spawn hfresh
  | walk hself hwalks =>
    have hlocks := Walks.locks hwalks
    exact h.goto hself hlocks.1 hlocks.2 (Walks.covered hwalks (hcovered hself))
  | plan hself hplan =>
    refine (h.setNode _ _).goto hself ?_ (.inr ?_) ?_
    · exact afterPlan_held _ _ _ _
    · rfl
    · exact afterPlan_covered _ _ _ _
  | lock hself hl => exact h.lock hself hl
  | unlock hself => exact h.unlock hself
  | rlock hself hlock hl =>
    refine h.set (h.disciplined.rlock hself hl ?_ ?_) List.nodup_nil trivial
    · exact Thread.holds_eq_some_iff.mpr ⟨rfl, .inr ⟨rfl, List.not_mem_nil, hlock⟩⟩
    · rintro ⟨b, key'⟩ mode hne hholds
      obtain ⟨rfl, ⟨-, hmem⟩ | ⟨-, -, hshared⟩⟩ := Thread.holds_eq_some_iff.mp hholds
      · contradiction
      · cases hlock.symm.trans hshared
        exact absurd rfl hne
  | runlock hself hlock =>
    refine h.set (h.disciplined.runlock hself (Thread.holds_eq_none rfl rfl _) ?_)
      List.nodup_nil trivial
    intro key' mode _ hholds
    rw [Thread.holds_eq_none rfl rfl] at hholds
    contradiction
  | insert hself =>
    refine (h.setNode _ _).goto hself ?_ (.inl ?_) ?_
    · rfl
    · rfl
    · trivial
  | finish hself hj => exact h.goto hself rfl (.inr rfl) (covered_setTask hj (hcovered hself))
  | commit hself hj =>
    refine (h.setEtcd _).goto hself ?_ (.inr ?_) ?_
    · rfl
    · rfl
    · exact covered_setTask hj (hcovered hself)
  | applyLocal hself hj =>
    refine (h.setNode _ _).goto hself ?_ (.inr ?_) ?_
    · rfl
    · rfl
    · exact covered_setTask hj (hcovered hself)

end World
end Goverse.Consensus
