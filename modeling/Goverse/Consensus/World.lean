import Goverse.Lib.Machine
import Goverse.Lib.RWLock
import Goverse.Consensus.Planner

/-! A cluster: one etcd and, for every address, a node with its view, its watch, its object
map and its shard locks. Threads are the runs of the shard operations and the server
requests that create objects. Any node may run any operation at any time on the view it
has. -/
namespace Goverse.Consensus

open GoString Lib Sharding ClusterState

structure Node extends Member where
  stuckShardFirstSeen : List (Int × Int)
  objects : List GoString

/-- A transaction of `storeShardMapping`: not yet sent, committed and reported as such, or
at its end. -/
inductive TaskState where
  | waiting
  | committed (rev : Nat)
  | finished
  deriving DecidableEq, Repr

structure Task where
  shardID : Int
  info : ShardInfo
  state : TaskState
  deriving DecidableEq, Repr

/-- Where a shard operation is. `decided` is the view its plan was made on and `held` the
keys of the shard locks it has. -/
inductive Phase where
  | count
  | checkStable (objectIDs : List GoString)
  | plan (objectIDs : List GoString)
  | lock (decided : ClusterState) (held : List GoString) (todo : List Int) (tasks : List Task)
  | store (decided : ClusterState) (held : List GoString) (tasks : List Task)
  | unlock (held : List GoString)
  | done

/-- Where a `CreateObject`, `CallObject` or `ReliableCallObject` of the server is: before
`validateObjectShardOwnership`, before the shard lock of `createObject`, inside it, at its
deferred unlock. -/
inductive RequestPhase where
  | check | enter | create | leave | done
  deriving DecidableEq, Repr

inductive Work where
  | operation (job : Job) (phase : Phase)
  | request (objectID : GoString) (phase : RequestPhase)

structure Thread where
  node : GoString
  work : Work

structure World where
  etcd : Etcd
  nodes : GoString → Node
  locks : GoString × GoString → RWLock
  threads : List Thread

/-- What the surroundings decide at a thread's step: whether nothing else refuses it, the
clock, and the random numbers. -/
structure Choice where
  ok : Bool
  now : Int
  shuffled : List Int
  offset : Nat
  deriving DecidableEq, Repr

/-- A transaction that is committed may still be reported as an error. One that is reported as an
error and not committed by then is not committed later. -/
inductive TaskOutcome where
  | commit (reported : Bool)
  | fail
  | applyLocal
  deriving DecidableEq, Repr

inductive Label where
  | environment (w : Write GoString GoString)
  | watch (node : GoString) (event : WatchEvent)
  | operate (node : GoString) (job : Job)
  | request (node objectID : GoString)
  | thread (self : Nat) (choice : Choice)
  | task (self j : Nat) (outcome : TaskOutcome)
  | evict (node objectID : GoString)
  deriving DecidableEq, Repr

/-- Writes to keys other than the shards', by registrations, leases and elections. A node
registers under a clean address. -/
def Foreign (c : Config) (w : Write GoString GoString) : Prop :=
  hasPrefix w.key c.shardsPrefix = false ∧
    (hasPrefix w.key c.nodesPrefix = true → ∀ address ∈ w.value, CleanAddress address)

instance (c : Config) (w : Write GoString GoString) : Decidable (Foreign c w) := by
  unfold Foreign
  infer_instance

/-- A write of `storeShardMapping`. -/
def Stored (c : Config) (w : Write GoString GoString) : Prop :=
  ∃ shardID record, c.ValidShard shardID ∧ record.WellFormed ∧
    w = ⟨c.shardKey shardID, some (formatShardInfo record)⟩

/-- `AcquireWriteMultiple` is called by these two. -/
def Job.locks : Job → Bool
  | .claim | .release => true
  | .reassign | .reallocate | .rebalance => false

def Job.start (node : GoString) : Job → Phase
  | .claim => .checkStable []
  | .release => if node = [] then .done else .count
  | .reassign | .reallocate | .rebalance => .plan []

/-- The plan a job makes on its node, and the stuck shards the node then remembers. -/
def Job.plan (c : Config) (node : Node) (self : GoString) (objectIDs : List GoString)
    (choice : Choice) : Job → Option (Plan × List (Int × Int))
  | .claim => some (claimShardsForNode node.view self, node.stuckShardFirstSeen)
  | .release =>
    some (calcReleaseShardsForNode node.view self (localObjects c objectIDs),
      node.stuckShardFirstSeen)
  | .reassign =>
    (calcReassignShardTargetNodes c node.view choice.shuffled choice.offset).map
      (·, node.stuckShardFirstSeen)
  | .reallocate =>
    some (calcReallocateStuckShards c node.view node.stuckShardFirstSeen choice.now)
  | .rebalance => some (rebalanceShards c node.view, node.stuckShardFirstSeen)

namespace World

def setNode (s : World) (a : GoString) (node : Node) : World :=
  { s with nodes := Function.update s.nodes a node }

@[simp] theorem nodes_setNode_self (s : World) (a : GoString) (node : Node) :
    (s.setNode a node).nodes a = node := by
  simp only [setNode, Function.update_self]

@[simp] theorem nodes_setNode_of_ne (s : World) {a b : GoString} (h : b ≠ a) (node : Node) :
    (s.setNode a node).nodes b = s.nodes b := by
  simp only [setNode, Function.update_of_ne h]

def goto (s : World) (self : Nat) (a : GoString) (work : Work) : World :=
  { s with threads := s.threads.set self ⟨a, work⟩ }

def relock (s : World) (a key : GoString) (l : RWLock) : World :=
  { s with locks := Function.update s.locks (a, key) l }

/-- The first phase after a plan. -/
def afterPlan (job : Job) (view : ClusterState) (plan : Plan) : Phase :=
  let tasks := plan.map fun (shardID, info) => (⟨shardID, info, .waiting⟩ : Task)
  if plan = [] then .done
  else if job.locks then .lock view [] ((plan.map Prod.fst).insertionSort (· ≤ ·)) tasks
  else .store view [] tasks

def operationStep (c : Config) (s : World) (self : Nat) (a : GoString) (job : Job)
    (choice : Choice) : Phase → Option World
  | .count => some (s.goto self a (.operation job (.checkStable (s.nodes a).objects)))
  | .checkStable objectIDs =>
    some (s.goto self a (.operation job
      (if isStateStable c (s.nodes a).view a choice.now then .plan objectIDs else .done)))
  | .plan objectIDs =>
    (job.plan c (s.nodes a) a objectIDs choice).map fun (plan, firstSeen) =>
      (s.setNode a { s.nodes a with stuckShardFirstSeen := firstSeen }).goto self a
        (.operation job (afterPlan job (s.nodes a).view plan))
  | .lock decided held [] tasks =>
    some (s.goto self a (.operation job (.store decided held tasks)))
  | .lock decided held (shardID :: todo) tasks =>
    ((s.locks (a, shardLockKey shardID)).lock self).map fun l =>
      (s.relock a (shardLockKey shardID) l).goto self a
        (.operation job (.lock decided (shardLockKey shardID :: held) todo tasks))
  | .store _ held tasks =>
    if tasks.all fun task => match task.state with | .committed _ => false | _ => true then
      some (s.goto self a (.operation job (.unlock held)))
    else none
  | .unlock [] => some (s.goto self a (.operation job .done))
  | .unlock (key :: held) =>
    some ((s.relock a key (s.locks (a, key)).unlock).goto self a (.operation job (.unlock held)))
  | .done => none

def requestStep (c : Config) (s : World) (self : Nat) (a objectID : GoString) (ok : Bool) :
    RequestPhase → Option World
  | .check =>
    some (s.goto self a (.request objectID
      (if ok ∧ ((s.nodes a).view.getCurrentNodeForObject c objectID).toOption = some a then .enter
        else .done)))
  | .enter =>
    match acquireRead c.numShards objectID with
    | none => some (s.goto self a (.request objectID .create))
    | some key =>
      ((s.locks (a, key)).rlock self).map fun l =>
        (s.relock a key l).goto self a (.request objectID .create)
  | .create =>
    let node := s.nodes a
    if ok ∧ objectID ∉ node.objects then
      some ((s.setNode a { node with objects := objectID :: node.objects }).goto self a
        (.request objectID .leave))
    else some (s.goto self a (.request objectID .leave))
  | .leave =>
    match acquireRead c.numShards objectID with
    | none => some (s.goto self a (.request objectID .done))
    | some key =>
      some ((s.relock a key ((s.locks (a, key)).runlock self)).goto self a
        (.request objectID .done))
  | .done => none

def taskStep (c : Config) (s : World) (self : Nat) (a : GoString) (job : Job)
    (decided : ClusterState) (held : List GoString) (tasks : List Task) (j : Nat) (task : Task) :
    TaskState → TaskOutcome → Option World
  | .waiting, .commit reported =>
    match s.etcd.txn (c.shardKey task.shardID) task.info.modRevision
        (formatShardInfo task.info.toShardRecord) with
    | none =>
      some (s.goto self a (.operation job
        (.store decided held (tasks.set j { task with state := .finished }))))
    | some etcd =>
      some ({ s with etcd := etcd }.goto self a (.operation job (.store decided held
        (tasks.set j { task with
          state := if reported then .committed etcd.length else .finished }))))
  | .waiting, .fail =>
    some (s.goto self a (.operation job
      (.store decided held (tasks.set j { task with state := .finished }))))
  | .committed rev, .applyLocal =>
    some ((s.setNode a { s.nodes a with
        view := (s.nodes a).view.applyStored task.shardID task.info rev }).goto self a
      (.operation job (.store decided held (tasks.set j { task with state := .finished }))))
  | _, _ => none

def step (c : Config) (s : World) : Label → Option World
  | .environment w => if Foreign c w then some { s with etcd := s.etcd ++ [w] } else none
  | .operate a job =>
    some { s with threads := s.threads ++ [⟨a, .operation job (job.start a)⟩] }
  | .request a objectID =>
    some { s with threads := s.threads ++ [⟨a, .request objectID .check⟩] }
  | .thread self choice =>
    match s.threads[self]? with
    | none => none
    | some ⟨a, .operation job phase⟩ => s.operationStep c self a job choice phase
    | some ⟨a, .request objectID phase⟩ => s.requestStep c self a objectID choice.ok phase
  | .task self j outcome =>
    match s.threads[self]? with
    | some ⟨a, .operation job (.store decided held tasks)⟩ =>
      tasks[j]?.bind fun task =>
        s.taskStep c self a job decided held tasks j task task.state outcome
    | _ => none
  | .evict a objectID =>
    some (s.setNode a { s.nodes a with objects := (s.nodes a).objects.erase objectID })
  | .watch a event =>
    ((s.nodes a).toMember.step c (Etcd.source c s.etcd) event).map fun m =>
      s.setNode a { s.nodes a with toMember := m }

/-- Every node before its first load. -/
def start (etcd : Etcd) : World where
  etcd := etcd
  nodes := fun _ => ⟨⟨ClusterState.empty, .unloaded⟩, [], []⟩
  locks := fun _ => .free
  threads := []

def machine (c : Config) : Machine World Label where
  Init s := ∃ etcd, (∀ w ∈ etcd, Foreign c w ∨ Stored c w) ∧ s = start etcd
  step := step c

end World

/-! ### Everything a step can do -/

/-- A thread as it starts. -/
inductive Thread.Fresh : Thread → Prop
  | operation (a : GoString) (job : Job) : Thread.Fresh ⟨a, .operation job (job.start a)⟩
  | request (a objectID : GoString) : Thread.Fresh ⟨a, .request objectID .check⟩

/-- A step of a thread on node `a` that changes nothing but the thread. -/
inductive Walks (c : Config) (node : Node) (a : GoString) : Work → Work → Prop
  | count {job : Job} : Walks c node a (.operation job .count)
      (.operation job (.checkStable node.objects))
  | stable {job : Job} {objectIDs : List GoString} {now : Int}
      (hstable : isStateStable c node.view a now = true) :
      Walks c node a (.operation job (.checkStable objectIDs)) (.operation job (.plan objectIDs))
  | unstable {job : Job} {objectIDs : List GoString} :
      Walks c node a (.operation job (.checkStable objectIDs)) (.operation job .done)
  | locked {job : Job} {decided : ClusterState} {held : List GoString} {tasks : List Task} :
      Walks c node a (.operation job (.lock decided held [] tasks))
        (.operation job (.store decided held tasks))
  | stored {job : Job} {decided : ClusterState} {held : List GoString} {tasks : List Task} :
      Walks c node a (.operation job (.store decided held tasks)) (.operation job (.unlock held))
  | unlocked {job : Job} : Walks c node a (.operation job (.unlock [])) (.operation job .done)
  | checked {objectID : GoString}
      (hroute : (node.view.getCurrentNodeForObject c objectID).toOption = some a) :
      Walks c node a (.request objectID .check) (.request objectID .enter)
  | refused {objectID : GoString} :
      Walks c node a (.request objectID .check) (.request objectID .done)
  | entered {objectID : GoString} (hlock : acquireRead c.numShards objectID = none) :
      Walks c node a (.request objectID .enter) (.request objectID .create)
  | found {objectID : GoString} :
      Walks c node a (.request objectID .create) (.request objectID .leave)
  | left {objectID : GoString} (hlock : acquireRead c.numShards objectID = none) :
      Walks c node a (.request objectID .leave) (.request objectID .done)

namespace World

inductive StepCase (c : Config) (s : World) : Label → World → Prop
  | environment {w : Write GoString GoString} (hforeign : Foreign c w) :
      StepCase c s (.environment w) { s with etcd := s.etcd ++ [w] }
  | spawn {label : Label} {th : Thread} (hfresh : th.Fresh) :
      StepCase c s label { s with threads := s.threads ++ [th] }
  | evict {a objectID : GoString} : StepCase c s (.evict a objectID)
      (s.setNode a { s.nodes a with objects := (s.nodes a).objects.erase objectID })
  | watch {a : GoString} {event : WatchEvent} {m : Member}
      (hcase : (s.nodes a).toMember.StepCase c (Etcd.source c s.etcd) event m) :
      StepCase c s (.watch a event) (s.setNode a { s.nodes a with toMember := m })
  | walk {self : Nat} {choice : Choice} {a : GoString} {work work' : Work}
      (hself : s.threads[self]? = some ⟨a, work⟩) (hwalks : Walks c (s.nodes a) a work work') :
      StepCase c s (.thread self choice) (s.goto self a work')
  | plan {self : Nat} {choice : Choice} {a : GoString} {job : Job} {objectIDs : List GoString}
      {plan : Plan} {firstSeen : List (Int × Int)}
      (hself : s.threads[self]? = some ⟨a, .operation job (.plan objectIDs)⟩)
      (hplan : job.plan c (s.nodes a) a objectIDs choice = some (plan, firstSeen)) :
      StepCase c s (.thread self choice)
        ((s.setNode a { s.nodes a with stuckShardFirstSeen := firstSeen }).goto self a
          (.operation job (afterPlan job (s.nodes a).view plan)))
  | lock {self : Nat} {choice : Choice} {a : GoString} {job : Job} {decided : ClusterState}
      {held : List GoString} {shardID : Int} {todo : List Int} {tasks : List Task} {l : RWLock}
      (hself : s.threads[self]? =
        some ⟨a, .operation job (.lock decided held (shardID :: todo) tasks)⟩)
      (hl : (s.locks (a, shardLockKey shardID)).lock self = some l) :
      StepCase c s (.thread self choice) ((s.relock a (shardLockKey shardID) l).goto self a
        (.operation job (.lock decided (shardLockKey shardID :: held) todo tasks)))
  | unlock {self : Nat} {choice : Choice} {a : GoString} {job : Job} {key : GoString}
      {held : List GoString}
      (hself : s.threads[self]? = some ⟨a, .operation job (.unlock (key :: held))⟩) :
      StepCase c s (.thread self choice) ((s.relock a key (s.locks (a, key)).unlock).goto self a
        (.operation job (.unlock held)))
  | rlock {self : Nat} {choice : Choice} {a objectID key : GoString} {l : RWLock}
      (hself : s.threads[self]? = some ⟨a, .request objectID .enter⟩)
      (hlock : acquireRead c.numShards objectID = some key)
      (hl : (s.locks (a, key)).rlock self = some l) :
      StepCase c s (.thread self choice)
        ((s.relock a key l).goto self a (.request objectID .create))
  | runlock {self : Nat} {choice : Choice} {a objectID key : GoString}
      (hself : s.threads[self]? = some ⟨a, .request objectID .leave⟩)
      (hlock : acquireRead c.numShards objectID = some key) :
      StepCase c s (.thread self choice)
        ((s.relock a key ((s.locks (a, key)).runlock self)).goto self a (.request objectID .done))
  | insert {self : Nat} {choice : Choice} {a objectID : GoString}
      (hself : s.threads[self]? = some ⟨a, .request objectID .create⟩) :
      StepCase c s (.thread self choice)
        ((s.setNode a { s.nodes a with objects := objectID :: (s.nodes a).objects }).goto self a
          (.request objectID .leave))
  | finish {self j : Nat} {outcome : TaskOutcome} {a : GoString} {job : Job}
      {decided : ClusterState} {held : List GoString} {tasks : List Task} {task : Task}
      (hself : s.threads[self]? = some ⟨a, .operation job (.store decided held tasks)⟩)
      (hj : tasks[j]? = some task) :
      StepCase c s (.task self j outcome) (s.goto self a
        (.operation job (.store decided held (tasks.set j { task with state := .finished }))))
  | commit {self j : Nat} {reported : Bool} {a : GoString} {job : Job}
      {decided : ClusterState} {held : List GoString} {tasks : List Task} {task : Task}
      (hself : s.threads[self]? = some ⟨a, .operation job (.store decided held tasks)⟩)
      (hj : tasks[j]? = some task)
      (hmod : s.etcd.modRevision (c.shardKey task.shardID) = task.info.modRevision) :
      StepCase c s (.task self j (.commit reported))
        (World.goto { s with etcd := s.etcd ++
            [⟨c.shardKey task.shardID, some (formatShardInfo task.info.toShardRecord)⟩] } self a
          (.operation job (.store decided held (tasks.set j { task with
            state := if reported then .committed (s.etcd.length + 1) else .finished }))))
  | applyLocal {self j : Nat} {a : GoString} {job : Job} {decided : ClusterState}
      {held : List GoString} {tasks : List Task} {task : Task} {rev : Nat}
      (hself : s.threads[self]? = some ⟨a, .operation job (.store decided held tasks)⟩)
      (hj : tasks[j]? = some task) (hstate : task.state = .committed rev) :
      StepCase c s (.task self j .applyLocal)
        ((s.setNode a { s.nodes a with
          view := (s.nodes a).view.applyStored task.shardID task.info rev }).goto self a
        (.operation job (.store decided held (tasks.set j { task with state := .finished }))))

variable {c : Config} {s t : World}

theorem operationStep_cases {self : Nat} {a : GoString} {job : Job} {choice : Choice}
    {phase : Phase} (hself : s.threads[self]? = some ⟨a, .operation job phase⟩)
    (h : s.operationStep c self a job choice phase = some t) :
    StepCase c s (.thread self choice) t := by
  cases phase with
  | count =>
    cases h
    exact .walk hself .count
  | checkStable objectIDs =>
    rw [operationStep] at h
    split at h
    · rename_i hstable
      cases h
      exact .walk hself (.stable hstable)
    · cases h
      exact .walk hself .unstable
  | plan objectIDs =>
    obtain ⟨⟨plan, firstSeen⟩, hplan, rfl⟩ := Option.map_eq_some_iff.mp h
    exact .plan hself hplan
  | lock decided held todo tasks =>
    cases todo with
    | nil =>
      cases h
      exact .walk hself .locked
    | cons shardID todo =>
      obtain ⟨l, hl, rfl⟩ := Option.map_eq_some_iff.mp h
      exact .lock hself hl
  | store decided held tasks =>
    rw [operationStep] at h
    split at h
    · cases h
      exact .walk hself .stored
    · contradiction
  | unlock held =>
    cases held with
    | nil =>
      cases h
      exact .walk hself .unlocked
    | cons key held =>
      cases h
      exact .unlock hself
  | done => contradiction

theorem requestStep_cases {self : Nat} {a objectID : GoString} {choice : Choice}
    {phase : RequestPhase} (hself : s.threads[self]? = some ⟨a, .request objectID phase⟩)
    (h : s.requestStep c self a objectID choice.ok phase = some t) :
    StepCase c s (.thread self choice) t := by
  cases phase with
  | check =>
    rw [requestStep] at h
    split at h
    · rename_i hroute
      cases h
      exact .walk hself (.checked hroute.2)
    · cases h
      exact .walk hself .refused
  | enter =>
    rw [requestStep] at h
    split at h
    · rename_i hlock
      cases h
      exact .walk hself (.entered hlock)
    · rename_i key hlock
      obtain ⟨l, hl, rfl⟩ := Option.map_eq_some_iff.mp h
      exact .rlock hself hlock hl
  | create =>
    rw [requestStep] at h
    split at h
    · cases h
      exact .insert hself
    · cases h
      exact .walk hself .found
  | leave =>
    rw [requestStep] at h
    split at h
    · rename_i hlock
      cases h
      exact .walk hself (.left hlock)
    · rename_i key hlock
      cases h
      exact .runlock hself hlock
  | done => contradiction

theorem taskStep_cases {self j : Nat} {a : GoString} {job : Job} {decided : ClusterState}
    {held : List GoString} {tasks : List Task} {task : Task} {outcome : TaskOutcome}
    (hself : s.threads[self]? = some ⟨a, .operation job (.store decided held tasks)⟩)
    (hj : tasks[j]? = some task)
    (h : s.taskStep c self a job decided held tasks j task task.state outcome = some t) :
    StepCase c s (.task self j outcome) t := by
  unfold taskStep at h
  split at h
  · split at h
    · cases h
      exact .finish hself hj
    · rename_i etcd htxn
      cases h
      obtain ⟨hmod, rfl⟩ := Log.txn_eq_some htxn
      rw [List.length_append, List.length_singleton]
      exact .commit hself hj hmod
  · cases h
    exact .finish hself hj
  · rename_i rev hstate
    cases h
    exact .applyLocal hself hj hstate
  · contradiction

theorem step_cases {label : Label} (h : s.step c label = some t) : StepCase c s label t := by
  cases label with
  | environment w =>
    rw [World.step] at h
    split at h
    · rename_i hforeign
      cases h
      exact .environment hforeign
    · contradiction
  | operate a job =>
    cases h
    exact .spawn (.operation a job)
  | request a objectID =>
    cases h
    exact .spawn (.request a objectID)
  | evict a objectID =>
    cases h
    exact .evict
  | thread self choice =>
    rw [World.step] at h
    split at h
    · contradiction
    · rename_i hself
      exact operationStep_cases hself h
    · rename_i hself
      exact requestStep_cases hself h
  | task self j outcome =>
    rw [World.step] at h
    split at h
    · rename_i hself
      obtain ⟨task, hj, htask⟩ := Option.bind_eq_some_iff.mp h
      exact taskStep_cases hself hj htask
    · contradiction
  | watch a event =>
    obtain ⟨m, hm, rfl⟩ := Option.map_eq_some_iff.mp h
    exact .watch (Member.step_cases hm)

end World

/-! ### Plans -/

/-- The view an operation has planned on and the transactions it has planned. -/
def Phase.planned : Phase → Option (ClusterState × List Task)
  | .lock decided _ _ tasks | .store decided _ tasks => some (decided, tasks)
  | _ => none

/-- The thread's plan, made on the view `decided`. -/
def Thread.Decides (th : Thread) (job : Job) (decided : ClusterState) : Prop :=
  ∃ phase tasks, th.work = .operation job phase ∧ phase.planned = some (decided, tasks)

theorem not_decides_request {a objectID : GoString} {phase : RequestPhase} {job : Job}
    {decided : ClusterState} : ¬ Thread.Decides ⟨a, .request objectID phase⟩ job decided := by
  rintro ⟨_, _, hwork, -⟩
  contradiction

theorem not_decides_of_unplanned {a : GoString} {job job' : Job} {phase : Phase}
    {decided : ClusterState} (h : phase.planned = none) :
    ¬ Thread.Decides ⟨a, .operation job' phase⟩ job decided := by
  rintro ⟨_, _, hwork, hplanned⟩
  cases hwork
  rw [h] at hplanned
  contradiction

private theorem decides_of_planned {a : GoString} {job job' : Job} {phase : Phase}
    {decided view : ClusterState} {tasks : List Task}
    (hplanned : phase.planned = some (view, tasks))
    (h : Thread.Decides ⟨a, .operation job' phase⟩ job decided) : job' = job ∧ view = decided := by
  obtain ⟨_, _, hwork, hplanned'⟩ := h
  cases hwork
  rw [hplanned] at hplanned'
  cases hplanned'
  exact ⟨rfl, rfl⟩

theorem Thread.Fresh.not_decides {th : Thread} (h : th.Fresh) {job : Job}
    {decided : ClusterState} : ¬ th.Decides job decided := by
  cases h with
  | operation a job' =>
    apply not_decides_of_unplanned
    cases job' with
    | release =>
      rw [Job.start]
      split <;> rfl
    | _ => rfl
  | request a objectID => exact not_decides_request

namespace World

variable {c : Config} {s t : World}

theorem afterPlan_planned (job : Job) (view : ClusterState) (plan : Plan) :
    (afterPlan job view plan).planned = none ∨ (plan ≠ [] ∧ (afterPlan job view plan).planned =
      some (view, plan.map fun (shardID, info) => (⟨shardID, info, .waiting⟩ : Task))) := by
  unfold afterPlan
  dsimp only
  split
  · exact .inl rfl
  · rename_i hplan
    split
    · exact .inr ⟨hplan, rfl⟩
    · exact .inr ⟨hplan, rfl⟩

theorem step_decides {label : Label} (h : s.step c label = some t) {th : Thread}
    (hth : th ∈ t.threads) {job : Job} {decided : ClusterState}
    (hdecides : th.Decides job decided) :
    (∃ old ∈ s.threads, old.node = th.node ∧ old.Decides job decided) ∨
    (∃ self choice objectIDs plan firstSeen, label = .thread self choice ∧
      s.threads[self]? = some ⟨th.node, .operation job (.plan objectIDs)⟩ ∧
      job.plan c (s.nodes th.node) th.node objectIDs choice = some (plan, firstSeen) ∧
      plan ≠ [] ∧ decided = (s.nodes th.node).view) := by
  have hold : th ∈ s.threads →
      ∃ old ∈ s.threads, old.node = th.node ∧ old.Decides job decided :=
    fun hmem => ⟨th, hmem, rfl, hdecides⟩
  have hset : ∀ {self : Nat} {a : GoString} {work : Work}, th ∈ s.threads.set self ⟨a, work⟩ →
      th = ⟨a, work⟩ ∨ ∃ old ∈ s.threads, old.node = th.node ∧ old.Decides job decided := by
    intro self a work hmem
    rcases eq_or_mem_of_mem_set hmem with heq | hj
    · exact .inl heq
    · exact .inr (hold hj)
  have hsame : ∀ {self : Nat} {a : GoString} {job' : Job} {phase phase' : Phase}
      {view : ClusterState} {tasks tasks' : List Task},
      s.threads[self]? = some ⟨a, .operation job' phase⟩ →
      phase.planned = some (view, tasks) → phase'.planned = some (view, tasks') →
      th ∈ s.threads.set self ⟨a, .operation job' phase'⟩ →
      ∃ old ∈ s.threads, old.node = th.node ∧ old.Decides job decided := by
    intro self a job' phase phase' view tasks tasks' hself hphase hphase' hmem
    rcases hset hmem with rfl | hold
    · obtain ⟨rfl, rfl⟩ := decides_of_planned hphase' hdecides
      exact ⟨_, List.mem_of_getElem? hself, rfl, phase, tasks, rfl, hphase⟩
    · exact hold
  have hother : ∀ {self : Nat} {a : GoString} {work : Work}, th ∈ s.threads.set self ⟨a, work⟩ →
      ¬ Thread.Decides ⟨a, work⟩ job decided →
      ∃ old ∈ s.threads, old.node = th.node ∧ old.Decides job decided := by
    intro self a work hmem hnot
    rcases hset hmem with rfl | hold
    · exact absurd hdecides hnot
    · exact hold
  cases step_cases h with
  | environment | evict | watch => exact .inl (hold hth)
  | spawn hfresh =>
    rcases List.mem_append.mp hth with hmem | hlast
    · exact .inl (hold hmem)
    · rw [List.mem_singleton.mp hlast] at hdecides
      exact absurd hdecides hfresh.not_decides
  | walk hself hwalks =>
    cases hwalks with
    | locked => exact .inl (hsame hself rfl rfl hth)
    | count | stable | unstable | stored | unlocked =>
      exact .inl (hother hth (not_decides_of_unplanned rfl))
    | checked | refused | entered | found | left => exact .inl (hother hth not_decides_request)
  | plan hself hplan =>
    rename_i self choice a job' objectIDs plan firstSeen
    rcases hset hth with rfl | hold
    · rcases afterPlan_planned job' (s.nodes a).view plan with hnone | ⟨hne, hsome⟩
      · exact absurd hdecides (not_decides_of_unplanned hnone)
      · obtain ⟨rfl, rfl⟩ := decides_of_planned hsome hdecides
        exact .inr ⟨self, choice, objectIDs, plan, firstSeen, rfl, hself, hplan, hne, rfl⟩
    · exact .inl hold
  | lock hself => exact .inl (hsame hself rfl rfl hth)
  | unlock => exact .inl (hother hth (not_decides_of_unplanned rfl))
  | rlock | runlock | insert => exact .inl (hother hth not_decides_request)
  | finish hself | commit hself | applyLocal hself => exact .inl (hsame hself rfl rfl hth)

/-- A transaction that is committed at this step, with the operation it belongs to. -/
structure Commits (c : Config) (s t : World) (i j : Nat) (a : GoString) (job : Job)
    (decided : ClusterState) (task : Task) : Prop where
  thread : ∃ held tasks, s.threads[i]? = some ⟨a, .operation job (.store decided held tasks)⟩ ∧
    tasks[j]? = some task
  modRevision : s.etcd.modRevision (c.shardKey task.shardID) = task.info.modRevision
  etcd : t.etcd = s.etcd ++
    [⟨c.shardKey task.shardID, some (formatShardInfo task.info.toShardRecord)⟩]

inductive EtcdEffect (c : Config) (s t : World) : Label → Prop
  | same {label : Label} (etcd : t.etcd = s.etcd) : EtcdEffect c s t label
  | foreign {w : Write GoString GoString} (hforeign : Foreign c w)
      (etcd : t.etcd = s.etcd ++ [w]) : EtcdEffect c s t (.environment w)
  | commit {self j : Nat} {reported : Bool} {a : GoString} {job : Job} {decided : ClusterState}
      {task : Task} (hcommits : Commits c s t self j a job decided task) :
      EtcdEffect c s t (.task self j (.commit reported))

theorem step_etcd {label : Label} (h : s.step c label = some t) : EtcdEffect c s t label := by
  cases step_cases h with
  | environment hforeign => exact .foreign hforeign rfl
  | commit hself hj hmod => exact .commit ⟨⟨_, _, hself, hj⟩, hmod, rfl⟩
  | spawn | evict | watch | walk | plan | lock | unlock | rlock | runlock | insert | finish
  | applyLocal => exact .same rfl

end World
end Goverse.Consensus
