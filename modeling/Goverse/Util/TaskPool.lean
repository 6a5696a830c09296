import Goverse.Lib.Machine
import Goverse.Lib.Threads
import Goverse.Sharding.ObjectId

/-! `taskpool.TaskPool` with any number of submitters and any number of calls of `Stop`. A job is
queued on the worker that its key is hashed to. The `select`s of `enqueueJob` and of a worker are a
step for each of their ready cases. -/
namespace Goverse.Util

open Lib Sharding

namespace TaskPool

/-- A job is named by the call that has submitted it. One without a key comes from `Submit`. -/
structure Job where
  id : Nat
  key : Option GoString
  deriving DecidableEq, Repr

inductive WorkerPc where
  | unstarted
  | idle
  | running (job : Job)
  | exited
  deriving DecidableEq, Repr

/-- `jobs` is the buffer of the worker's channel, which is never closed. -/
structure Worker where
  jobs : List Job
  pc : WorkerPc
  deriving DecidableEq, Repr

/-- The worker's wait group counts its goroutine from `Start` to its return. -/
def Worker.counted (w : Worker) : Bool :=
  match w.pc with
  | .idle | .running _ => true
  | .unstarted | .exited => false

/-- Where a call of `enqueueJob` is: before it reads `stopped`, at its `select`, and after it. -/
inductive Submission where
  | check (worker : Nat) (job : Job)
  | select (worker : Nat) (job : Job)
  | returned
  deriving DecidableEq, Repr

/-- The job that a call may still queue, and the worker. -/
def Submission.pending : Submission → Option (Nat × Job)
  | .check worker job | .select worker job => some (worker, job)
  | .returned => none

/-- Where a call of `Stop` is. At `wait` it waits for the given worker. -/
inductive StopPc where
  | lock
  | cancel
  | wait (worker : Nat)
  | returned
  deriving DecidableEq, Repr

/-- The `Bool` of a `select` tells whether the case of the jobs' channel is taken. -/
inductive Label where
  | start
  | submit
  | submitByKey (key : GoString)
  | enqueue (i : Nat) (send : Bool)
  | worker (j : Nat) (receive : Bool)
  | stop
  | stopper (k : Nat)
  deriving DecidableEq, Repr

end TaskPool

/-- `started` is the index that the loop of `Start` has come to. `accepted` and `begun` are the jobs
that were queued and that were taken up so far, each with its worker. -/
structure TaskPool where
  workers : List TaskPool.Worker
  cancelled : Bool
  stopped : Bool
  nextWorker : UInt32
  started : Nat
  submissions : List TaskPool.Submission
  stops : List TaskPool.StopPc
  accepted : List (Nat × TaskPool.Job)
  begun : List (Nat × TaskPool.Job)
  deriving DecidableEq, Repr

namespace TaskPool

def jobBuffer : Nat := 100

/-- `int(val % uint32(tp.numWorkers))`, which panics if the divisor is 0. -/
def workerIndex (numWorkers : Nat) (val : UInt32) : Option Nat :=
  if numWorkers % 2 ^ 32 = 0 then none else some (val.toNat % (numWorkers % 2 ^ 32))

def hashKey (s : TaskPool) (key : GoString) : Option Nat :=
  workerIndex s.workers.length (fnv32a key)

/-- `atomic.AddUint32` returns the new value. -/
def nextWorkerIndex (s : TaskPool) : Option Nat :=
  workerIndex s.workers.length (s.nextWorker + 1 - 1)

def newTaskPool (numWorkers : Int) : TaskPool where
  workers := List.replicate (if numWorkers ≤ 0 then 1 else numWorkers.toNat) ⟨[], .unstarted⟩
  cancelled := false
  stopped := false
  nextWorker := 0
  started := 0
  submissions := []
  stops := []
  accepted := []
  begun := []

def goto (s : TaskPool) (i : Nat) (pc : Submission) : TaskPool :=
  { s with submissions := s.submissions.set i pc }

def gotoStop (s : TaskPool) (k : Nat) (pc : StopPc) : TaskPool :=
  { s with stops := s.stops.set k pc }

def setWorker (s : TaskPool) (j : Nat) (w : Worker) : TaskPool :=
  { s with workers := s.workers.set j w }

/-- A call of `enqueueJob` begins. -/
def enqueueJob (s : TaskPool) (key : Option GoString) (worker : Nat) : TaskPool :=
  { s with submissions := s.submissions ++ [.check worker ⟨s.submissions.length, key⟩] }

def enqueueStep (s : TaskPool) (i : Nat) (send : Bool) : Submission → Option TaskPool
  | .check worker job => some (s.goto i (if s.stopped then .returned else .select worker job))
  | .select worker job =>
    if send then
      s.workers[worker]?.bind fun w =>
        if w.jobs.length < jobBuffer then
          some ({ s.setWorker worker { w with jobs := w.jobs ++ [job] } with
            accepted := s.accepted ++ [(worker, job)] }.goto i .returned)
        else none
    else if s.cancelled then some (s.goto i .returned) else none
  | .returned => none

def workerStep (s : TaskPool) (j : Nat) (receive : Bool) (w : Worker) : Option TaskPool :=
  match w.pc with
  | .unstarted | .exited => none
  | .idle =>
    if receive then
      match w.jobs with
      | [] => none
      | job :: rest => some { s.setWorker j ⟨rest, .running job⟩ with
          begun := s.begun ++ [(j, job)] }
    else if s.cancelled then some (s.setWorker j { w with pc := .exited }) else none
  | .running _ => some (s.setWorker j { w with pc := .idle })

def stopStep (s : TaskPool) (k : Nat) : StopPc → Option TaskPool
  | .lock => some ({ s with stopped := true }.gotoStop k .cancel)
  | .cancel => some ({ s with cancelled := true }.gotoStop k (.wait 0))
  | .wait j =>
    match s.workers[j]? with
    | none => some (s.gotoStop k .returned)
    | some w => if w.counted then none else some (s.gotoStop k (.wait (j + 1)))
  | .returned => none

def step (s : TaskPool) : Label → Option TaskPool
  | .start =>
    s.workers[s.started]?.map fun w =>
      { s.setWorker s.started { w with pc := .idle } with started := s.started + 1 }
  | .submit =>
    s.nextWorkerIndex.map fun worker =>
      { s.enqueueJob none worker with nextWorker := s.nextWorker + 1 }
  | .submitByKey key => (s.hashKey key).map (s.enqueueJob (some key))
  | .enqueue i send => s.submissions[i]?.bind (s.enqueueStep i send)
  | .worker j receive => s.workers[j]?.bind (s.workerStep j receive)
  | .stop => some { s with stops := s.stops ++ [.lock] }
  | .stopper k => s.stops[k]?.bind (s.stopStep k)

/-- `Start` is called once: its loop starts each worker once. -/
def machine (numWorkers : Int) : Machine TaskPool Label where
  Init s := s = newTaskPool numWorkers
  step := step

/-- `Stop` is called on a pool that has been started. -/
def Started (s : TaskPool) : Label → Prop
  | .stop => s.started = s.workers.length
  | _ => True

instance (s : TaskPool) : (l : Label) → Decidable (Started s l)
  | .stop => inferInstanceAs (Decidable (s.started = s.workers.length))
  | .start | .submit | .submitByKey _ | .enqueue .. | .worker .. | .stopper _ => isTrue trivial

variable {s t : TaskPool}

/-- What a step can do. -/
inductive StepCase (s : TaskPool) : Label → TaskPool → Prop
  | start {w : Worker} (hw : s.workers[s.started]? = some w) : StepCase s .start
      { s.setWorker s.started { w with pc := .idle } with started := s.started + 1 }
  | submit {l : Label} {key : Option GoString} {worker : Nat} {nextWorker : UInt32}
      (hhome : ∀ k, key = some k → s.hashKey k = some worker) :
      StepCase s l { s.enqueueJob key worker with nextWorker := nextWorker }
  | check {l : Label} {i worker : Nat} {job : Job}
      (hi : s.submissions[i]? = some (.check worker job)) (hrunning : s.stopped = false) :
      StepCase s l (s.goto i (.select worker job))
  | reject {l : Label} {i : Nat} {pc : Submission} (hi : s.submissions[i]? = some pc) :
      StepCase s l (s.goto i .returned)
  | accept {l : Label} {i worker : Nat} {job : Job} {w : Worker}
      (hi : s.submissions[i]? = some (.select worker job)) (hw : s.workers[worker]? = some w)
      (hroom : w.jobs.length < jobBuffer) :
      StepCase s l ({ s.setWorker worker { w with jobs := w.jobs ++ [job] } with
        accepted := s.accepted ++ [(worker, job)] }.goto i .returned)
  | begin {l : Label} {j : Nat} {job : Job} {rest : List Job}
      (hj : s.workers[j]? = some ⟨job :: rest, .idle⟩) :
      StepCase s l { s.setWorker j ⟨rest, .running job⟩ with begun := s.begun ++ [(j, job)] }
  | exit {l : Label} {j : Nat} {w : Worker} (hj : s.workers[j]? = some w) (hidle : w.pc = .idle)
      (hcancelled : s.cancelled = true) : StepCase s l (s.setWorker j { w with pc := .exited })
  | finish {l : Label} {j : Nat} {w : Worker} {job : Job} (hj : s.workers[j]? = some w)
      (hrunning : w.pc = .running job) : StepCase s l (s.setWorker j { w with pc := .idle })
  | stop : StepCase s .stop { s with stops := s.stops ++ [.lock] }
  | lock {k : Nat} (hk : s.stops[k]? = some .lock) :
      StepCase s (.stopper k) ({ s with stopped := true }.gotoStop k .cancel)
  | cancel {k : Nat} (hk : s.stops[k]? = some .cancel) :
      StepCase s (.stopper k) ({ s with cancelled := true }.gotoStop k (.wait 0))
  | wait {k j : Nat} {w : Worker} (hk : s.stops[k]? = some (.wait j))
      (hj : s.workers[j]? = some w) (hleft : w.counted = false) :
      StepCase s (.stopper k) (s.gotoStop k (.wait (j + 1)))
  | stopped {k j : Nat} (hk : s.stops[k]? = some (.wait j)) (hj : s.workers[j]? = none) :
      StepCase s (.stopper k) (s.gotoStop k .returned)

theorem enqueueStep_cases {i : Nat} {send : Bool} {pc : Submission} {l : Label}
    (hi : s.submissions[i]? = some pc) (h : s.enqueueStep i send pc = some t) :
    StepCase s l t := by
  cases pc with
  | check worker job =>
    cases h
    split
    · exact .reject hi
    · rename_i hrunning
      exact .check hi (Bool.eq_false_iff.mpr hrunning)
  | select worker job =>
    rw [enqueueStep] at h
    split at h
    · obtain ⟨w, hw, h⟩ := Option.bind_eq_some_iff.mp h
      split at h
      · rename_i hroom
        cases h
        exact .accept hi hw hroom
      · contradiction
    · split at h
      · cases h
        exact .reject hi
      · contradiction
  | returned => contradiction

theorem workerStep_cases {j : Nat} {receive : Bool} {w : Worker} {l : Label}
    (hj : s.workers[j]? = some w) (h : s.workerStep j receive w = some t) : StepCase s l t := by
  obtain ⟨jobs, pc⟩ := w
  cases pc with
  | unstarted | exited => contradiction
  | idle =>
    dsimp only [workerStep] at h
    split at h
    · cases jobs with
      | nil => contradiction
      | cons job rest =>
        cases h
        exact .begin hj
    · split at h
      · rename_i hcancelled
        cases h
        exact .exit hj rfl hcancelled
      · contradiction
  | running job =>
    cases h
    exact .finish hj rfl

theorem stopStep_cases {k : Nat} {pc : StopPc} (hk : s.stops[k]? = some pc)
    (h : s.stopStep k pc = some t) : StepCase s (.stopper k) t := by
  cases pc with
  | lock =>
    cases h
    exact .lock hk
  | cancel =>
    cases h
    exact .cancel hk
  | wait j =>
    rw [stopStep] at h
    split at h
    · rename_i hj
      cases h
      exact .stopped hk hj
    · rename_i w hj
      split at h
      · contradiction
      · rename_i hleft
        cases h
        exact .wait hk hj (Bool.eq_false_iff.mpr hleft)
  | returned => contradiction

theorem step_cases {l : Label} (h : s.step l = some t) : StepCase s l t := by
  cases l with
  | start =>
    obtain ⟨w, hw, rfl⟩ := Option.map_eq_some_iff.mp h
    exact .start hw
  | submit =>
    obtain ⟨worker, -, rfl⟩ := Option.map_eq_some_iff.mp h
    exact .submit nofun
  | submitByKey key =>
    obtain ⟨worker, hworker, rfl⟩ := Option.map_eq_some_iff.mp h
    refine .submit ?_
    rintro k ⟨⟩
    exact hworker
  | enqueue i send =>
    obtain ⟨pc, hi, h⟩ := Option.bind_eq_some_iff.mp h
    exact enqueueStep_cases hi h
  | worker j receive =>
    obtain ⟨w, hj, h⟩ := Option.bind_eq_some_iff.mp h
    exact workerStep_cases hj h
  | stop =>
    cases h
    exact .stop
  | stopper k =>
    obtain ⟨pc, hk, h⟩ := Option.bind_eq_some_iff.mp h
    exact stopStep_cases hk h

/-- The jobs of one worker in a log. -/
def jobsOf (log : List (Nat × Job)) (j : Nat) : List Job :=
  (log.filter fun entry => entry.1 = j).map (·.2)

/-- The jobs that wait in the channel of a worker. -/
def queued (s : TaskPool) (j : Nat) : List Job := (s.workers[j]?.map (·.jobs)).getD []

def Runs (s : TaskPool) (j : Nat) (job : Job) : Prop :=
  ∃ w, s.workers[j]? = some w ∧ w.pc = .running job

@[simp] theorem jobsOf_concat (log : List (Nat × Job)) (worker j : Nat) (job : Job) :
    jobsOf (log ++ [(worker, job)]) j = jobsOf log j ++ if worker = j then [job] else [] := by
  by_cases hj : worker = j
  · simp [jobsOf, hj]
  · simp [jobsOf, hj]

@[simp] theorem mem_jobsOf {log : List (Nat × Job)} {j : Nat} {job : Job} :
    job ∈ jobsOf log j ↔ (j, job) ∈ log := by
  constructor
  · intro h
    obtain ⟨⟨worker, job'⟩, hmem, rfl⟩ := List.mem_map.mp h
    obtain ⟨hlog, hworker⟩ := List.mem_filter.mp hmem
    cases of_decide_eq_true hworker
    exact hlog
  · intro h
    exact List.mem_map.mpr ⟨(j, job), List.mem_filter.mpr ⟨h, by simp⟩, rfl⟩

theorem queued_setWorker {j : Nat} {w : Worker} (hj : s.workers[j]? = some w) (next : Worker)
    (i : Nat) : (s.setWorker j next).queued i = if j = i then next.jobs else s.queued i := by
  unfold queued setWorker
  split
  · rename_i heq
    subst heq
    rw [getElem?_set_same hj]
    rfl
  · rename_i hne
    rw [List.getElem?_set_ne hne]

/-- How the jobs flow through the pool. -/
structure Flowing (s : TaskPool) : Prop where
  /-- Each worker takes its jobs up in the order in which they were queued. -/
  flow : ∀ j, jobsOf s.accepted j = jobsOf s.begun j ++ s.queued j
  home : ∀ entry ∈ s.accepted, ∀ key, entry.2.key = some key → s.hashKey key = some entry.1
  named : ∀ (i : Nat) (pc : Submission) (entry : Nat × Job), s.submissions[i]? = some pc →
    pc.pending = some entry → entry.2.id = i ∧
      ∀ key, entry.2.key = some key → s.hashKey key = some entry.1
  settled : ∀ entry ∈ s.accepted, s.submissions[entry.2.id]? = some .returned
  once : (s.accepted.map (·.2.id)).Nodup
  running : ∀ j job, s.Runs j job → (j, job) ∈ s.begun

@[simp] theorem hashKey_setWorker (j : Nat) (w : Worker) (key : GoString) :
    (s.setWorker j w).hashKey key = s.hashKey key := by
  simp [hashKey, setWorker]

theorem flowing_new (numWorkers : Int) : (newTaskPool numWorkers).Flowing := by
  have hfresh : ∀ {j : Nat} {w : Worker}, (newTaskPool numWorkers).workers[j]? = some w →
      w = ⟨[], .unstarted⟩ := fun hj => List.eq_of_mem_replicate (List.mem_of_getElem? hj)
  constructor
  case flow =>
    intro j
    cases hj : (newTaskPool numWorkers).workers[j]? with
    | none =>
      rw [queued, hj]
      rfl
    | some w =>
      rw [queued, hj, hfresh hj]
      rfl
  case running =>
    rintro j job ⟨w, hj, hrunning⟩
    rw [hfresh hj] at hrunning
    contradiction
  case once => exact List.nodup_nil
  all_goals nofun

theorem Flowing.submit (h : s.Flowing) {key : Option GoString} {worker : Nat}
    (hhome : ∀ k, key = some k → s.hashKey k = some worker) (nextWorker : UInt32) :
    Flowing { s.enqueueJob key worker with nextWorker := nextWorker } := by
  constructor
  case flow => exact h.flow
  case home => exact h.home
  case named =>
    intro i pc entry hi hpending
    rcases getElem?_concat_cases hi with ⟨rfl, rfl⟩ | hi
    · cases hpending
      exact ⟨rfl, hhome⟩
    · exact h.named i pc entry hi hpending
  case settled =>
    intro entry hentry
    have hold := h.settled entry hentry
    rw [← hold]
    exact List.getElem?_append_left (List.getElem?_eq_some_iff.mp hold).1
  case once => exact h.once
  case running => exact h.running

theorem Flowing.goto (h : s.Flowing) {i : Nat} {pc next : Submission}
    (hi : s.submissions[i]? = some pc)
    (hnext : next = .returned ∨ pc ≠ .returned ∧ next.pending = pc.pending) :
    (s.goto i next).Flowing := by
  constructor
  case flow => exact h.flow
  case home => exact h.home
  case named =>
    intro k pc' entry hk hpending
    rcases getElem?_set_cases hk with ⟨rfl, rfl⟩ | ⟨-, hk⟩
    · rcases hnext with rfl | ⟨-, hsame⟩
      · contradiction
      · exact h.named k pc entry hi (hsame ▸ hpending)
    · exact h.named k pc' entry hk hpending
  case settled =>
    intro entry hentry
    have hold := h.settled entry hentry
    by_cases hk : entry.2.id = i
    · rw [hk, hi] at hold
      rcases hnext with rfl | ⟨hpc, -⟩
      · rw [hk]
        exact getElem?_set_same hi
      · exact absurd (Option.some.inj hold) hpc
    · rw [← hold]
      exact List.getElem?_set_ne (Ne.symm hk)
  case once => exact h.once
  case running => exact h.running

theorem runs_setWorker {j i : Nat} {next : Worker} {job : Job}
    (h : (s.setWorker j next).Runs i job) :
    (i = j ∧ next.pc = .running job) ∨ s.Runs i job := by
  obtain ⟨w, hw, hrunning⟩ := h
  rcases getElem?_set_cases hw with ⟨rfl, rfl⟩ | ⟨-, hw⟩
  · exact .inl ⟨rfl, hrunning⟩
  · exact .inr ⟨w, hw, hrunning⟩

theorem Flowing.setPc (h : s.Flowing) {j : Nat} {w : Worker} (hj : s.workers[j]? = some w)
    (pc : WorkerPc) (hpc : ∀ job, pc ≠ .running job) :
    (s.setWorker j { w with pc := pc }).Flowing := by
  constructor
  case flow =>
    intro i
    rw [queued_setWorker hj]
    split
    · rename_i hij
      subst hij
      have hflow := h.flow j
      rw [queued, hj] at hflow
      exact hflow
    · exact h.flow i
  case home =>
    intro entry hentry key hkey
    rw [hashKey_setWorker]
    exact h.home entry hentry key hkey
  case named =>
    intro i pc entry hi hpending
    obtain ⟨hid, hhome⟩ := h.named i pc entry hi hpending
    refine ⟨hid, fun key hkey => ?_⟩
    rw [hashKey_setWorker]
    exact hhome key hkey
  case settled => exact h.settled
  case once => exact h.once
  case running =>
    intro i job hruns
    rcases runs_setWorker hruns with ⟨-, hrunning⟩ | hruns
    · exact absurd hrunning (hpc job)
    · exact h.running i job hruns

theorem Flowing.accept (h : s.Flowing) {i worker : Nat} {job : Job} {w : Worker}
    (hi : s.submissions[i]? = some (.select worker job)) (hw : s.workers[worker]? = some w) :
    Flowing ({ s.setWorker worker { w with jobs := w.jobs ++ [job] } with
      accepted := s.accepted ++ [(worker, job)] }.goto i .returned) := by
  obtain ⟨hid, hhome⟩ := h.named i _ _ hi rfl
  have hreturned := (h.goto hi (.inl rfl)).settled
  constructor
  case flow =>
    intro j
    have hflow := h.flow j
    change jobsOf (s.accepted ++ [(worker, job)]) j =
      jobsOf s.begun j ++ (s.setWorker worker { w with jobs := w.jobs ++ [job] }).queued j
    rw [jobsOf_concat, queued_setWorker hw, hflow, List.append_assoc]
    split
    · rename_i hj
      subst hj
      rw [queued, hw]
      rfl
    · rw [List.append_nil]
  case home =>
    intro entry hentry key hkey
    change (s.setWorker _ _).hashKey key = _
    rw [hashKey_setWorker]
    rcases mem_concat_cases hentry with hentry | rfl
    · exact h.home entry hentry key hkey
    · exact hhome key hkey
  case named =>
    intro k pc entry hk hpending
    obtain ⟨hid, hhome⟩ := (h.goto hi (.inl rfl)).named k pc entry hk hpending
    refine ⟨hid, fun key hkey => ?_⟩
    change (s.setWorker _ _).hashKey key = _
    rw [hashKey_setWorker]
    exact hhome key hkey
  case settled =>
    intro entry hentry
    rcases mem_concat_cases hentry with hentry | rfl
    · exact hreturned entry hentry
    · rw [hid]
      exact getElem?_set_same hi
  case once =>
    change ((s.accepted ++ [(worker, job)]).map (·.2.id)).Nodup
    rw [List.map_append]
    apply List.Nodup.append h.once (List.nodup_singleton _)
    -- The call that has queued the job has queued no other.
    intro id hold hnew
    obtain ⟨entry, hentry, rfl⟩ := List.mem_map.mp hold
    have hsettled := h.settled entry hentry
    rw [(List.mem_singleton.mp hnew).trans hid, hi] at hsettled
    cases hsettled
  case running =>
    intro j job' hruns
    have hruns' : (s.setWorker worker { w with jobs := w.jobs ++ [job] }).Runs j job' := hruns
    rcases runs_setWorker hruns' with ⟨rfl, hrunning⟩ | hruns'
    · exact h.running j job' ⟨w, hw, hrunning⟩
    · exact h.running j job' hruns'

theorem Flowing.begin (h : s.Flowing) {j : Nat} {job : Job} {rest : List Job}
    (hj : s.workers[j]? = some ⟨job :: rest, .idle⟩) :
    Flowing { s.setWorker j ⟨rest, .running job⟩ with begun := s.begun ++ [(j, job)] } := by
  constructor
  case flow =>
    intro i
    have hflow := h.flow i
    change jobsOf s.accepted i =
      jobsOf (s.begun ++ [(j, job)]) i ++ (s.setWorker j ⟨rest, .running job⟩).queued i
    rw [jobsOf_concat, queued_setWorker hj, hflow, List.append_assoc]
    split
    · rename_i hi
      subst hi
      rw [queued, hj]
      rfl
    · rfl
  case home =>
    intro entry hentry key hkey
    change (s.setWorker _ _).hashKey key = _
    rw [hashKey_setWorker]
    exact h.home entry hentry key hkey
  case named =>
    intro i pc entry hi hpending
    obtain ⟨hid, hhome⟩ := h.named i pc entry hi hpending
    refine ⟨hid, fun key hkey => ?_⟩
    change (s.setWorker _ _).hashKey key = _
    rw [hashKey_setWorker]
    exact hhome key hkey
  case settled => exact h.settled
  case once => exact h.once
  case running =>
    intro i job' hruns
    have hruns' : (s.setWorker j ⟨rest, .running job⟩).Runs i job' := hruns
    apply List.mem_append.mpr
    rcases runs_setWorker hruns' with ⟨rfl, hrunning⟩ | hruns'
    · cases hrunning
      exact .inr (List.mem_singleton_self _)
    · exact .inl (h.running i job' hruns')

theorem Flowing.step (h : s.Flowing) {l : Label} (hstep : s.step l = some t) : t.Flowing := by
  cases step_cases hstep with
  | start hw =>
    have h' := h.setPc hw .idle nofun
    exact ⟨h'.flow, h'.home, h'.named, h'.settled, h'.once, h'.running⟩
  | submit hhome => exact h.submit hhome _
  | check hi _ => exact h.goto hi (.inr ⟨nofun, rfl⟩)
  | reject hi => exact h.goto hi (.inl rfl)
  | accept hi hw _ => exact h.accept hi hw
  | begin hj => exact h.begin hj
  | exit hj _ _ => exact h.setPc hj _ nofun
  | finish hj _ => exact h.setPc hj _ nofun
  | stop | lock _ | cancel _ | wait _ _ _ | stopped _ _ =>
    exact ⟨h.flow, h.home, h.named, h.settled, h.once, h.running⟩

theorem flowing_of_reachable {numWorkers : Int}
    (hreach : (machine numWorkers).Reachable Machine.Any s) : s.Flowing := by
  apply hreach.invariant
  · rintro s rfl
    exact flowing_new numWorkers
  · intro s l t h _ hstep
    exact h.step hstep

theorem Flowing.begun_subset (h : s.Flowing) : s.begun ⊆ s.accepted := by
  rintro ⟨j, job⟩ hbegun
  apply mem_jobsOf.mp
  rw [h.flow j]
  exact List.mem_append_left _ (mem_jobsOf.mpr hbegun)

/-- Every job has a worker of its own key, so no other worker runs a job of this key. -/
theorem Flowing.same_worker (h : s.Flowing) {i j : Nat} {a b : Job} {key : GoString}
    (ha : s.Runs i a) (hb : s.Runs j b) (hakey : a.key = some key) (hbkey : b.key = some key) :
    i = j := by
  have hi := h.home _ (h.begun_subset (h.running i a ha)) key hakey
  have hj := h.home _ (h.begun_subset (h.running j b hb)) key hbkey
  exact Option.some.inj (hi.symm.trans hj)

def keyed (key : GoString) (entry : Nat × Job) : Bool := entry.2.key = some key

private theorem jobs_of_key {log : List (Nat × Job)} {key : GoString} {j : Nat}
    (h : ∀ entry ∈ log, keyed key entry = true → entry.1 = j) :
    (log.filter (keyed key)).map (·.2) =
      (jobsOf log j).filter fun job => decide (job.key = some key) := by
  have hfilter : log.filter (keyed key) =
      (log.filter fun entry => entry.1 = j).filter (keyed key) := by
    rw [List.filter_filter]
    apply List.filter_congr
    intro entry hentry
    by_cases hkeyed : keyed key entry = true
    · simp [hkeyed, h entry hentry hkeyed]
    · simp [hkeyed]
  rw [hfilter, jobsOf, List.filter_map]
  rfl

theorem Flowing.in_order (h : s.Flowing) (key : GoString) :
    (s.begun.filter (keyed key)).map (·.2) <+: (s.accepted.filter (keyed key)).map (·.2) := by
  have hhome : ∀ entry ∈ s.accepted, keyed key entry = true →
      s.hashKey key = some entry.1 := fun entry hentry hkeyed =>
    h.home entry hentry key (of_decide_eq_true hkeyed)
  cases hworker : s.hashKey key with
  | none =>
    have hnone : s.begun.filter (keyed key) = [] := by
      apply List.filter_eq_nil_iff.mpr
      intro entry hentry hkeyed
      have hsome := hhome entry (h.begun_subset hentry) hkeyed
      rw [hworker] at hsome
      contradiction
    rw [hnone]
    exact List.nil_prefix
  | some j =>
    have hown : ∀ entry ∈ s.accepted, keyed key entry = true → entry.1 = j := by
      intro entry hentry hkeyed
      exact Option.some.inj ((hhome entry hentry hkeyed).symm.trans hworker)
    rw [jobs_of_key fun entry hentry => hown entry (h.begun_subset hentry), jobs_of_key hown,
      h.flow j, List.filter_append]
    exact List.prefix_append _ _

@[simp] theorem count_jobsOf (log : List (Nat × Job)) (j : Nat) (job : Job) :
    (jobsOf log j).count job = log.count (j, job) := by
  induction log with
  | nil => rfl
  | cons entry log ih =>
    obtain ⟨worker, other⟩ := entry
    by_cases hworker : worker = j
    · subst hworker
      simp only [jobsOf, List.filter_cons, decide_true, if_true, List.map_cons, List.count_cons]
      rw [← ih, jobsOf]
      simp
    · rw [List.count_cons_of_ne (by simp [hworker]), ← ih]
      simp [jobsOf, hworker]

theorem Flowing.runs_once (h : s.Flowing) : (s.begun.map (·.2.id)).Nodup := by
  have hcount : ∀ entry, s.begun.count entry ≤ s.accepted.count entry := by
    rintro ⟨j, job⟩
    rw [← count_jobsOf, ← count_jobsOf, h.flow j, List.count_append]
    exact Nat.le_add_right _ _
  have haccepted : s.accepted.Nodup := h.once.of_map _
  have hbegun : s.begun.Nodup := by
    apply List.nodup_iff_count_le_one.mpr
    intro entry
    exact (hcount entry).trans (List.nodup_iff_count_le_one.mp haccepted entry)
  apply hbegun.map_on
  intro a ha b hb hid
  exact List.inj_on_of_nodup_map h.once (h.begun_subset ha) (h.begun_subset hb) hid

/-- What `Stop` has waited for. -/
def Waited (s : TaskPool) : StopPc → Prop
  | .lock | .cancel => True
  | .wait j => ∀ (i : Nat) (w : Worker), i < j → s.workers[i]? = some w → w.pc = .exited
  | .returned => ∀ w ∈ s.workers, w.pc = .exited

/-- Once `Stop` is called, every worker has been started, and those that it has waited for have
exited. -/
structure Halting (s : TaskPool) : Prop where
  started : ∀ (i : Nat) (w : Worker), s.workers[i]? = some w → i < s.started → w.pc ≠ .unstarted
  within : s.started ≤ s.workers.length
  called : s.stops ≠ [] → s.started = s.workers.length
  waited : ∀ pc ∈ s.stops, s.Waited pc

/-- No worker is started a second time. -/
def Advances (s t : TaskPool) : Prop :=
  t.workers.length = s.workers.length ∧ ∀ (i : Nat) (w' : Worker), t.workers[i]? = some w' →
    ∃ w, s.workers[i]? = some w ∧ (w.pc = .exited → w'.pc = .exited) ∧
      (w'.pc = .unstarted → w.pc = .unstarted)

private theorem advances_of_eq (h : t.workers = s.workers) : Advances s t := by
  refine ⟨by rw [h], fun i w' hw' => ?_⟩
  exact ⟨w', h ▸ hw', id, id⟩

private theorem advances_set {j : Nat} {w next : Worker} (hj : s.workers[j]? = some w)
    (h : t.workers = s.workers.set j next) (hexited : w.pc = .exited → next.pc = .exited)
    (hunstarted : next.pc = .unstarted → w.pc = .unstarted) : Advances s t := by
  refine ⟨by rw [h, List.length_set], fun i w' hw' => ?_⟩
  rw [h] at hw'
  rcases getElem?_set_cases hw' with ⟨rfl, rfl⟩ | ⟨-, hw'⟩
  · exact ⟨w, hj, hexited, hunstarted⟩
  · exact ⟨w', hw', id, id⟩

theorem Waited.advance {pc : StopPc} (h : s.Waited pc) (hadvances : Advances s t) :
    t.Waited pc := by
  cases pc with
  | lock | cancel => trivial
  | wait j =>
    intro i w' hlt hw'
    obtain ⟨w, hw, hexited, -⟩ := hadvances.2 i w' hw'
    exact hexited (h i w hlt hw)
  | returned =>
    intro w' hw'
    obtain ⟨i, hi⟩ := List.mem_iff_getElem?.mp hw'
    obtain ⟨w, hw, hexited, -⟩ := hadvances.2 i w' hi
    exact hexited (h w (List.mem_of_getElem? hw))

theorem halting_new (numWorkers : Int) : (newTaskPool numWorkers).Halting :=
  ⟨nofun, Nat.zero_le _, fun h => absurd rfl h, nofun⟩

theorem Halting.advance (h : s.Halting) (hadvances : Advances s t)
    (hstarted : t.started = s.started) (hstops : t.stops = s.stops) : t.Halting := by
  constructor
  case started =>
    intro i w' hw' hlt
    obtain ⟨w, hw, -, hunstarted⟩ := hadvances.2 i w' hw'
    exact fun hpc => h.started i w hw (hstarted ▸ hlt) (hunstarted hpc)
  case within =>
    rw [hstarted, hadvances.1]
    exact h.within
  case called =>
    rw [hstarted, hstops, hadvances.1]
    exact h.called
  case waited =>
    rw [hstops]
    intro pc hpc
    exact (h.waited pc hpc).advance hadvances

theorem Halting.gotoStop (h : s.Halting) {k : Nat} {pc next : StopPc}
    (hk : s.stops[k]? = some pc) (hnext : s.Waited next) : (s.gotoStop k next).Halting := by
  constructor
  case started => exact h.started
  case within => exact h.within
  case called =>
    intro _
    apply h.called
    rintro hnil
    rw [hnil] at hk
    contradiction
  case waited =>
    intro other hother
    rcases eq_or_mem_of_mem_set hother with rfl | hj
    · exact hnext
    · exact h.waited other hj

theorem Halting.waits (h : s.Halting) {k j : Nat} {w : Worker} (hk : s.stops[k]? = some (.wait j))
    (hj : s.workers[j]? = some w) (hleft : w.counted = false) : s.Waited (.wait (j + 1)) := by
  have hmem := List.mem_of_getElem? hk
  intro i w' hlt hw'
  rcases Nat.lt_succ_iff_lt_or_eq.mp hlt with hlt | rfl
  · exact h.waited _ hmem i w' hlt hw'
  · cases hj.symm.trans hw'
    have hall := h.called (List.ne_nil_of_mem hmem)
    have hstarted := h.started i w hj (hall ▸ (List.getElem?_eq_some_iff.mp hj).1)
    cases hpc : w.pc with
    | exited => rfl
    | unstarted => exact absurd hpc hstarted
    | idle | running _ =>
      rw [Worker.counted, hpc] at hleft
      contradiction

theorem Halting.step (h : s.Halting) {l : Label} (hok : Started s l) (hstep : s.step l = some t) :
    t.Halting := by
  cases step_cases hstep with
  | start hw =>
    have hlt := (List.getElem?_eq_some_iff.mp hw).1
    have hnone : s.stops = [] := by
      by_contra hcalled
      exact absurd (h.called hcalled) (Nat.ne_of_lt hlt)
    constructor
    case started =>
      intro i w' hw' hi
      rcases getElem?_set_cases hw' with ⟨rfl, rfl⟩ | ⟨hne, hw'⟩
      · nofun
      · exact h.started i w' hw' (Nat.lt_of_le_of_ne (Nat.le_of_lt_succ hi) hne)
    case within =>
      change s.started + 1 ≤ (s.workers.set _ _).length
      rw [List.length_set]
      exact hlt
    case called => exact fun hcalled => absurd hnone hcalled
    case waited =>
      intro pc hpc
      change pc ∈ s.stops at hpc
      rw [hnone] at hpc
      contradiction
  | submit hhome => exact h.advance (advances_of_eq rfl) rfl rfl
  | check hi _ => exact h.advance (advances_of_eq rfl) rfl rfl
  | reject hi => exact h.advance (advances_of_eq rfl) rfl rfl
  | accept hi hw _ => exact h.advance (advances_set hw rfl id id) rfl rfl
  | begin hj => exact h.advance (advances_set hj rfl nofun nofun) rfl rfl
  | exit hj hidle _ => exact h.advance (advances_set hj rfl (fun _ => rfl) nofun) rfl rfl
  | finish hj hrunning =>
    refine h.advance (advances_set hj rfl ?_ nofun) rfl rfl
    intro hexited
    rw [hrunning] at hexited
    contradiction
  | stop =>
    constructor
    case started => exact h.started
    case within => exact h.within
    case called => exact fun _ => hok
    case waited =>
      intro pc hpc
      rcases mem_concat_cases hpc with hpc | rfl
      · exact h.waited pc hpc
      · trivial
  | lock hk =>
    exact (h.advance (advances_of_eq rfl) rfl rfl : Halting { s with stopped := true }).gotoStop hk
      trivial
  | cancel hk =>
    exact (h.advance (advances_of_eq rfl) rfl rfl :
      Halting { s with cancelled := true }).gotoStop hk nofun
  | wait hk hj hleft => exact h.gotoStop hk (h.waits hk hj hleft)
  | stopped hk hj =>
    apply h.gotoStop hk
    intro w hw
    obtain ⟨i, hi⟩ := List.mem_iff_getElem?.mp hw
    have hlt := (List.getElem?_eq_some_iff.mp hi).1
    exact h.waited _ (List.mem_of_getElem? hk) i w
      (Nat.lt_of_lt_of_le hlt (List.getElem?_eq_none_iff.mp hj)) hi

theorem halting_of_reachable {numWorkers : Int}
    (hreach : (machine numWorkers).Reachable Started s) : s.Halting := by
  apply hreach.invariant
  · rintro s rfl
    exact halting_new numWorkers
  · intro s l t h hok hstep
    exact h.step hok hstep

theorem Halting.begun_eq (h : s.Halting) {l : Label} (hstep : s.step l = some t)
    (hreturned : .returned ∈ s.stops) : t.begun = s.begun ∧ .returned ∈ t.stops := by
  have hexited : ∀ {j : Nat} {w : Worker}, s.workers[j]? = some w → w.pc = .exited :=
    fun hj => h.waited _ hreturned _ (List.mem_of_getElem? hj)
  have hother : ∀ {k : Nat} {pc : StopPc} (next : StopPc), s.stops[k]? = some pc →
      pc ≠ .returned → .returned ∈ s.stops.set k next := by
    intro k pc next hk hpc
    exact (eq_or_mem_set hk hreturned).resolve_left (Ne.symm hpc)
  cases step_cases hstep with
  | start | submit | check | reject | accept | exit | finish => exact ⟨rfl, hreturned⟩
  | begin hj => exact absurd (hexited hj) nofun
  | stop => exact ⟨rfl, List.mem_append_left _ hreturned⟩
  | lock hk | cancel hk | wait hk _ _ | stopped hk _ => exact ⟨rfl, hother _ hk nofun⟩

/-- Jobs of one key never overlap and run in the order in which they were queued, a queued job runs
at most once, and once `Stop` has returned no job runs or starts. -/
theorem keyed_jobs_are_serial (numWorkers : Int) (s : TaskPool) :
    ((machine numWorkers).Reachable Machine.Any s →
      (∀ (i j : Nat) (a b : Job) (key : GoString), s.Runs i a → s.Runs j b →
        a.key = some key → b.key = some key → i = j ∧ a = b) ∧
      (∀ key, (s.begun.filter (keyed key)).map (·.2) <+:
        (s.accepted.filter (keyed key)).map (·.2)) ∧
      s.begun ⊆ s.accepted ∧ (s.begun.map (·.2.id)).Nodup) ∧
    ((machine numWorkers).Reachable Started s → .returned ∈ s.stops →
      ∀ ls t, (machine numWorkers).Steps Started s ls t →
        (∀ j job, ¬ t.Runs j job) ∧ t.begun = s.begun) := by
  constructor
  · intro hreach
    have h := flowing_of_reachable hreach
    refine ⟨?_, h.in_order, h.begun_subset, h.runs_once⟩
    intro i j a b key ha hb hakey hbkey
    obtain rfl := h.same_worker ha hb hakey hbkey
    obtain ⟨w, hw, hruns⟩ := ha
    obtain ⟨w', hw', hruns'⟩ := hb
    cases hw.symm.trans hw'
    cases hruns.symm.trans hruns'
    exact ⟨rfl, rfl⟩
  · intro hreach hreturned ls t hrun
    have h := halting_of_reachable hreach
    obtain ⟨hhalting, hbegun, hreturned'⟩ :=
      hrun.preserves (I := fun t => t.Halting ∧ t.begun = s.begun ∧ .returned ∈ t.stops)
        (fun {u l v} hu hok hstep => by
          obtain ⟨hu, hbegun, hreturned⟩ := hu
          obtain ⟨hsame, hkept⟩ := hu.begun_eq hstep hreturned
          exact ⟨hu.step hok hstep, hsame.trans hbegun, hkept⟩)
        ⟨h, rfl, hreturned⟩
    refine ⟨?_, hbegun⟩
    rintro j job ⟨w, hw, hruns⟩
    have hexited := hhalting.waited _ hreturned' w (List.mem_of_getElem? hw)
    rw [hruns] at hexited
    contradiction

/-- Of two jobs of a key the first has run when `Stop` returns, and the second never runs. -/
theorem keyed_jobs_are_serial_stopped :
    ∃ s, (machine 2).Reachable Started s ∧ s.accepted.map (·.2.id) = [0, 1] ∧
      (s.begun.filter (keyed (lit "k"))).map (·.2) <+:
        (s.accepted.filter (keyed (lit "k"))).map (·.2) ∧
      ∀ ls t, (machine 2).Steps Started s ls t → t.begun.map (·.2.id) = [0] := by
  have hrun : ((machine 2).exec Started (newTaskPool 2)
      [.start, .start, .submitByKey (lit "k"), .submitByKey (lit "k"), .enqueue 0 true,
        .enqueue 1 true, .enqueue 0 true, .enqueue 1 true, .worker 0 true, .stop, .stopper 0,
        .stopper 0, .worker 0 false, .worker 0 false, .worker 1 false, .stopper 0, .stopper 0,
        .stopper 0]).any (fun s => decide (.returned ∈ s.stops ∧
      s.accepted.map (·.2.id) = [0, 1] ∧ s.begun.map (·.2.id) = [0])) = true := by
    decide
  obtain ⟨s, hsteps, hs⟩ := Machine.exec_any hrun
  obtain ⟨hreturned, haccepted, hbegun⟩ := of_decide_eq_true hs
  have hreach : (machine 2).Reachable Started s := ⟨_, _, rfl, hsteps⟩
  have hany : (machine 2).Reachable Machine.Any s :=
    ⟨_, _, rfl, hsteps.mono fun _ => trivial⟩
  refine ⟨s, hreach, haccepted, ((keyed_jobs_are_serial 2 s).1 hany).2.1 _, ?_⟩
  intro ls t hrun'
  rw [((keyed_jobs_are_serial 2 s).2 hreach hreturned ls t hrun').2]
  exact hbegun

end TaskPool
end Goverse.Util
