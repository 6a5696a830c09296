import Mathlib.Logic.Function.Basic
import Goverse.Lib.Machine
import Goverse.Lib.Threads

/-! `workerpool.WorkerPool` while one `SubmitAndWait` runs on it and `Stop` is called after
that. A `select` is a step for each of its ready cases; its `default` is a step when no case is
ready. The tasks are those of the caller: small-step programs over a world of their own. -/
namespace Goverse.Util

open Lib

/-- The task functions of a batch, by their index. A step is told whether the context the task
was given is done; it goes on or returns an error, where none is `nil`. -/
structure Tasks (σ τ χ ω ε : Type) where
  start : τ
  step : Nat → Bool → σ → τ → χ → Option (σ × (τ ⊕ Option ε))
  env : σ → ω → Option σ

/-- What `ctx.Err()` gives, or the error of the task. -/
inductive TaskError (ε : Type) where
  | canceled
  | task (error : ε)
  deriving DecidableEq, Repr

/-- `Result.Err`. -/
abbrev Result (ε : Type) := Option (TaskError ε)

/-- A goroutine of `SubmitAndWait`: at the three channel operations of `Submit`, at its own
`select`, and after it appended its result. -/
inductive Submitter (ε : Type) where
  | check
  | trySend
  | blocked
  | awaiting
  | done (result : Result ε)
  deriving DecidableEq, Repr

inductive Worker (τ ε : Type) where
  | idle
  | running (task : Nat) (state : τ)
  | sending (task : Nat) (error : Option ε)
  | exited
  deriving DecidableEq, Repr

/-- The caller: in `wg.Wait` of `SubmitAndWait`, then at the three statements of `Stop`. -/
inductive Caller where
  | wait | cancel | close | join | returned
  deriving DecidableEq, Repr

/-- Which case of a `select` is taken. -/
inductive Branch where
  | ctx | chan | fallback
  deriving DecidableEq, Repr

/-- `replies` are the result channels of the tasks, each with room for one. -/
structure WorkerPool (σ τ ε : Type) where
  world : σ
  capacity : Nat
  ctxDone : Bool
  stopped : Bool
  closed : Bool
  tasks : List Nat
  workers : List (Worker τ ε)
  submitters : List (Submitter ε)
  replies : Nat → Option (Result ε)
  results : List (Result ε)
  caller : Caller

/-- The number of workers `New` settles on. -/
def poolSize (numWorkers : Int) : Nat := if numWorkers ≤ 0 then 1 else numWorkers.toNat

variable {σ τ χ ω ε : Type}

namespace Submitter

/-- The task was put into the channel, or was refused. -/
def handed : Submitter ε → Bool
  | .check | .trySend | .blocked => false
  | .awaiting | .done _ => true

def isDone : Submitter ε → Bool
  | .done _ => true
  | _ => false

/-- It appended a result that meets `q`. -/
def reported (q : Result ε → Bool) : Submitter ε → Bool
  | .done result => q result
  | _ => false

theorem eq_done_of_isDone {pc : Submitter ε} (h : pc.isDone = true) : ∃ r, pc = .done r := by
  cases pc <;> simp [isDone] at h ⊢

end Submitter

/-- The task a worker has taken. -/
def Worker.task : Worker τ ε → Option Nat
  | .running i _ | .sending i _ => some i
  | .idle | .exited => none

namespace WorkerPool

inductive Label (χ ω : Type) where
  | cancel
  | world (event : ω)
  | submitter (i : Nat) (branch : Branch)
  | worker (w : Nat) (branch : Branch)
  | task (w : Nat) (choice : χ)
  | caller
  deriving DecidableEq, Repr

/-- The pool's own context is a child of the caller's. -/
def done (s : WorkerPool σ τ ε) : Bool := s.ctxDone || s.stopped

def goSubmitter (s : WorkerPool σ τ ε) (i : Nat) (pc : Submitter ε) : WorkerPool σ τ ε :=
  { s with submitters := s.submitters.set i pc }

def goWorker (s : WorkerPool σ τ ε) (w : Nat) (pc : Worker τ ε) : WorkerPool σ τ ε :=
  { s with workers := s.workers.set w pc }

def reply (s : WorkerPool σ τ ε) (i : Nat) (result : Option (Result ε)) : WorkerPool σ τ ε :=
  { s with replies := Function.update s.replies i result }

def refuse (s : WorkerPool σ τ ε) (i : Nat) : WorkerPool σ τ ε :=
  (s.reply i (some (some .canceled))).goSubmitter i .awaiting

def enqueue (s : WorkerPool σ τ ε) (i : Nat) : WorkerPool σ τ ε :=
  { s with tasks := s.tasks ++ [i] }.goSubmitter i .awaiting

def report (s : WorkerPool σ τ ε) (i : Nat) (result : Result ε) : WorkerPool σ τ ε :=
  { s with results := s.results ++ [result] }.goSubmitter i (.done result)

/-- `Submit` and the `select` after it. A send in a `select` on a closed channel panics; that of
the fallback is recovered. -/
def submitterStep (s : WorkerPool σ τ ε) (i : Nat) :
    Submitter ε → Branch → Option (WorkerPool σ τ ε)
  | .check, .ctx => if s.done then some (s.refuse i) else none
  | .check, .fallback => if s.done then none else some (s.goSubmitter i .trySend)
  | .trySend, .ctx => if s.done then some (s.refuse i) else none
  | .trySend, .chan =>
    if s.closed = false ∧ s.tasks.length < s.capacity then some (s.enqueue i) else none
  | .trySend, .fallback =>
    if s.done = false ∧ s.closed = false ∧ ¬ s.tasks.length < s.capacity then
      some (s.goSubmitter i .blocked)
    else none
  | .blocked, .chan =>
    if s.closed then some (s.refuse i)
    else if s.tasks.length < s.capacity then some (s.enqueue i)
    else none
  | .awaiting, .ctx => if s.ctxDone then some (s.report i (some .canceled)) else none
  | .awaiting, .chan => (s.replies i).map fun result => (s.reply i none).report i result
  | _, _ => none

/-- `worker`, but for the task it runs. -/
def workerStep (M : Tasks σ τ χ ω ε) (s : WorkerPool σ τ ε) (w : Nat) :
    Worker τ ε → Branch → Option (WorkerPool σ τ ε)
  | .idle, .ctx => if s.done then some (s.goWorker w .exited) else none
  | .idle, .chan =>
    match s.tasks with
    | i :: rest => some ({ s with tasks := rest }.goWorker w (.running i M.start))
    | [] => if s.closed then some (s.goWorker w .exited) else none
  | .sending i error, .chan =>
    if (s.replies i).isNone then
      some ((s.reply i (some (error.map .task))).goWorker w .idle)
    else none
  | .sending _ _, .ctx => if s.done then some (s.goWorker w .exited) else none
  | _, _ => none

def taskStep (M : Tasks σ τ χ ω ε) (s : WorkerPool σ τ ε) (w : Nat) (choice : χ) :
    Worker τ ε → Option (WorkerPool σ τ ε)
  | .running i state =>
    (M.step i s.done s.world state choice).map fun (world, next) =>
      { s with world := world }.goWorker w (match next with
        | .inl state => .running i state
        | .inr error => .sending i error)
  | _ => none

/-- The end of `SubmitAndWait`, and `Stop`. -/
def callerStep (s : WorkerPool σ τ ε) : Option (WorkerPool σ τ ε) :=
  match s.caller with
  | .wait => if s.submitters.all Submitter.isDone then some { s with caller := .cancel } else none
  | .cancel => some { s with caller := .close, stopped := true }
  | .close => some { s with caller := .join, closed := true }
  | .join =>
    if s.workers.all fun pc => match pc with | .exited => true | _ => false then
      some { s with caller := .returned }
    else none
  | .returned => none

def step (M : Tasks σ τ χ ω ε) (s : WorkerPool σ τ ε) :
    Label χ ω → Option (WorkerPool σ τ ε)
  | .cancel => some { s with ctxDone := true }
  | .world event => (M.env s.world event).map fun world => { s with world := world }
  | .submitter i branch => s.submitters[i]?.bind fun pc => s.submitterStep i pc branch
  | .worker w branch => s.workers[w]?.bind fun pc => s.workerStep M w pc branch
  | .task w choice => s.workers[w]?.bind fun pc => s.taskStep M w choice pc
  | .caller => s.callerStep

/-- `New` and `Start`, and the goroutines of `SubmitAndWait`. The context may be done before. -/
def start (numWorkers : Int) (tasks : Nat) (world : σ) (ctxDone : Bool) : WorkerPool σ τ ε where
  world := world
  capacity := poolSize numWorkers * 2
  ctxDone := ctxDone
  stopped := false
  closed := false
  tasks := []
  workers := List.replicate (poolSize numWorkers) .idle
  submitters := List.replicate tasks .check
  replies := fun _ => none
  results := []
  caller := .wait

def machine (M : Tasks σ τ χ ω ε) (numWorkers : Int) (tasks : Nat) (world : σ) :
    Machine (WorkerPool σ τ ε) (Label χ ω) where
  Init s := ∃ ctxDone, s = start numWorkers tasks world ctxDone
  step := step M

/-- What a step does. -/
inductive StepCase (M : Tasks σ τ χ ω ε) (s : WorkerPool σ τ ε) : WorkerPool σ τ ε → Prop
  | cancel : StepCase M s { s with ctxDone := true }
  | world (event : ω) (world : σ) (henv : M.env s.world event = some world) :
      StepCase M s { s with world := world }
  | refuse (i : Nat) (pc : Submitter ε) (hpc : s.submitters[i]? = some pc)
      (hfree : pc.handed = false) : StepCase M s (s.refuse i)
  | pass (i : Nat) (pc next : Submitter ε) (hpc : s.submitters[i]? = some pc)
      (hfree : pc.handed = false) (hnext : next.handed = false) (hgo : s.done = false) :
      StepCase M s (s.goSubmitter i next)
  | enqueue (i : Nat) (pc : Submitter ε) (hpc : s.submitters[i]? = some pc)
      (hfree : pc.handed = false) (hroom : s.tasks.length < s.capacity) :
      StepCase M s (s.enqueue i)
  | abandon (i : Nat) (hpc : s.submitters[i]? = some .awaiting) :
      StepCase M s (s.report i (some .canceled))
  | collect (i : Nat) (result : Result ε) (hpc : s.submitters[i]? = some .awaiting)
      (hreply : s.replies i = some result) : StepCase M s ((s.reply i none).report i result)
  | exit (w : Nat) (pc : Worker τ ε) (hpc : s.workers[w]? = some pc) :
      StepCase M s (s.goWorker w .exited)
  | take (w i : Nat) (rest : List Nat) (hpc : s.workers[w]? = some .idle)
      (htasks : s.tasks = i :: rest) :
      StepCase M s ({ s with tasks := rest }.goWorker w (.running i M.start))
  | resume (w i : Nat) (state next : τ) (choice : χ) (world : σ)
      (hpc : s.workers[w]? = some (.running i state))
      (hstep : M.step i s.done s.world state choice = some (world, .inl next)) :
      StepCase M s ({ s with world := world }.goWorker w (.running i next))
  | finish (w i : Nat) (state : τ) (error : Option ε) (choice : χ) (world : σ)
      (hpc : s.workers[w]? = some (.running i state))
      (hstep : M.step i s.done s.world state choice = some (world, .inr error)) :
      StepCase M s ({ s with world := world }.goWorker w (.sending i error))
  | send (w i : Nat) (error : Option ε) (hpc : s.workers[w]? = some (.sending i error)) :
      StepCase M s ((s.reply i (some (error.map .task))).goWorker w .idle)
  | leave (hwait : s.caller = .wait) (hall : ∀ pc ∈ s.submitters, pc.isDone = true) :
      StepCase M s { s with caller := .cancel }
  | stop (caller : Caller) (stopped closed : Bool) (hwait : s.caller ≠ .wait)
      (hnext : caller ≠ .wait) :
      StepCase M s { s with caller := caller, stopped := stopped, closed := closed }

variable {M : Tasks σ τ χ ω ε} {s t : WorkerPool σ τ ε}

theorem submitterStep_cases {i : Nat} {pc : Submitter ε} {branch : Branch}
    (hpc : s.submitters[i]? = some pc) (h : s.submitterStep i pc branch = some t) :
    StepCase M s t := by
  cases pc <;> cases branch <;> simp only [submitterStep, Option.map_eq_some_iff] at h
  case check.ctx | trySend.ctx =>
    split at h
    · cases h
      exact .refuse i _ hpc rfl
    · contradiction
  case check.fallback =>
    split at h
    · contradiction
    · rename_i hdone
      cases h
      exact .pass i _ _ hpc rfl rfl (by simpa using hdone)
  case trySend.chan =>
    split at h
    · rename_i hroom
      cases h
      exact .enqueue i _ hpc rfl hroom.2
    · contradiction
  case trySend.fallback =>
    split at h
    · rename_i hfull
      cases h
      exact .pass i _ _ hpc rfl rfl hfull.1
    · contradiction
  case blocked.chan =>
    split at h
    · cases h
      exact .refuse i _ hpc rfl
    · split at h
      · rename_i hroom
        cases h
        exact .enqueue i _ hpc rfl hroom
      · contradiction
  case awaiting.ctx =>
    split at h
    · cases h
      exact .abandon i hpc
    · contradiction
  case awaiting.chan =>
    obtain ⟨result, hreply, rfl⟩ := h
    exact .collect i result hpc hreply
  all_goals contradiction

theorem workerStep_cases {w : Nat} {pc : Worker τ ε} {branch : Branch}
    (hpc : s.workers[w]? = some pc) (h : s.workerStep M w pc branch = some t) :
    StepCase M s t := by
  cases pc <;> cases branch <;> simp only [workerStep] at h
  case idle.ctx | sending.ctx =>
    split at h
    · cases h
      exact .exit w _ hpc
    · contradiction
  case idle.chan =>
    split at h
    · rename_i i rest htasks
      cases h
      exact .take w i rest hpc htasks
    · split at h
      · cases h
        exact .exit w _ hpc
      · contradiction
  case sending.chan =>
    split at h
    · cases h
      exact .send w _ _ hpc
    · contradiction
  all_goals contradiction

theorem taskStep_cases {w : Nat} {pc : Worker τ ε} {choice : χ}
    (hpc : s.workers[w]? = some pc) (h : s.taskStep M w choice pc = some t) :
    StepCase M s t := by
  cases pc with
  | running i state =>
    obtain ⟨⟨world, next⟩, hstep, rfl⟩ := Option.map_eq_some_iff.mp h
    cases next with
    | inl next => exact .resume w i state next choice world hpc hstep
    | inr error => exact .finish w i state error choice world hpc hstep
  | idle | sending | exited => contradiction

theorem callerStep_cases (h : s.callerStep = some t) : StepCase M s t := by
  rw [callerStep] at h
  split at h
  case h_1 hwait =>
    split at h
    · rename_i hall
      cases h
      exact .leave hwait (List.all_eq_true.mp hall)
    · contradiction
  case h_2 hpc | h_3 hpc =>
    cases h
    exact .stop _ _ _ (by simp [hpc]) (by simp)
  case h_4 hpc =>
    split at h
    · cases h
      exact .stop _ _ _ (by simp [hpc]) (by simp)
    · contradiction
  case h_5 => contradiction

theorem step_cases {l : Label χ ω} (h : step M s l = some t) : StepCase M s t := by
  cases l with
  | cancel =>
    cases h
    exact .cancel
  | world event =>
    obtain ⟨world, henv, rfl⟩ := Option.map_eq_some_iff.mp h
    exact .world event world henv
  | submitter i branch =>
    obtain ⟨pc, hpc, h⟩ := Option.bind_eq_some_iff.mp h
    exact submitterStep_cases hpc h
  | worker w branch =>
    obtain ⟨pc, hpc, h⟩ := Option.bind_eq_some_iff.mp h
    exact workerStep_cases hpc h
  | task w choice =>
    obtain ⟨pc, hpc, h⟩ := Option.bind_eq_some_iff.mp h
    exact taskStep_cases hpc h
  | caller => exact callerStep_cases h

/-- The task is with the pool: nothing was sent to its result channel yet, and its submitter
waits for that or has given up. -/
def Out (s : WorkerPool σ τ ε) (i : Nat) : Prop :=
  s.replies i = none ∧
    (s.submitters[i]? = some .awaiting ∨ s.submitters[i]? = some (.done (some .canceled)))

theorem Out.ne {i j : Nat} {pc : Submitter ε} (h : s.Out i) (hpc : s.submitters[j]? = some pc)
    (hfree : pc.handed = false) : i ≠ j := by
  rintro rfl
  rcases h.2 with h | h
  all_goals
    rw [h] at hpc
    cases hpc
    contradiction

theorem Out.goSubmitter {i j : Nat} (h : s.Out i) (hne : i ≠ j) (pc : Submitter ε) :
    (s.goSubmitter j pc).Out i := by
  refine ⟨h.1, ?_⟩
  show (s.submitters.set j pc)[i]? = _ ∨ (s.submitters.set j pc)[i]? = _
  rw [List.getElem?_set_ne (Ne.symm hne)]
  exact h.2

theorem Out.reply {i j : Nat} (h : s.Out i) (hne : i ≠ j) (result : Option (Result ε)) :
    (s.reply j result).Out i :=
  ⟨(Function.update_of_ne hne _ _).trans h.1, h.2⟩

/-- Nothing was sent to the result channel of a task that was not handed over. -/
def Unsent (s : WorkerPool σ τ ε) : Prop :=
  ∀ (i : Nat) (pc : Submitter ε), s.submitters[i]? = some pc → pc.handed = false →
    s.replies i = none

theorem Unsent.goSubmitter (h : s.Unsent) (i : Nat) (pc : Submitter ε)
    (hpc : pc.handed = false → s.replies i = none) : (s.goSubmitter i pc).Unsent := by
  intro j pc' hj hfree
  rcases getElem?_set_cases hj with ⟨rfl, rfl⟩ | ⟨-, hj⟩
  · exact hpc hfree
  · exact h j pc' hj hfree

theorem Unsent.reply (h : s.Unsent) {i : Nat}
    (hpc : ∀ pc, s.submitters[i]? = some pc → pc.handed = true)
    (result : Option (Result ε)) : (s.reply i result).Unsent := by
  intro j pc hj hfree
  by_cases hij : j = i
  · subst hij
    simp [hpc pc hj] at hfree
  · exact (Function.update_of_ne hij _ _).trans (h j pc hj hfree)

theorem Unsent.replied (h : s.Unsent) (i : Nat) {pc : Submitter ε} (hpc : pc.handed = true)
    (result : Option (Result ε)) : ((s.reply i result).goSubmitter i pc).Unsent := by
  intro j pc' hj hfree
  rcases getElem?_set_cases hj with ⟨-, rfl⟩ | ⟨hne, hj⟩
  · simp [hpc] at hfree
  · exact (Function.update_of_ne hne _ _).trans (h j pc' hj hfree)

/-- Every task is in one place at most, and is out while it is in the channel or with a
worker. -/
structure Ledger (s : WorkerPool σ τ ε) : Prop where
  unsent : s.Unsent
  queued : ∀ i ∈ s.tasks, s.Out i
  nodup : s.tasks.Nodup
  taken : ∀ (w i : Nat) (pc : Worker τ ε), s.workers[w]? = some pc → pc.task = some i →
    s.Out i ∧ i ∉ s.tasks
  single : ∀ i, AtMostOne (fun pc => decide (pc.task = some i)) s.workers

/-- Nobody waits any more when the pool is stopped. -/
structure Phased (s : WorkerPool σ τ ε) : Prop where
  left : s.caller ≠ .wait → ∀ pc ∈ s.submitters, pc.isDone = true
  opened : s.caller = .wait → s.closed = false ∧ s.stopped = false

namespace Ledger

theorem start (numWorkers : Int) (tasks : Nat) (world : σ) (ctxDone : Bool) :
    (WorkerPool.start numWorkers tasks world ctxDone : WorkerPool σ τ ε).Ledger where
  unsent _ _ _ _ := rfl
  queued i hi := by cases hi
  nodup := List.nodup_nil
  taken w i pc hw hi := by
    rw [List.eq_of_mem_replicate (List.mem_of_getElem? hw)] at hi
    contradiction
  single i v w a b ha hb hpa hpb := by
    rw [List.eq_of_mem_replicate (List.mem_of_getElem? ha)] at hpa
    contradiction

theorem of_out (h : s.Ledger) (htasks : t.tasks = s.tasks) (hworkers : t.workers = s.workers)
    (hunsent : t.Unsent) (hout : ∀ i, s.Out i → t.Out i) : t.Ledger where
  unsent := hunsent
  queued i hi := hout i (h.queued i (htasks ▸ hi))
  nodup := htasks ▸ h.nodup
  taken w i pc hw hi := by
    rw [hworkers] at hw
    rw [htasks]
    exact ⟨hout i (h.taken w i pc hw hi).1, (h.taken w i pc hw hi).2⟩
  single := hworkers ▸ h.single

theorem enqueue (h : s.Ledger) {i : Nat} {pc : Submitter ε} (hpc : s.submitters[i]? = some pc)
    (hfree : pc.handed = false) : (s.enqueue i).Ledger := by
  have hother : ∀ j, s.Out j → (s.enqueue i).Out j :=
    fun j hj => Out.goSubmitter hj (hj.ne hpc hfree) _
  have hself : (s.enqueue i).Out i :=
    ⟨h.unsent i pc hpc hfree,
      .inl (getElem?_set_same hpc)⟩
  constructor
  case unsent => exact h.unsent.goSubmitter i .awaiting (by simp [Submitter.handed])
  case queued =>
    intro j hj
    rcases mem_concat_cases hj with hj | rfl
    · exact hother j (h.queued j hj)
    · exact hself
  case nodup =>
    apply List.nodup_append.mpr
    refine ⟨h.nodup, List.pairwise_singleton _ i, fun j hj k hk => ?_⟩
    rw [List.mem_singleton.mp hk]
    exact (h.queued j hj).ne hpc hfree
  case taken =>
    intro w j pc' hw hj
    obtain ⟨hout, hnot⟩ := h.taken w j pc' hw hj
    refine ⟨hother j hout, fun hmem => ?_⟩
    rcases List.mem_append.mp hmem with hmem | hmem
    · exact hnot hmem
    · exact hout.ne hpc hfree (List.mem_singleton.mp hmem)
  case single => exact h.single

theorem goWorker (h : s.Ledger) {w : Nat} {pc next : Worker τ ε} (hpc : s.workers[w]? = some pc)
    (hnext : ∀ i, next.task = some i → pc.task = some i) : (s.goWorker w next).Ledger where
  unsent := h.unsent
  queued := h.queued
  nodup := h.nodup
  taken v i pc' hv hi := by
    rcases getElem?_set_cases hv with ⟨-, rfl⟩ | ⟨-, hv⟩
    · exact h.taken w i pc hpc (hnext i hi)
    · exact h.taken v i pc' hv hi
  single i := (h.single i).set hpc (by simpa using hnext i)

theorem take (h : s.Ledger) {w i : Nat} {rest : List Nat} (hpc : s.workers[w]? = some .idle)
    (htasks : s.tasks = i :: rest) (state : τ) :
    ({ s with tasks := rest }.goWorker w (.running i state)).Ledger := by
  have hnodup := h.nodup
  have hqueued := h.queued
  rw [htasks] at hnodup hqueued
  constructor
  case unsent => exact h.unsent
  case queued => exact fun j hj => hqueued j (List.mem_cons_of_mem i hj)
  case nodup => exact (List.nodup_cons.mp hnodup).2
  case taken =>
    intro v j pc' hv hj
    rcases getElem?_set_cases hv with ⟨-, rfl⟩ | ⟨-, hv⟩
    · cases hj
      exact ⟨hqueued i List.mem_cons_self, (List.nodup_cons.mp hnodup).1⟩
    · obtain ⟨hout, hnot⟩ := h.taken v j pc' hv hj
      rw [htasks] at hnot
      exact ⟨hout, fun hmem => hnot (List.mem_cons_of_mem i hmem)⟩
  case single =>
    intro j
    by_cases hj : j = i
    · -- nobody else has the task that was in the channel
      subst hj
      apply AtMostOne.set_of_forall
      intro pc' hpc'
      obtain ⟨v, hv⟩ := List.mem_iff_getElem?.mp hpc'
      apply decide_eq_false
      intro hi
      exact (h.taken v j pc' hv hi).2 (by simp [htasks])
    · apply (h.single j).set hpc
      intro hi
      exact absurd (Option.some.inj (of_decide_eq_true hi)).symm hj

theorem send (h : s.Ledger) {w i : Nat} {error : Option ε}
    (hpc : s.workers[w]? = some (.sending i error)) (result : Option (Result ε)) :
    ((s.reply i result).goWorker w .idle).Ledger := by
  have hmine := h.taken w i _ hpc rfl
  constructor
  case unsent =>
    apply h.unsent.reply
    intro pc hi
    rcases hmine.1.2 with hout | hout
    all_goals
      rw [hout] at hi
      cases hi
      rfl
  case queued =>
    intro j hj
    apply (h.queued j hj).reply
    rintro rfl
    exact hmine.2 hj
  case nodup => exact h.nodup
  case taken =>
    intro v j pc' hv hj
    rcases getElem?_set_cases hv with ⟨-, rfl⟩ | ⟨hne, hv⟩
    · contradiction
    · obtain ⟨hout, hnot⟩ := h.taken v j pc' hv hj
      refine ⟨hout.reply ?_ result, hnot⟩
      rintro rfl
      exact hne (h.single j v w pc' _ hv hpc (decide_eq_true hj) (decide_eq_true rfl))
  case single =>
    intro j
    exact (h.single j).set hpc (by simp [Worker.task])

theorem withWorld (h : s.Ledger) (world : σ) : { s with world := world }.Ledger :=
  h.of_out rfl rfl h.unsent fun _ hi => hi

theorem step (h : s.Ledger) (hstep : StepCase M s t) : t.Ledger := by
  cases hstep with
  | cancel | leave | stop => exact h.of_out rfl rfl h.unsent fun i hi => hi
  | world event world => exact h.withWorld world
  | refuse i pc hpc hfree =>
    refine h.of_out rfl rfl (h.unsent.replied i rfl _) fun j hj => ?_
    exact (hj.reply (hj.ne hpc hfree) _).goSubmitter (hj.ne hpc hfree) _
  | pass i pc next hpc hfree =>
    refine h.of_out rfl rfl ?_ fun j hj => hj.goSubmitter (hj.ne hpc hfree) _
    exact h.unsent.goSubmitter i next fun _ => h.unsent i pc hpc hfree
  | enqueue i pc hpc hfree => exact h.enqueue hpc hfree
  | abandon i hpc =>
    refine h.of_out rfl rfl (h.unsent.goSubmitter i _ (by simp [Submitter.handed])) fun j hj => ?_
    by_cases hne : j = i
    · subst hne
      exact ⟨hj.1, .inr (getElem?_set_same hpc)⟩
    · exact hj.goSubmitter hne _
  | collect i result hpc hreply =>
    refine h.of_out rfl rfl (h.unsent.replied i rfl _) fun j hj => ?_
    have hne : j ≠ i := by
      rintro rfl
      simp [hj.1] at hreply
    exact (hj.reply hne _).goSubmitter hne _
  | exit w pc hpc => exact h.goWorker hpc (by simp [Worker.task])
  | take w i rest hpc htasks => exact h.take hpc htasks _
  | resume w i state next choice world hpc =>
    exact (h.withWorld world).goWorker hpc fun i hi => hi
  | finish w i state error choice world hpc =>
    exact (h.withWorld world).goWorker hpc fun i hi => hi
  | send w i error hpc => exact h.send hpc _

end Ledger
namespace Phased

theorem start (numWorkers : Int) (tasks : Nat) (world : σ) (ctxDone : Bool) :
    (WorkerPool.start numWorkers tasks world ctxDone : WorkerPool σ τ ε).Phased where
  left hcaller := absurd rfl hcaller
  opened _ := ⟨rfl, rfl⟩

theorem waits (h : s.Phased) {i : Nat} {pc : Submitter ε} (hpc : s.submitters[i]? = some pc)
    (hlive : pc.isDone = false) : s.caller = .wait := by
  by_contra hcaller
  simp [h.left hcaller pc (List.mem_of_getElem? hpc)] at hlive

private theorem of_waits (h : s.Phased) (hwait : s.caller = .wait) (hcaller : t.caller = s.caller)
    (hclosed : t.closed = s.closed) (hstopped : t.stopped = s.stopped) : t.Phased where
  left hleft := absurd (hcaller.trans hwait) hleft
  opened _ := by
    rw [hclosed, hstopped]
    exact h.opened hwait

theorem isDone_of_handed {pc : Submitter ε} (hfree : pc.handed = false) : pc.isDone = false := by
  cases pc <;> simp [Submitter.handed, Submitter.isDone] at hfree ⊢

theorem step (h : s.Phased) (hstep : StepCase M s t) : t.Phased := by
  cases hstep with
  | cancel | world | exit | take | resume | finish | send => exact ⟨h.left, h.opened⟩
  | refuse i pc hpc hfree | pass i pc _ hpc hfree | enqueue i pc hpc hfree =>
    exact h.of_waits (h.waits hpc (isDone_of_handed hfree)) rfl rfl rfl
  | abandon i hpc | collect i result hpc => exact h.of_waits (h.waits hpc rfl) rfl rfl rfl
  | leave hwait hall => exact ⟨fun _ => hall, fun hcaller => by contradiction⟩
  | stop caller stopped closed hwait hnext =>
    exact ⟨fun _ => h.left hwait, fun hcaller => absurd hcaller hnext⟩

end Phased

theorem step_submitters_length (hstep : StepCase M s t) :
    t.submitters.length = s.submitters.length := by
  cases hstep <;> simp [refuse, enqueue, report, reply, goSubmitter, goWorker]

theorem step_capacity (hstep : StepCase M s t) : t.capacity = s.capacity := by
  cases hstep <;> rfl

theorem sized {numWorkers : Int} {n : Nat} {world : σ}
    (hreach : (machine M numWorkers n world).Reachable Machine.Any s) :
    s.Ledger ∧ s.Phased ∧ s.submitters.length = n ∧ s.capacity = poolSize numWorkers * 2 := by
  refine hreach.invariant (I := fun s => s.Ledger ∧ s.Phased ∧ s.submitters.length = n ∧
    s.capacity = poolSize numWorkers * 2) ?_ ?_
  · rintro s ⟨ctxDone, rfl⟩
    exact ⟨.start .., .start .., List.length_replicate, rfl⟩
  · intro s l t ⟨hledger, hphased, hlen, hcap⟩ _ hstep
    have hcase := step_cases hstep
    exact ⟨hledger.step hcase, hphased.step hcase, (step_submitters_length hcase).trans hlen,
      (step_capacity hcase).trans hcap⟩

end WorkerPool
end Goverse.Util
