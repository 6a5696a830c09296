import Goverse.Util.WorkerPool

/-! The pool runs every task at most once and on its own, so what the tasks do can be said task
by task; and what `SubmitAndWait` returns are their results. -/
namespace Goverse.Util

open Lib

variable {σ τ χ ω ε : Type}

/-- How far a task of the batch has come. -/
inductive TaskStage (τ ε : Type) where
  | fresh
  | running (state : τ)
  | ended (error : Option ε)

/-- What may be said of the world and one task, as the task alone moves through its stages. -/
structure Tasks.Rule (M : Tasks σ τ χ ω ε) (Holds : Nat → TaskStage τ ε → σ → Prop) : Prop where
  begin : ∀ {i : Nat} {world : σ}, Holds i .fresh world → Holds i (.running M.start) world
  resume : ∀ {i : Nat} {done : Bool} {world next : σ} {state state' : τ} {choice : χ},
    M.step i done world state choice = some (next, .inl state') →
    Holds i (.running state) world → Holds i (.running state') next
  finish : ∀ {i : Nat} {done : Bool} {world next : σ} {state : τ} {choice : χ}
    {error : Option ε}, M.step i done world state choice = some (next, .inr error) →
    Holds i (.running state) world → Holds i (.ended error) next
  other : ∀ {i j : Nat} {done : Bool} {world next : σ} {state : τ} {choice : χ}
    {result : τ ⊕ Option ε} {stage : TaskStage τ ε},
    M.step i done world state choice = some (next, result) → Holds i (.running state) world →
    j ≠ i → Holds j stage world → Holds j stage next
  env : ∀ {i : Nat} {world next : σ} {event : ω} {stage : TaskStage τ ε},
    M.env world event = some next → Holds i stage world → Holds i stage next

namespace WorkerPool

variable {M : Tasks σ τ χ ω ε} {s t : WorkerPool σ τ ε}
  {Holds : Nat → TaskStage τ ε → σ → Prop}

/-- Every task is at the stage at which the pool has it. One whose worker has exited is no
longer with the pool, but it is at some stage. -/
structure Follows (Holds : Nat → TaskStage τ ε → σ → Prop) (s : WorkerPool σ τ ε) : Prop where
  staged : ∀ i, ∃ stage, Holds i stage s.world
  unhanded : ∀ (i : Nat) (pc : Submitter ε), s.submitters[i]? = some pc → pc.handed = false →
    Holds i .fresh s.world
  queued : ∀ i ∈ s.tasks, Holds i .fresh s.world
  running : ∀ (w i : Nat) (state : τ), s.workers[w]? = some (.running i state) →
    Holds i (.running state) s.world
  sending : ∀ (w i : Nat) (error : Option ε), s.workers[w]? = some (.sending i error) →
    Holds i (.ended error) s.world
  replied : ∀ i, s.replies i = some none → Holds i (.ended none) s.world
  reported : ∀ i, s.submitters[i]? = some (.done none) → Holds i (.ended none) s.world

namespace Follows

theorem start {numWorkers : Int} {n : Nat} {world : σ} (h : ∀ i, Holds i .fresh world)
    (ctxDone : Bool) : Follows Holds (WorkerPool.start numWorkers n world ctxDone) where
  staged i := ⟨.fresh, h i⟩
  unhanded i _ _ _ := h i
  queued i hi := by cases hi
  running w i state hw := by
    have := List.eq_of_mem_replicate (List.mem_of_getElem? hw)
    contradiction
  sending w i error hw := by
    have := List.eq_of_mem_replicate (List.mem_of_getElem? hw)
    contradiction
  replied i hi := by cases hi
  reported i hi := by
    have := List.eq_of_mem_replicate (List.mem_of_getElem? hi)
    contradiction

theorem env (h : Follows Holds s) (hrule : M.Rule Holds) {event : ω} {world : σ}
    (henv : M.env s.world event = some world) : Follows Holds { s with world := world } where
  staged i := (h.staged i).imp fun _ hi => hrule.env henv hi
  unhanded i pc hpc hfree := hrule.env henv (h.unhanded i pc hpc hfree)
  queued i hi := hrule.env henv (h.queued i hi)
  running w i state hw := hrule.env henv (h.running w i state hw)
  sending w i error hw := hrule.env henv (h.sending w i error hw)
  replied i hi := hrule.env henv (h.replied i hi)
  reported i hi := hrule.env henv (h.reported i hi)

theorem submitter (h : Follows Holds s) {i : Nat} {pc : Submitter ε}
    {replies : Nat → Option (Result ε)} {results : List (Result ε)}
    (hpc : pc.handed = false → Holds i .fresh s.world)
    (hnil : pc = .done none → Holds i (.ended none) s.world)
    (hreplies : ∀ j, replies j = some none → s.replies j = some none) :
    Follows Holds { s with
      submitters := s.submitters.set i pc, replies := replies, results := results } where
  staged := h.staged
  unhanded j pc' hj hfree := by
    rcases getElem?_set_cases hj with ⟨rfl, rfl⟩ | ⟨-, hj⟩
    · exact hpc hfree
    · exact h.unhanded j pc' hj hfree
  queued := h.queued
  running := h.running
  sending := h.sending
  replied j hj := h.replied j (hreplies j hj)
  reported j hj := by
    rcases getElem?_set_cases hj with ⟨rfl, hdone⟩ | ⟨-, hj⟩
    · exact hnil hdone.symm
    · exact h.reported j hj

theorem worker (h : Follows Holds s) {w : Nat} {pc : Worker τ ε} {tasks : List Nat}
    {replies : Nat → Option (Result ε)} (htasks : ∀ i ∈ tasks, i ∈ s.tasks)
    (hrunning : ∀ i state, pc = .running i state → Holds i (.running state) s.world)
    (hsending : ∀ i error, pc = .sending i error → Holds i (.ended error) s.world)
    (hreplies : ∀ i, replies i = some none → Holds i (.ended none) s.world) :
    Follows Holds { s with
      tasks := tasks, workers := s.workers.set w pc, replies := replies } where
  staged := h.staged
  unhanded := h.unhanded
  queued i hi := h.queued i (htasks i hi)
  running v i state hv := by
    rcases getElem?_set_cases hv with ⟨-, hpc⟩ | ⟨-, hv⟩
    · exact hrunning i state hpc.symm
    · exact h.running v i state hv
  sending v i error hv := by
    rcases getElem?_set_cases hv with ⟨-, hpc⟩ | ⟨-, hv⟩
    · exact hsending i error hpc.symm
    · exact h.sending v i error hv
  replied := hreplies
  reported := h.reported

theorem task (h : Follows Holds s) (hrule : M.Rule Holds) (hledger : s.Ledger) {w i : Nat}
    {state : τ} {choice : χ} {world : σ} {result : τ ⊕ Option ε} {pc : Worker τ ε}
    (hpc : s.workers[w]? = some (.running i state))
    (hstep : M.step i s.done s.world state choice = some (world, result))
    (hself : ∃ stage, Holds i stage world)
    (hrunning : ∀ j state', pc = .running j state' → Holds j (.running state') world)
    (hsending : ∀ j error, pc = .sending j error → Holds j (.ended error) world) :
    Follows Holds { s with world := world, workers := s.workers.set w pc } := by
  have hholds := h.running w i state hpc
  obtain ⟨hout, hnot⟩ := hledger.taken w i _ hpc rfl
  have hother : ∀ {j stage}, j ≠ i → Holds j stage s.world → Holds j stage world :=
    fun hne hj => hrule.other hstep hholds hne hj
  have hworker : ∀ {v j pc'}, v ≠ w → s.workers[v]? = some pc' → pc'.task = some j → j ≠ i := by
    rintro v j pc' hne hv hj rfl
    exact hne (hledger.single j v w pc' _ hv hpc (decide_eq_true hj) (decide_eq_true rfl))
  constructor
  case staged =>
    intro j
    by_cases hj : j = i
    · subst hj
      exact hself
    · exact (h.staged j).imp fun _ hstage => hother hj hstage
  case unhanded =>
    intro j pc' hj hfree
    exact hother (hout.ne hj hfree).symm (h.unhanded j pc' hj hfree)
  case queued =>
    intro j hj
    exact hother (fun heq => hnot (heq ▸ hj)) (h.queued j hj)
  case running =>
    intro v j state' hv
    rcases getElem?_set_cases hv with ⟨-, heq⟩ | ⟨hne, hv⟩
    · exact hrunning j state' heq.symm
    · exact hother (hworker hne hv rfl) (h.running v j state' hv)
  case sending =>
    intro v j error hv
    rcases getElem?_set_cases hv with ⟨-, heq⟩ | ⟨hne, hv⟩
    · exact hsending j error heq.symm
    · exact hother (hworker hne hv rfl) (h.sending v j error hv)
  case replied =>
    intro j hj
    refine hother ?_ (h.replied j hj)
    rintro rfl
    rw [hout.1] at hj
    contradiction
  case reported =>
    intro j hj
    refine hother ?_ (h.reported j hj)
    rintro rfl
    rcases hout.2 with hout | hout
    all_goals
      rw [show s.submitters[j]? = _ from hout] at hj
      cases hj

private theorem replied_update (h : Follows Holds s) {i : Nat} {result : Option (Result ε)}
    (hresult : result = some none → Holds i (.ended none) s.world) :
    ∀ j, Function.update s.replies i result j = some none → Holds j (.ended none) s.world := by
  intro j hj
  by_cases hij : j = i
  · subst hij
    rw [Function.update_self] at hj
    exact hresult hj
  · rw [Function.update_of_ne hij] at hj
    exact h.replied j hj

theorem step (h : Follows Holds s) (hrule : M.Rule Holds) (hledger : s.Ledger)
    (hstep : StepCase M s t) : Follows Holds t := by
  have hupdate : ∀ {i : Nat} {result : Option (Result ε)}, result ≠ some none → ∀ j,
      Function.update s.replies i result j = some none → s.replies j = some none := by
    intro i result hresult j hj
    by_cases hij : j = i
    · subst hij
      rw [Function.update_self] at hj
      contradiction
    · rwa [Function.update_of_ne hij] at hj
  cases hstep with
  | cancel | leave | stop =>
    exact ⟨h.staged, h.unhanded, h.queued, h.running, h.sending, h.replied, h.reported⟩
  | world event world henv => exact h.env hrule henv
  | refuse i pc hpc hfree =>
    exact h.submitter (by simp [Submitter.handed]) (by simp) (hupdate (by simp))
  | pass i pc next hpc hfree hnext =>
    refine h.submitter (fun _ => h.unhanded i pc hpc hfree) ?_ fun _ hj => hj
    rintro rfl
    contradiction
  | enqueue i pc hpc hfree =>
    have hmore : Follows Holds { s with tasks := s.tasks ++ [i] } := by
      refine ⟨h.staged, h.unhanded, fun j hj => ?_, h.running, h.sending, h.replied, h.reported⟩
      rcases mem_concat_cases hj with hj | rfl
      · exact h.queued j hj
      · exact h.unhanded j pc hpc hfree
    exact hmore.submitter (by simp [Submitter.handed]) (by simp) fun _ hj => hj
  | abandon i hpc => exact h.submitter (by simp [Submitter.handed]) (by simp) fun _ hj => hj
  | collect i result hpc hreply =>
    refine h.submitter (by simp [Submitter.handed]) ?_ (hupdate (by simp))
    intro hnil
    cases hnil
    exact h.replied i hreply
  | exit w pc hpc => exact h.worker (fun _ hi => hi) (by simp) (by simp) h.replied
  | take w i rest hpc htasks =>
    have hmem : i ∈ s.tasks := by simp [htasks]
    refine h.worker (fun j hj => by simp [htasks, hj]) ?_ (by simp) h.replied
    rintro j state heq
    cases heq
    exact hrule.begin (h.queued i hmem)
  | resume w i state next choice world hpc hstep =>
    have hnext := hrule.resume hstep (h.running w i state hpc)
    refine h.task hrule hledger hpc hstep ⟨_, hnext⟩ ?_ (by simp)
    rintro j state' heq
    cases heq
    exact hnext
  | finish w i state error choice world hpc hstep =>
    have hnext := hrule.finish hstep (h.running w i state hpc)
    refine h.task hrule hledger hpc hstep ⟨_, hnext⟩ (by simp) ?_
    rintro j error' heq
    cases heq
    exact hnext
  | send w i error hpc =>
    refine h.worker (fun _ hi => hi) (by simp) (by simp) (h.replied_update ?_)
    intro hnil
    cases error with
    | none => exact h.sending w i none hpc
    | some error => simp at hnil

end Follows

/-- What was appended is what the submitters that are done appended. -/
def Counted (s : WorkerPool σ τ ε) : Prop :=
  ∀ q, s.results.countP q = s.submitters.countP (Submitter.reported q)

theorem Counted.goSubmitter (h : s.Counted) {i : Nat} {pc next : Submitter ε}
    (hpc : s.submitters[i]? = some pc) (hlive : pc.isDone = false)
    (hnext : next.isDone = false) : (s.goSubmitter i next).Counted := by
  intro q
  have hset := countP_set_add (b := next) (p := Submitter.reported q) hpc
  have hold : pc.reported q = false := by cases pc <;> simp [Submitter.isDone] at hlive <;> rfl
  have hnew : next.reported q = false := by
    cases next <;> simp [Submitter.isDone] at hnext <;> rfl
  rw [hold, hnew] at hset
  exact (h q).trans hset.symm

theorem Counted.report (h : s.Counted) {i : Nat} (hpc : s.submitters[i]? = some .awaiting)
    (result : Result ε) : (s.report i result).Counted := by
  intro q
  have hset := countP_set_add (b := .done result) (p := Submitter.reported q) hpc
  show (s.results ++ [result]).countP q = _
  have hold := h q
  rw [List.countP_append, List.countP_singleton]
  show _ = (s.submitters.set i (.done result)).countP _
  cases hq : q result <;> simp [Submitter.reported, hq] at hset ⊢ <;> omega

theorem Counted.step (h : s.Counted) (hstep : StepCase M s t) : t.Counted := by
  cases hstep with
  | refuse i pc hpc hfree => exact h.goSubmitter hpc (Phased.isDone_of_handed hfree) rfl
  | pass i pc next hpc hfree hnext =>
    exact h.goSubmitter hpc (Phased.isDone_of_handed hfree) (Phased.isDone_of_handed hnext)
  | enqueue i pc hpc hfree => exact h.goSubmitter hpc (Phased.isDone_of_handed hfree) rfl
  | abandon i hpc => exact h.report hpc _
  | collect i result hpc => exact h.report hpc result
  | _ => exact h

end WorkerPool
end Goverse.Util
