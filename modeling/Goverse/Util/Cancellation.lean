import Mathlib.Data.List.Perm.Subperm
import Goverse.Util.WorkerPool

/-! When the cancellation of a batch can leave `SubmitAndWait` waiting for good. The blocking
send of `Submit` does not look at the context, so everything depends on whether a submitter can
come to it. -/
namespace Goverse.Util

open Lib

variable {σ τ χ ω ε : Type}

namespace WorkerPool

variable {M : Tasks σ τ χ ω ε} {s t : WorkerPool σ τ ε}

/-- Neither the surroundings nor the tasks' world. -/
def Label.inPool : Label χ ω → Bool
  | .cancel | .world _ => false
  | .submitter _ _ | .worker _ _ | .task _ _ | .caller => true

/-- The context is done and `SubmitAndWait` waits, but nobody can move. -/
structure Stuck (M : Tasks σ τ χ ω ε) (s : WorkerPool σ τ ε) : Prop where
  ctxDone : s.ctxDone = true
  waits : s.caller = .wait
  still : ∀ l : Label χ ω, l.inPool = true → step M s l = none

theorem Ledger.length_tasks_lt (h : s.Ledger) {i : Nat} {pc : Submitter ε}
    (hpc : s.submitters[i]? = some pc) (hfree : pc.handed = false) :
    s.tasks.length < s.submitters.length := by
  have hout : ∀ j ∈ s.tasks, j < s.submitters.length := by
    intro j hj
    rcases (h.queued j hj).2 with hj | hj
    all_goals exact (List.getElem?_eq_some_iff.mp hj).1
  have hnodup : (i :: s.tasks).Nodup :=
    List.nodup_cons.mpr ⟨fun hi => (h.queued i hi).ne hpc hfree rfl, h.nodup⟩
  have hsub : i :: s.tasks ⊆ List.range s.submitters.length := by
    intro j hj
    rcases List.mem_cons.mp hj with rfl | hj
    · exact List.mem_range.mpr (List.getElem?_eq_some_iff.mp hpc).1
    · exact List.mem_range.mpr (hout j hj)
  have hle := (List.subperm_of_subset hnodup hsub).length_le
  rw [List.length_cons, List.length_range] at hle
  exact hle

private theorem not_stuck (hledger : s.Ledger) (hphased : s.Phased)
    (hfits : s.submitters.length ≤ s.capacity) : ¬ s.Stuck M := by
  intro hstuck
  have hdone : s.done = true := by simp [done, hstuck.ctxDone]
  have hcaller := hstuck.still .caller rfl
  simp only [WorkerPool.step, callerStep, hstuck.waits] at hcaller
  split at hcaller
  · contradiction
  · rename_i hall
    obtain ⟨pc, hmem, hlive⟩ := List.all_eq_false.mp (by simpa using hall)
    obtain ⟨i, hi⟩ := List.mem_iff_getElem?.mp hmem
    have hstill : ∀ branch, s.submitterStep i pc branch = none := by
      intro branch
      simpa [WorkerPool.step, hi] using hstuck.still (.submitter i branch) rfl
    cases pc with
    | check => simpa [submitterStep, hdone] using hstill .ctx
    | trySend => simpa [submitterStep, hdone] using hstill .ctx
    | blocked =>
      have hroom : s.tasks.length < s.capacity :=
        Nat.lt_of_lt_of_le (hledger.length_tasks_lt hi rfl) hfits
      have hopen := (hphased.opened hstuck.waits).1
      simpa [submitterStep, hopen, hroom] using hstill .chan
    | awaiting => simpa [submitterStep, hstuck.ctxDone] using hstill .ctx
    | done result => simp [Submitter.isDone] at hlive

/-- The workers are gone and the channel is full, so that a blocked submitter stays so. -/
structure Jammed (s : WorkerPool σ τ ε) : Prop where
  ctxDone : s.ctxDone = true
  waits : s.caller = .wait
  opened : s.closed = false
  full : ¬ s.tasks.length < s.capacity
  exited : ∀ pc ∈ s.workers, pc = .exited
  blocked : .blocked ∈ s.submitters

theorem Jammed.stuck (h : s.Jammed)
    (hsettled : ∀ pc ∈ s.submitters, pc = .blocked ∨ pc.isDone = true) : s.Stuck M := by
  refine ⟨h.ctxDone, h.waits, fun l hl => ?_⟩
  cases l with
  | cancel | world => contradiction
  | caller =>
    have hall : s.submitters.all Submitter.isDone = false :=
      List.all_eq_false.mpr ⟨_, h.blocked, by simp [Submitter.isDone]⟩
    simp [WorkerPool.step, callerStep, h.waits, hall]
  | worker w branch =>
    apply Option.bind_eq_none_iff.mpr
    intro pc hpc
    rw [h.exited pc (List.mem_of_getElem? hpc)]
    cases branch <;> rfl
  | task w choice =>
    apply Option.bind_eq_none_iff.mpr
    intro pc hpc
    rw [h.exited pc (List.mem_of_getElem? hpc)]
    rfl
  | submitter i branch =>
    apply Option.bind_eq_none_iff.mpr
    intro pc hpc
    rcases hsettled pc (List.mem_of_getElem? hpc) with rfl | hdone
    · cases branch <;> simp [submitterStep, h.opened, h.full]
    · obtain ⟨r, rfl⟩ := Submitter.eq_done_of_isDone hdone
      cases branch <;> rfl

section Jam

variable (M) (numWorkers : Int) (n : Nat) (world : σ)

/-- No worker has moved and the first `k` tasks are in the channel. -/
def filled (k : Nat) : WorkerPool σ τ ε :=
  { start numWorkers n world false with
    tasks := List.range k
    submitters := List.replicate k .awaiting ++ List.replicate (n - k) .check }

private theorem filled_succ {k : Nat} (hk : k < n) (hroom : k < poolSize numWorkers * 2) :
    (machine M numWorkers n world).Steps Machine.Any (filled numWorkers n world k)
      [.submitter k .fallback, .submitter k .chan] (filled numWorkers n world (k + 1)) := by
  let mid := (filled numWorkers n world k : WorkerPool σ τ ε).goSubmitter k .trySend
  have hlen : k < (List.replicate k .awaiting ++
      List.replicate (n - k) .check : List (Submitter ε)).length := by
    simp only [List.length_append, List.length_replicate]
    omega
  have hcheck : (machine M numWorkers n world).step (filled numWorkers n world k)
      (.submitter k .fallback) = some mid := by
    apply Option.bind_eq_some_iff.mpr
    exact ⟨.check, getElem?_replicate_append _ _ hk, rfl⟩
  have hsend : (machine M numWorkers n world).step mid (.submitter k .chan) =
      some (filled numWorkers n world (k + 1)) := by
    apply Option.bind_eq_some_iff.mpr
    refine ⟨.trySend, List.getElem?_set_self hlen, ?_⟩
    have hfree : mid.tasks.length < mid.capacity := by
      show (List.range k).length < _
      rwa [List.length_range]
    simp only [submitterStep]
    rw [if_pos ⟨rfl, hfree⟩]
    simp only [mid, enqueue, goSubmitter, filled, List.set_set, List.range_succ,
      set_replicate_append _ _ hk]
  exact (Machine.Steps.single trivial hcheck).snoc trivial hsend

private theorem filled_reachable {k : Nat} (hk : k ≤ n) (hroom : k ≤ poolSize numWorkers * 2) :
    (machine M numWorkers n world).Reachable Machine.Any (filled numWorkers n world k) := by
  induction k with
  | zero => exact .init ⟨false, by simp [filled, start]⟩
  | succ k ih => exact (ih (by omega) (by omega)).steps (filled_succ M numWorkers n world hk hroom)

variable {M numWorkers n world}

private theorem exit_workers (hdone : s.ctxDone = true)
    {m : Nat} (hidle : s.workers = List.replicate m .idle) :
    ∃ ls, (machine M numWorkers n world).Steps Machine.Any s ls
      { s with workers := List.replicate m .exited } := by
  have hrun : ∀ k ≤ m, ∃ ls, (machine M numWorkers n world).Steps Machine.Any s ls
      { s with workers := List.replicate k .exited ++ List.replicate (m - k) .idle } := by
    intro k
    induction k with
    | zero =>
      intro _
      refine ⟨[], ?_⟩
      simp only [List.replicate_zero, List.nil_append, Nat.sub_zero, ← hidle]
      exact .nil s
    | succ k ih =>
      intro hk
      obtain ⟨ls, hls⟩ := ih (by omega)
      refine ⟨_, hls.snoc (l := .worker k .ctx) trivial ?_⟩
      apply Option.bind_eq_some_iff.mpr
      refine ⟨.idle, getElem?_replicate_append _ _ hk, ?_⟩
      simp [workerStep, done, hdone, goWorker, set_replicate_append _ _ hk]
  simpa using hrun m (Nat.le_refl m)

theorem Jammed.settle_one (h : s.Jammed) {i : Nat} {pc : Submitter ε}
    (hpc : s.submitters[i]? = some pc) (hfree : pc ≠ .blocked) :
    ∃ ls t result, (machine M numWorkers n world).Steps Machine.Any s ls t ∧ t.Jammed ∧
      t.submitters = s.submitters.set i (.done result) := by
  have hdone : s.done = true := by simp [done, h.ctxDone]
  have hlen := (List.getElem?_eq_some_iff.mp hpc).1
  have hblocked : ∀ pc' : Submitter ε, .blocked ∈ s.submitters.set i pc' := fun pc' =>
    (eq_or_mem_set hpc h.blocked).resolve_left (Ne.symm hfree)
  -- the last step of every such submitter
  have hgive : ∀ u : WorkerPool σ τ ε, u.submitters[i]? = some .awaiting → u.ctxDone = true →
      (machine M numWorkers n world).Steps Machine.Any u [.submitter i .ctx]
        (u.report i (some .canceled)) := by
    intro u hu hctx
    apply Machine.Steps.single trivial
    apply Option.bind_eq_some_iff.mpr
    exact ⟨_, hu, by simp [submitterStep, hctx]⟩
  have hrefused : ∀ pc' : Submitter ε, s.submitterStep i pc' .ctx = some (s.refuse i) →
      s.submitters[i]? = some pc' → ∃ ls t result,
        (machine M numWorkers n world).Steps Machine.Any s ls t ∧ t.Jammed ∧
          t.submitters = s.submitters.set i (.done result) := by
    intro pc' hstep hpc'
    have hfirst : (machine M numWorkers n world).Steps Machine.Any s [.submitter i .ctx]
        (s.refuse i) :=
      Machine.Steps.single trivial (Option.bind_eq_some_iff.mpr ⟨pc', hpc', hstep⟩)
    have hlast := hgive (s.refuse i) (List.getElem?_set_self hlen) h.ctxDone
    refine ⟨_, _, some .canceled, hfirst.append hlast, ?_, List.set_set ..⟩
    refine ⟨h.ctxDone, h.waits, h.opened, h.full, h.exited, ?_⟩
    show .blocked ∈ (s.submitters.set i .awaiting).set i _
    rw [List.set_set]
    exact hblocked _
  cases pc with
  | check => exact hrefused .check (by simp [submitterStep, hdone]) hpc
  | trySend => exact hrefused .trySend (by simp [submitterStep, hdone]) hpc
  | blocked => contradiction
  | awaiting =>
    refine ⟨_, _, some .canceled, hgive s hpc h.ctxDone, ?_, rfl⟩
    exact ⟨h.ctxDone, h.waits, h.opened, h.full, h.exited, hblocked _⟩
  | done result =>
    refine ⟨[], s, result, .nil s, h, ?_⟩
    rw [set_same hpc]

theorem Jammed.settle (h : s.Jammed) :
    ∃ ls t, (machine M numWorkers n world).Steps Machine.Any s ls t ∧ t.Stuck M := by
  have hrun : ∀ k ≤ s.submitters.length, ∃ ls t,
      (machine M numWorkers n world).Steps Machine.Any s ls t ∧ t.Jammed ∧
        t.submitters.length = s.submitters.length ∧
        ∀ i < k, ∀ pc, t.submitters[i]? = some pc → pc = .blocked ∨ pc.isDone = true := by
    intro k
    induction k with
    | zero => exact fun _ => ⟨[], s, .nil s, h, rfl, fun i hi => absurd hi (Nat.not_lt_zero i)⟩
    | succ k ih =>
      intro hk
      obtain ⟨ls, t, hls, hjam, hlen, hsettled⟩ := ih (by omega)
      have hlt : k < t.submitters.length := by omega
      have hpc := List.getElem?_eq_getElem hlt
      by_cases hblocked : t.submitters[k] = .blocked
      · refine ⟨ls, t, hls, hjam, hlen, fun i hi pc hi' => ?_⟩
        rcases Nat.lt_succ_iff_lt_or_eq.mp hi with hi | rfl
        · exact hsettled i hi pc hi'
        · rw [hpc, hblocked] at hi'
          exact .inl (Option.some.inj hi').symm
      · obtain ⟨ms, u, result, hms, hjam', hset⟩ := hjam.settle_one hpc hblocked
        refine ⟨_, u, hls.append hms, hjam', by rw [hset, List.length_set, hlen], ?_⟩
        intro i hi pc hi'
        rw [hset] at hi'
        rcases getElem?_set_cases hi' with ⟨-, rfl⟩ | ⟨hne, hi'⟩
        · exact .inr rfl
        · exact hsettled i (by omega) pc hi'
  obtain ⟨ls, t, hls, hjam, hlen, hsettled⟩ := hrun _ (Nat.le_refl _)
  refine ⟨ls, t, hls, hjam.stuck fun pc hpc => ?_⟩
  obtain ⟨i, hi⟩ := List.mem_iff_getElem?.mp hpc
  exact hsettled i (hlen ▸ (List.getElem?_eq_some_iff.mp hi).1) pc hi

/-- One task more than fits: its submitter finds the channel full and waits in a send that does
not look at the context. Then the context ends, and every worker sees that before the channel. -/
private theorem exists_jammed (hmore : poolSize numWorkers * 2 < n) :
    ∃ s, (machine M numWorkers n world).Reachable Machine.Any s ∧ s.Jammed := by
  let i := poolSize numWorkers * 2
  let full : WorkerPool σ τ ε := filled numWorkers n world i
  let blocked := (full.goSubmitter i .trySend).goSubmitter i .blocked
  have hreach := filled_reachable M numWorkers n world (Nat.le_of_lt hmore) (Nat.le_refl i)
  have hcheck : full.submitters[i]? = some .check := getElem?_replicate_append _ _ hmore
  have hlen := (List.getElem?_eq_some_iff.mp hcheck).1
  have hfull : ¬ (List.range i).length < poolSize numWorkers * 2 := by simp [i]
  have hpass : (machine M numWorkers n world).step full (.submitter i .fallback) =
      some (full.goSubmitter i .trySend) :=
    Option.bind_eq_some_iff.mpr ⟨.check, hcheck, rfl⟩
  have hblock : (machine M numWorkers n world).step (full.goSubmitter i .trySend)
      (.submitter i .fallback) = some blocked :=
    Option.bind_eq_some_iff.mpr
      ⟨.trySend, List.getElem?_set_self hlen, if_pos ⟨rfl, rfl, hfull⟩⟩
  have hcancel : (machine M numWorkers n world).step blocked .cancel =
      some { blocked with ctxDone := true } := rfl
  obtain ⟨ls, hexit⟩ : ∃ ls, (machine M numWorkers n world).Steps Machine.Any
      { blocked with ctxDone := true } ls
      { blocked with ctxDone := true, workers := List.replicate (poolSize numWorkers) .exited } :=
    exit_workers rfl rfl
  have hjam := (((hreach.steps (.single trivial hpass)).steps (.single trivial hblock)).steps
    (.single trivial hcancel)).steps hexit
  refine ⟨_, hjam, rfl, rfl, rfl, hfull, ?_, ?_⟩
  · exact fun pc hpc => List.eq_of_mem_replicate hpc
  · show Submitter.blocked ∈ (full.submitters.set i .trySend).set i .blocked
    rw [List.set_set]
    exact mem_set_self hcheck

end Jam

/-- Once its context is done, a batch never comes to a standstill, whatever its tasks do,
exactly if the channel has room for all of its tasks. -/
theorem cancelled_batch_moves_on_iff (M : Tasks σ τ χ ω ε) (numWorkers : Int) (n : Nat)
    (world : σ) :
    (∀ s, (machine M numWorkers n world).Reachable Machine.Any s → ¬ s.Stuck M) ↔
      n ≤ poolSize numWorkers * 2 := by
  constructor
  · intro hfree
    by_contra hmore
    obtain ⟨s, hreach, hjam⟩ : ∃ s, (machine M numWorkers n world).Reachable Machine.Any s ∧
        s.Jammed := exists_jammed (Nat.lt_of_not_le hmore)
    obtain ⟨ls, t, hrun, hstuck⟩ := hjam.settle
    exact hfree t (hreach.steps hrun) hstuck
  · intro hfits s hreach
    obtain ⟨hledger, hphased, hlen, hcap⟩ := sized hreach
    exact not_stuck hledger hphased (by omega)

/-- Tasks that return `nil` at once. -/
def instantly : Tasks Unit Unit Unit Unit Unit where
  start := ()
  step _ _ _ _ _ := some ((), .inr none)
  env _ _ := none

/-- One worker and three tasks: two fill the channel, the third waits for room that nobody
will make. -/
theorem cancelled_batch_hangs :
    ∃ s, (machine instantly 1 3 ()).Reachable Machine.Any s ∧ s.Stuck instantly := by
  have hrun : ((machine instantly 1 3 ()).exec Machine.Any (start 1 3 () false)
      [.submitter 0 .fallback, .submitter 0 .chan, .submitter 1 .fallback, .submitter 1 .chan,
        .submitter 2 .fallback, .submitter 2 .fallback, .cancel,
        .worker 0 .ctx, .submitter 0 .ctx, .submitter 1 .ctx]).any (fun s => decide
      (s.ctxDone = true ∧ s.caller = .wait ∧ s.closed = false ∧
        ¬ s.tasks.length < s.capacity ∧ (∀ pc ∈ s.workers, pc = .exited) ∧
        .blocked ∈ s.submitters ∧
        ∀ pc ∈ s.submitters, pc = .blocked ∨ pc.isDone = true)) = true := by decide
  obtain ⟨s, hreach, hend⟩ := Machine.exec_reachable hrun ⟨false, rfl⟩
  obtain ⟨hctx, hwait, hopen, hfull, hexited, hblocked, hsettled⟩ := of_decide_eq_true hend
  refine ⟨s, hreach, ?_⟩
  exact Jammed.stuck ⟨hctx, hwait, hopen, hfull, hexited, hblocked⟩ hsettled

end WorkerPool
end Goverse.Util
