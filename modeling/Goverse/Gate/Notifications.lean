import Mathlib.Data.Finset.Insert
import Goverse.Gate.Clients

/-! What a gate tells the inspector about its clients. `Register` and `Unregister` queue a job on
the worker of the task pool that the gate's address is hashed to, and the job reads the number of
clients under `clientsMu`. `Unregister` queues its job with that lock held. Without the jobs, every
run is one of the gate's clients, and the lock is theirs. -/
namespace Goverse.Gate

open Lib

/-- A job of `UpdateGateClients`, with or without a cluster info provider to ask, or one that
somebody else has queued on the worker. -/
inductive NotifyJob where
  | updateGateClients (provider : Bool)
  | other
  deriving DecidableEq, Repr

/-- Where a goroutine is that registers or unregisters a client or queues another job. At `notify`
and `notifyLocked` it has come to `NotifyClientCountChanged`. -/
inductive NotifyPc where
  | register (clientID : GoString)
  | insert (clientID : GoString)
  | notify
  | enqueue (job : NotifyJob)
  | unregister (clientID : GoString)
  | remove (clientID : GoString)
  | notifyLocked
  | enqueueLocked (job : NotifyJob)
  | unlock
  | done
  deriving DecidableEq, Repr

def NotifyPc.holds : NotifyPc → Bool
  | .insert _ | .remove _ | .notifyLocked | .enqueueLocked _ | .unlock => true
  | .register _ | .notify | .enqueue _ | .unregister _ | .done => false

/-- Where the goroutine is for the clients of the gate, who do not see the jobs. -/
def NotifyPc.place : NotifyPc → Pc
  | .register clientID => .start (.register clientID)
  | .insert clientID => .insert clientID
  | .unregister clientID => .start (.unregister clientID)
  | .remove clientID => .remove clientID
  | .notifyLocked | .enqueueLocked _ | .unlock => .unlock
  | .notify | .enqueue _ | .done => .done

/-- The goroutine is in `enqueueJob`. -/
def NotifyPc.submits : NotifyPc → Bool
  | .enqueue _ | .enqueueLocked _ => true
  | _ => false

/-- What the worker does. At `count` it is about to ask for the number of clients. -/
inductive NotifyWorker where
  | idle
  | count (provider : Bool)
  | rpc (clientCount : Nat)
  | other
  deriving DecidableEq, Repr

structure Notifications where
  clients : Finset GoString
  clientsMu : Option Nat
  queue : List NotifyJob
  worker : NotifyWorker
  threads : List NotifyPc

/-- `connected` is what `UpdateGateClients` finds: nothing, if there is no inspector, or whether it
has a provider. -/
inductive NotifyLabel where
  | register (clientID : GoString)
  | unregister (clientID : GoString)
  | submit
  | thread (i : Nat) (connected : Option Bool)
  | worker
  deriving DecidableEq, Repr

def NotifyJob.start : NotifyJob → NotifyWorker
  | .updateGateClients provider => .count provider
  | .other => .other

namespace Notifications

def goto (s : Notifications) (i : Nat) (pc : NotifyPc) : Notifications :=
  { s with threads := s.threads.set i pc }

def spawn (s : Notifications) (pc : NotifyPc) : Notifications :=
  { s with threads := s.threads ++ [pc] }

def lock (s : Notifications) (i : Nat) (pc : NotifyPc) : Option Notifications :=
  if s.clientsMu = none then some ({ s with clientsMu := some i }.goto i pc) else none

/-- The send to the worker's channel waits for room. -/
def enqueueJob (s : Notifications) (capacity i : Nat) (job : NotifyJob) (pc : NotifyPc) :
    Option Notifications :=
  if s.queue.length < capacity then some ({ s with queue := s.queue ++ [job] }.goto i pc)
  else none

def threadStep (s : Notifications) (capacity i : Nat) (connected : Option Bool) :
    NotifyPc → Option Notifications
  | .register clientID => s.lock i (.insert clientID)
  | .insert clientID =>
    some ({ s with clients := insert clientID s.clients, clientsMu := none }.goto i .notify)
  | .notify => some (s.goto i (connected.elim .done fun p => .enqueue (.updateGateClients p)))
  | .enqueue job => s.enqueueJob capacity i job .done
  | .unregister clientID => s.lock i (.remove clientID)
  | .remove clientID =>
    if clientID ∈ s.clients then
      some ({ s with clients := s.clients.erase clientID }.goto i .notifyLocked)
    else some (s.goto i .unlock)
  | .notifyLocked =>
    some (s.goto i (connected.elim .unlock fun p => .enqueueLocked (.updateGateClients p)))
  | .enqueueLocked job => s.enqueueJob capacity i job .unlock
  | .unlock => some ({ s with clientsMu := none }.goto i .done)
  | .done => none

def workerStep (s : Notifications) : Option Notifications :=
  match s.worker with
  | .idle =>
    match s.queue with
    | [] => none
    | job :: rest => some { s with queue := rest, worker := job.start }
  | .count true =>
    if s.clientsMu = none then some { s with worker := .rpc s.clients.card } else none
  | .count false => some { s with worker := .rpc 0 }
  | .rpc _ | .other => some { s with worker := .idle }

def step (capacity : Nat) (s : Notifications) : NotifyLabel → Option Notifications
  | .register clientID => some (s.spawn (.register clientID))
  | .unregister clientID => some (s.spawn (.unregister clientID))
  | .submit => some (s.spawn (.enqueue .other))
  | .thread i connected => s.threads[i]?.bind (s.threadStep capacity i connected)
  | .worker => s.workerStep

/-- The channel of a worker is made with a buffer for 100 jobs. -/
def machine (capacity : Nat) : Machine Notifications NotifyLabel where
  Init s := s = ⟨∅, none, [], .idle, []⟩
  step := step capacity

/-- The jobs that are being submitted, queued or run. -/
def outstanding (s : Notifications) : Nat :=
  s.queue.length + s.threads.countP (·.submits) + (decide (s.worker ≠ .idle)).toNat

/-- No more than `limit` jobs are outstanding at any time. -/
def AtMost (capacity limit : Nat) (s : Notifications) (l : NotifyLabel) : Prop :=
  ∀ t, step capacity s l = some t → t.outstanding ≤ limit

/-- A goroutine with `clientsMu` waits for room in the queue, and the job that runs waits for
`clientsMu`. -/
def Deadlocked (capacity : Nat) (s : Notifications) : Prop :=
  ∃ i job, s.threads[i]? = some (.enqueueLocked job) ∧ s.clientsMu = some i ∧
    capacity ≤ s.queue.length ∧ s.worker = .count true

variable {capacity limit : Nat} {s t : Notifications}

theorem Deadlocked.le_outstanding (h : Deadlocked capacity s) : capacity + 2 ≤ s.outstanding := by
  obtain ⟨i, job, hi, -, hfull, hworker⟩ := h
  have hpos : 0 < s.threads.countP (·.submits) :=
    List.countP_pos_iff.mpr ⟨_, List.mem_of_getElem? hi, rfl⟩
  rw [outstanding, hworker]
  simp
  omega

theorem outstanding_le_of_reachable
    (hreach : (machine capacity).Reachable (AtMost capacity limit) s) : s.outstanding ≤ limit := by
  apply hreach.invariant (I := fun s => s.outstanding ≤ limit)
  · rintro s rfl
    exact Nat.zero_le _
  · intro s l t _ hok hstep
    exact hok t hstep

/-- What a step can do: a goroutine takes `clientsMu`, gives it back or queues its job, or neither
the lock nor the queue is concerned. -/
inductive StepCase (capacity : Nat) (s t : Notifications) : Prop
  | spawned {pc : NotifyPc} (hpc : pc.holds = false) (ht : t = s.spawn pc)
  | acquired {i : Nat} {pc' : NotifyPc} (hfree : s.clientsMu = none)
      (ht : t = { s with clientsMu := some i }.goto i pc')
  | released {i : Nat} {pc pc' : NotifyPc} (hi : s.threads[i]? = some pc) (hpc : pc.holds = true)
      (hidle : pc.submits = false) (hpc' : pc'.holds = false)
      (hthreads : t.threads = s.threads.set i pc') (hmu : t.clientsMu = none)
      (hqueue : t.queue = s.queue) (hworker : t.worker = s.worker)
  | moved {i : Nat} {pc pc' : NotifyPc} (hi : s.threads[i]? = some pc)
      (hpc' : pc'.holds = true → pc.holds = true) (hidle : pc.submits = false)
      (hthreads : t.threads = s.threads.set i pc') (hmu : t.clientsMu = s.clientsMu)
      (hqueue : t.queue = s.queue) (hworker : t.worker = s.worker)
  | queued {i : Nat} {job : NotifyJob} {pc pc' : NotifyPc} (hi : s.threads[i]? = some pc)
      (hpc' : pc'.holds = true → pc.holds = true) (hroom : s.queue.length < capacity)
      (ht : t = { s with queue := s.queue ++ [job] }.goto i pc')
  | worked (hcount : s.worker = .count true → s.clientsMu = none) (hthreads : t.threads = s.threads)
      (hmu : t.clientsMu = s.clientsMu) (hqueue : t.queue.length ≤ s.queue.length)

theorem lock_cases {i : Nat} {pc : NotifyPc} (hstep : s.lock i pc = some t) :
    StepCase capacity s t := by
  unfold lock at hstep
  split at hstep
  · rename_i hfree
    cases hstep
    exact .acquired hfree rfl
  · contradiction

theorem enqueueJob_cases {i : Nat} {job : NotifyJob} {pc pc' : NotifyPc}
    (hi : s.threads[i]? = some pc) (hpc' : pc'.holds = true → pc.holds = true)
    (hstep : s.enqueueJob capacity i job pc' = some t) : StepCase capacity s t := by
  unfold enqueueJob at hstep
  split at hstep
  · rename_i hroom
    cases hstep
    exact .queued hi hpc' hroom rfl
  · contradiction

theorem threadStep_cases {i : Nat} {connected : Option Bool} {pc : NotifyPc}
    (hi : s.threads[i]? = some pc) (hstep : s.threadStep capacity i connected pc = some t) :
    StepCase capacity s t := by
  cases pc with
  | register clientID => exact lock_cases hstep
  | unregister clientID => exact lock_cases hstep
  | insert clientID =>
    cases hstep
    exact .released hi rfl rfl rfl rfl rfl rfl rfl
  | notify =>
    cases hstep
    refine .moved hi ?_ rfl rfl rfl rfl rfl
    cases connected <;> nofun
  | enqueue job => exact enqueueJob_cases hi (by simp [NotifyPc.holds]) hstep
  | remove clientID =>
    rw [threadStep] at hstep
    split at hstep <;>
    · cases hstep
      exact .moved hi (fun _ => rfl) rfl rfl rfl rfl rfl
  | notifyLocked =>
    cases hstep
    exact .moved hi (fun _ => rfl) rfl rfl rfl rfl rfl
  | enqueueLocked job => exact enqueueJob_cases hi (fun _ => rfl) hstep
  | unlock =>
    cases hstep
    exact .released hi rfl rfl rfl rfl rfl rfl rfl
  | done => contradiction

theorem workerStep_cases (hstep : s.workerStep = some t) : StepCase capacity s t := by
  unfold workerStep at hstep
  split at hstep
  · rename_i hworker
    split at hstep
    · contradiction
    · rename_i hqueue
      cases hstep
      exact .worked (by simp [hworker]) rfl rfl (by simp [hqueue])
  · split at hstep
    · rename_i hfree
      cases hstep
      exact .worked (fun _ => hfree) rfl rfl le_rfl
    · contradiction
  all_goals
    rename_i hworker
    cases hstep
    exact .worked (by simp [hworker]) rfl rfl le_rfl

theorem step_cases {l : NotifyLabel} (hstep : step capacity s l = some t) :
    StepCase capacity s t := by
  cases l with
  | register clientID =>
    cases hstep
    exact .spawned rfl rfl
  | unregister clientID =>
    cases hstep
    exact .spawned rfl rfl
  | submit =>
    cases hstep
    exact .spawned rfl rfl
  | thread i connected =>
    obtain ⟨pc, hi, hstep⟩ := Option.bind_eq_some_iff.mp hstep
    exact threadStep_cases hi hstep
  | worker => exact workerStep_cases hstep

/-! ### The clients of the gate -/

/-- The same clients, the same holder of `clientsMu` and the same goroutines. -/
structure Refines (s : Notifications) (g : Clients) : Prop where
  clients : ∀ clientID, clientID ∈ s.clients ↔ clientID ∈ g.clients
  writer : g.clientsMu.writer = s.clientsMu
  readers : g.clientsMu.readers = []
  threads : g.threads = s.threads.map NotifyPc.place

section Refines

variable {g : Clients} {i : Nat} {pc pc' : NotifyPc}

theorem Refines.goto (h : s.Refines g) (i : Nat) (pc : NotifyPc) :
    (s.goto i pc).Refines (g.goto i pc.place) :=
  ⟨h.clients, h.writer, h.readers, by simp [Notifications.goto, Clients.goto, h.threads]⟩

theorem Refines.thread (h : s.Refines g) (hi : s.threads[i]? = some pc) :
    g.threads[i]? = some pc.place := by
  rw [h.threads, List.getElem?_map, hi, Option.map_some]

/-- A goroutine that moves on without the clients noticing. -/
theorem Refines.stay (h : s.Refines g) (hi : s.threads[i]? = some pc)
    (hplace : pc'.place = pc.place) : (s.goto i pc').Refines g := by
  have hsame : g.goto i pc'.place = g := by
    rw [Clients.goto, hplace, set_same (h.thread hi)]
  rw [← hsame]
  exact h.goto i pc'

theorem Refines.spawn (h : s.Refines g) (pc : NotifyPc) :
    (s.spawn pc).Refines { g with threads := g.threads ++ [pc.place] } :=
  ⟨h.clients, h.writer, h.readers, by simp [Notifications.spawn, h.threads]⟩

theorem Refines.step_thread (h : s.Refines g) (hi : s.threads[i]? = some pc) :
    Clients.machine.step g (.thread i []) = g.threadStep i [] pc.place := by
  simp only [Clients.machine, Clients.step, h.thread hi, Option.bind_some]

/-- The lock of a goroutine that comes to it. -/
theorem Refines.lock (h : s.Refines g) (hi : s.threads[i]? = some pc)
    (hlock : g.threadStep i [] pc.place = (g.clientsMu.lock i).map fun l =>
      { g with clientsMu := l }.goto i pc'.place) (hstep : s.lock i pc' = some t) :
    ∃ ls g', Clients.machine.Steps Machine.Any g ls g' ∧ t.Refines g' := by
  unfold Notifications.lock at hstep
  split at hstep
  · rename_i hfree
    cases hstep
    have hl : g.clientsMu.lock i = some ⟨some i, [], fun _ => rfl⟩ :=
      if_pos ⟨h.writer.trans hfree, h.readers⟩
    rw [hl] at hlock
    refine ⟨_, _, Machine.Steps.single trivial ((h.step_thread hi).trans hlock), ?_⟩
    have hheld : ({ s with clientsMu := some i } : Notifications).Refines
        { g with clientsMu := ⟨some i, [], fun _ => rfl⟩ } := ⟨h.clients, rfl, rfl, h.threads⟩
    exact hheld.goto i pc'
  · contradiction

theorem Refines.unlock (h : s.Refines g) (hi : s.threads[i]? = some .unlock) (pc' : NotifyPc)
    (hpc' : pc'.place = .done) : ∃ g', Clients.machine.step g (.thread i []) = some g' ∧
      ({ s with clientsMu := none }.goto i pc').Refines g' := by
  have hfreed : ({ s with clientsMu := none } : Notifications).Refines
      { g with clientsMu := g.clientsMu.unlock } := ⟨h.clients, rfl, h.readers, h.threads⟩
  refine ⟨_, (h.step_thread hi).trans ?_, hfreed.goto i pc'⟩
  rw [hpc']
  rfl

theorem Refines.insert (h : s.Refines g) {clientID : GoString}
    (hi : s.threads[i]? = some (.insert clientID)) :
    ∃ ls g', Clients.machine.Steps Machine.Any g ls g' ∧
      ({ s with clients := Insert.insert clientID s.clients, clientsMu := none }.goto i
        .notify).Refines g' := by
  have hadded : ({ s with clients := Insert.insert clientID s.clients } : Notifications).Refines
      { g with
        proxies := g.proxies ++ [newClientProxy clientID]
        clients := g.clients.insert clientID g.proxies.length } := by
    refine ⟨fun other => ?_, h.writer, h.readers, h.threads⟩
    rw [Finset.mem_insert, AList.mem_insert, h.clients]
  have hpc : (s.threads.set i .unlock)[i]? = some .unlock := getElem?_set_same hi
  obtain ⟨g', hunlock, hrefines⟩ :=
    (hadded.goto i .unlock).unlock hpc .notify rfl
  have hinsert : Clients.machine.Steps Machine.Any g [.thread i []] _ :=
    Machine.Steps.single trivial (h.step_thread hi)
  refine ⟨_, g', hinsert.snoc trivial hunlock, ?_⟩
  simpa [Notifications.goto] using hrefines

theorem Refines.remove (h : s.Refines g) {clientID : GoString}
    (hi : s.threads[i]? = some (.remove clientID)) (hmem : clientID ∈ s.clients) :
    ∃ ls g', Clients.machine.Steps Machine.Any g ls g' ∧
      ({ s with clients := s.clients.erase clientID }.goto i .notifyLocked).Refines g' := by
  obtain ⟨k, hk⟩ := Option.isSome_iff_exists.mp
    (AList.lookup_isSome.mpr ((h.clients clientID).mp hmem))
  obtain ⟨hclients, hthreads, hmu⟩ := g.close_frame k
  have hclose : Clients.machine.step g (.thread i []) =
      some ((g.close k).goto i (.delete clientID false)) := by
    rw [h.step_thread hi, NotifyPc.place, Clients.threadStep, hk]
  have hlt : i < g.threads.length := by
    rw [h.threads, List.length_map]
    exact (List.getElem?_eq_some_iff.mp hi).1
  have hdelete : Clients.machine.step ((g.close k).goto i (.delete clientID false))
      (.thread i []) = some ({ g.close k with clients := g.clients.erase clientID }.goto i
        .unlock) := by
    simp [Clients.machine, Clients.step, Clients.goto, Clients.threadStep, hthreads, hclients, hlt]
  have hclosed : Clients.machine.Steps Machine.Any g [.thread i []] _ :=
    Machine.Steps.single trivial hclose
  refine ⟨_, _, hclosed.snoc trivial hdelete, ?_⟩
  have herased : ({ s with clients := s.clients.erase clientID } : Notifications).Refines
      { g.close k with clients := g.clients.erase clientID } := by
    refine ⟨fun other => ?_, (congrArg RWLock.writer hmu).trans h.writer,
      (congrArg RWLock.readers hmu).trans h.readers, hthreads.trans h.threads⟩
    rw [Finset.mem_erase, AList.mem_erase, h.clients]
  exact herased.goto i .notifyLocked

theorem Refines.enqueueJob (h : s.Refines g) (hi : s.threads[i]? = some pc) {job : NotifyJob}
    (hplace : pc'.place = pc.place) (hstep : s.enqueueJob capacity i job pc' = some t) :
    t.Refines g := by
  unfold Notifications.enqueueJob at hstep
  split at hstep
  · cases hstep
    have hqueued : ({ s with queue := s.queue ++ [job] } : Notifications).Refines g :=
      ⟨h.clients, h.writer, h.readers, h.threads⟩
    exact hqueued.stay hi hplace
  · contradiction

theorem Refines.threadStep (h : s.Refines g) (hi : s.threads[i]? = some pc)
    {connected : Option Bool} (hstep : s.threadStep capacity i connected pc = some t) :
    ∃ ls g', Clients.machine.Steps Machine.Any g ls g' ∧ t.Refines g' := by
  cases pc with
  | register clientID | unregister clientID => exact h.lock hi rfl hstep
  | insert clientID =>
    cases hstep
    exact h.insert hi
  | notify =>
    cases hstep
    exact ⟨[], g, .nil g, h.stay hi (by cases connected <;> rfl)⟩
  | enqueue job =>
    have hplace : NotifyPc.done.place = (NotifyPc.enqueue job).place := rfl
    exact ⟨[], g, .nil g, h.enqueueJob hi hplace hstep⟩
  | remove clientID =>
    rw [Notifications.threadStep] at hstep
    split at hstep
    · rename_i hmem
      cases hstep
      exact h.remove hi hmem
    · rename_i hmem
      cases hstep
      have hnone : g.clients.lookup clientID = none :=
        AList.lookup_eq_none.mpr fun hg => hmem ((h.clients clientID).mpr hg)
      have hskip : Clients.machine.step g (.thread i []) = some (g.goto i .unlock) := by
        rw [h.step_thread hi, NotifyPc.place, Clients.threadStep, hnone]
      exact ⟨_, _, Machine.Steps.single trivial hskip, h.goto i .unlock⟩
  | notifyLocked =>
    cases hstep
    exact ⟨[], g, .nil g, h.stay hi (by cases connected <;> rfl)⟩
  | enqueueLocked job =>
    have hplace : NotifyPc.unlock.place = (NotifyPc.enqueueLocked job).place := rfl
    exact ⟨[], g, .nil g, h.enqueueJob hi hplace hstep⟩
  | unlock =>
    cases hstep
    obtain ⟨g', hunlock, hrefines⟩ := h.unlock hi .done rfl
    exact ⟨_, g', Machine.Steps.single trivial hunlock, hrefines⟩
  | done => contradiction

theorem Refines.workerStep (h : s.Refines g) (hstep : s.workerStep = some t) : t.Refines g := by
  unfold Notifications.workerStep at hstep
  split at hstep
  · split at hstep
    · contradiction
    · cases hstep
      exact ⟨h.clients, h.writer, h.readers, h.threads⟩
  · split at hstep
    · cases hstep
      exact ⟨h.clients, h.writer, h.readers, h.threads⟩
    · contradiction
  all_goals
    cases hstep
    exact ⟨h.clients, h.writer, h.readers, h.threads⟩

theorem Refines.step (h : s.Refines g) {l : NotifyLabel} (hstep : step capacity s l = some t) :
    ∃ ls g', Clients.machine.Steps Machine.Any g ls g' ∧ t.Refines g' := by
  cases l with
  | register clientID =>
    cases hstep
    exact ⟨[.spawn (.register clientID)], _, Machine.Steps.single trivial rfl, h.spawn _⟩
  | unregister clientID =>
    cases hstep
    exact ⟨[.spawn (.unregister clientID)], _, Machine.Steps.single trivial rfl, h.spawn _⟩
  | submit =>
    cases hstep
    -- For the clients it is a goroutine that has nothing to do.
    have hspawn : Clients.machine.step g (.spawn (.handleGateMessage [] none)) =
        some { g with threads := g.threads ++ [.start (.handleGateMessage [] none)] } := rfl
    have hreturn : Clients.machine.step
        { g with threads := g.threads ++ [.start (.handleGateMessage [] none)] }
        (.thread g.threads.length []) = some { g with threads := g.threads ++ [.done] } := by
      simp [Clients.machine, Clients.step, Clients.threadStep, Clients.startStep, Clients.goto]
    have hspawned : Clients.machine.Steps Machine.Any g [_] _ :=
      Machine.Steps.single trivial hspawn
    exact ⟨_, _, hspawned.snoc trivial hreturn, h.spawn _⟩
  | thread i connected =>
    obtain ⟨pc, hi, hstep⟩ := Option.bind_eq_some_iff.mp hstep
    exact h.threadStep hi hstep
  | worker => exact ⟨[], g, .nil g, h.workerStep hstep⟩

end Refines

/-- Every run is one of the gate's clients. -/
private theorem exists_refines {ok : Notifications → NotifyLabel → Prop}
    (hreach : (machine capacity).Reachable ok s) :
    ∃ g, Clients.machine.Reachable Machine.Any g ∧ s.Refines g := by
  apply hreach.invariant
    (I := fun s => ∃ g, Clients.machine.Reachable Machine.Any g ∧ s.Refines g)
  · rintro s rfl
    exact ⟨Clients.start, .init rfl, by simp [Clients.start], rfl, rfl, rfl⟩
  · rintro s l t ⟨g, hg, h⟩ _ hstep
    obtain ⟨ls, g', hrun, h'⟩ := h.step hstep
    exact ⟨g', hg.steps hrun, h'⟩

/-- `clientsMu` is held by the one goroutine that is past its `Lock`. -/
def Exclusive (s : Notifications) : Prop :=
  ∀ (i : Nat) (pc : NotifyPc), s.threads[i]? = some pc → pc.holds = true → s.clientsMu = some i

theorem exclusive_of_reachable {ok : Notifications → NotifyLabel → Prop}
    (hreach : (machine capacity).Reachable ok s) : Exclusive s := by
  obtain ⟨g, hg, h⟩ := exists_refines hreach
  intro i pc hi hpc
  have hholds : pc.place.holds = some .exclusive := by
    cases pc <;> first | rfl | contradiction
  rw [← h.writer]
  exact ((Clients.orderly_of_reachable hg).locks i pc.place () (h.thread hi)).1 hholds


theorem Deadlocked.step (h : Deadlocked capacity s) (hexcl : Exclusive s) {l : NotifyLabel}
    (hstep : Notifications.step capacity s l = some t) : Deadlocked capacity t := by
  obtain ⟨i, job, hi, hmu, hfull, hworker⟩ := h
  have hlt := (List.getElem?_eq_some_iff.mp hi).1
  -- A goroutine that moves without queueing a job is not the one that waits.
  have hother {j : Nat} {pc pc' : NotifyPc} (hj : s.threads[j]? = some pc)
      (hidle : pc.submits = false) :
      (s.threads.set j pc')[i]? = some (.enqueueLocked job) := by
    rw [List.getElem?_set_ne, hi]
    rintro rfl
    cases hi.symm.trans hj
    contradiction
  cases step_cases hstep with
  | spawned hpc ht =>
    subst ht
    exact ⟨i, job, (List.getElem?_append_left hlt).trans hi, hmu, hfull, hworker⟩
  | acquired hfree _ =>
    rw [hmu] at hfree
    contradiction
  | released hj hpc hidle _ hthreads hmu' hqueue hworker' =>
    have hsame := Option.some.inj (hmu.symm.trans (hexcl _ _ hj hpc))
    subst hsame
    cases hi.symm.trans hj
    contradiction
  | moved hj _ hidle hthreads hmu' hqueue hworker' =>
    exact ⟨i, job, hthreads ▸ hother hj hidle, hmu'.trans hmu, hqueue ▸ hfull,
      hworker'.trans hworker⟩
  | queued _ _ hroom _ => omega
  | worked hcount =>
    rw [hcount hworker] at hmu
    contradiction

theorem Deadlocked.steps (h : Deadlocked capacity s)
    (hreach : (machine capacity).Reachable Machine.Any s) {ls : List NotifyLabel}
    (hrun : (machine capacity).Steps Machine.Any s ls t) : Deadlocked capacity t := by
  have hboth : Deadlocked capacity t ∧ (machine capacity).Reachable Machine.Any t := by
    apply hrun.preserves (I := fun s => Deadlocked capacity s ∧
      (machine capacity).Reachable Machine.Any s) _ ⟨h, hreach⟩
    intro s l t h _ hstep
    exact ⟨h.1.step (exclusive_of_reachable h.2) hstep,
      h.2.steps (Machine.Steps.single trivial hstep)⟩
  exact hboth.1

private theorem length_queue_le {ok : Notifications → NotifyLabel → Prop}
    (hreach : (machine capacity).Reachable ok s) : s.queue.length ≤ capacity := by
  apply hreach.invariant (I := fun s => s.queue.length ≤ capacity)
  · rintro s rfl
    exact Nat.zero_le _
  · intro s l t h _ hstep
    cases step_cases hstep with
    | spawned _ ht => exact ht ▸ h
    | acquired _ ht => exact ht ▸ h
    | released _ _ _ _ _ _ hqueue => exact hqueue ▸ h
    | moved _ _ _ _ _ hqueue => exact hqueue ▸ h
    | queued _ _ hroom ht =>
      subst ht
      simp only [goto, List.length_append, List.length_singleton]
      omega
    | worked _ _ _ hqueue => exact hqueue.trans h

private theorem drains_of_idle (hcap : 0 < capacity) (hle : s.queue.length ≤ capacity)
    (hworker : s.worker = .idle) :
    ∃ ls t, (machine capacity).Steps Machine.Any s ls t ∧ t.threads = s.threads ∧
      t.queue.length < capacity := by
  cases hqueue : s.queue with
  | nil => exact ⟨[], s, .nil s, rfl, by simpa [hqueue] using hcap⟩
  | cons job rest =>
    have hstep : (machine capacity).step s .worker =
        some { s with queue := rest, worker := job.start } := by
      simp only [machine, step, workerStep, hworker, hqueue]
    rw [hqueue, List.length_cons] at hle
    exact ⟨[.worker], { s with queue := rest, worker := job.start },
      Machine.Steps.single trivial hstep, rfl, hle⟩

theorem drains (hcap : 0 < capacity) (hle : s.queue.length ≤ capacity)
    (hworker : s.worker ≠ .count true) :
    ∃ ls t, (machine capacity).Steps Machine.Any s ls t ∧ t.threads = s.threads ∧
      t.queue.length < capacity := by
  have hwork {t : Notifications} (h : s.workerStep = some t) :
      (machine capacity).Steps Machine.Any s [.worker] t :=
    Machine.Steps.single trivial h
  obtain ⟨ls, hrun⟩ :
      ∃ ls, (machine capacity).Steps Machine.Any s ls { s with worker := .idle } := by
    match hw : s.worker with
    | .idle => exact ⟨[], by rw [← hw]; exact .nil s⟩
    | .count true => exact absurd hw hworker
    | .rpc n => exact ⟨[.worker], hwork (by rw [workerStep, hw])⟩
    | .other => exact ⟨[.worker], hwork (by rw [workerStep, hw])⟩
    | .count false =>
      have hcount := hwork (t := { s with worker := .rpc 0 }) (by rw [workerStep, hw])
      exact ⟨[.worker, .worker], hcount.snoc trivial rfl⟩
  obtain ⟨ms, t, hdrain, hthreads, hroom⟩ :=
    drains_of_idle (s := { s with worker := .idle }) hcap hle rfl
  exact ⟨_, t, hrun.append hdrain, hthreads, hroom⟩

private theorem released_of_room {i : Nat} {job : NotifyJob}
    (hi : s.threads[i]? = some (.enqueueLocked job)) (hroom : s.queue.length < capacity) :
    ∃ ls t, (machine capacity).Steps Machine.Any s ls t ∧ t.clientsMu = none := by
  have hlt := (List.getElem?_eq_some_iff.mp hi).1
  let queued := { s with queue := s.queue ++ [job] }.goto i .unlock
  have henqueue : (machine capacity).step s (.thread i none) = some queued := by
    simp only [machine, step, hi, Option.bind_some]
    exact if_pos hroom
  have hunlock : (machine capacity).step queued (.thread i none) =
      some ({ queued with clientsMu := none }.goto i .done) := by
    have hpc : queued.threads[i]? = some .unlock := List.getElem?_set_self hlt
    simp only [machine, step, hpc]
    rfl
  exact ⟨[.thread i none, .thread i none], { queued with clientsMu := none }.goto i .done,
    (Machine.Steps.single trivial henqueue).snoc trivial hunlock, rfl⟩

private theorem deadlocked_or_released {ok : Notifications → NotifyLabel → Prop}
    (hcap : 0 < capacity) (hreach : (machine capacity).Reachable ok s) {i : Nat} {job : NotifyJob}
    (hi : s.threads[i]? = some (.enqueueLocked job)) :
    Deadlocked capacity s ∨
      ∃ ls t, (machine capacity).Steps Machine.Any s ls t ∧ t.clientsMu = none := by
  by_cases hroom : s.queue.length < capacity
  · exact .inr (released_of_room hi hroom)
  · by_cases hworker : s.worker = .count true
    · have hmu := exclusive_of_reachable hreach i _ hi rfl
      exact .inl ⟨i, job, hi, hmu, Nat.le_of_not_lt hroom, hworker⟩
    · obtain ⟨ls, t, hrun, hthreads, hroom⟩ := drains hcap (length_queue_le hreach) hworker
      obtain ⟨ms, u, hrun', hfree⟩ := released_of_room (hthreads ▸ hi) hroom
      exact .inr ⟨_, u, hrun.append hrun', hfree⟩

section Run

/-- The goroutine 1 unregisters the client that goroutine 0 has registered, whose job runs; `n`
other jobs are queued. -/
def filled (n : Nat) : Notifications where
  clients := ∅
  clientsMu := some 1
  queue := List.replicate n .other
  worker := .count true
  threads := .done :: .notifyLocked :: List.replicate n .done

@[simp] theorem outstanding_filled (n : Nat) : (filled n).outstanding = n + 1 := by
  simp [outstanding, filled, NotifyPc.submits, List.countP_replicate]

theorem reachable_step {l : NotifyLabel}
    (hs : (machine capacity).Reachable (AtMost capacity limit) s)
    (hstep : step capacity s l = some t) (h : t.outstanding ≤ limit) :
    (machine capacity).Reachable (AtMost capacity limit) t := by
  refine hs.steps (Machine.Steps.single ?_ hstep)
  intro u hu
  cases hstep.symm.trans hu
  exact h

private theorem reachable_filled_zero (hcap : 0 < capacity) (hlimit : 1 ≤ limit) :
    (machine capacity).Reachable (AtMost capacity limit) (filled 0) := by
  let id := lit "g:1/c"
  have hinit : (machine capacity).Reachable (AtMost capacity limit) ⟨∅, none, [], .idle, []⟩ :=
    Machine.Reachable.init rfl
  have hregister := reachable_step hinit (l := .register id)
    (t := ⟨∅, none, [], .idle, [.register id]⟩) rfl (Nat.zero_le _)
  have hlock := reachable_step hregister (l := .thread 0 none)
    (t := ⟨∅, some 0, [], .idle, [.insert id]⟩) rfl (Nat.zero_le _)
  have hinsert := reachable_step hlock (l := .thread 0 none)
    (t := ⟨{id}, none, [], .idle, [.notify]⟩) rfl (Nat.zero_le _)
  have hnotify := reachable_step hinsert (l := .thread 0 (some true))
    (t := ⟨{id}, none, [], .idle, [.enqueue (.updateGateClients true)]⟩) rfl hlimit
  have henqueue := reachable_step hnotify (l := .thread 0 none)
    (t := ⟨{id}, none, [.updateGateClients true], .idle, [.done]⟩) (if_pos hcap) hlimit
  have hreceive := reachable_step henqueue (l := .worker)
    (t := ⟨{id}, none, [], .count true, [.done]⟩) rfl hlimit
  have hunregister := reachable_step hreceive (l := .unregister id)
    (t := ⟨{id}, none, [], .count true, [.done, .unregister id]⟩) rfl hlimit
  have hlocked := reachable_step hunregister (l := .thread 1 none)
    (t := ⟨{id}, some 1, [], .count true, [.done, .remove id]⟩) rfl hlimit
  exact reachable_step hlocked (l := .thread 1 none) (t := filled 0) rfl hlimit

private theorem reachable_filled (hcap : 0 < capacity) {n : Nat} (hn : n ≤ capacity)
    (hlimit : n + 1 ≤ limit) :
    (machine capacity).Reachable (AtMost capacity limit) (filled n) := by
  induction n with
  | zero => exact reachable_filled_zero hcap hlimit
  | succ n ih =>
    have hsubmit := reachable_step (ih (by omega) (by omega)) (l := .submit)
      (t := (filled n).spawn (.enqueue .other)) rfl
      (by simpa [outstanding, filled, spawn, NotifyPc.submits, List.countP_replicate] using hlimit)
    apply reachable_step hsubmit (l := .thread (n + 2) none)
    · have hi : ((filled n).spawn (.enqueue .other)).threads[n + 2]? = some (.enqueue .other) := by
        simp [filled, spawn]
      have hroom : ((filled n).spawn (.enqueue .other)).queue.length < capacity := by
        simp only [filled, spawn, List.length_replicate]
        omega
      rw [step, hi, Option.bind_some, threadStep, enqueueJob, if_pos hroom]
      simp [goto, filled, spawn, ← List.replicate_succ', List.set_append_right]
    · rw [outstanding_filled]
      exact hlimit

theorem deadlock_reachable (hcap : 0 < capacity) (hlimit : capacity + 2 ≤ limit) :
    ∃ s, (machine capacity).Reachable (AtMost capacity limit) s ∧ Deadlocked capacity s := by
  have hfilled : (machine capacity).Reachable (AtMost capacity limit) (filled capacity) :=
    reachable_filled hcap le_rfl (by omega)
  have hstep : step capacity (filled capacity) (.thread 1 (some true)) =
      some ((filled capacity).goto 1 (.enqueueLocked (.updateGateClients true))) := rfl
  refine ⟨_, reachable_step hfilled hstep ?_, 1, .updateGateClients true, rfl, rfl, ?_, rfl⟩
  · simp only [outstanding, goto, filled, List.set_cons_succ, List.set_cons_zero,
      List.countP_cons, List.countP_replicate, NotifyPc.submits, List.length_replicate]
    exact hlimit
  · simp [goto, filled]

end Run

/-- The deadlock takes two more outstanding jobs than the queue has room for, and that many are
enough. Nothing else keeps a holder of `clientsMu` from queueing its job. -/
theorem notifications_deadlock_iff (hcap : 0 < capacity) (limit : Nat) :
    ((∃ s, (machine capacity).Reachable (AtMost capacity limit) s ∧ Deadlocked capacity s) ↔
      capacity + 2 ≤ limit) ∧
    ∀ s, (machine capacity).Reachable (AtMost capacity limit) s → limit < capacity + 2 →
      ∀ (i : Nat) (job : NotifyJob), s.threads[i]? = some (.enqueueLocked job) →
        ∃ ls t, (machine capacity).Steps Machine.Any s ls t ∧ t.clientsMu = none := by
  refine ⟨⟨?_, deadlock_reachable hcap⟩, ?_⟩
  · rintro ⟨s, hreach, hdead⟩
    exact hdead.le_outstanding.trans (outstanding_le_of_reachable hreach)
  · intro s hreach hlimit i job hi
    rcases deadlocked_or_released hcap hreach hi with hdead | hreleased
    · have := hdead.le_outstanding.trans (outstanding_le_of_reachable hreach)
      omega
    · exact hreleased

theorem notifications_deadlock_iff_taskpool :
    (¬ ∃ s, (machine 100).Reachable (AtMost 100 101) s ∧ Deadlocked 100 s) ∧
      ∃ s, (machine 100).Reachable (AtMost 100 102) s ∧ Deadlocked 100 s := by
  have hcap : 0 < 100 := by decide
  constructor
  · rw [(notifications_deadlock_iff hcap 101).1]
    decide
  · exact (notifications_deadlock_iff hcap 102).1.mpr le_rfl

/-- With the buffer of the source, `Unregister` blocks the gate for good. -/
theorem unregister_blocks_the_gate :
    ∃ s, (machine 100).Reachable Machine.Any s ∧ Deadlocked 100 s ∧
      ∀ ls t, (machine 100).Steps Machine.Any s ls t → Deadlocked 100 t ∧ t.clientsMu ≠ none := by
  obtain ⟨s, ⟨s₀, ls, hinit, hrun⟩, hdead⟩ :
      ∃ s, (machine 100).Reachable (AtMost 100 102) s ∧ Deadlocked 100 s :=
    deadlock_reachable (by decide) le_rfl
  have hreach : (machine 100).Reachable Machine.Any s :=
    ⟨s₀, ls, hinit, hrun.mono fun _ => trivial⟩
  refine ⟨s, hreach, hdead, ?_⟩
  intro ls t hrun
  have hforever := hdead.steps hreach hrun
  obtain ⟨i, -, -, hmu, -⟩ := id hforever
  exact ⟨hforever, by simp [hmu]⟩

end Notifications

end Goverse.Gate
