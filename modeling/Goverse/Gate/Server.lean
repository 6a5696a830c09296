import Goverse.Lib.Machine
import Goverse.Lib.RWMutex

/-! Shutting a gate down. `Stop` takes `stopMu` before it stops anything, and a `Register` stream
holds `stopMu` for reading until its client leaves or the server is stopped. So `Stop` waits for
every client that is connected. -/
namespace Goverse.Gate

open Lib

/-- Where a `Register` stream is: before and after its read lock, at its checks, at the sends, in
the loop, at its deferred calls. -/
inductive StreamPc where
  | start | check | authorise | register | marshal | respond | loop | send | leave | runlock
  | returned
  deriving DecidableEq, Repr

/-- `CallObject`, `CreateObject`, `DeleteObject` and `ReliableCallObject`. -/
inductive UnaryPc where
  | start | check | serve | runlock | returned
  deriving DecidableEq, Repr

/-- `waiting` is announced as the writer and waits for the readers. -/
inductive StopPc where
  | start | waiting | swap | stopGrpc | stopHttp | stopGate | stopCluster | cancel | unlock
  | returned
  deriving DecidableEq, Repr

/-- A stream has a context, which is cancelled or not, and a message channel, which is closed or
not. -/
inductive Handler where
  | stream (pc : StreamPc) (cancelled closed : Bool)
  | unary (pc : UnaryPc)
  | stop (pc : StopPc)
  deriving DecidableEq, Repr

def Handler.reads : Handler → Bool
  | .stream pc _ _ => pc ≠ .start ∧ pc ≠ .returned
  | .unary pc => pc ≠ .start ∧ pc ≠ .returned
  | .stop _ => false

def Handler.isStop : Handler → Bool
  | .stop _ => true
  | _ => false

/-- Not a stream, or a stream whose client has gone, or which is about to return. -/
def Handler.departs : Handler → Bool
  | .stream pc cancelled _ => cancelled || decide (pc ∈ [.leave, .runlock])
  | .unary _ | .stop _ => true

structure GateServer where
  stopMu : RWMutex
  stopped : Bool
  threads : List Handler
  deriving DecidableEq, Repr

/-- What a call answers, and which case of the `select` in the loop is taken. -/
inductive Answer where
  | ok | error | done | closed
  deriving DecidableEq, Repr

inductive ServerLabel where
  | connect
  | call
  | disconnect (i : Nat)
  | stop
  | thread (i : Nat) (answer : Answer)
  deriving DecidableEq, Repr

/-- What clients do: they open streams, make calls and cancel streams. -/
def ServerLabel.byClient : ServerLabel → Bool
  | .connect | .call | .disconnect _ => true
  | .stop | .thread .. => false

/-- `grpcServer.Stop` cancels the contexts of all streams. -/
def Handler.cancel : Handler → Handler
  | .stream pc _ closed => .stream pc true closed
  | th => th

/-- `cleanupClientProxies` closes the channels of the clients that are registered. -/
def Handler.close : Handler → Handler
  | .stream pc cancelled closed =>
    .stream pc cancelled (closed || decide (pc ∈ [.marshal, .respond, .loop, .send, .leave]))
  | th => th

namespace GateServer

def goto (s : GateServer) (i : Nat) (th : Handler) : GateServer :=
  { s with threads := s.threads.set i th }

/-- `RLock`, as a step that is there when the lock is to be had. -/
def rlock (s : GateServer) (i : Nat) (next : Handler) : Option GateServer :=
  match s.stopMu.attempt i () .shared none with
  | (l, none) => some ({ s with stopMu := l }.goto i next)
  | (_, some _) => none

def runlock (s : GateServer) (i : Nat) (next : Handler) : GateServer :=
  { s with stopMu := s.stopMu.release i .shared }.goto i next

/-- `Register`. The handler may refuse the client, and a message may fail to be marshalled or
sent. -/
def streamStep (s : GateServer) (i : Nat) (cancelled closed : Bool) :
    StreamPc → Answer → Option GateServer
  | .start, .ok => s.rlock i (.stream .check cancelled closed)
  | .check, .ok =>
    some (s.goto i (.stream (if s.stopped then .runlock else .authorise) cancelled closed))
  | .authorise, .ok => some (s.goto i (.stream .register cancelled closed))
  | .authorise, .error => some (s.goto i (.stream .runlock cancelled closed))
  | .register, .ok => some (s.goto i (.stream .marshal cancelled closed))
  | .marshal, .ok => some (s.goto i (.stream .respond cancelled closed))
  | .marshal, .error => some (s.goto i (.stream .leave cancelled closed))
  | .respond, .ok => some (s.goto i (.stream .loop cancelled closed))
  | .respond, .error => some (s.goto i (.stream .leave cancelled closed))
  | .loop, .done => if cancelled then some (s.goto i (.stream .leave cancelled closed)) else none
  | .loop, .closed => if closed then some (s.goto i (.stream .leave cancelled closed)) else none
  | .loop, .ok => some (s.goto i (.stream .send cancelled closed))
  | .send, .ok => some (s.goto i (.stream .loop cancelled closed))
  | .send, .error => some (s.goto i (.stream .leave cancelled closed))
  | .leave, .ok => some (s.goto i (.stream .runlock cancelled true))
  | .runlock, .ok => some (s.runlock i (.stream .returned cancelled closed))
  | _, _ => none

def unaryStep (s : GateServer) (i : Nat) : UnaryPc → Option GateServer
  | .start => s.rlock i (.unary .check)
  | .check => some (s.goto i (.unary (if s.stopped then .runlock else .serve)))
  | .serve => some (s.goto i (.unary .runlock))
  | .runlock => some (s.runlock i (.unary .returned))
  | .returned => none

/-- `Stop`. The first attempt announces it, the second succeeds when the readers have left. -/
def stopStep (s : GateServer) (i : Nat) : StopPc → Option GateServer
  | .start =>
    match s.stopMu.attempt i () .exclusive none with
    | (l, some (.announced _)) => some ({ s with stopMu := l }.goto i (.stop .waiting))
    | _ => none
  | .waiting =>
    match s.stopMu.attempt i () .exclusive (some (.announced ())) with
    | (l, none) => some ({ s with stopMu := l }.goto i (.stop .swap))
    | _ => none
  | .swap =>
    some ({ s with stopped := true }.goto i (.stop (if s.stopped then .unlock else .stopGrpc)))
  | .stopGrpc => some ({ s with threads := s.threads.map .cancel }.goto i (.stop .stopHttp))
  | .stopHttp => some (s.goto i (.stop .stopGate))
  | .stopGate => some ({ s with threads := s.threads.map .close }.goto i (.stop .stopCluster))
  | .stopCluster => some (s.goto i (.stop .cancel))
  | .cancel => some (s.goto i (.stop .unlock))
  | .unlock =>
    some ({ s with stopMu := s.stopMu.release i .exclusive }.goto i (.stop .returned))
  | .returned => none

/-- `Stop` is called once. -/
def step (s : GateServer) : ServerLabel → Option GateServer
  | .connect => some { s with threads := s.threads ++ [.stream .start false false] }
  | .call => some { s with threads := s.threads ++ [.unary .start] }
  | .stop =>
    if s.threads.any Handler.isStop then none
    else some { s with threads := s.threads ++ [.stop .start] }
  | .disconnect i =>
    match s.threads[i]? with
    | some (.stream pc _ closed) => some (s.goto i (.stream pc true closed))
    | _ => none
  | .thread i answer =>
    match s.threads[i]? with
    | some (.stream pc cancelled closed) => s.streamStep i cancelled closed pc answer
    | some (.unary pc) => s.unaryStep i pc
    | some (.stop pc) => s.stopStep i pc
    | none => none

def start : GateServer := ⟨.free, false, []⟩

def machine : Machine GateServer ServerLabel where
  Init s := s = start
  step := step

/-! ### Waiting for clients -/

/-- `Stop` has asked for `stopMu` and does not have it yet. -/
def Waits (s : GateServer) : Prop := .stop .waiting ∈ s.threads

instance (s : GateServer) : Decidable s.Waits :=
  inferInstanceAs (Decidable (.stop .waiting ∈ s.threads))

def Acquired (s : GateServer) : Prop :=
  ∃ pc, Handler.stop pc ∈ s.threads ∧ pc ≠ .start ∧ pc ≠ .waiting

/-- The clients do nothing more, and what is sent to a client that is there gets through. -/
def Quiet (s : GateServer) : ServerLabel → Prop
  | .thread i .error => ∀ pc closed, s.threads[i]? = some (.stream pc false closed) →
      pc ≠ .respond ∧ pc ≠ .send
  | label => label.byClient = false

/-- Handler `i` holds `stopMu` until `Stop` has had it, whatever else goes on. -/
def Captive (s : GateServer) (i : Nat) : Prop :=
  ∀ labels t, machine.Steps Quiet s labels t → i ∉ t.stopMu.readers → t.Acquired

/-- `Stop` waits for streams that wait for `Stop`. -/
structure Stuck (s : GateServer) : Prop where
  waits : s.Waits
  held : s.stopMu.readers ≠ []
  streams : ∀ i ∈ s.stopMu.readers, ∃ pc cancelled closed,
    s.threads[i]? = some (.stream pc cancelled closed)
  captive : ∀ i ∈ s.stopMu.readers, s.Captive i

/-- A stream whose client is there and which has got past its checks. -/
def Connected (s : GateServer) (i : Nat) : Prop :=
  ∃ pc ∈ [StreamPc.respond, .loop, .send], s.threads[i]? = some (.stream pc false false)

/-- When `Stop` asks for `stopMu`, the streams that hold it are on their way out. -/
def Unhindered (s : GateServer) : ServerLabel → Prop
  | .thread i _ => s.threads[i]? = some (.stop .start) →
      ∀ j ∈ s.stopMu.readers, ∀ th ∈ s.threads[j]?, th.departs = true
  | _ => True

instance (s : GateServer) : (label : ServerLabel) → Decidable (s.Unhindered label)
  | .thread i _ => inferInstanceAs (Decidable (s.threads[i]? = some (.stop .start) →
      ∀ j ∈ s.stopMu.readers, ∀ th ∈ s.threads[j]?, th.departs = true))
  | .connect | .call | .disconnect _ | .stop => isTrue trivial

/-! ### Everything a step can do -/

/-- A handler goes on without touching the lock. -/
inductive Walks : Answer → Handler → Handler → Prop
  | refused {cancelled closed : Bool} :
      Walks .ok (.stream .check cancelled closed) (.stream .runlock cancelled closed)
  | checked {cancelled closed : Bool} :
      Walks .ok (.stream .check cancelled closed) (.stream .authorise cancelled closed)
  | authorised {cancelled closed : Bool} :
      Walks .ok (.stream .authorise cancelled closed) (.stream .register cancelled closed)
  | unauthorised {cancelled closed : Bool} :
      Walks .error (.stream .authorise cancelled closed) (.stream .runlock cancelled closed)
  | registered {cancelled closed : Bool} :
      Walks .ok (.stream .register cancelled closed) (.stream .marshal cancelled closed)
  | marshalled {cancelled closed : Bool} :
      Walks .ok (.stream .marshal cancelled closed) (.stream .respond cancelled closed)
  | responded {cancelled closed : Bool} :
      Walks .ok (.stream .respond cancelled closed) (.stream .loop cancelled closed)
  | message {cancelled closed : Bool} :
      Walks .ok (.stream .loop cancelled closed) (.stream .send cancelled closed)
  | sent {cancelled closed : Bool} :
      Walks .ok (.stream .send cancelled closed) (.stream .loop cancelled closed)
  | failed {pc : StreamPc} {cancelled closed : Bool} (hpc : pc ∈ [.marshal, .respond, .send]) :
      Walks .error (.stream pc cancelled closed) (.stream .leave cancelled closed)
  | done {closed : Bool} : Walks .done (.stream .loop true closed) (.stream .leave true closed)
  | drained {cancelled : Bool} :
      Walks .closed (.stream .loop cancelled true) (.stream .leave cancelled true)
  | left {cancelled closed : Bool} :
      Walks .ok (.stream .leave cancelled closed) (.stream .runlock cancelled true)
  | unary {answer : Answer} {pc next : UnaryPc} (hnext : (Handler.unary next).reads = true) :
      Walks answer (.unary pc) (.unary next)

/-- Where a handler is before and after its read lock. -/
inductive Enters : Handler → Handler → Prop
  | stream {cancelled closed : Bool} :
      Enters (.stream .start cancelled closed) (.stream .check cancelled closed)
  | unary : Enters (.unary .start) (.unary .check)

inductive Exits : Handler → Handler → Prop
  | stream {cancelled closed : Bool} :
      Exits (.stream .runlock cancelled closed) (.stream .returned cancelled closed)
  | unary : Exits (.unary .runlock) (.unary .returned)

inductive StepCase (s : GateServer) : ServerLabel → GateServer → Prop
  | spawn {label : ServerLabel} {th : Handler} (hfresh : th ≠ .stop .waiting)
      (honce : th.isStop = true → ∀ other ∈ s.threads, other.isStop = false) :
      StepCase s label { s with threads := s.threads ++ [th] }
  | disconnect {i : Nat} {pc : StreamPc} {cancelled closed : Bool}
      (hi : s.threads[i]? = some (.stream pc cancelled closed)) :
      StepCase s (.disconnect i) (s.goto i (.stream pc true closed))
  | walk {i : Nat} {answer : Answer} {th next : Handler} (hi : s.threads[i]? = some th)
      (hwalks : Walks answer th next) : StepCase s (.thread i answer) (s.goto i next)
  | rlock {i : Nat} {answer : Answer} {th next : Handler} (hi : s.threads[i]? = some th)
      (henters : Enters th next) (hwriter : s.stopMu.writer = none) :
      StepCase s (.thread i answer)
        (({ s with stopMu := ⟨none, i :: s.stopMu.readers⟩ } : GateServer).goto i next)
  | runlock {i : Nat} {answer : Answer} {th next : Handler} (hi : s.threads[i]? = some th)
      (hexits : Exits th next) : StepCase s (.thread i answer) (s.runlock i next)
  | announce {i : Nat} {answer : Answer} (hi : s.threads[i]? = some (.stop .start)) :
      StepCase s (.thread i answer)
        (({ s with stopMu := ⟨some i, s.stopMu.readers⟩ } : GateServer).goto i (.stop .waiting))
  | acquire {i : Nat} {answer : Answer} (hi : s.threads[i]? = some (.stop .waiting))
      (hreaders : s.stopMu.readers = []) : StepCase s (.thread i answer) (s.goto i (.stop .swap))
  | shut {i : Nat} {answer : Answer} {pc next : StopPc} {stopped : Bool} {writer : Option Nat}
      {f : Handler → Handler} (hi : s.threads[i]? = some (.stop pc)) (hpc : pc ≠ .waiting)
      (hnext : next ≠ .waiting) (hreads : ∀ th, (f th).reads = th.reads)
      (hstop : ∀ th, (f th).isStop = th.isStop) : StepCase s (.thread i answer)
        (({ stopMu := ⟨writer, s.stopMu.readers⟩, stopped := stopped,
            threads := s.threads.map f } : GateServer).goto i (.stop next))

variable {s t : GateServer} {label : ServerLabel}

theorem rlock_eq_some {i : Nat} {next : Handler} (h : s.rlock i next = some t) :
    s.stopMu.writer = none ∧
      t = ({ s with stopMu := ⟨none, i :: s.stopMu.readers⟩ } : GateServer).goto i next := by
  unfold rlock RWMutex.attempt at h
  by_cases hwriter : s.stopMu.writer = none
  · simp only [hwriter, if_true, Option.some.injEq] at h
    exact ⟨hwriter, h.symm⟩
  · simp [hwriter] at h

theorem streamStep_cases {i : Nat} {pc : StreamPc} {cancelled closed : Bool} {answer : Answer}
    (hi : s.threads[i]? = some (.stream pc cancelled closed))
    (h : s.streamStep i cancelled closed pc answer = some t) :
    StepCase s (.thread i answer) t := by
  unfold streamStep at h
  split at h
  · obtain ⟨hwriter, rfl⟩ := rlock_eq_some h
    exact .rlock hi .stream hwriter
  · cases h
    split
    · exact .walk hi .refused
    · exact .walk hi .checked
  · cases h
    exact .walk hi .authorised
  · cases h
    exact .walk hi .unauthorised
  · cases h
    exact .walk hi .registered
  · cases h
    exact .walk hi .marshalled
  · cases h
    exact .walk hi (.failed (by decide))
  · cases h
    exact .walk hi .responded
  · cases h
    exact .walk hi (.failed (by decide))
  · split at h
    · rename_i hcancelled
      subst hcancelled
      cases h
      exact .walk hi .done
    · contradiction
  · split at h
    · rename_i hclosed
      subst hclosed
      cases h
      exact .walk hi .drained
    · contradiction
  · cases h
    exact .walk hi .message
  · cases h
    exact .walk hi .sent
  · cases h
    exact .walk hi (.failed (by decide))
  · cases h
    exact .walk hi .left
  · cases h
    exact .runlock hi .stream
  · contradiction

theorem unaryStep_cases {i : Nat} {pc : UnaryPc} {answer : Answer}
    (hi : s.threads[i]? = some (.unary pc)) (h : s.unaryStep i pc = some t) :
    StepCase s (.thread i answer) t := by
  cases pc with
  | start =>
    obtain ⟨hwriter, rfl⟩ := rlock_eq_some h
    exact .rlock hi .unary hwriter
  | check =>
    cases h
    exact .walk hi (.unary (by split <;> rfl))
  | serve =>
    cases h
    exact .walk hi (.unary rfl)
  | runlock =>
    cases h
    exact .runlock hi .unary
  | returned => contradiction

@[simp] theorem reads_cancel (th : Handler) : th.cancel.reads = th.reads := by
  cases th <;> rfl

@[simp] theorem isStop_cancel (th : Handler) : th.cancel.isStop = th.isStop := by
  cases th <;> rfl

@[simp] theorem reads_close (th : Handler) : th.close.reads = th.reads := by
  cases th <;> rfl

@[simp] theorem isStop_close (th : Handler) : th.close.isStop = th.isStop := by
  cases th <;> rfl

theorem stopStep_cases {i : Nat} {pc : StopPc} {answer : Answer}
    (hi : s.threads[i]? = some (.stop pc)) (h : s.stopStep i pc = some t) :
    StepCase s (.thread i answer) t := by
  -- A step of `Stop` with the lock that leaves the other threads alone.
  have hshut {next : StopPc} (stopped : Bool) (writer : Option Nat) (hpc : pc ≠ .waiting)
      (hnext : next ≠ .waiting) : StepCase s (.thread i answer)
        (({ stopMu := ⟨writer, s.stopMu.readers⟩, stopped := stopped,
            threads := s.threads } : GateServer).goto i (.stop next)) := by
    rw [← List.map_id s.threads]
    exact .shut hi hpc hnext (fun _ => rfl) (fun _ => rfl)
  cases pc with
  | start =>
    unfold stopStep RWMutex.attempt at h
    by_cases hwriter : s.stopMu.writer = none
    · simp only [hwriter, if_true, Option.some.injEq] at h
      subst h
      exact .announce hi
    · simp [hwriter] at h
  | waiting =>
    unfold stopStep RWMutex.attempt at h
    by_cases hreaders : s.stopMu.readers = []
    · simp only [hreaders, if_true, Option.some.injEq] at h
      subst h
      exact .acquire hi hreaders
    · simp [hreaders] at h
  | swap =>
    cases h
    exact hshut true s.stopMu.writer (by simp) (by split <;> simp)
  | stopGrpc =>
    cases h
    exact .shut hi (by simp) (by simp) reads_cancel isStop_cancel
  | stopGate =>
    cases h
    exact .shut hi (by simp) (by simp) reads_close isStop_close
  | unlock =>
    cases h
    exact hshut s.stopped none (by simp) (by simp)
  | returned => contradiction
  | stopHttp | stopCluster | cancel =>
    cases h
    exact hshut s.stopped s.stopMu.writer (by simp) (by simp)

theorem step_cases (h : s.step label = some t) : StepCase s label t := by
  cases label with
  | connect =>
    cases h
    exact .spawn (by simp) (by simp [Handler.isStop])
  | call =>
    cases h
    exact .spawn (by simp) (by simp [Handler.isStop])
  | stop =>
    simp only [step] at h
    split at h
    · contradiction
    · rename_i hnone
      cases h
      exact .spawn (by simp) (fun _ => by simpa using hnone)
  | disconnect i =>
    simp only [step] at h
    split at h
    · rename_i hi
      cases h
      exact .disconnect hi
    · contradiction
  | thread i answer =>
    simp only [step] at h
    split at h
    · exact streamStep_cases ‹_› h
    · exact unaryStep_cases ‹_› h
    · exact stopStep_cases ‹_› h
    · contradiction

/-! ### Who holds `stopMu` -/

/-- Each thread that holds `stopMu` for reading holds it once, there is one `Stop`, and one that
waits has announced itself. -/
structure Orderly (s : GateServer) : Prop where
  nodup : s.stopMu.readers.Nodup
  reading : ∀ j ∈ s.stopMu.readers, ∃ th, s.threads[j]? = some th ∧ th.reads = true
  once : AtMostOne Handler.isStop s.threads
  announced : s.Waits → s.stopMu.writer ≠ none

theorem Walks.reads {answer : Answer} {th next : Handler} (h : Walks answer th next) :
    next.reads = true := by
  cases h with
  | unary hnext => exact hnext
  | _ => rfl

theorem Walks.isStop_eq {answer : Answer} {th next : Handler} (h : Walks answer th next) :
    th.isStop = false ∧ next.isStop = false := by
  cases h <;> exact ⟨rfl, rfl⟩

theorem Walks.departs {answer : Answer} {th next : Handler} (h : Walks answer th next)
    (hth : th.departs = true) : next.departs = true := by
  cases h with
  | refused | unauthorised | failed _ | done | drained | left => simp [Handler.departs]
  | unary _ => rfl
  | _ => simpa [Handler.departs] using hth

theorem ne_waiting_of_isStop {th : Handler} (h : th.isStop = false) : th ≠ .stop .waiting := by
  rintro rfl
  contradiction

theorem waits_of_goto {i : Nat} {next : Handler} (hnext : next ≠ .stop .waiting)
    (h : (s.goto i next).Waits) : s.Waits := by
  rcases eq_or_mem_of_mem_set h with heq | hj
  · exact absurd heq.symm hnext
  · exact hj

private theorem waits_goto {i : Nat} {th next : Handler} (hi : s.threads[i]? = some th)
    (hth : th ≠ .stop .waiting) (h : s.Waits) : (s.goto i next).Waits :=
  (eq_or_mem_set hi h).resolve_left hth.symm

theorem Orderly.unique (h : s.Orderly) {i : Nat} {pc : StopPc}
    (hi : s.threads[i]? = some (.stop pc)) (hwaits : s.Waits) : pc = .waiting := by
  obtain ⟨k, hk⟩ := List.mem_iff_getElem?.mp hwaits
  cases h.once i k _ _ hi hk rfl rfl
  cases hi.symm.trans hk
  rfl

theorem Orderly.reading_goto (h : s.Orderly) {i j : Nat} {next : Handler}
    (hj : j ∈ s.stopMu.readers) (hne : j ≠ i) :
    ∃ th, (s.goto i next).threads[j]? = some th ∧ th.reads = true := by
  obtain ⟨th, hth, hreads⟩ := h.reading j hj
  exact ⟨th, by rw [goto, List.getElem?_set_ne hne.symm, hth], hreads⟩

theorem goto_self {i : Nat} {th : Handler} (hi : s.threads[i]? = some th) (next : Handler) :
    (s.goto i next).threads[i]? = some next :=
  getElem?_set_same hi

theorem Orderly.walk (h : s.Orderly) {i : Nat} {th next : Handler}
    (hi : s.threads[i]? = some th) (hreads : th.reads = true → next.reads = true)
    (hstop : next.isStop = true → th.isStop = true) (hwaits : next ≠ .stop .waiting) :
    (s.goto i next).Orderly := by
  refine ⟨h.nodup, fun j hj => ?_, h.once.set hi hstop, fun hw => ?_⟩
  · by_cases hji : j = i
    · subst hji
      obtain ⟨other, hother, hreads'⟩ := h.reading j hj
      cases hi.symm.trans hother
      exact ⟨next, goto_self hi next, hreads hreads'⟩
    · exact h.reading_goto hj hji
  · exact h.announced (waits_of_goto hwaits hw)

theorem Orderly.rlock (h : s.Orderly) {i : Nat} {th next : Handler}
    (hi : s.threads[i]? = some th) (henters : Enters th next) (hwriter : s.stopMu.writer = none) :
    (({ s with stopMu := ⟨none, i :: s.stopMu.readers⟩ } : GateServer).goto i next).Orderly := by
  have hold : th.reads = false ∧ next.reads = true := by cases henters <;> exact ⟨rfl, rfl⟩
  have hstop : next.isStop = false := by cases henters <;> rfl
  have hnot : i ∉ s.stopMu.readers := by
    intro hmem
    obtain ⟨other, hother, hreads⟩ := h.reading i hmem
    cases hi.symm.trans hother
    simp [hold.1] at hreads
  refine ⟨List.nodup_cons.mpr ⟨hnot, h.nodup⟩, fun j hj => ?_, h.once.set hi (by simp [hstop]),
    fun hw => ?_⟩
  · rcases List.mem_cons.mp hj with rfl | hj
    · exact ⟨next, goto_self hi next, hold.2⟩
    · exact h.reading_goto hj fun heq => hnot (heq ▸ hj)
  · exact absurd hwriter (h.announced (waits_of_goto (ne_waiting_of_isStop hstop) hw))

theorem Orderly.runlock (h : s.Orderly) {i : Nat} {th next : Handler}
    (hi : s.threads[i]? = some th) (hexits : Exits th next) : (s.runlock i next).Orderly := by
  have hstop : next.isStop = false := by cases hexits <;> rfl
  refine ⟨h.nodup.erase i, fun j hj => ?_, h.once.set hi (by simp [hstop]), fun hw => ?_⟩
  · obtain ⟨hne, hmem⟩ := h.nodup.mem_erase_iff.mp hj
    exact h.reading_goto hmem hne
  · exact h.announced (waits_of_goto (ne_waiting_of_isStop hstop) hw)

theorem Orderly.not_waits_shut (h : s.Orderly) {i : Nat} {pc next : StopPc} {stopped : Bool}
    {lock : RWMutex} {f : Handler → Handler} (hi : s.threads[i]? = some (.stop pc))
    (hnext : next ≠ .waiting) (hstop : ∀ th, (f th).isStop = th.isStop) :
    ¬ (({ stopMu := lock, stopped := stopped, threads := s.threads.map f } :
      GateServer).goto i (.stop next)).Waits := by
  intro hw
  rcases mem_set_cases hw with heq | ⟨j, hne, hj⟩
  · cases heq
    exact hnext rfl
  · rw [List.getElem?_map, Option.map_eq_some_iff] at hj
    obtain ⟨th, hth, heq⟩ := hj
    have hisStop : th.isStop = true := by rw [← hstop, heq]; rfl
    exact hne (h.once j i _ _ hth hi hisStop rfl)

theorem Orderly.shut (h : s.Orderly) {i : Nat} {pc next : StopPc} {stopped : Bool}
    {writer : Option Nat} {f : Handler → Handler} (hi : s.threads[i]? = some (.stop pc))
    (hnext : next ≠ .waiting) (hreads : ∀ th, (f th).reads = th.reads)
    (hstop : ∀ th, (f th).isStop = th.isStop) :
    (({ stopMu := ⟨writer, s.stopMu.readers⟩, stopped := stopped,
        threads := s.threads.map f } : GateServer).goto i (.stop next)).Orderly := by
  have hmap : (s.threads.map f)[i]? = some (f (.stop pc)) := by rw [List.getElem?_map, hi]; rfl
  refine ⟨h.nodup, fun j hj => ?_, ?_, fun hw => absurd hw (h.not_waits_shut hi hnext hstop)⟩
  · obtain ⟨th, hth, hread⟩ := h.reading j hj
    have hne : j ≠ i := by
      rintro rfl
      cases hi.symm.trans hth
      contradiction
    refine ⟨f th, ?_, by rw [hreads, hread]⟩
    simp only [goto]
    rw [List.getElem?_set_ne hne.symm, List.getElem?_map, hth]
    rfl
  · exact (h.once.map hstop).set hmap fun _ => hstop _

theorem Orderly.spawn (h : s.Orderly) {th : Handler} (hfresh : th ≠ .stop .waiting)
    (honce : th.isStop = true → ∀ other ∈ s.threads, other.isStop = false) :
    ({ s with threads := s.threads ++ [th] } : GateServer).Orderly := by
  refine ⟨h.nodup, fun j hj => ?_, ?_, fun hw => ?_⟩
  · obtain ⟨other, hother, hreads⟩ := h.reading j hj
    refine ⟨other, ?_, hreads⟩
    exact getElem?_grow hother
  · cases hstop : th.isStop with
    | true => exact .concat (honce hstop) th
    | false => exact h.once.spawn hstop
  · refine h.announced ((List.mem_append.mp hw).resolve_right fun hmem => ?_)
    exact hfresh (List.mem_singleton.mp hmem).symm

theorem Orderly.step (h : s.Orderly) (hstep : s.step label = some t) : t.Orderly := by
  cases step_cases hstep with
  | spawn hfresh honce => exact h.spawn hfresh honce
  | disconnect hi => exact h.walk hi id id (by simp)
  | walk hi hwalks =>
    have hstop := hwalks.isStop_eq.2
    exact h.walk hi (fun _ => hwalks.reads) (by simp [hstop]) (ne_waiting_of_isStop hstop)
  | rlock hi henters hwriter => exact h.rlock hi henters hwriter
  | runlock hi hexits => exact h.runlock hi hexits
  | announce hi =>
    refine ⟨h.nodup, fun j hj => ?_, h.once.set hi (fun _ => rfl), by simp [goto]⟩
    obtain ⟨th, hth, hreads⟩ := h.reading j hj
    refine h.reading_goto hj ?_
    rintro rfl
    cases hi.symm.trans hth
    contradiction
  | acquire hi _ => exact h.walk hi (by simp [Handler.reads]) (fun _ => rfl) (by simp)
  | shut hi _ hnext hreads hstop => exact h.shut hi hnext hreads hstop

theorem orderly_start : start.Orderly :=
  ⟨List.nodup_nil, by simp [start, RWMutex.free], .nil, by simp [Waits, start]⟩

theorem orderly_of_reachable {ok : GateServer → ServerLabel → Prop}
    (h : machine.Reachable ok s) : s.Orderly := by
  refine h.invariant (I := Orderly) ?_ fun hs _ hstep => hs.step hstep
  rintro _ rfl
  exact orderly_start

/-! ### A connected client is held until `Stop` has had the lock -/

/-- What is sent to a client that is there gets through, so its stream goes round the loop. -/
theorem Walks.connected {answer : Answer} {pc : StreamPc} {next : Handler}
    (h : Walks answer (.stream pc false false) next) (hpc : pc ∈ [.respond, .loop, .send])
    (hsent : answer = .error → pc ≠ .respond ∧ pc ≠ .send) :
    ∃ pc' ∈ [StreamPc.respond, .loop, .send], next = .stream pc' false false := by
  cases h with
  | responded | sent => exact ⟨.loop, by simp, rfl⟩
  | message => exact ⟨.send, by simp, rfl⟩
  | failed hfailed =>
    have hne := hsent rfl
    simp_all
  | _ => simp at hpc

/-- `Stop` waits for stream `j`, whose client is there. -/
structure Holds (s : GateServer) (j : Nat) : Prop where
  orderly : s.Orderly
  waits : s.Waits
  reads : j ∈ s.stopMu.readers
  connected : s.Connected j

theorem Connected.ne {i j : Nat} {th : Handler} (h : s.Connected j)
    (hi : s.threads[i]? = some th)
    (hth : ∀ pc ∈ [StreamPc.respond, .loop, .send], th ≠ .stream pc false false) : j ≠ i := by
  obtain ⟨pc, hpc, hj⟩ := h
  rintro rfl
  exact hth pc hpc (Option.some.inj (hi.symm.trans hj))

theorem Connected.goto {i j : Nat} {next : Handler} (h : s.Connected j) (hne : j ≠ i) :
    (s.goto i next).Connected j := by
  obtain ⟨pc, hpc, hj⟩ := h
  refine ⟨pc, hpc, ?_⟩
  simp only [GateServer.goto]
  rwa [List.getElem?_set_ne hne.symm]

theorem Connected.walk {i j : Nat} {answer : Answer} {th next : Handler} (h : s.Connected j)
    (hi : s.threads[i]? = some th) (hwalks : Walks answer th next)
    (hquiet : Quiet s (.thread i answer)) : (s.goto i next).Connected j := by
  by_cases hji : j = i
  · subst hji
    obtain ⟨pc, hpc, hj⟩ := h
    cases hi.symm.trans hj
    have hsent : answer = .error → pc ≠ .respond ∧ pc ≠ .send := by
      rintro rfl
      exact hquiet pc false hj
    obtain ⟨pc', hpc', rfl⟩ := hwalks.connected hpc hsent
    exact ⟨pc', hpc', goto_self hj _⟩
  · exact h.goto hji

theorem Holds.step {j : Nat} (h : s.Holds j) (hquiet : Quiet s label)
    (hstep : s.step label = some t) : t.Holds j := by
  have horderly := h.orderly.step hstep
  cases step_cases hstep with
  | spawn _ _ =>
    obtain ⟨pc, hpc, hj⟩ := h.connected
    refine ⟨horderly, List.mem_append_left _ h.waits, h.reads, pc, hpc, ?_⟩
    exact getElem?_grow hj
  | disconnect _ => contradiction
  | walk hi hwalks =>
    exact ⟨horderly, waits_goto hi (ne_waiting_of_isStop hwalks.isStop_eq.1) h.waits, h.reads,
      h.connected.walk hi hwalks hquiet⟩
  | rlock hi henters _ =>
    have hne := h.connected.ne hi (by cases henters <;> simp)
    exact ⟨horderly, waits_goto hi (by cases henters <;> simp) h.waits,
      List.mem_cons_of_mem _ h.reads, h.connected.goto hne⟩
  | runlock hi hexits =>
    have hne := h.connected.ne hi (by cases hexits <;> simp)
    exact ⟨horderly, waits_goto hi (by cases hexits <;> simp) h.waits,
      (List.mem_erase_of_ne hne).mpr h.reads, h.connected.goto hne⟩
  | announce hi => cases h.orderly.unique hi h.waits
  | acquire _ hreaders => exact absurd h.reads (by simp [hreaders])
  | shut hi hpc _ _ _ => exact absurd (h.orderly.unique hi h.waits) hpc

theorem Holds.captive {j : Nat} (h : s.Holds j) : s.Captive j := by
  intro labels t hrun hleft
  have hheld := hrun.preserves (I := fun u => u.Holds j) (fun hs hok hst => hs.step hok hst) h
  exact absurd hheld.reads hleft

/-! ### Every other stream can leave -/

/-- Thread `j` can release `stopMu` alone, while `Stop` waits. -/
def Frees (s : GateServer) (j : Nat) : Prop :=
  ∃ labels t, machine.Steps Quiet s labels t ∧ j ∉ t.stopMu.readers ∧
    ∀ pc, .stop pc ∈ t.threads → .stop pc ∈ s.threads

theorem stop_mem_of_goto {i : Nat} {th : Handler} {pc : StopPc} (hth : th.isStop = false)
    (h : .stop pc ∈ (s.goto i th).threads) : .stop pc ∈ s.threads := by
  rcases eq_or_mem_of_mem_set h with rfl | hj
  · contradiction
  · exact hj

section Streams

variable {j : Nat} {pc : StreamPc} {cancelled closed : Bool} {answer : Answer}

theorem quiet_thread (hj : s.threads[j]? = some (.stream pc cancelled closed))
    (hsent : answer = .error → cancelled = false → pc ≠ .respond ∧ pc ≠ .send) :
    Quiet s (.thread j answer) := by
  cases answer with
  | error =>
    intro pc' closed' hj'
    cases hj.symm.trans hj'
    exact hsent rfl rfl
  | ok | done | closed => rfl

theorem step_stream (hj : s.threads[j]? = some (.stream pc cancelled closed)) :
    s.step (.thread j answer) = s.streamStep j cancelled closed pc answer := by
  simp only [step, hj]

theorem Frees.of_goto (answer : Answer) {pc' : StreamPc} {closed' : Bool}
    (hj : s.threads[j]? = some (.stream pc cancelled closed))
    (hsent : answer = .error → cancelled = false → pc ≠ .respond ∧ pc ≠ .send)
    (hstep : s.streamStep j cancelled closed pc answer =
      some (s.goto j (.stream pc' cancelled closed')))
    (h : (s.goto j (.stream pc' cancelled closed')).Frees j) : s.Frees j := by
  obtain ⟨labels, t, hrun, hleft, hstops⟩ := h
  have hfirst : machine.Steps Quiet s [.thread j answer] _ :=
    .single (quiet_thread hj hsent) ((step_stream hj).trans hstep)
  exact ⟨_, t, hfirst.append hrun, hleft, fun pc hpc => stop_mem_of_goto rfl (hstops pc hpc)⟩

theorem frees_runlock (hnodup : s.stopMu.readers.Nodup)
    (hj : s.threads[j]? = some (.stream .runlock cancelled closed)) : s.Frees j := by
  have hrun : machine.Steps Quiet s [.thread j .ok] _ :=
    .single (quiet_thread hj (by simp)) (step_stream hj)
  refine ⟨_, _, hrun, ?_, ?_⟩
  · exact fun hmem => (hnodup.mem_erase_iff.mp hmem).1 rfl
  · exact fun pc hpc => stop_mem_of_goto rfl hpc

theorem frees_leave (hnodup : s.stopMu.readers.Nodup)
    (hj : s.threads[j]? = some (.stream .leave cancelled closed)) : s.Frees j :=
  .of_goto .ok hj (by simp) rfl (frees_runlock hnodup (goto_self hj _))

theorem frees_authorise (hnodup : s.stopMu.readers.Nodup)
    (hj : s.threads[j]? = some (.stream .authorise cancelled closed)) : s.Frees j :=
  .of_goto .error hj (by simp) rfl (frees_runlock hnodup (goto_self hj _))

private theorem frees_marshal (hnodup : s.stopMu.readers.Nodup)
    (hj : s.threads[j]? = some (.stream .marshal cancelled closed)) : s.Frees j :=
  .of_goto .error hj (by simp) rfl (frees_leave hnodup (goto_self hj _))

private theorem frees_check (hnodup : s.stopMu.readers.Nodup)
    (hj : s.threads[j]? = some (.stream .check cancelled closed)) : s.Frees j := by
  cases hstopped : s.stopped with
  | true =>
    have hstep : s.streamStep j cancelled closed .check .ok =
        some (s.goto j (.stream .runlock cancelled closed)) := by
      simp [streamStep, hstopped]
    exact .of_goto .ok hj (by simp) hstep (frees_runlock hnodup (goto_self hj _))
  | false =>
    have hstep : s.streamStep j cancelled closed .check .ok =
        some (s.goto j (.stream .authorise cancelled closed)) := by
      simp [streamStep, hstopped]
    exact .of_goto .ok hj (by simp) hstep (frees_authorise hnodup (goto_self hj _))

private theorem frees_loop (hnodup : s.stopMu.readers.Nodup)
    (hj : s.threads[j]? = some (.stream .loop cancelled closed))
    (hends : cancelled = true ∨ closed = true) : s.Frees j := by
  rcases hends with rfl | rfl
  · exact .of_goto .done hj (by simp) rfl (frees_leave hnodup (goto_self hj _))
  · exact .of_goto .closed hj (by simp) rfl (frees_leave hnodup (goto_self hj _))

private theorem frees_stream (hnodup : s.stopMu.readers.Nodup)
    (hj : s.threads[j]? = some (.stream pc cancelled closed))
    (hreads : (Handler.stream pc cancelled closed).reads = true) (hnot : ¬ s.Connected j) :
    s.Frees j := by
  have hends : pc ∈ [.respond, .loop, .send] → cancelled = true ∨ closed = true := by
    intro hpc
    by_contra hlive
    simp only [not_or, Bool.not_eq_true] at hlive
    obtain ⟨rfl, rfl⟩ := hlive
    exact hnot ⟨pc, hpc, hj⟩
  cases pc with
  | start | returned => simp [Handler.reads] at hreads
  | check => exact frees_check hnodup hj
  | authorise => exact frees_authorise hnodup hj
  | register =>
    exact .of_goto .ok hj (by simp) rfl (frees_marshal hnodup (goto_self hj _))
  | marshal => exact frees_marshal hnodup hj
  | loop => exact frees_loop hnodup hj (hends (by simp))
  | respond | send =>
    -- The send goes through, and the loop ends.
    exact .of_goto .ok hj (by simp) rfl
      (frees_loop hnodup (goto_self hj _) (hends (by simp)))
  | leave => exact frees_leave hnodup hj
  | runlock => exact frees_runlock hnodup hj

end Streams

theorem Frees.not_captive {j : Nat} (horderly : s.Orderly) (hwaits : s.Waits) (h : s.Frees j) :
    ¬ s.Captive j := by
  intro hcaptive
  obtain ⟨labels, t, hrun, hleft, hstops⟩ := h
  obtain ⟨pc, hpc, hstart, hwaiting⟩ := hcaptive labels t hrun hleft
  obtain ⟨i, hi⟩ := List.mem_iff_getElem?.mp (hstops pc hpc)
  exact hwaiting (horderly.unique hi hwaits)

theorem Orderly.stuck_iff (h : s.Orderly) : s.Stuck ↔
    s.Waits ∧ s.stopMu.readers ≠ [] ∧ ∀ i ∈ s.stopMu.readers, s.Connected i := by
  constructor
  · intro hstuck
    refine ⟨hstuck.waits, hstuck.held, fun i hi => ?_⟩
    by_contra hnot
    obtain ⟨pc, cancelled, closed, hj⟩ := hstuck.streams i hi
    obtain ⟨th, hth, hreads⟩ := h.reading i hi
    cases hj.symm.trans hth
    exact (frees_stream h.nodup hj hreads hnot).not_captive h hstuck.waits (hstuck.captive i hi)
  · rintro ⟨hwaits, hheld, hall⟩
    refine ⟨hwaits, hheld, fun i hi => ?_, fun i hi => Holds.captive ⟨h, hwaits, hi, hall i hi⟩⟩
    obtain ⟨pc, -, hi⟩ := hall i hi
    exact ⟨pc, false, false, hi⟩

/-! ### Clients that leave before `Stop` is called -/

/-- Once `Stop` waits, the streams that hold `stopMu` are on their way out. -/
structure Clear (s : GateServer) : Prop where
  orderly : s.Orderly
  departs : s.Waits → ∀ j ∈ s.stopMu.readers, ∀ th ∈ s.threads[j]?, th.departs = true

theorem Clear.goto {i : Nat} {th next : Handler} (h : s.Clear) (hi : s.threads[i]? = some th)
    (horderly : (s.goto i next).Orderly) (hwaits : next ≠ .stop .waiting)
    (hdeparts : th.departs = true → next.departs = true) : (s.goto i next).Clear := by
  refine ⟨horderly, fun hw j hj other hother => ?_⟩
  have hold := h.departs (waits_of_goto hwaits hw) j hj
  rcases getElem?_set_cases hother with ⟨rfl, rfl⟩ | ⟨-, hother⟩
  · exact hdeparts (hold th hi)
  · exact hold other hother

theorem Clear.step (h : s.Clear) (hok : s.Unhindered label) (hstep : s.step label = some t) :
    t.Clear := by
  have horderly := h.orderly.step hstep
  cases step_cases hstep with
  | spawn hfresh _ =>
    refine ⟨horderly, fun hw j hj th hth => ?_⟩
    have hwaits : s.Waits := by
      refine (List.mem_append.mp hw).resolve_right fun hmem => ?_
      exact hfresh (List.mem_singleton.mp hmem).symm
    obtain ⟨other, hother, -⟩ := h.orderly.reading j hj
    have hlt := (List.getElem?_eq_some_iff.mp hother).1
    rw [Option.mem_def, List.getElem?_append_left hlt] at hth
    exact h.departs hwaits j hj th hth
  | disconnect hi => exact h.goto hi horderly (by simp) (by simp [Handler.departs])
  | walk hi hwalks =>
    exact h.goto hi horderly (ne_waiting_of_isStop hwalks.isStop_eq.2) hwalks.departs
  | rlock hi henters hwriter =>
    refine ⟨horderly, fun hw => ?_⟩
    have hwaits : s.Waits := waits_of_goto (by cases henters <;> simp) hw
    exact absurd hwriter (h.orderly.announced hwaits)
  | runlock hi hexits =>
    refine ⟨horderly, fun hw j hj th hth => ?_⟩
    have hwaits : s.Waits := waits_of_goto (by cases hexits <;> simp) hw
    obtain ⟨hne, hmem⟩ := h.orderly.nodup.mem_erase_iff.mp hj
    rcases getElem?_set_cases hth with ⟨heq, -⟩ | ⟨-, hth⟩
    · exact absurd heq hne
    · exact h.departs hwaits j hmem th hth
  | announce hi =>
    refine ⟨horderly, fun _ j hj th hth => ?_⟩
    rcases getElem?_set_cases hth with ⟨-, rfl⟩ | ⟨-, hth⟩
    · rfl
    · exact hok hi j hj th hth
  | acquire _ hreaders =>
    refine ⟨horderly, fun _ j hj => ?_⟩
    rw [show (s.goto _ _).stopMu.readers = [] from hreaders] at hj
    contradiction
  | shut hi _ hnext _ hstop =>
    exact ⟨horderly, fun hw => absurd hw (h.orderly.not_waits_shut hi hnext hstop)⟩

theorem Clear.not_stuck (h : s.Clear) : ¬ s.Stuck := by
  intro hstuck
  obtain ⟨hwaits, hheld, hall⟩ := h.orderly.stuck_iff.mp hstuck
  obtain ⟨i, hi⟩ := List.exists_mem_of_ne_nil _ hheld
  obtain ⟨pc, hpc, hthread⟩ := hall i hi
  have hdeparts := h.departs hwaits i hi _ hthread
  simp only [List.mem_cons, List.not_mem_nil, or_false] at hpc
  rcases hpc with rfl | rfl | rfl <;> contradiction

/-- If the streams that hold `stopMu` when `Stop` asks for it are those of clients that have gone,
`Stop` never waits for streams that wait for it. In general it does so exactly if it waits for
connected clients only. -/
theorem stop_waits_for_departing_streams (s : GateServer) :
    (machine.Reachable Unhindered s → ¬ s.Stuck) ∧
      (machine.Reachable Machine.Any s → (s.Stuck ↔ s.Waits ∧ s.stopMu.readers ≠ [] ∧
        ∀ i ∈ s.stopMu.readers, s.Connected i)) := by
  constructor
  · intro h
    have hclear : s.Clear := by
      refine h.invariant (I := Clear) ?_ fun hs hok hstep => hs.step hok hstep
      rintro _ rfl
      exact ⟨orderly_start, by simp [Waits, start]⟩
    exact hclear.not_stuck
  · intro h
    exact (orderly_of_reachable h).stuck_iff

section Examples

/-- A client connects and its stream gets to the loop. -/
def connecting : List ServerLabel :=
  .connect :: List.replicate 6 (.thread 0 .ok)

/-- The client leaves before `Stop` asks for the lock. -/
theorem stop_waits_for_departing_streams_disconnected :
    ∃ s, machine.Reachable Unhindered s ∧ s.Waits ∧ s.stopMu.readers = [0] ∧ ¬ s.Stuck := by
  have hexec : (machine.exec Unhindered start
      (connecting ++ [.disconnect 0, .stop, .thread 1 .ok])).any
        (fun s => decide (s.Waits ∧ s.stopMu.readers = [0])) = true := by decide
  obtain ⟨s, hreach, hs⟩ := Machine.exec_reachable hexec rfl
  obtain ⟨hwaits, hreaders⟩ := of_decide_eq_true hs
  exact ⟨s, hreach, hwaits, hreaders, (stop_waits_for_departing_streams s).1 hreach⟩

/-- The client stays. -/
theorem stop_waits_for_connected_client : ∃ s, machine.Reachable Machine.Any s ∧ s.Stuck := by
  have hexec : (machine.exec Machine.Any start (connecting ++ [.stop, .thread 1 .ok])).any
      (fun s => decide (s.Waits ∧ s.stopMu.readers = [0] ∧
        s.threads[0]? = some (.stream .loop false false))) = true := by decide
  obtain ⟨s, hreach, hs⟩ := Machine.exec_reachable hexec rfl
  obtain ⟨hwaits, hreaders, hthread⟩ := of_decide_eq_true hs
  refine ⟨s, hreach, (orderly_of_reachable hreach).stuck_iff.mpr ⟨hwaits, by simp [hreaders], ?_⟩⟩
  intro i hi
  rw [hreaders, List.mem_singleton] at hi
  subst hi
  exact ⟨.loop, by simp, hthread⟩

end Examples
end GateServer
end Goverse.Gate
