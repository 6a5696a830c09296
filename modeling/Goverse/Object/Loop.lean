import Goverse.Object.BaseObject

/-! `runProcessingLoop` as a goroutine that is always between two of its atomic
steps: a test of the context, an atomic load or store of `nextRcseq`, a critical
section, a call of the user's method, or one statement of the provider. -/
namespace Goverse.Object

open Postgres

variable {σ μ : Type}

/-- The arguments of `finalize`. -/
structure Final where
  status : Status
  resultData : Option Bytes
  error : GoString
  deriving DecidableEq, Repr

/-- Where the goroutine is; the name says what it does next. `lockState` up to
`update` are the body of `processReliableCall`, and `rest` are the fetched calls that
come after `call`. -/
inductive LoopPC (μ : Type) where
  | checkCtx
  | loadSeq
  | closeProcessed (nextRcseq : Int)
  | loadFetch
  | fetch (nextRcseq : Int)
  | drain (calls : List ReliableCall)
  | lockState (call : ReliableCall) (rest : List ReliableCall)
  | decode (call : ReliableCall) (rest : List ReliableCall)
  | running (call : ReliableCall) (rest : List ReliableCall) (msg : μ)
  | finalize (call : ReliableCall) (rest : List ReliableCall) (final : Final)
  | save (call : ReliableCall) (rest : List ReliableCall) (final : Final)
  | update (call : ReliableCall) (rest : List ReliableCall) (final : Final)
  | notify (call : ReliableCall) (rest : List ReliableCall)
  | deliver (toClose toNotify : List Nat) (call : Option ReliableCall)
      (rest : Option (List ReliableCall))
  | tryExit
  | backoff
  | cleanup
  | done

/-- What an observer of the method and of the provider sees. `save` and `update` are
statements that took effect. -/
inductive Event where
  | process (call : ReliableCall)
  | invoke (call : ReliableCall)
  | finish (call : ReliableCall)
  | save
  | update (seq : Int) (status : Status)
  deriving DecidableEq, Repr

structure Move (σ μ : Type) where
  db : DB
  obj : BaseObject σ
  pc : LoopPC μ
  event : Option Event

/-- The outcome of `InvokeMethod` decides the arguments of `finalize`. -/
def ObjectType.final (T : ObjectType σ μ) : Except GoString μ → Final
  | .error message => ⟨.failed, none, message⟩
  | .ok result => ⟨.success, T.msgToBytes result, []⟩

/-- The fields `finalize` sets on the fetched call. -/
def Final.stamp (final : Final) (call : ReliableCall) : ReliableCall :=
  { call with
    status := final.status
    resultData := final.resultData
    error := some final.error }

/-- One step of goroutine `self`. `ok` says whether the provider executes the
statement, if the step makes one; the errors of `saveLocked` and
`UpdateReliableCallStatus` are dropped by `finalize`. -/
def loopStep (T : ObjectType σ μ) (self : Nat) (ok : Bool) (db : DB) (o : BaseObject σ) :
    LoopPC μ → Option (Move σ μ)
  | .checkCtx => some ⟨db, o, if o.cancelled then .cleanup else .loadSeq, none⟩
  | .loadSeq => some ⟨db, o, .closeProcessed o.nextRcseq, none⟩
  | .closeProcessed n =>
    let popped := popWaiters (n - 1) o.seqWaiters
    some ⟨db, { o with seqWaiters := popped.waiters },
      .deliver popped.toClose popped.toNotify none none, none⟩
  | .loadFetch => some ⟨db, o, .fetch o.nextRcseq, none⟩
  | .fetch n =>
    match if ok then (db.getPendingReliableCalls o.id n).toOption else none with
    | none => some ⟨db, o, if o.cancelled then .cleanup else .tryExit, none⟩
    | some [] => some ⟨db, o, .tryExit, none⟩
    | some (call :: rest) => some ⟨db, o, .drain (call :: rest), none⟩
  | .drain [] => some ⟨db, o, .checkCtx, none⟩
  | .drain (call :: rest) =>
    if o.cancelled then some ⟨db, o, .cleanup, none⟩
    else some ⟨db, o, .lockState call rest, some (.process call)⟩
  | .lockState call rest =>
    match o.stateMu with
    | some _ => none
    | none => some ⟨db, { o with stateMu := some self }, .decode call rest, none⟩
  | .decode call rest =>
    match T.bytesToMsg call.requestData with
    | .error message => some ⟨db, o, .finalize call rest ⟨.skipped, none, message⟩, none⟩
    | .ok msg => some ⟨db, o, .running call rest msg, some (.invoke call)⟩
  | .running call rest msg =>
    let outcome := T.invokeMethod o.data call.methodName msg
    some ⟨db, { o with data := outcome.1 }, .finalize call rest (T.final outcome.2),
      some (.finish call)⟩
  | .finalize call rest final =>
    some ⟨db, { o with nextRcseq := call.seq + 1 }, .save call rest final, none⟩
  | .save call rest final =>
    match if ok then (o.saveLocked T db).toOption else none with
    | none => some ⟨db, o, .update call rest final, none⟩
    | some saved => some ⟨saved, o, .update call rest final, some .save⟩
  | .update call rest final =>
    match if ok then (db.updateReliableCallStatus call.seq final.status final.resultData
        final.error).toOption else none with
    | none => some ⟨db, { o with stateMu := none }, .notify (final.stamp call) rest, none⟩
    | some updated => some ⟨updated, { o with stateMu := none },
        .notify (final.stamp call) rest, some (.update call.seq final.status)⟩
  | .notify call rest =>
    let popped := popWaiters call.seq o.seqWaiters
    some ⟨db, { o with seqWaiters := popped.waiters },
      .deliver popped.toClose popped.toNotify (some call) (some rest), none⟩
  | .deliver toClose toNotify call rest =>
    some ⟨db, o.deliver toClose toNotify call,
      match rest with
      | none => .loadFetch
      | some calls => .drain calls, none⟩
  | .tryExit =>
    let (o, exit) := o.tryExitIfNoWaiters
    some ⟨db, o, if exit then .cleanup else .backoff, none⟩
  | .backoff => some ⟨db, o, .checkCtx, none⟩
  | .cleanup => some ⟨db, o.cleanupProcessingLoop, .done, none⟩
  | .done => none

/-- Everything a step of the goroutine can do. -/
inductive LoopCase (T : ObjectType σ μ) (self : Nat) (ok : Bool) (db : DB) (o : BaseObject σ) :
    LoopPC μ → Move σ μ → Prop
  | cancelled (hcancelled : o.cancelled = true) :
      LoopCase T self ok db o .checkCtx ⟨db, o, .cleanup, none⟩
  | checked : LoopCase T self ok db o .checkCtx ⟨db, o, .loadSeq, none⟩
  | loadSeq : LoopCase T self ok db o .loadSeq ⟨db, o, .closeProcessed o.nextRcseq, none⟩
  | closeProcessed {n : Int} : LoopCase T self ok db o (.closeProcessed n)
      ⟨db, { o with seqWaiters := (popWaiters (n - 1) o.seqWaiters).waiters },
        .deliver (popWaiters (n - 1) o.seqWaiters).toClose
          (popWaiters (n - 1) o.seqWaiters).toNotify none none, none⟩
  | loadFetch : LoopCase T self ok db o .loadFetch ⟨db, o, .fetch o.nextRcseq, none⟩
  | fetchCancelled {n : Int} (hcancelled : o.cancelled = true) :
      LoopCase T self ok db o (.fetch n) ⟨db, o, .cleanup, none⟩
  | nothing {n : Int} : LoopCase T self ok db o (.fetch n) ⟨db, o, .tryExit, none⟩
  | fetched {n : Int} : LoopCase T self ok db o (.fetch n)
      ⟨db, o, .drain (db.calls.pendingFrom o.id n), none⟩
  | drained : LoopCase T self ok db o (.drain []) ⟨db, o, .checkCtx, none⟩
  | abandon {call : ReliableCall} {rest : List ReliableCall} (hcancelled : o.cancelled = true) :
      LoopCase T self ok db o (.drain (call :: rest)) ⟨db, o, .cleanup, none⟩
  | process {call : ReliableCall} {rest : List ReliableCall} (hlive : o.cancelled = false) :
      LoopCase T self ok db o (.drain (call :: rest))
        ⟨db, o, .lockState call rest, some (.process call)⟩
  | lock {call : ReliableCall} {rest : List ReliableCall} (hfree : o.stateMu = none) :
      LoopCase T self ok db o (.lockState call rest)
        ⟨db, { o with stateMu := some self }, .decode call rest, none⟩
  | reject {call : ReliableCall} {rest : List ReliableCall} {message : GoString}
      (hmessage : T.bytesToMsg call.requestData = .error message) :
      LoopCase T self ok db o (.decode call rest)
        ⟨db, o, .finalize call rest ⟨.skipped, none, message⟩, none⟩
  | invoke {call : ReliableCall} {rest : List ReliableCall} {msg : μ}
      (hmsg : T.bytesToMsg call.requestData = .ok msg) :
      LoopCase T self ok db o (.decode call rest)
        ⟨db, o, .running call rest msg, some (.invoke call)⟩
  | finish {call : ReliableCall} {rest : List ReliableCall} {msg : μ} :
      LoopCase T self ok db o (.running call rest msg)
        ⟨db, { o with data := (T.invokeMethod o.data call.methodName msg).1 },
          .finalize call rest (T.final (T.invokeMethod o.data call.methodName msg).2),
          some (.finish call)⟩
  | finalize {call : ReliableCall} {rest : List ReliableCall} {final : Final} :
      LoopCase T self ok db o (.finalize call rest final)
        ⟨db, { o with nextRcseq := call.seq + 1 }, .save call rest final, none⟩
  | notSaved {call : ReliableCall} {rest : List ReliableCall} {final : Final} :
      LoopCase T self ok db o (.save call rest final) ⟨db, o, .update call rest final, none⟩
  | saved {call : ReliableCall} {rest : List ReliableCall} {final : Final} {saved : DB}
      (hsaved : o.saveLocked T db = .ok saved) :
      LoopCase T self ok db o (.save call rest final)
        ⟨saved, o, .update call rest final, some .save⟩
  | notUpdated {call : ReliableCall} {rest : List ReliableCall} {final : Final} :
      LoopCase T self ok db o (.update call rest final)
        ⟨db, { o with stateMu := none }, .notify (final.stamp call) rest, none⟩
  | updated {call : ReliableCall} {rest : List ReliableCall} {final : Final} {updated : DB}
      (hok : ok = true) (hupdated : db.updateReliableCallStatus call.seq final.status
        final.resultData final.error = .ok updated) :
      LoopCase T self ok db o (.update call rest final)
        ⟨updated, { o with stateMu := none }, .notify (final.stamp call) rest,
          some (.update call.seq final.status)⟩
  | notify {call : ReliableCall} {rest : List ReliableCall} :
      LoopCase T self ok db o (.notify call rest)
        ⟨db, { o with seqWaiters := (popWaiters call.seq o.seqWaiters).waiters },
          .deliver (popWaiters call.seq o.seqWaiters).toClose
            (popWaiters call.seq o.seqWaiters).toNotify (some call) (some rest), none⟩
  | closed {toClose toNotify : List Nat} {call : Option ReliableCall} :
      LoopCase T self ok db o (.deliver toClose toNotify call none)
        ⟨db, o.deliver toClose toNotify call, .loadFetch, none⟩
  | delivered {toClose toNotify : List Nat} {call : Option ReliableCall}
      {calls : List ReliableCall} :
      LoopCase T self ok db o (.deliver toClose toNotify call (some calls))
        ⟨db, o.deliver toClose toNotify call, .drain calls, none⟩
  | exit : LoopCase T self ok db o .tryExit
      ⟨db, { o with processingCalls := false }, .cleanup, none⟩
  | stay : LoopCase T self ok db o .tryExit ⟨db, o, .backoff, none⟩
  | backoff : LoopCase T self ok db o .backoff ⟨db, o, .checkCtx, none⟩
  | cleanup : LoopCase T self ok db o .cleanup ⟨db, o.cleanupProcessingLoop, .done, none⟩

private theorem getPending_toOption {db : DB} {objectID : GoString} {n : Int} {ok : Bool}
    {calls : List ReliableCall}
    (h : (if ok then (db.getPendingReliableCalls objectID n).toOption else none) = some calls) :
    calls = db.calls.pendingFrom objectID n := by
  cases ok with
  | false => contradiction
  | true =>
    simp only [↓reduceIte, DB.getPendingReliableCalls] at h
    split at h
    · contradiction
    · exact (Option.some.inj h).symm

theorem eq_ok_of_toOption {ε α : Type} {result : Except ε α} {a : α}
    (h : result.toOption = some a) : result = .ok a := by
  cases result with
  | error e => contradiction
  | ok b => exact congrArg Except.ok (Option.some.inj h)

theorem toOption_eq_some {ε α : Type} {ok : Bool} {result : Except ε α} {a : α}
    (h : (if ok then result.toOption else none) = some a) : ok = true ∧ result = .ok a := by
  cases ok with
  | false => contradiction
  | true => exact ⟨rfl, eq_ok_of_toOption h⟩

section Cases

variable {T : ObjectType σ μ} {self : Nat} {ok : Bool} {db : DB} {o : BaseObject σ}
  {pc : LoopPC μ} {mv : Move σ μ}

theorem fetch_cases {n : Int} (h : loopStep T self ok db o (.fetch n) = some mv) :
    LoopCase T self ok db o (.fetch n) mv := by
  simp only [loopStep] at h
  split at h
  · cases h
    split
    · exact .fetchCancelled ‹_›
    · exact .nothing
  · cases h
    exact .nothing
  · rename_i call rest hcalls
    cases h
    rw [getPending_toOption hcalls]
    exact .fetched

theorem drain_cases {calls : List ReliableCall}
    (h : loopStep T self ok db o (.drain calls) = some mv) :
    LoopCase T self ok db o (.drain calls) mv := by
  cases calls with
  | nil =>
    cases h
    exact .drained
  | cons call rest =>
    simp only [loopStep] at h
    split at h
    · cases h
      exact .abandon ‹_›
    · rename_i hlive
      cases h
      exact .process (by simpa using hlive)

theorem loopStep_cases (h : loopStep T self ok db o pc = some mv) :
    LoopCase T self ok db o pc mv := by
  cases pc with
  | checkCtx =>
    cases h
    split
    · exact .cancelled ‹_›
    · exact .checked
  | loadSeq =>
    cases h
    exact .loadSeq
  | closeProcessed n =>
    cases h
    exact .closeProcessed
  | loadFetch =>
    cases h
    exact .loadFetch
  | fetch n => exact fetch_cases h
  | drain calls => exact drain_cases h
  | lockState call rest =>
    simp only [loopStep] at h
    split at h
    · contradiction
    · cases h
      exact .lock ‹_›
  | decode call rest =>
    simp only [loopStep] at h
    split at h
    · cases h
      exact .reject ‹_›
    · cases h
      exact .invoke ‹_›
  | running call rest msg =>
    cases h
    exact .finish
  | finalize call rest final =>
    cases h
    exact .finalize
  | save call rest final =>
    simp only [loopStep] at h
    split at h
    · cases h
      exact .notSaved
    · rename_i saved hsaved
      cases h
      exact .saved (toOption_eq_some hsaved).2
  | update call rest final =>
    simp only [loopStep] at h
    split at h
    · cases h
      exact .notUpdated
    · rename_i updated hupdated
      cases h
      obtain ⟨hok, hupdated⟩ := toOption_eq_some hupdated
      exact .updated hok hupdated
  | notify call rest =>
    cases h
    exact .notify
  | deliver toClose toNotify call rest =>
    cases h
    cases rest with
    | none => exact .closed
    | some calls => exact .delivered
  | tryExit =>
    simp only [loopStep, BaseObject.tryExitIfNoWaiters] at h
    split at h
    · cases h
      exact .exit
    · cases h
      exact .stay
  | backoff =>
    cases h
    exact .backoff
  | cleanup =>
    cases h
    exact .cleanup
  | done => contradiction

end Cases

namespace LoopPC

/-- The goroutine may still reach the provider. -/
def active : LoopPC μ → Bool
  | cleanup | done => false
  | _ => true

def isCleanup : LoopPC μ → Bool
  | cleanup => true
  | _ => false

/-- Fetched calls whose `finalize` has not yet stored `nextRcseq`. -/
def remaining : LoopPC μ → List ReliableCall
  | drain calls => calls
  | lockState call rest | decode call rest | running call rest _ | finalize call rest _ =>
    call :: rest
  | save _ rest _ | update _ rest _ | notify _ rest => rest
  | deliver _ _ _ rest => rest.getD []
  | _ => []

/-- The call that is inside `processReliableCall`, before `nextRcseq` is stored. -/
def current : LoopPC μ → Option ReliableCall
  | lockState call _ | decode call _ | running call _ _ | finalize call _ _ => some call
  | _ => none

@[simp] theorem remaining_of_inactive {pc : LoopPC μ} (h : pc.active = false) :
    pc.remaining = [] := by
  cases pc <;> simp_all [active, remaining]

@[simp] theorem current_of_inactive {pc : LoopPC μ} (h : pc.active = false) :
    pc.current = none := by
  cases pc <;> simp_all [active, current]

/-- The fetched calls are in increasing order and not below `nextRcseq`. -/
structure Ordered (nextRcseq : Int) (pc : LoopPC μ) : Prop where
  increasing : (pc.remaining.map (·.seq)).Pairwise (· < ·)
  bounded : ∀ call ∈ pc.remaining, nextRcseq ≤ call.seq
  loaded : ∀ n, pc = .fetch n → n = nextRcseq

theorem Ordered.of_remaining_nil {nextRcseq : Int} {pc : LoopPC μ} (h : pc.remaining = [])
    (hfetch : ∀ n, pc ≠ .fetch n) : Ordered nextRcseq pc where
  increasing := by simp [h]
  bounded := by simp [h]
  loaded := fun n hn => absurd hn (hfetch n)

theorem Ordered.of_inactive {nextRcseq : Int} {pc : LoopPC μ} (h : pc.active = false) :
    Ordered nextRcseq pc :=
  .of_remaining_nil (remaining_of_inactive h) fun n hn => by simp [hn, active] at h

end LoopPC

/-- The calls an event passes to `processReliableCall`. -/
def Event.processed : Event → Option Int
  | process call => some call.seq
  | _ => none

theorem increasing_tail {call : ReliableCall} {rest : List ReliableCall}
    (hinc : ((call :: rest).map (·.seq)).Pairwise (· < ·)) :
    (rest.map (·.seq)).Pairwise (· < ·) ∧ ∀ c ∈ rest, call.seq + 1 ≤ c.seq := by
  rw [List.map_cons, List.pairwise_cons] at hinc
  exact ⟨hinc.2, fun c hc => Int.add_one_le_of_lt (hinc.1 c.seq (List.mem_map_of_mem hc))⟩

/-- Where the fetched calls of a goroutine come from: from its `GetPendingReliableCalls`
statement, and then one by one through `finalize`. -/
theorem loopStep_remaining {T : ObjectType σ μ} {self : Nat} {ok : Bool} {db : DB}
    {o : BaseObject σ} {pc : LoopPC μ} {mv : Move σ μ}
    (h : loopStep T self ok db o pc = some mv) :
    mv.pc.remaining = [] ∨
    (mv.pc.remaining = pc.remaining ∧ mv.obj.nextRcseq = o.nextRcseq) ∨
    (∃ n, pc = .fetch n ∧ mv.pc.remaining = db.calls.pendingFrom o.id n ∧ mv.db = db ∧
      mv.obj = o) ∨
    (∃ call rest final, pc = .finalize call rest final ∧
      mv = ⟨db, { o with nextRcseq := call.seq + 1 }, .save call rest final, none⟩) := by
  cases loopStep_cases h with
  | fetched => exact .inr (.inr (.inl ⟨_, rfl, rfl, rfl, rfl⟩))
  | finalize => exact .inr (.inr (.inr ⟨_, _, _, rfl, rfl⟩))
  | process | lock | reject | invoke | finish | notSaved | saved | notUpdated | updated | notify
  | delivered => exact .inr (.inl ⟨rfl, rfl⟩)
  | _ => exact .inl rfl

theorem loopStep_fetch {T : ObjectType σ μ} {self : Nat} {ok : Bool} {db : DB}
    {o : BaseObject σ} {pc : LoopPC μ} {mv : Move σ μ} {n : Int}
    (h : loopStep T self ok db o pc = some mv) (hpc : mv.pc = .fetch n) :
    mv = ⟨db, o, .fetch o.nextRcseq, none⟩ := by
  cases loopStep_cases h with
  | loadFetch => rfl
  | _ => contradiction

theorem loopStep_increasing {T : ObjectType σ μ} {self : Nat} {ok : Bool} {db : DB}
    {o : BaseObject σ} {pc : LoopPC μ} {mv : Move σ μ}
    (hinc : (pc.remaining.map (·.seq)).Pairwise (· < ·))
    (h : loopStep T self ok db o pc = some mv) :
    (mv.pc.remaining.map (·.seq)).Pairwise (· < ·) := by
  rcases loopStep_remaining h with hnil | ⟨hsame, -⟩ | ⟨n, -, hfetched, -, -⟩ |
    ⟨call, rest, final, rfl, rfl⟩
  · simp [hnil]
  · rwa [hsame]
  · rw [hfetched]
    exact db.calls.pendingFrom_increasing o.id n
  · exact (increasing_tail hinc).1

theorem loopStep_ordered {T : ObjectType σ μ} {self : Nat} {ok : Bool} {db : DB}
    {o : BaseObject σ} {pc : LoopPC μ} {mv : Move σ μ} (hord : pc.Ordered o.nextRcseq)
    (h : loopStep T self ok db o pc = some mv) : mv.pc.Ordered mv.obj.nextRcseq := by
  refine ⟨loopStep_increasing hord.increasing h, ?_, ?_⟩
  · rcases loopStep_remaining h with hnil | ⟨hsame, hn⟩ | ⟨n, rfl, hfetched, -, hobj⟩ |
      ⟨call, rest, final, rfl, rfl⟩
    · simp [hnil]
    · rw [hsame, hn]
      exact hord.bounded
    · intro call hcall
      rw [hfetched] at hcall
      rw [hobj, ← hord.loaded n rfl]
      exact (CallTable.mem_pendingFrom.mp hcall).2.2.1
    · exact (increasing_tail hord.increasing).2
  · intro n hn
    have hmv := loopStep_fetch h hn
    rw [hmv] at hn ⊢
    exact (LoopPC.fetch.inj hn).symm

/-- The calls passed to `processReliableCall` so far: in increasing order, and all
below `nextRcseq` except the one in progress. -/
structure LoopPC.Logged (nextRcseq : Int) (processed : List Int) (pc : LoopPC μ) : Prop where
  increasing : processed.Pairwise (· < ·)
  below : ∀ seq ∈ processed, seq < nextRcseq ∨ ∃ call, pc.current = some call ∧ seq = call.seq

theorem LoopPC.Logged.of_current_eq {nextRcseq : Int} {processed : List Int}
    {pc pc' : LoopPC μ} (h : pc.Logged nextRcseq processed) (hcur : pc'.current = pc.current) :
    pc'.Logged nextRcseq processed :=
  ⟨h.increasing, by rw [hcur]; exact h.below⟩

theorem loopStep_progress {T : ObjectType σ μ} {self : Nat} {ok : Bool} {db : DB}
    {o : BaseObject σ} {pc : LoopPC μ} {mv : Move σ μ}
    (h : loopStep T self ok db o pc = some mv) :
    (mv.obj.nextRcseq = o.nextRcseq ∧ mv.pc.current = pc.current ∧
      mv.event.bind Event.processed = none) ∨
    (∃ call rest, pc = .drain (call :: rest) ∧
      mv = ⟨db, o, .lockState call rest, some (.process call)⟩) ∨
    (∃ call rest final, pc = .finalize call rest final ∧
      mv = ⟨db, { o with nextRcseq := call.seq + 1 }, .save call rest final, none⟩) := by
  cases loopStep_cases h with
  | process => exact .inr (.inl ⟨_, _, rfl, rfl⟩)
  | finalize => exact .inr (.inr ⟨_, _, _, rfl, rfl⟩)
  | _ => exact .inl ⟨rfl, rfl, rfl⟩

theorem loopStep_logged {T : ObjectType σ μ} {self : Nat} {ok : Bool} {db : DB}
    {o : BaseObject σ} {pc : LoopPC μ} {mv : Move σ μ} {processed : List Int}
    (hord : pc.Ordered o.nextRcseq) (hlog : pc.Logged o.nextRcseq processed)
    (h : loopStep T self ok db o pc = some mv) :
    mv.pc.Logged mv.obj.nextRcseq (processed ++ (mv.event.bind Event.processed).toList) := by
  rcases loopStep_progress h with ⟨hn, hcur, hev⟩ | ⟨call, rest, rfl, rfl⟩ |
    ⟨call, rest, final, rfl, rfl⟩
  · rw [hn, hev, Option.toList_none, List.append_nil]
    exact hlog.of_current_eq hcur
  · have hbelow : ∀ seq ∈ processed, seq < o.nextRcseq := by
      intro seq hseq
      simpa [LoopPC.current] using hlog.below seq hseq
    have hcall : o.nextRcseq ≤ call.seq := hord.bounded call (by simp [LoopPC.remaining])
    simp only [Option.bind_some, Event.processed, Option.toList_some]
    constructor
    · refine List.pairwise_append.mpr ⟨hlog.increasing, by simp, ?_⟩
      intro seq hseq last hlast
      rw [List.mem_singleton.mp hlast]
      exact lt_of_lt_of_le (hbelow seq hseq) hcall
    · intro seq hseq
      rcases List.mem_append.mp hseq with hseq | hseq
      · exact .inl (hbelow seq hseq)
      · exact .inr ⟨call, rfl, List.mem_singleton.mp hseq⟩
  · have hcall : o.nextRcseq ≤ call.seq := hord.bounded call (by simp [LoopPC.remaining])
    simp only [Option.bind_none, Option.toList_none, List.append_nil]
    refine ⟨hlog.increasing, fun seq hseq => .inl ?_⟩
    rcases hlog.below seq hseq with hlt | ⟨c, hc, rfl⟩
    · omega
    · cases hc
      omega

theorem loopStep_processingCalls {T : ObjectType σ μ} {self : Nat} {ok : Bool} {db : DB}
    {o : BaseObject σ} {pc : LoopPC μ} {mv : Move σ μ}
    (h : loopStep T self ok db o pc = some mv) (hactive : mv.pc.active = true) :
    pc.active = true ∧ mv.obj.processingCalls = o.processingCalls := by
  cases loopStep_cases h with
  | cancelled | fetchCancelled | abandon | exit | cleanup => contradiction
  | _ => exact ⟨rfl, rfl⟩

/-- What a step does to the database and to the object's state, by its event. -/
inductive LoopEffect (T : ObjectType σ μ) (ok : Bool) (db : DB) (o : BaseObject σ)
    (pc : LoopPC μ) (mv : Move σ μ) : Prop
  | quiet (hdb : mv.db = db) (hdata : mv.obj.data = o.data)
      (hevent : mv.event = none ∨ ∃ call, mv.event = some (.process call))
  | invoke (call : ReliableCall) (rest : List ReliableCall) (msg : μ)
      (hpc : pc = .decode call rest) (hmsg : T.bytesToMsg call.requestData = .ok msg)
      (hmv : mv = ⟨db, o, .running call rest msg, some (.invoke call)⟩)
  | finish (call : ReliableCall) (rest : List ReliableCall) (msg : μ)
      (hpc : pc = .running call rest msg)
      (hmv : mv = ⟨db, { o with data := (T.invokeMethod o.data call.methodName msg).1 },
        .finalize call rest (T.final (T.invokeMethod o.data call.methodName msg).2),
        some (.finish call)⟩)
  | save (call : ReliableCall) (rest : List ReliableCall) (final : Final) (saved : DB)
      (hpc : pc = .save call rest final) (hsaved : o.saveLocked T db = .ok saved)
      (hmv : mv = ⟨saved, o, .update call rest final, some .save⟩)
  | update (call : ReliableCall) (rest : List ReliableCall) (final : Final) (updated : DB)
      (hpc : pc = .update call rest final) (hok : ok = true)
      (hupdated : db.updateReliableCallStatus call.seq final.status final.resultData
        final.error = .ok updated)
      (hmv : mv = ⟨updated, { o with stateMu := none }, .notify (final.stamp call) rest,
        some (.update call.seq final.status)⟩)

theorem loopStep_effect {T : ObjectType σ μ} {self : Nat} {ok : Bool} {db : DB}
    {o : BaseObject σ} {pc : LoopPC μ} {mv : Move σ μ}
    (h : loopStep T self ok db o pc = some mv) : LoopEffect T ok db o pc mv := by
  cases loopStep_cases h with
  | process => exact .quiet rfl rfl (.inr ⟨_, rfl⟩)
  | invoke hmsg => exact .invoke _ _ _ rfl hmsg rfl
  | finish => exact .finish _ _ _ rfl rfl
  | saved hsaved => exact .save _ _ _ _ rfl hsaved rfl
  | updated hok hupdated => exact .update _ _ _ _ rfl hok hupdated rfl
  | _ => exact .quiet rfl rfl (.inl rfl)

/-- The goroutine holds `stateMu`. -/
def LoopPC.holdsState : LoopPC μ → Bool
  | decode .. | running .. | finalize .. | save .. | update .. => true
  | _ => false

theorem loopStep_holdsState {T : ObjectType σ μ} {self : Nat} {ok : Bool} {db : DB}
    {o : BaseObject σ} {pc : LoopPC μ} {mv : Move σ μ}
    (h : loopStep T self ok db o pc = some mv)
    (hlocked : pc.holdsState = true → o.stateMu = some self) :
    (mv.pc.holdsState = true → mv.obj.stateMu = some self) ∧
      (mv.obj.stateMu = o.stateMu ∨ o.stateMu = none ∨ pc.holdsState = true) := by
  cases loopStep_cases h with
  | lock hfree => exact ⟨fun _ => rfl, .inr (.inl hfree)⟩
  | reject | invoke | finish | finalize | notSaved | saved =>
    exact ⟨fun _ => hlocked rfl, .inl rfl⟩
  | notUpdated | updated => exact ⟨nofun, .inr (.inr rfl)⟩
  | _ => exact ⟨nofun, .inl rfl⟩

/-- The call that is inside `processReliableCall`. -/
def LoopPC.processing : LoopPC μ → Option ReliableCall
  | lockState call _ | decode call _ | running call _ _ | finalize call _ _ | save call _ _
  | update call _ _ => some call
  | _ => none

theorem loopStep_processing {T : ObjectType σ μ} {self : Nat} {ok : Bool} {db : DB}
    {o : BaseObject σ} {pc : LoopPC μ} {mv : Move σ μ} {call : ReliableCall}
    (h : loopStep T self ok db o pc = some mv) (hcall : mv.pc.processing = some call) :
    pc.processing = some call ∨ (o.cancelled = false ∧ mv.event = some (.process call)) := by
  cases loopStep_cases h with
  | process hlive =>
    cases hcall
    exact .inr ⟨hlive, rfl⟩
  | lock | reject | invoke | finish | finalize | notSaved | saved => exact .inl hcall
  | _ => contradiction

theorem loopStep_fixed {T : ObjectType σ μ} {self : Nat} {ok : Bool} {db : DB}
    {o : BaseObject σ} {pc : LoopPC μ} {mv : Move σ μ}
    (h : loopStep T self ok db o pc = some mv) :
    mv.obj.id = o.id ∧ mv.obj.cancelled = o.cancelled := by
  cases loopStep_cases h <;> exact ⟨rfl, rfl⟩

end Goverse.Object
