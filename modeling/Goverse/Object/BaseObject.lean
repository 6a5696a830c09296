import Goverse.Postgres

/-! `object.BaseObject`: the fields that reliable calls use, and one definition for
each critical section of `seqWaitersMu` and `stateMu`. -/
namespace Goverse.Object

open Postgres

/-- Why `saveLocked` can fail before it reaches the provider, or at it. -/
inductive SaveError where
  | notPersistent
  | data (message : GoString)
  | provider (error : Postgres.Error)
  deriving DecidableEq, Repr

/-- A registered object type together with the protobuf runtime: `σ` is the state
the type persists and `μ` its messages. `blank` is the state after `OnInit` and `fresh`
the one after `FromData(nil)`; `toData` is `ToData` followed by `protojson.Marshal`,
`fromData` is `protojson.Unmarshal` followed by `FromData`. -/
structure ObjectType (σ μ : Type) where
  name : GoString
  blank : σ
  fresh : σ
  toData : σ → Except SaveError Bytes
  fromData : Bytes → Option σ
  bytesToMsg : Bytes → Except GoString μ
  msgToBytes : μ → Option Bytes
  invokeMethod : σ → GoString → μ → σ × Except GoString μ
  fromData_toData : ∀ state data, toData state = .ok data → fromData data = some state

/-- A type whose state is the concatenation of the requests it has served. -/
def tally : ObjectType Bytes Bytes where
  name := lit "Tally"
  blank := []
  fresh := []
  toData state := .ok state
  fromData data := some data
  bytesToMsg data := .ok data
  msgToBytes msg := some msg
  invokeMethod state _ msg := (state ++ msg, .ok msg)
  fromData_toData := by
    intro state data h
    cases h
    rfl

def tallyCall (seq : Int) (tag : UInt8) : ReliableCall :=
  DB.newCall seq [tag] (lit "o") (lit "Tally") (lit "Add") [tag]

structure SeqWaiter where
  seq : Int
  ch : Nat
  deriving DecidableEq, Repr

/-- A channel of capacity one. `closes` counts the calls of `close` and `lateSend`
records a send on the closed channel; both would panic. -/
structure Chan where
  value : Option ReliableCall
  closes : Nat
  lateSend : Bool
  deriving DecidableEq, Repr

def Chan.new : Chan := ⟨none, 0, false⟩

def Chan.close (ch : Chan) : Chan := { ch with closes := ch.closes + 1 }

def Chan.send (ch : Chan) (call : ReliableCall) : Chan :=
  { ch with value := some call, lateSend := ch.lateSend || decide (0 < ch.closes) }

/-- `chans` lists the channels `ProcessPendingReliableCalls` has made, and `stateMu`
the goroutine that holds the lock. -/
structure BaseObject (σ : Type) where
  id : GoString
  data : σ
  nextRcseq : Int
  processingCalls : Bool
  seqWaiters : List SeqWaiter
  chans : List Chan
  stateMu : Option Nat
  cancelled : Bool

variable {σ μ : Type}

/-- `OnInit`, the restored data and `SetNextRcseq`. -/
def BaseObject.onInit (id : GoString) (data : σ) (nextRcseq : Int) : BaseObject σ :=
  ⟨id, data, nextRcseq, false, [], [], none, false⟩

/-- Bubble the appended waiter towards the front; the list is read from its end. -/
def bubbleUp (waiter : SeqWaiter) : List SeqWaiter → List SeqWaiter
  | [] => [waiter]
  | last :: front =>
    if waiter.seq < last.seq then last :: bubbleUp waiter front else waiter :: last :: front

def insertWaiterSorted (waiters : List SeqWaiter) (waiter : SeqWaiter) : List SeqWaiter :=
  (bubbleUp waiter waiters.reverse).reverse

structure Popped where
  toClose : List Nat
  toNotify : List Nat
  waiters : List SeqWaiter
  deriving DecidableEq, Repr

/-- The critical section of `notifyWaiters`: pop from the front while `seq` covers it. -/
def popWaiters (seq : Int) : List SeqWaiter → Popped
  | [] => ⟨[], [], []⟩
  | waiter :: rest =>
    if waiter.seq ≤ seq then
      let popped := popWaiters seq rest
      if waiter.seq = seq then { popped with toNotify := waiter.ch :: popped.toNotify }
      else { popped with toClose := waiter.ch :: popped.toClose }
    else ⟨[], [], waiter :: rest⟩

namespace BaseObject

/-- The rest of `notifyWaiters`, after the lock is released. -/
def deliver (o : BaseObject σ) (toClose toNotify : List Nat) (call : Option ReliableCall) :
    BaseObject σ :=
  let closed := toClose.foldl (fun chans ch => chans.modify ch Chan.close) o.chans
  let notified := toNotify.foldl (fun chans ch => chans.modify ch fun c =>
    (call.elim c c.send).close) closed
  { o with chans := notified }

/-- The critical section of `ProcessPendingReliableCalls`: register a waiter on a new
channel, and report whether to start the loop. -/
def registerWaiter (o : BaseObject σ) (seq : Int) : BaseObject σ × Bool :=
  ({ o with
      chans := o.chans ++ [Chan.new]
      seqWaiters := insertWaiterSorted o.seqWaiters ⟨seq, o.chans.length⟩
      processingCalls := true }, !o.processingCalls)

/-- `EnsureProcessingLoopRunning`. -/
def ensureProcessingLoopRunning (o : BaseObject σ) : BaseObject σ × Bool :=
  ({ o with processingCalls := true }, !o.processingCalls)

def tryExitIfNoWaiters (o : BaseObject σ) : BaseObject σ × Bool :=
  if o.seqWaiters = [] then ({ o with processingCalls := false }, true) else (o, false)

def cleanupProcessingLoop (o : BaseObject σ) : BaseObject σ :=
  { o with
    processingCalls := false
    chans := o.seqWaiters.foldl (fun chans waiter => chans.modify waiter.ch Chan.close) o.chans
    seqWaiters := [] }

/-- `saveLocked`, for a provider whose statement is executed. -/
def saveLocked (T : ObjectType σ μ) (db : DB) (o : BaseObject σ) : Except SaveError DB :=
  match T.toData o.data with
  | .error e => .error e
  | .ok data =>
    match db.saveObject o.id T.name (some data) o.nextRcseq with
    | .error e => .error (.provider e)
    | .ok db => .ok db

def destroy (o : BaseObject σ) : BaseObject σ := { o with cancelled := true }

theorem saveLocked_ok {T : ObjectType σ μ} {db next : DB} {o : BaseObject σ}
    (h : o.saveLocked T db = .ok next) :
    ∃ data, T.toData o.data = .ok data ∧ next.calls = db.calls ∧ next.lastSeq = db.lastSeq ∧
      next.objects = db.objects.insert o.id ⟨T.name, data, o.nextRcseq⟩ := by
  unfold saveLocked at h
  cases hdata : T.toData o.data with
  | error e => rw [hdata] at h; contradiction
  | ok data =>
    rw [hdata] at h
    cases hsave : db.saveObject o.id T.name (some data) o.nextRcseq with
    | error e => simp only [hsave] at h; contradiction
    | ok saved =>
      simp only [hsave] at h
      cases h
      obtain ⟨hcalls, hlast, hobjects⟩ := DB.saveObject_ok hsave
      exact ⟨data, rfl, hcalls, hlast, hobjects⟩

end BaseObject
end Goverse.Object
