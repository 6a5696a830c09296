import Goverse.Object.Recovery
import Goverse.Consensus.ClusterState

/-! `ReliableCallObjectAnyRequest` and everything it can meet: its retries, the attempts it
leaves behind on servers, the activations of the object on any number of nodes, and the store
they share. An attempt is the handler of one request, from the server's checks to the answer;
it goes on, or is never heard of, whether or not the caller still waits for it. -/
namespace Goverse.Cluster

open Postgres Lib Object Consensus

variable {σ μ : Type}

/-- `goverse_pb.ReliableCallStatus` -/
inductive CallStatus where
  | unknown | pending | success | failed | skipped
  deriving DecidableEq, Repr

def stringToReliableCallStatus : Status → CallStatus
  | .pending => .pending
  | .success => .success
  | .failed => .failed
  | .skipped => .skipped

/-- The arguments of the call; `request` is none for a nil `Any` and otherwise its bytes. -/
structure Request where
  callID : GoString
  objectType : GoString
  objectID : GoString
  methodName : GoString
  request : Option Bytes
  deriving DecidableEq, Repr

/-- The parameters `ReliableCallObjectAnyRequest` and `Node.ReliableCallObject` check. -/
def Request.parameters (req : Request) : List (GoString × GoString) :=
  [(lit "callID", req.callID), (lit "objectType", req.objectType), (lit "objectID", req.objectID),
    (lit "methodName", req.methodName)]

/-- The fields the server checks. -/
def Request.fields (req : Request) : List (GoString × GoString) :=
  [(lit "call_id", req.callID), (lit "object_type", req.objectType),
    (lit "object_id", req.objectID), (lit "method_name", req.methodName)]

def firstEmpty (fields : List (GoString × GoString)) : Option GoString :=
  (fields.find? fun field => field.2 = []).map Prod.fst

inductive CallError where
  | cannotBeEmpty (parameter : GoString)
  | mustBeSpecified (field : GoString)
  | noTarget (objectID : GoString) (error : ClusterState.RouteError)
  | notThisNode (objectID target thisNode : GoString)
  | noConnection (node : GoString)
  | rpc (node : GoString)
  | nodeStopped
  | noProvider
  | autoCreate (objectID : GoString)
  | notFound (objectID : GoString)
  | typeMismatch (expected got objectID : GoString)
  | serialize
  | insertOrGet
  | resultData
  | stored (status : Status) (message : Option GoString)
  | retrieve
  | contextDone
  | stillPending (seq : Int)
  deriving DecidableEq, Repr

structure Answer where
  status : CallStatus
  error : Option CallError
  deriving DecidableEq, Repr

/-- Where an attempt is; the name says what it does next. `validate` and `ownership` are the
server's, `refuse` is a return with SKIPPED before the call has a row, and `lost` an attempt
whose request never arrives. -/
inductive AttemptPC where
  | validate
  | ownership
  | stopped
  | checkParameters
  | provider
  | create
  | find
  | lockSeqWrite (k : Nat)
  | serialize (k : Nat)
  | insert (k : Nat) (requestData : Bytes)
  | commit (k : Nat) (row : ReliableCall)
  | unlockSeqWrite (k : Nat) (result : Except CallError ReliableCall)
  | checkStatus (k : Nat) (rc : ReliableCall)
  | process (k : Nat) (seq : Int)
  | register (k : Nat) (seq : Int)
  | receive (k : Nat) (seq : Int) (ch : Nat)
  | poll (seq : Int) (i : Nat)
  | pause (seq : Int) (i : Nat) (call : ReliableCall)
  | finish (call : ReliableCall)
  | refuse (error : CallError)
  | answered (answer : Answer)
  | lost

structure Attempt where
  node : GoString
  pc : AttemptPC

/-- Where `ReliableCallObjectAnyRequest` is. The attempt of a local call is a direct call of
the node. -/
inductive ClientPC where
  | validate
  | route
  | connect (node : GoString)
  | send (node : GoString)
  | wait (remote : Bool) (node : GoString) (attempt : Nat)
  | backoff (node : GoString)
  | returned (answer : Answer)
  deriving DecidableEq, Repr

/-- `insts` are all activations, of this object and of others; `objects` is each node's map
at the object's ID, and `seqWriteMu` the lock of each activation. `view` is the caller's view
of the cluster and `views` that of each server. `executed` lists the calls whose method was
started. -/
structure Invocation (σ μ : Type) where
  db : DB
  insts : List (Instance σ μ)
  objects : GoString → Option Nat
  seqWriteMu : Nat → Option Nat
  stopped : GoString → Bool
  view : ClusterState
  views : GoString → ClusterState
  attempts : List Attempt
  client : ClientPC
  executed : List ReliableCall

/-- How the surroundings answer: as asked, with an error, or, for a statement, with an error
after it has taken effect. -/
inductive Reply where
  | ok | error | lost
  deriving DecidableEq, Repr

inductive ClientEvent where
  | go
  | connected (ok : Bool)
  | response
  | rpcError (contextDone : Bool)
  | waited (contextDone : Bool)
  deriving DecidableEq, Repr

namespace Invocation

inductive Label where
  | client (event : ClientEvent)
  | attempt (self : Nat) (reply : Reply)
  | drop (self : Nat)
  | act (k : Nat) (action : Action)
  | insert (row : ReliableCall)
  | nextval
  | create (node objectType : GoString) (ok : Bool)
  | host (id : GoString) (ok : Bool)
  | evict (node : GoString)
  | stop (node : GoString)
  | view (view : ClusterState)
  | serverView (node : GoString) (view : ClusterState)

section Steps

variable (T : ObjectType σ μ) (c : Config) (req : Request) (s : Invocation σ μ)

def goto (s : Invocation σ μ) (self : Nat) (node : GoString) (pc : AttemptPC) : Invocation σ μ :=
  { s with attempts := s.attempts.set self ⟨node, pc⟩ }

/-- A new activation, with the loop that `createObject` starts. -/
def activated (id : GoString) (data : σ) (nextRcseq : Int) : Instance σ μ :=
  (Instance.start id data nextRcseq).spawn
    (BaseObject.onInit id data nextRcseq).ensureProcessingLoopRunning

/-- `createObject` of the node, as one step; none is an error. -/
def createObject (node typ id : GoString) (ok : Bool) : Option (Invocation σ μ) :=
  if id = [] ∨ typ ≠ T.name then none
  else
    match s.objects node with
    | some _ => some s
    | none =>
      (T.restore s.db id ok).map fun restored =>
        { s with
          insts := s.insts ++ [activated id restored.1 restored.2]
          objects := Function.update s.objects node (some s.insts.length) }

/-- The answer for a call that is not pending, or still pending at the end. An error here is
one of `BytesToAny`. -/
def answerOf (reply : Reply) (call : ReliableCall) : Answer :=
  match call.status with
  | .success => if reply = .ok then ⟨.success, none⟩ else ⟨.failed, some .resultData⟩
  | .pending => ⟨.pending, some (.stillPending call.seq)⟩
  | status => ⟨stringToReliableCallStatus status, some (.stored status call.error)⟩

/-- The INSERT of an attempt; it is reported as an error if `reply` says so. -/
def commitStep (self : Nat) (node : GoString) (reply : Reply) (k : Nat) (row : ReliableCall) :
    Invocation σ μ :=
  let failed := AttemptPC.unlockSeqWrite k (.error .insertOrGet)
  match reply with
  | .error => s.goto self node failed
  | .ok =>
    match s.db.insertCall row with
    | .error _ => s.goto self node failed
    | .ok (rc, db) => { s with db := db }.goto self node (.unlockSeqWrite k (.ok rc))
  | .lost =>
    match s.db.insertCall row with
    | .error _ => s.goto self node failed
    | .ok (_, db) => { s with db := db }.goto self node failed

def attemptStep (self : Nat) (node : GoString) (reply : Reply) :
    AttemptPC → Option (Invocation σ μ)
  | .validate =>
    some (s.goto self node
      (match firstEmpty req.fields with
      | some field => .refuse (.mustBeSpecified field)
      | none =>
        if req.request = none then .refuse (.mustBeSpecified (lit "request")) else .ownership))
  | .ownership =>
    some (s.goto self node
      (match (s.views node).getCurrentNodeForObject c req.objectID with
      | .error error => .refuse (.noTarget req.objectID error)
      | .ok target =>
        if target ≠ node then .refuse (.notThisNode req.objectID target node) else .stopped))
  | .stopped =>
    some (s.goto self node (if s.stopped node then .refuse .nodeStopped else .checkParameters))
  | .checkParameters =>
    some (s.goto self node
      (match firstEmpty req.parameters with
      | some parameter => .refuse (.cannotBeEmpty parameter)
      | none => .provider))
  | .provider =>
    some (s.goto self node (if reply = .ok then .create else .refuse .noProvider))
  | .create =>
    match s.createObject T node req.objectType req.objectID (reply = .ok) with
    | none => some (s.goto self node (.refuse (.autoCreate req.objectID)))
    | some next => some (next.goto self node .find)
  | .find =>
    some (s.goto self node
      (match s.objects node with
      | none => .refuse (.notFound req.objectID)
      | some k =>
        if T.name ≠ req.objectType then
          .refuse (.typeMismatch req.objectType T.name req.objectID)
        else .lockSeqWrite k))
  | .lockSeqWrite k =>
    match s.seqWriteMu k with
    | some _ => none
    | none =>
      some ({ s with seqWriteMu := Function.update s.seqWriteMu k (some self) }.goto self node
        (.serialize k))
  | .serialize k =>
    some (s.goto self node
      (match req.request with
      | none => .insert k []
      | some data =>
        if reply = .ok then .insert k data else .unlockSeqWrite k (.error .serialize)))
  | .insert k requestData =>
    match DB.checkCall req.callID req.objectID req.objectType req.methodName with
    | .error _ => some (s.goto self node (.unlockSeqWrite k (.error .insertOrGet)))
    | .ok () =>
      some ({ s with db := s.db.nextval.2 }.goto self node (.commit k (DB.newCall s.db.nextval.1
        req.callID req.objectID req.objectType req.methodName requestData)))
  | .commit k row => some (s.commitStep self node reply k row)
  | .unlockSeqWrite k result =>
    some ({ s with seqWriteMu := Function.update s.seqWriteMu k none }.goto self node
      (match result with
      | .error error => .refuse error
      | .ok rc => .checkStatus k rc))
  | .checkStatus k rc =>
    some (s.goto self node
      (if rc.status = .pending then .process k rc.seq else .answered (answerOf reply rc)))
  | .process k seq =>
    (s.insts[k]?).map fun inst => s.goto self node
      (if seq < inst.obj.nextRcseq then .poll seq 0 else .register k seq)
  | .register k seq =>
    (s.insts[k]?).map fun inst =>
      { s with insts := s.insts.set k (inst.spawn (inst.obj.registerWaiter seq)) }.goto self node
        (.receive k seq inst.obj.chans.length)
  | .receive k seq ch =>
    match (s.insts[k]?).bind fun inst => inst.obj.chans[ch]? with
    | none => none
    | some chan =>
      match chan.value with
      | some call => some (s.goto self node (.finish call))
      | none => if 0 < chan.closes then some (s.goto self node (.poll seq 0)) else none
  | .poll seq i =>
    match if reply = .ok then (s.db.getReliableCallBySeq seq).toOption else none with
    | none => some (s.goto self node (.answered ⟨.unknown, some .retrieve⟩))
    | some call =>
      some (s.goto self node (if call.status = .pending then .pause seq i call else .finish call))
  | .pause seq i call =>
    some (s.goto self node
      (if reply = .ok then if i + 1 < 50 then .poll seq (i + 1) else .finish call
      else .answered ⟨.unknown, some .contextDone⟩))
  | .finish call => some (s.goto self node (.answered (answerOf reply call)))
  | .refuse error => some (s.goto self node (.answered ⟨.skipped, some error⟩))
  | .answered _ | .lost => none

/-- `self` is the address of the caller's own node, if it runs on one. -/
def clientStep (self : Option GoString) : ClientPC → ClientEvent → Option (Invocation σ μ)
  | .validate, .go =>
    some { s with client :=
      match firstEmpty req.parameters with
      | some parameter => .returned ⟨.skipped, some (.cannotBeEmpty parameter)⟩
      | none => .route }
  | .route, .go =>
    match s.view.getCurrentNodeForObject c req.objectID with
    | .error error =>
      some { s with client := .returned ⟨.skipped, some (.noTarget req.objectID error)⟩ }
    | .ok target =>
      if self = some target then
        some { s with
          attempts := s.attempts ++ [⟨target, .stopped⟩]
          client := .wait false target s.attempts.length }
      else some { s with client := .connect target }
  | .connect node, .connected ok =>
    some { s with client :=
      if ok then .send node else .returned ⟨.skipped, some (.noConnection node)⟩ }
  | .send node, .go =>
    some { s with
      attempts := s.attempts ++ [⟨node, .validate⟩]
      client := .wait true node s.attempts.length }
  | .wait _ _ attempt, .response =>
    match s.attempts[attempt]? with
    | some ⟨_, .answered answer⟩ => some { s with client := .returned answer }
    | _ => none
  | .wait true node _, .rpcError contextDone =>
    some { s with client :=
      if contextDone then .returned ⟨.unknown, some (.rpc node)⟩ else .backoff node }
  | .backoff node, .waited contextDone =>
    some { s with client :=
      if contextDone then .returned ⟨.unknown, some (.rpc node)⟩ else .send node }
  | _, _ => none

def observe (k : Nat) (out : Outcome σ μ) : Invocation σ μ :=
  { s with
    db := out.db
    insts := s.insts.set k out.inst
    executed := s.executed ++ (out.event.bind Event.invoked).toList }

/-- `insert` is a row of another call, and `host` the activation of another object. -/
def step (self : Option GoString) : Label → Option (Invocation σ μ)
  | .client event => s.clientStep c req self s.client event
  | .attempt i reply => s.attempts[i]?.bind fun attempt =>
      s.attemptStep T c req i attempt.node reply attempt.pc
  | .drop i =>
    match s.attempts[i]? with
    | some ⟨node, .validate⟩ => some (s.goto i node .lost)
    | _ => none
  | .act k action => (s.insts[k]?.bind fun inst => inst.step T s.db action).map (s.observe k)
  | .insert row =>
    if row.callID = req.callID then none
    else (s.db.insertCall row).toOption.map fun result => { s with db := result.2 }
  | .nextval => some { s with db := s.db.nextval.2 }
  | .create node objectType ok => s.createObject T node objectType req.objectID ok
  | .host id ok =>
    if id = req.objectID then none
    else (T.restore s.db id ok).map fun restored =>
      { s with insts := s.insts ++ [activated id restored.1 restored.2] }
  | .evict node =>
    (s.objects node).map fun k =>
      { s with
        objects := Function.update s.objects node none
        insts := s.insts.modify k fun inst => { inst with obj := inst.obj.destroy } }
  | .stop node => some { s with stopped := Function.update s.stopped node true }
  | .view view => some { s with view := view }
  | .serverView node view => some { s with views := Function.update s.views node view }

end Steps

def start (db : DB) (view : ClusterState) (views : GoString → ClusterState) : Invocation σ μ :=
  ⟨db, [], fun _ => none, fun _ => none, fun _ => false, view, views, [], .validate, []⟩

/-- The call is about to be made, under an ID that has no row. -/
def machine (T : ObjectType σ μ) (c : Config) (req : Request) (self : Option GoString) :
    Machine (Invocation σ μ) Label where
  Init s := ∃ db view views, (∀ row ∈ db.calls.rows, row.callID ≠ req.callID) ∧
    s = start db view views
  step s := s.step T c req self

end Invocation

/-! ### Everything a step can do -/

namespace AttemptPC

/-- The INSERT of the attempt may still be executed. -/
def mayInsert : AttemptPC → Bool
  | validate | ownership | stopped | checkParameters | provider | create | find | lockSeqWrite _
  | serialize _ | insert _ _ | commit _ _ => true
  | _ => false

/-- The attempt knows nothing of a row. -/
def blank : AttemptPC → Bool
  | validate | ownership | stopped | checkParameters | provider | create | find | lockSeqWrite _
  | serialize _ | insert _ _ | unlockSeqWrite _ (.error _) | refuse _ | lost => true
  | _ => false

def refuses : AttemptPC → Bool
  | refuse _ => true
  | _ => false

end AttemptPC

namespace ClientPC

/-- No attempt has been made and the call can still be given up with SKIPPED. -/
def unsent : ClientPC → Bool
  | validate | route | connect _ => true
  | _ => false

/-- The attempt whose answer would be returned. -/
def awaited : ClientPC → Option Nat
  | wait _ _ attempt => some attempt
  | _ => none

def answer : ClientPC → Option Answer
  | returned answer => some answer
  | _ => none

end ClientPC

namespace Invocation

/-- From `pc`, an attempt leaves the state as in `mid` and goes on at `next`. -/
inductive AttemptCase (T : ObjectType σ μ) (req : Request) (s : Invocation σ μ) :
    AttemptPC → Invocation σ μ → AttemptPC → Prop
  | early {pc next : AttemptPC} (hold : pc.mayInsert = true) (hnext : next.blank = true) :
      AttemptCase T req s pc s next
  | created {mid : Invocation σ μ} {node : GoString} {ok : Bool}
      (hcreate : s.createObject T node req.objectType req.objectID ok = some mid) :
      AttemptCase T req s .create mid .find
  | locked {k self : Nat} : AttemptCase T req s (.lockSeqWrite k)
      { s with seqWriteMu := Function.update s.seqWriteMu k (some self) } (.serialize k)
  | inserting {k : Nat} {requestData : Bytes} : AttemptCase T req s (.insert k requestData)
      { s with db := s.db.nextval.2 } (.commit k (DB.newCall s.db.nextval.1 req.callID
        req.objectID req.objectType req.methodName requestData))
  | inserted {k : Nat} {row rc : ReliableCall} {db : DB}
      (hinsert : s.db.insertCall row = .ok (rc, db)) :
      AttemptCase T req s (.commit k row) { s with db := db } (.unlockSeqWrite k (.ok rc))
  | insertLost {k : Nat} {row rc : ReliableCall} {db : DB} {error : CallError}
      (hinsert : s.db.insertCall row = .ok (rc, db)) :
      AttemptCase T req s (.commit k row) { s with db := db } (.unlockSeqWrite k (.error error))
  | unlocked {k : Nat} {error : CallError} : AttemptCase T req s (.unlockSeqWrite k (.error error))
      { s with seqWriteMu := Function.update s.seqWriteMu k none } (.refuse error)
  | stored {k : Nat} {rc : ReliableCall} : AttemptCase T req s (.unlockSeqWrite k (.ok rc))
      { s with seqWriteMu := Function.update s.seqWriteMu k none } (.checkStatus k rc)
  | cached {k : Nat} {rc : ReliableCall} {reply : Reply} :
      AttemptCase T req s (.checkStatus k rc) s (.answered (answerOf reply rc))
  | pending {k : Nat} {rc : ReliableCall} :
      AttemptCase T req s (.checkStatus k rc) s (.process k rc.seq)
  | processed {k : Nat} {seq : Int} : AttemptCase T req s (.process k seq) s (.poll seq 0)
  | unprocessed {k : Nat} {seq : Int} : AttemptCase T req s (.process k seq) s (.register k seq)
  | registered {k : Nat} {seq : Int} {inst : Instance σ μ} (hk : s.insts[k]? = some inst) :
      AttemptCase T req s (.register k seq)
        { s with insts := s.insts.set k (inst.spawn (inst.obj.registerWaiter seq)) }
        (.receive k seq inst.obj.chans.length)
  | received {k : Nat} {seq : Int} {ch : Nat} {inst : Instance σ μ} {chan : Chan}
      {call : ReliableCall} (hk : s.insts[k]? = some inst) (hchan : inst.obj.chans[ch]? = some chan)
      (hvalue : chan.value = some call) :
      AttemptCase T req s (.receive k seq ch) s (.finish call)
  | closed {k : Nat} {seq : Int} {ch : Nat} :
      AttemptCase T req s (.receive k seq ch) s (.poll seq 0)
  | polled {seq : Int} {i : Nat} {call : ReliableCall}
      (hget : s.db.getReliableCallBySeq seq = .ok call) :
      AttemptCase T req s (.poll seq i) s (.finish call)
  | pausing {seq : Int} {i : Nat} {call : ReliableCall}
      (hget : s.db.getReliableCallBySeq seq = .ok call) :
      AttemptCase T req s (.poll seq i) s (.pause seq i call)
  | again {seq : Int} {i : Nat} {call : ReliableCall} :
      AttemptCase T req s (.pause seq i call) s (.poll seq (i + 1))
  | exhausted {seq : Int} {i : Nat} {call : ReliableCall} :
      AttemptCase T req s (.pause seq i call) s (.finish call)
  | unknown {pc : AttemptPC} {error : CallError} :
      AttemptCase T req s pc s (.answered ⟨.unknown, some error⟩)
  | finished {call : ReliableCall} {reply : Reply} :
      AttemptCase T req s (.finish call) s (.answered (answerOf reply call))
  | refused {error : CallError} :
      AttemptCase T req s (.refuse error) s (.answered ⟨.skipped, some error⟩)

inductive ClientCase (s : Invocation σ μ) : Invocation σ μ → Prop
  | prepare {next : ClientPC} (hunsent : s.client.unsent = true) (hnext : next.awaited = none) :
      ClientCase s { s with client := next }
  | send {remote : Bool} {node : GoString} {pc : AttemptPC} (hopen : s.client.answer = none)
      (hpc : pc.blank = true) : ClientCase s
        { s with
          attempts := s.attempts ++ [⟨node, pc⟩]
          client := .wait remote node s.attempts.length }
  | response {i : Nat} {server : GoString} {answer : Answer} (hclient : s.client.awaited = some i)
      (hattempt : s.attempts[i]? = some ⟨server, .answered answer⟩) :
      ClientCase s { s with client := .returned answer }
  | retry {next : ClientPC} (hopen : s.client.answer = none) (hunsent : next.unsent = false)
      (hawaited : next.awaited = none)
      (hanswer : ∀ answer, next.answer = some answer → answer.status = .unknown) :
      ClientCase s { s with client := next }

/-- What happens besides the caller and its attempts. -/
inductive EnvCase (T : ObjectType σ μ) (req : Request) (s : Invocation σ μ) :
    Invocation σ μ → Prop
  | aside {t : Invocation σ μ} (hdb : t.db = s.db) (hinsts : t.insts = s.insts)
      (hattempts : t.attempts = s.attempts) (hclient : t.client = s.client)
      (hexecuted : t.executed = s.executed) : EnvCase T req s t
  | act {k : Nat} {action : Action} {inst : Instance σ μ} {out : Outcome σ μ}
      (hk : s.insts[k]? = some inst) (hact : inst.step T s.db action = some out) :
      EnvCase T req s (s.observe k out)
  | insert {row rc : ReliableCall} {db : DB} (hother : row.callID ≠ req.callID)
      (hinsert : s.db.insertCall row = .ok (rc, db)) : EnvCase T req s { s with db := db }
  | nextval : EnvCase T req s { s with db := s.db.nextval.2 }
  | activate {id : GoString} {data : σ} {nextRcseq : Int} {objects : GoString → Option Nat} :
      EnvCase T req s
        { s with insts := s.insts ++ [activated id data nextRcseq], objects := objects }
  | evict {k : Nat} {objects : GoString → Option Nat} : EnvCase T req s
      { s with
        objects := objects
        insts := s.insts.modify k fun inst => { inst with obj := inst.obj.destroy } }

inductive StepCase (T : ObjectType σ μ) (req : Request) (s : Invocation σ μ) :
    Label → Invocation σ μ → Prop
  | client (event : ClientEvent) {t : Invocation σ μ} (hcase : ClientCase s t) :
      StepCase T req s (.client event) t
  | attempt {i : Nat} (reply : Reply) {node : GoString} {pc next : AttemptPC}
      {mid : Invocation σ μ} (hself : s.attempts[i]? = some ⟨node, pc⟩)
      (hcase : AttemptCase T req s pc mid next) :
      StepCase T req s (.attempt i reply) (mid.goto i node next)
  | drop {i : Nat} {node : GoString} (hself : s.attempts[i]? = some ⟨node, .validate⟩) :
      StepCase T req s (.drop i) (s.goto i node .lost)
  | env (label : Label) {t : Invocation σ μ} (hcase : EnvCase T req s t) : StepCase T req s label t

variable {T : ObjectType σ μ} {c : Config} {req : Request} {s t : Invocation σ μ}

theorem createObject_case {node typ id : GoString} {ok : Bool}
    (h : s.createObject T node typ id ok = some t) : EnvCase T req s t := by
  unfold createObject at h
  split at h
  · contradiction
  · split at h
    · cases h
      exact .aside rfl rfl rfl rfl rfl
    · obtain ⟨restored, -, rfl⟩ := Option.map_eq_some_iff.mp h
      exact .activate

theorem commitStep_case (self : Nat) (node : GoString) (reply : Reply) (k : Nat)
    (row : ReliableCall) : ∃ mid next, AttemptCase T req s (.commit k row) mid next ∧
      s.commitStep self node reply k row = mid.goto self node next := by
  unfold commitStep
  dsimp only
  split
  · exact ⟨_, _, .early rfl rfl, rfl⟩
  · split
    · exact ⟨_, _, .early rfl rfl, rfl⟩
    · rename_i hinsert
      exact ⟨_, _, .inserted hinsert, rfl⟩
  · split
    · exact ⟨_, _, .early rfl rfl, rfl⟩
    · rename_i hinsert
      exact ⟨_, _, .insertLost hinsert, rfl⟩

theorem receive_case {self : Nat} {node : GoString} {reply : Reply} {k : Nat} {seq : Int} {ch : Nat}
    (h : s.attemptStep T c req self node reply (.receive k seq ch) = some t) :
    ∃ mid next, AttemptCase T req s (.receive k seq ch) mid next ∧
      t = mid.goto self node next := by
  rw [attemptStep] at h
  split at h
  · contradiction
  · rename_i chan hchan
    obtain ⟨inst, hk, hchan⟩ := Option.bind_eq_some_iff.mp hchan
    split at h
    · rename_i call hvalue
      cases h
      exact ⟨_, _, .received hk hchan hvalue, rfl⟩
    · split at h
      · cases h
        exact ⟨_, _, .closed, rfl⟩
      · contradiction

theorem poll_case {self : Nat} {node : GoString} {reply : Reply} {seq : Int} {i : Nat}
    (h : s.attemptStep T c req self node reply (.poll seq i) = some t) :
    ∃ mid next, AttemptCase T req s (.poll seq i) mid next ∧ t = mid.goto self node next := by
  rw [attemptStep] at h
  split at h
  · cases h
    exact ⟨_, _, .unknown, rfl⟩
  · rename_i call hcall
    cases h
    have hget : s.db.getReliableCallBySeq seq = .ok call := by
      split at hcall
      · exact eq_ok_of_toOption hcall
      · contradiction
    split
    · exact ⟨_, _, .pausing hget, rfl⟩
    · exact ⟨_, _, .polled hget, rfl⟩

theorem pause_case {self : Nat} {node : GoString} {reply : Reply} {seq : Int} {i : Nat}
    {call : ReliableCall}
    (h : s.attemptStep T c req self node reply (.pause seq i call) = some t) :
    ∃ mid next, AttemptCase T req s (.pause seq i call) mid next ∧
      t = mid.goto self node next := by
  rw [attemptStep] at h
  split at h
  · split at h
    · cases h
      exact ⟨_, _, .again, rfl⟩
    · cases h
      exact ⟨_, _, .exhausted, rfl⟩
  · cases h
    exact ⟨_, _, .unknown, rfl⟩

theorem attemptStep_case {self : Nat} {node : GoString} {reply : Reply} {pc : AttemptPC}
    (h : s.attemptStep T c req self node reply pc = some t) :
    ∃ mid next, AttemptCase T req s pc mid next ∧ t = mid.goto self node next := by
  cases pc with
  | validate | ownership | find | serialize k =>
    cases h
    refine ⟨_, _, .early rfl ?_, rfl⟩
    split
    · rfl
    · split <;> rfl
  | stopped | provider | checkParameters =>
    cases h
    refine ⟨_, _, .early rfl ?_, rfl⟩
    split <;> rfl
  | create =>
    rw [attemptStep] at h
    split at h
    · cases h
      exact ⟨_, _, .early rfl rfl, rfl⟩
    · rename_i mid hcreate
      cases h
      exact ⟨_, _, .created hcreate, rfl⟩
  | lockSeqWrite k =>
    rw [attemptStep] at h
    split at h
    · contradiction
    · cases h
      exact ⟨_, _, .locked, rfl⟩
  | insert k requestData =>
    rw [attemptStep] at h
    split at h
    · cases h
      exact ⟨_, _, .early rfl rfl, rfl⟩
    · cases h
      exact ⟨_, _, .inserting, rfl⟩
  | commit k row =>
    cases h
    exact commitStep_case self node reply k row
  | unlockSeqWrite k result =>
    cases h
    cases result with
    | error error => exact ⟨_, _, .unlocked, rfl⟩
    | ok rc => exact ⟨_, _, .stored, rfl⟩
  | checkStatus k rc =>
    rw [attemptStep] at h
    split at h
    · cases h
      exact ⟨_, _, .pending, rfl⟩
    · cases h
      exact ⟨_, _, .cached, rfl⟩
  | process k seq =>
    obtain ⟨inst, -, rfl⟩ := Option.map_eq_some_iff.mp h
    split
    · exact ⟨_, _, .processed, rfl⟩
    · exact ⟨_, _, .unprocessed, rfl⟩
  | register k seq =>
    obtain ⟨inst, hk, rfl⟩ := Option.map_eq_some_iff.mp h
    exact ⟨_, _, .registered hk, rfl⟩
  | receive k seq ch => exact receive_case h
  | poll seq i => exact poll_case h
  | pause seq i call => exact pause_case h
  | finish call =>
    cases h
    exact ⟨_, _, .finished, rfl⟩
  | refuse error =>
    cases h
    exact ⟨_, _, .refused, rfl⟩
  | answered | lost => contradiction

theorem clientStep_case {self : Option GoString} {event : ClientEvent}
    (h : s.clientStep c req self s.client event = some t) : ClientCase s t := by
  unfold clientStep at h
  split at h
  · rename_i hclient
    cases h
    refine .prepare (by rw [hclient]; rfl) ?_
    split <;> rfl
  · rename_i hclient
    split at h
    · cases h
      exact .prepare (by rw [hclient]; rfl) rfl
    · split at h
      · cases h
        exact .send (by rw [hclient]; rfl) rfl
      · cases h
        exact .prepare (by rw [hclient]; rfl) rfl
  · rename_i hclient
    cases h
    refine .prepare (by rw [hclient]; rfl) ?_
    split <;> rfl
  · rename_i hclient
    cases h
    exact .send (by rw [hclient]; rfl) rfl
  · rename_i hclient
    split at h
    · rename_i hattempt
      cases h
      exact .response (by rw [hclient]; rfl) hattempt
    · contradiction
  · rename_i hclient
    cases h
    split
    · refine .retry (by rw [hclient]; rfl) rfl rfl fun answer hanswer => ?_
      cases hanswer
      rfl
    · exact .retry (by rw [hclient]; rfl) rfl rfl nofun
  · rename_i hclient
    cases h
    split
    · refine .retry (by rw [hclient]; rfl) rfl rfl fun answer hanswer => ?_
      cases hanswer
      rfl
    · exact .retry (by rw [hclient]; rfl) rfl rfl nofun
  · contradiction

theorem step_cases {self : Option GoString} {label : Label}
    (h : s.step T c req self label = some t) : StepCase T req s label t := by
  cases label with
  | client event => exact .client event (clientStep_case h)
  | attempt i reply =>
    obtain ⟨⟨node, pc⟩, hself, hstep⟩ := Option.bind_eq_some_iff.mp h
    obtain ⟨mid, next, hcase, rfl⟩ := attemptStep_case hstep
    exact .attempt reply hself hcase
  | drop i =>
    rw [step] at h
    split at h
    · rename_i hself
      cases h
      exact .drop hself
    · contradiction
  | act k action =>
    obtain ⟨out, hout, rfl⟩ := Option.map_eq_some_iff.mp h
    obtain ⟨inst, hk, hact⟩ := Option.bind_eq_some_iff.mp hout
    exact .env _ (.act hk hact)
  | insert row =>
    rw [step] at h
    split at h
    · contradiction
    · rename_i hother
      obtain ⟨⟨rc, db⟩, hinsert, rfl⟩ := Option.map_eq_some_iff.mp h
      exact .env _ (.insert hother (eq_ok_of_toOption hinsert))
  | nextval =>
    cases h
    exact .env _ .nextval
  | create node objectType ok => exact .env _ (createObject_case h)
  | host id ok =>
    rw [step] at h
    split at h
    · contradiction
    · obtain ⟨restored, -, rfl⟩ := Option.map_eq_some_iff.mp h
      exact .env _ .activate
  | evict node =>
    obtain ⟨k, -, rfl⟩ := Option.map_eq_some_iff.mp h
    exact .env _ .evict
  | stop | view | serverView =>
    cases h
    exact .env _ (.aside rfl rfl rfl rfl rfl)

end Invocation
end Goverse.Cluster
