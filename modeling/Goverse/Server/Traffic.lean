import Goverse.Cluster.Truthful
import Goverse.Node.Host
import Goverse.Node.Objects

/-! Requests on their way to an object. A client asks a gate, which checks its rules and passes
the request on to the node that its view of the cluster names; a node asks a server, or itself.
Any number of handlers of `CreateObject`, `CallObject` and `ReliableCallObject` run on any
number of servers, next to the processing loops of every activation and over one store. -/
namespace Goverse.Server

open Postgres Lib Object Consensus Cluster AccessControl
open Node (Creation NodeError)

variable {σ μ : Type}

/-- How the gates and the nodes at each address are set up. -/
structure Deployment (σ μ : Type) where
  config : Config
  objectTypes : GoString → GoString → Option (ObjectType σ μ)
  objectTypes_name : ∀ node typ T, objectTypes node typ = some T → T.name = typ
  hasProvider : GoString → Bool
  accessValidator : GoString → Option AccessValidator
  lifecycleValidator : GoString → Option LifecycleValidator

namespace Deployment

variable (d : Deployment σ μ) (addr typ id method : GoString)

/-- `if server.accessValidator != nil { CheckNodeAccess }`, and so on: nothing is checked
without a validator. -/
def checkNodeAccess : Except AccessError Unit :=
  (d.accessValidator addr).elim (.ok ()) fun v => v.checkNodeAccess typ id method

def checkClientAccess : Except AccessError Unit :=
  (d.accessValidator addr).elim (.ok ()) fun v => v.checkClientAccess typ id method

def checkNodeCreate : Except AccessError Unit :=
  (d.lifecycleValidator addr).elim (.ok ()) fun v => v.checkNodeCreate typ id

def checkClientCreate : Except AccessError Unit :=
  (d.lifecycleValidator addr).elim (.ok ()) fun v => v.checkClientCreate typ id

end Deployment

/-- A request of `CreateObject` or `CallObject`, or of `ReliableCallObject`. -/
inductive Rpc (μ : Type) where
  | object (cr : Creation μ)
  | reliable (req : Request)

inductive RpcError where
  | idNotSpecified
  | ownership (error : CallError)
  | permissionDenied (error : AccessError)
  | unmarshal
  | nodeStopped
  | create (error : NodeError)
  | autoCreate (objectID : GoString) (error : NodeError)
  | notFound (objectID : GoString)
  | typeMismatch (expected got objectID : GoString)
  | method (message : GoString)
  | marshal
  deriving DecidableEq, Repr

/-- Where a handler of `CreateObject` or `CallObject` is; the name says what it does next. Up
to `unmarshal` it is in the server, and then in the node. -/
inductive RpcPC (μ : Type) where
  | validate
  | ownership
  | access
  | unmarshal
  | stopped
  | create
  | find
  | invoke (k : Nat)
  | marshal (response : μ)
  | returned (result : Except RpcError (Option μ))

inductive Job (μ : Type) where
  | object (cr : Creation μ) (pc : RpcPC μ)
  | reliable (req : Request) (pc : AttemptPC)

/-- `gate` is the gate that has passed the request of a client on. -/
structure Handler (μ : Type) where
  gate : Option GoString
  node : GoString
  job : Job μ

/-- The node and the type of an activation. -/
structure Place (σ μ : Type) where
  node : GoString
  type : ObjectType σ μ

/-- A method that was started on a node. -/
structure Execution where
  node : GoString
  objectType : GoString
  objectID : GoString
  methodName : GoString
  deriving DecidableEq, Repr

/-- An object that was created on a node, for the client of a gate or for nobody's client. -/
structure Created where
  gate : Option GoString
  node : GoString
  objectType : GoString
  objectID : GoString
  deriving DecidableEq, Repr

/-- What `ReliableCallObject` has returned, and the call it has read it from. -/
structure Reported where
  gate : Option GoString
  req : Request
  answer : Answer
  source : Option ReliableCall
  deriving DecidableEq, Repr

/-- `insts` are all activations that were ever made and `places` where each of them is;
`objects` is the map of each node. `views` are the views that gates and nodes have of the
cluster. `executed`, `created` and `reported` are what has happened so far. -/
structure Traffic (σ μ : Type) where
  db : DB
  insts : List (Instance σ μ)
  places : List (Place σ μ)
  objects : GoString → GoString → Option Nat
  seqWriteMu : Nat → Option Nat
  stopped : GoString → Bool
  views : GoString → ClusterState
  handlers : List (Handler μ)
  executed : List Execution
  created : List Created
  reported : List Reported

/-- The attempt that the handler is, if it is one. -/
def Handler.attempt (h : Handler μ) : Attempt :=
  match h.job with
  | .object _ _ => ⟨h.node, .lost⟩
  | .reliable _ pc => ⟨h.node, pc⟩

/-- The call that an attempt answers from. -/
def sourceOf : AttemptPC → Option ReliableCall
  | .checkStatus _ rc => some rc
  | .finish call => some call
  | _ => none

def answerAt : AttemptPC → Option Answer
  | .answered answer => some answer
  | _ => none

namespace Rpc

def objectID : Rpc μ → GoString
  | object cr => cr.id
  | reliable req => req.objectID

/-- What the gate checks before it passes the request on. -/
def clientCheck (d : Deployment σ μ) (gate : GoString) : Rpc μ → Except AccessError Unit
  | object ⟨typ, id, none⟩ => d.checkClientCreate gate typ id
  | object ⟨typ, id, some (method, _)⟩ => d.checkClientAccess gate typ id method
  | reliable req => d.checkClientAccess gate req.objectType req.objectID req.methodName

/-- The request the cluster of the gate sends: `CreateObject` makes an ID up if it is given
none, and `ReliableCallObjectAnyRequest` refuses an empty parameter. -/
def outgoing (uniqueID : GoString) : Rpc μ → Option (Rpc μ)
  | object ⟨typ, [], none⟩ => some (object ⟨typ, typ ++ lit "-" ++ uniqueID, none⟩)
  | object cr => some (object cr)
  | reliable req => if firstEmpty req.parameters = none then some (reliable req) else none

/-- Where the handler of the server starts. -/
def job : Rpc μ → Job μ
  | object cr => .object cr (if cr.call.isSome then .ownership else .validate)
  | reliable req => .reliable req .validate

end Rpc

namespace Traffic

/-- `client` is a request at a gate and `uniqueID` what `uniqueid.UniqueId` would answer; `rpc`
is a request of a node at a server, and `direct` a reliable call that a node makes to itself. -/
inductive Label (μ : Type) where
  | client (gate : GoString) (rpc : Rpc μ) (uniqueID : GoString)
  | rpc (node : GoString) (rpc : Rpc μ)
  | direct (node : GoString) (req : Request)
  | handler (i : Nat) (reply : Reply)
  | act (k : Nat) (action : Action)
  | evict (node id : GoString)
  | deleteObject (id : GoString)
  | stop (addr : GoString)
  | view (addr : GoString) (view : ClusterState)

def goto (s : Traffic σ μ) (i : Nat) (h : Handler μ) (job : Job μ) : Traffic σ μ :=
  { s with handlers := s.handlers.set i { h with job := job } }

def arrive (s : Traffic σ μ) (h : Handler μ) : Traffic σ μ :=
  { s with handlers := s.handlers ++ [h] }

/-- `objects[id].Type()`, for the activation of a map entry. -/
def typeName (s : Traffic σ μ) (k : Nat) : Option GoString := s.places[k]?.map (·.type.name)

section Steps

variable (d : Deployment σ μ) (s : Traffic σ μ)

/-- The handlers of a gate, up to the request they send. A request that is refused changes
nothing. -/
def gateStep (gate : GoString) (rpc : Rpc μ) (uniqueID : GoString) : Traffic σ μ :=
  if s.stopped gate then s
  else
    match rpc.clientCheck d gate, rpc.outgoing uniqueID with
    | .ok (), some sent =>
      match (s.views gate).getCurrentNodeForObject d.config sent.objectID with
      | .error _ => s
      | .ok node => s.arrive ⟨some gate, node, sent.job⟩
    | _, _ => s

def validateObjectShardOwnership (node objectID : GoString) : Except CallError Unit :=
  match (s.views node).getCurrentNodeForObject d.config objectID with
  | .error error => .error (.noTarget objectID error)
  | .ok target => if target ≠ node then .error (.notThisNode objectID target node) else .ok ()

/-- A new activation; with a provider, `createObject` starts its loop. -/
def activation (node id : GoString) (data : σ) (nextRcseq : Int) : Instance σ μ :=
  if d.hasProvider node then Invocation.activated id data nextRcseq
  else .start id data nextRcseq

/-- `createObject` of a node, as one step. `ok` says whether the provider answers and
`FromData` succeeds. -/
def createObject (gate : Option GoString) (node typ id : GoString) (ok : Bool) :
    Except NodeError (Traffic σ μ) :=
  if id = [] then .error .emptyID
  else
    match s.objects node id with
    | some k =>
      if s.typeName k = some typ then .ok s
      else .error (.otherType id typ ((s.typeName k).getD []))
    | none =>
      match d.checkNodeCreate node typ id with
      | .error _ => .error (.createDenied typ id)
      | .ok () =>
        match d.objectTypes node typ with
        | none => .error (.unknownType typ)
        | some T =>
          match if ok then if d.hasProvider node then T.restore s.db id true
              else some (T.fresh, 0) else none with
          | none => .error (.notRestored id)
          | some (data, nextRcseq) =>
            .ok { s with
              insts := s.insts ++ [activation d node id data nextRcseq]
              places := s.places ++ [⟨node, T⟩]
              objects := Function.update s.objects node
                (Function.update (s.objects node) id (some s.insts.length))
              created := s.created ++ [⟨gate, node, typ, id⟩] }

/-- What follows `createObject`, for `CallObject` and for `CreateObject`. -/
def afterCreate (cr : Creation μ) : RpcPC μ :=
  if cr.call.isSome then .find else .returned (.ok none)

/-- `CreateObject` and `CallObject`, of the server and then of its node. -/
def objectStep (i : Nat) (h : Handler μ) (cr : Creation μ) (reply : Reply) :
    RpcPC μ → Option (Traffic σ μ)
  | .validate =>
    some (s.goto i h (.object cr
      (if cr.id = [] then .returned (.error .idNotSpecified) else .ownership)))
  | .ownership =>
    some (s.goto i h (.object cr
      (match s.validateObjectShardOwnership d h.node cr.id with
      | .error error => .returned (.error (.ownership error))
      | .ok () => if cr.call.isSome then .access else .stopped)))
  | .access =>
    cr.call.map fun call => s.goto i h (.object cr
      (match d.checkNodeAccess h.node cr.typ cr.id call.1 with
      | .error error => .returned (.error (.permissionDenied error))
      | .ok () => .unmarshal))
  | .unmarshal =>
    some (s.goto i h (.object cr
      (if reply = .ok then .stopped else .returned (.error .unmarshal))))
  | .stopped =>
    some (s.goto i h (.object cr
      (if s.stopped h.node then .returned (.error .nodeStopped) else .create)))
  | .create =>
    match s.createObject d h.gate h.node cr.typ cr.id (reply = .ok) with
    | .error error =>
      some (s.goto i h (.object cr (.returned (.error
        (if cr.call.isSome then .autoCreate cr.id error else .create error)))))
    | .ok next => some (next.goto i h (.object cr (afterCreate cr)))
  | .find =>
    some (s.goto i h (.object cr
      (match s.objects h.node cr.id with
      | none => .returned (.error (.notFound cr.id))
      | some k =>
        if s.typeName k ≠ some cr.typ then
          .returned (.error (.typeMismatch cr.typ ((s.typeName k).getD []) cr.id))
        else .invoke k)))
  | .invoke k =>
    match cr.call, s.places[k]?, s.insts[k]? with
    | some (method, request), some place, some inst =>
      let outcome := place.type.invokeMethod inst.obj.data method request
      some ({ s with
        insts := s.insts.set k { inst with obj := { inst.obj with data := outcome.1 } }
        executed := s.executed ++
          [(⟨place.node, place.type.name, inst.obj.id, method⟩ : Execution)] }.goto i h
          (.object cr
            (match outcome.2 with
            | .error message => .returned (.error (.method message))
            | .ok response => .marshal response)))
    | _, _, _ => none
  | .marshal response =>
    some (s.goto i h (.object cr
      (.returned (if reply = .ok then .ok (some response) else .error .marshal))))
  | .returned _ => none

/-- The state as one attempt of a call on the object `id` sees it. -/
def focus (node id : GoString) : Invocation σ μ where
  db := s.db
  insts := s.insts
  objects := fun node => s.objects node id
  seqWriteMu := s.seqWriteMu
  stopped := s.stopped
  view := s.views node
  views := s.views
  attempts := s.handlers.map Handler.attempt
  client := .validate
  executed := []

/-- What an attempt has changed on its way from `pc` to `next`. -/
def absorb (h : Handler μ) (req : Request) (pc next : AttemptPC) (seen : Invocation σ μ) :
    Traffic σ μ :=
  { s with
    db := seen.db
    insts := seen.insts
    seqWriteMu := seen.seqWriteMu
    reported := s.reported ++ (answerAt next).toList.map fun answer =>
      (⟨h.gate, req, answer, sourceOf pc⟩ : Reported) }

variable [Inhabited (ObjectType σ μ)]

/-- The type of the object that is live on the node. An attempt looks at the type of no
other. -/
def liveType (node id : GoString) : ObjectType σ μ :=
  ((s.objects node id).bind fun k => s.places[k]?).elim default Place.type

/-- `ReliableCallObject`, of the server and then of its node. -/
def reliableStep (i : Nat) (h : Handler μ) (req : Request) (reply : Reply) :
    AttemptPC → Option (Traffic σ μ)
  | .provider =>
    some (s.goto i h (.reliable req
      (if d.hasProvider h.node then .create else .refuse .noProvider)))
  | .create =>
    match s.createObject d h.gate h.node req.objectType req.objectID (reply = .ok) with
    | .error _ => some (s.goto i h (.reliable req (.refuse (.autoCreate req.objectID))))
    | .ok next => some (next.goto i h (.reliable req .find))
  | pc =>
    ((s.focus h.node req.objectID).attemptStep (s.liveType h.node req.objectID) d.config req i
      h.node reply pc).bind fun seen => seen.attempts[i]?.map fun attempt =>
        (s.absorb h req pc attempt.pc seen).goto i h (.reliable req attempt.pc)

def observe (k : Nat) (place : Place σ μ) (inst : Instance σ μ) (out : Outcome σ μ) :
    Traffic σ μ :=
  { s with
    db := out.db
    insts := s.insts.set k out.inst
    executed := s.executed ++ (out.event.bind Event.invoked).toList.map fun call =>
      (⟨place.node, place.type.name, inst.obj.id, call.methodName⟩ : Execution) }

def step : Label μ → Option (Traffic σ μ)
  | .client gate rpc uniqueID => some (s.gateStep d gate rpc uniqueID)
  | .rpc node rpc => some (s.arrive ⟨none, node, rpc.job⟩)
  | .direct node req => some (s.arrive ⟨none, node, .reliable req .stopped⟩)
  | .handler i reply =>
    match s.handlers[i]? with
    | none => none
    | some h =>
      match h.job with
      | .object cr pc => s.objectStep d i h cr reply pc
      | .reliable req pc => s.reliableStep d i h req reply pc
  | .act k action =>
    match s.places[k]?, s.insts[k]? with
    | some place, some inst => (inst.step place.type s.db action).map (s.observe k place inst)
    | _, _ => none
  | .evict node id =>
    (s.objects node id).map fun k =>
      { s with
        objects := Function.update s.objects node (Function.update (s.objects node) id none)
        insts := s.insts.modify k fun inst => { inst with obj := inst.obj.destroy } }
  | .deleteObject id => (s.db.deleteObject id).toOption.map fun db => { s with db := db }
  | .stop addr => some { s with stopped := Function.update s.stopped addr true }
  | .view addr view => some { s with views := Function.update s.views addr view }

end Steps

def start (db : DB) (views : GoString → ClusterState) : Traffic σ μ :=
  ⟨db, [], [], fun _ _ => none, fun _ => none, fun _ => false, views, [], [], [], []⟩

/-- No object is live and no request has been made; the store may hold anything. -/
def machine [Inhabited (ObjectType σ μ)] (d : Deployment σ μ) :
    Machine (Traffic σ μ) (Label μ) where
  Init s := ∃ db views, s = start db views
  step s := s.step d

end Traffic

/-! ### Everything a step can do -/

/-- The access check of `CallObject` is behind it. -/
def RpcPC.cleared : RpcPC μ → Bool
  | unmarshal | stopped | create | find | invoke _ | marshal _ => true
  | _ => false

namespace Job

/-- A request that has just arrived. -/
def fresh : Job μ → Bool
  | object _ pc => !pc.cleared
  | reliable _ pc => pc.blank

/-- The type and the ID that the handler is about to hand to `createObject`. -/
def creates : Job μ → Option (GoString × GoString)
  | object cr .create => some (cr.typ, cr.id)
  | reliable req .create => some (req.objectType, req.objectID)
  | _ => none

/-- The row that the handler is about to insert. -/
def inserts : Job μ → Option ReliableCall
  | reliable _ (.commit _ row) => some row
  | _ => none

end Job

@[simp] theorem Rpc.job_fresh (rpc : Rpc μ) : rpc.job.fresh = true := by
  cases rpc with
  | object cr =>
    simp only [job, Job.fresh]
    split <;> rfl
  | reliable => rfl

namespace Traffic

/-- `createObject` finds the object, or makes it. -/
inductive CreateCase (d : Deployment σ μ) (s : Traffic σ μ) (gate : Option GoString)
    (node typ id : GoString) : Traffic σ μ → Prop
  | live {k : Nat} (hk : s.objects node id = some k) : CreateCase d s gate node typ id s
  | activated {T : ObjectType σ μ} {data : σ} {nextRcseq : Int}
      (habsent : s.objects node id = none) (hcheck : d.checkNodeCreate node typ id = .ok ())
      (hT : T.name = typ) : CreateCase d s gate node typ id
        { s with
          insts := s.insts ++ [activation d node id data nextRcseq]
          places := s.places ++ [⟨node, T⟩]
          objects := Function.update s.objects node
            (Function.update (s.objects node) id (some s.insts.length))
          created := s.created ++ [⟨gate, node, typ, id⟩] }

/-- From `pc`, a handler of `CreateObject` or `CallObject` leaves the state as in `mid` and goes
on at `next`. -/
inductive ObjectCase (d : Deployment σ μ) (s : Traffic σ μ) (h : Handler μ) (cr : Creation μ) :
    RpcPC μ → Traffic σ μ → RpcPC μ → Prop
  | walk {pc next : RpcPC μ} (hcleared : next.cleared = true → pc.cleared = true)
      (hinvoke : ∀ k, next ≠ .invoke k) : ObjectCase d s h cr pc s next
  | uncalled (hcall : cr.call = none) : ObjectCase d s h cr .ownership s .stopped
  | granted {method : GoString} {request : μ} (hcall : cr.call = some (method, request))
      (hcheck : d.checkNodeAccess h.node cr.typ cr.id method = .ok ()) :
      ObjectCase d s h cr .access s .unmarshal
  | created {mid : Traffic σ μ} (hcreate : CreateCase d s h.gate h.node cr.typ cr.id mid) :
      ObjectCase d s h cr .create mid (afterCreate cr)
  | found {k : Nat} (hk : s.objects h.node cr.id = some k) (htype : s.typeName k = some cr.typ) :
      ObjectCase d s h cr .find s (.invoke k)
  | invoked {k : Nat} {method : GoString} {request : μ} {place : Place σ μ} {inst : Instance σ μ}
      {next : RpcPC μ} {data : σ} (hcall : cr.call = some (method, request))
      (hplace : s.places[k]? = some place) (hinst : s.insts[k]? = some inst)
      (hinvoke : ∀ k, next ≠ .invoke k) : ObjectCase d s h cr (.invoke k)
        { s with
          insts := s.insts.set k { inst with obj := { inst.obj with data := data } }
          executed := s.executed ++ [⟨place.node, place.type.name, inst.obj.id, method⟩] } next

/-- The same for a handler of `ReliableCallObject`. -/
inductive ReliableCase (d : Deployment σ μ) (s : Traffic σ μ) (h : Handler μ) (req : Request) :
    AttemptPC → Traffic σ μ → AttemptPC → Prop
  | walk {pc next : AttemptPC} (hnext : next.blank = true) : ReliableCase d s h req pc s next
  | created {mid : Traffic σ μ}
      (hcreate : CreateCase d s h.gate h.node req.objectType req.objectID mid) :
      ReliableCase d s h req .create mid .find
  | attempt {T : ObjectType σ μ} {pc next : AttemptPC} {seen : Invocation σ μ}
      (hpc : pc ≠ .create)
      (hcase : Invocation.AttemptCase T req (s.focus h.node req.objectID) pc seen next) :
      ReliableCase d s h req pc (s.absorb h req pc next seen) next

inductive StepCase (d : Deployment σ μ) (s : Traffic σ μ) : Label μ → Traffic σ μ → Prop
  | client {gate node uniqueID : GoString} {rpc sent : Rpc μ}
      (hcheck : rpc.clientCheck d gate = .ok ()) (hsent : rpc.outgoing uniqueID = some sent) :
      StepCase d s (.client gate rpc uniqueID) (s.arrive ⟨some gate, node, sent.job⟩)
  | arrive (label : Label μ) {node : GoString} {job : Job μ} (hjob : job.fresh = true) :
      StepCase d s label (s.arrive ⟨none, node, job⟩)
  | object {i : Nat} {reply : Reply} {h : Handler μ} {cr : Creation μ} {pc next : RpcPC μ}
      {mid : Traffic σ μ} (hi : s.handlers[i]? = some h) (hjob : h.job = .object cr pc)
      (hcase : ObjectCase d s h cr pc mid next) :
      StepCase d s (.handler i reply) (mid.goto i h (.object cr next))
  | reliable {i : Nat} {reply : Reply} {h : Handler μ} {req : Request} {pc next : AttemptPC}
      {mid : Traffic σ μ} (hi : s.handlers[i]? = some h) (hjob : h.job = .reliable req pc)
      (hcase : ReliableCase d s h req pc mid next) :
      StepCase d s (.handler i reply) (mid.goto i h (.reliable req next))
  | act {k : Nat} {action : Action} {place : Place σ μ} {inst : Instance σ μ} {out : Outcome σ μ}
      (hplace : s.places[k]? = some place) (hinst : s.insts[k]? = some inst)
      (hout : inst.step place.type s.db action = some out) :
      StepCase d s (.act k action) (s.observe k place inst out)
  | evict {k : Nat} {node id : GoString} (hk : s.objects node id = some k) :
      StepCase d s (.evict node id)
        { s with
          objects := Function.update s.objects node (Function.update (s.objects node) id none)
          insts := s.insts.modify k fun inst => { inst with obj := inst.obj.destroy } }
  | aside (label : Label μ) {t : Traffic σ μ} (hcalls : t.db.calls = s.db.calls)
      (hinsts : t.insts = s.insts) (hplaces : t.places = s.places)
      (hobjects : t.objects = s.objects) (hhandlers : t.handlers = s.handlers)
      (hexecuted : t.executed = s.executed) (hcreated : t.created = s.created)
      (hreported : t.reported = s.reported) : StepCase d s label t

section Inversion

variable {d : Deployment σ μ} {s t : Traffic σ μ} {i : Nat} {h : Handler μ} {reply : Reply}

theorem createObject_case {gate : Option GoString} {node typ id : GoString} {ok : Bool}
    (hcreate : s.createObject d gate node typ id ok = .ok t) :
    CreateCase d s gate node typ id t := by
  unfold createObject at hcreate
  split at hcreate
  · contradiction
  · split at hcreate
    · rename_i k hk
      split at hcreate
      · cases hcreate
        exact .live hk
      · contradiction
    · rename_i habsent
      split at hcreate
      · contradiction
      · rename_i hcheck
        split at hcreate
        · contradiction
        · rename_i T hT
          split at hcreate
          · contradiction
          · cases hcreate
            exact .activated habsent hcheck (d.objectTypes_name node typ T hT)

theorem objectStep_case {cr : Creation μ} {pc : RpcPC μ}
    (hstep : s.objectStep d i h cr reply pc = some t) :
    ∃ mid next, ObjectCase d s h cr pc mid next ∧ t = mid.goto i h (.object cr next) := by
  cases pc with
  | validate | unmarshal | stopped =>
    cases hstep
    refine ⟨_, _, .walk ?_ ?_, rfl⟩ <;> split <;> simp [RpcPC.cleared]
  | ownership =>
    rw [objectStep] at hstep
    split at hstep
    · cases hstep
      exact ⟨_, _, .walk (by simp [RpcPC.cleared]) (by simp), rfl⟩
    · split at hstep
      · cases hstep
        exact ⟨_, _, .walk (by simp [RpcPC.cleared]) (by simp), rfl⟩
      · rename_i hcall
        cases hstep
        exact ⟨_, _, .uncalled (by simpa using hcall), rfl⟩
  | access =>
    obtain ⟨⟨method, request⟩, hcall, rfl⟩ := Option.map_eq_some_iff.mp hstep
    split
    · exact ⟨_, _, .walk (by simp [RpcPC.cleared]) (by simp), rfl⟩
    · rename_i hcheck
      exact ⟨_, _, .granted hcall hcheck, rfl⟩
  | create =>
    rw [objectStep] at hstep
    split at hstep
    · cases hstep
      exact ⟨_, _, .walk (by simp [RpcPC.cleared]) (by simp), rfl⟩
    · rename_i hcreate
      cases hstep
      exact ⟨_, _, .created (createObject_case hcreate), rfl⟩
  | find =>
    rw [objectStep] at hstep
    split at hstep
    · cases hstep
      exact ⟨_, _, .walk (by simp [RpcPC.cleared]) (by simp), rfl⟩
    · rename_i k hk
      split at hstep
      · cases hstep
        exact ⟨_, _, .walk (by simp [RpcPC.cleared]) (by simp), rfl⟩
      · rename_i htype
        cases hstep
        exact ⟨_, _, .found hk (by simpa using htype), rfl⟩
  | invoke k =>
    rw [objectStep] at hstep
    split at hstep
    · rename_i method request place inst hcall hplace hinst
      cases hstep
      refine ⟨_, _, .invoked hcall hplace hinst ?_, rfl⟩
      split <;> simp
    · contradiction
  | marshal response =>
    cases hstep
    exact ⟨_, _, .walk (by simp [RpcPC.cleared]) (by simp), rfl⟩
  | returned => contradiction

private theorem focus_attempts_goto {seen : Invocation σ μ} {node id : GoString} {next : AttemptPC}
    (hi : s.handlers[i]? = some h) (hattempts : seen.attempts = (s.focus node id).attempts) :
    (seen.goto i h.node next).attempts[i]? = some ⟨h.node, next⟩ := by
  have hlt : i < s.handlers.length := (List.getElem?_eq_some_iff.mp hi).1
  have hlen : i < seen.attempts.length := by
    rw [hattempts]
    simpa [focus] using hlt
  simp [Invocation.goto, hlen]

theorem gateStep_case (gate : GoString) (rpc : Rpc μ) (uniqueID : GoString) :
    StepCase d s (.client gate rpc uniqueID) (s.gateStep d gate rpc uniqueID) := by
  unfold gateStep
  split
  · exact .aside _ rfl rfl rfl rfl rfl rfl rfl rfl
  · split
    · rename_i sent hcheck hsent
      split
      · exact .aside _ rfl rfl rfl rfl rfl rfl rfl rfl
      · exact .client hcheck hsent
    · exact .aside _ rfl rfl rfl rfl rfl rfl rfl rfl

variable [Inhabited (ObjectType σ μ)]

theorem reliableStep_case {req : Request} {pc : AttemptPC} (hi : s.handlers[i]? = some h)
    (hstep : s.reliableStep d i h req reply pc = some t) :
    ∃ mid next, ReliableCase d s h req pc mid next ∧ t = mid.goto i h (.reliable req next) := by
  unfold reliableStep at hstep
  split at hstep
  · cases hstep
    refine ⟨_, _, .walk ?_, rfl⟩
    split <;> rfl
  · split at hstep
    · cases hstep
      exact ⟨_, _, .walk rfl, rfl⟩
    · rename_i hcreate
      cases hstep
      exact ⟨_, _, .created (createObject_case hcreate), rfl⟩
  · rename_i hprovider hcreate
    obtain ⟨seen, hseen, hrest⟩ := Option.bind_eq_some_iff.mp hstep
    obtain ⟨attempt, hattempt, rfl⟩ := Option.map_eq_some_iff.mp hrest
    obtain ⟨mid, next, hcase, rfl⟩ := Invocation.attemptStep_case hseen
    rw [focus_attempts_goto hi hcase.attempts_eq.1] at hattempt
    cases hattempt
    exact ⟨_, _, .attempt hcreate hcase, rfl⟩

theorem step_case {label : Label μ} (hstep : s.step d label = some t) : StepCase d s label t := by
  cases label with
  | client gate rpc uniqueID =>
    cases hstep
    exact gateStep_case gate rpc uniqueID
  | rpc node rpc =>
    cases hstep
    exact .arrive _ rpc.job_fresh
  | direct node req =>
    cases hstep
    exact .arrive _ rfl
  | handler i reply =>
    rw [step] at hstep
    split at hstep
    · contradiction
    · rename_i h hi
      split at hstep
      · rename_i cr pc hjob
        obtain ⟨mid, next, hcase, rfl⟩ := objectStep_case hstep
        exact .object hi hjob hcase
      · rename_i req pc hjob
        obtain ⟨mid, next, hcase, rfl⟩ := reliableStep_case hi hstep
        exact .reliable hi hjob hcase
  | act k action =>
    rw [step] at hstep
    split at hstep
    · rename_i place inst hplace hinst
      obtain ⟨out, hout, rfl⟩ := Option.map_eq_some_iff.mp hstep
      exact .act hplace hinst hout
    · contradiction
  | evict node id =>
    obtain ⟨k, hk, rfl⟩ := Option.map_eq_some_iff.mp hstep
    exact .evict hk
  | deleteObject id =>
    obtain ⟨db, hdb, rfl⟩ := Option.map_eq_some_iff.mp hstep
    have hdeleted := eq_ok_of_toOption hdb
    exact .aside _ (DB.deleteObject_ok hdeleted).1 rfl rfl rfl rfl rfl rfl rfl
  | stop | view =>
    cases hstep
    exact .aside _ rfl rfl rfl rfl rfl rfl rfl rfl

end Inversion

/-! ### The store and the activations -/

/-- No entry of an object map is new. -/
def Shrinks (s t : Traffic σ μ) : Prop :=
  ∀ node id k, t.objects node id = some k → s.objects node id = some k

/-- What a step does to the calls in the store and to the activations, whoever takes it. -/
inductive Change (d : Deployment σ μ) (s : Traffic σ μ) (label : Label μ) (t : Traffic σ μ) : Prop
  | same (hcalls : t.db.calls = s.db.calls) (hinsts : t.insts = s.insts)
      (hplaces : t.places = s.places) (hobjects : s.Shrinks t)
  | insert {i : Nat} {reply : Reply} {h : Handler μ} {row rc : ReliableCall}
      (hlabel : label = .handler i reply) (hi : s.handlers[i]? = some h)
      (hrow : h.job.inserts = some row) (hinsert : s.db.insertCall row = .ok (rc, t.db))
      (hinsts : t.insts = s.insts) (hplaces : t.places = s.places) (hobjects : s.Shrinks t)
  | activate {i : Nat} {reply : Reply} {h : Handler μ} {id : GoString} {T : ObjectType σ μ}
      {data : σ} {nextRcseq : Int} (hlabel : label = .handler i reply)
      (hi : s.handlers[i]? = some h) (hcreates : h.job.creates = some (T.name, id))
      (habsent : s.objects h.node id = none) (hdb : t.db = s.db)
      (hinsts : t.insts = s.insts ++ [activation d h.node id data nextRcseq])
      (hplaces : t.places = s.places ++ [⟨h.node, T⟩])
      (hobjects : t.objects = Function.update s.objects h.node
        (Function.update (s.objects h.node) id (some s.insts.length)))
  | quiet {k : Nat} {inst new : Instance σ μ} (hk : s.insts[k]? = some inst)
      (hinsts : t.insts = s.insts.set k new) (hid : new.obj.id = inst.obj.id)
      (hloops : ∀ pc ∈ new.loops, pc ∈ inst.loops ∨ pc = .checkCtx) (hmail : inst.Mail new)
      (hdb : t.db = s.db) (hplaces : t.places = s.places) (hobjects : s.Shrinks t)
  | act {k : Nat} {action : Action} {place : Place σ μ} {inst : Instance σ μ} {out : Outcome σ μ}
      (hplace : s.places[k]? = some place) (hk : s.insts[k]? = some inst)
      (hout : inst.step place.type s.db action = some out) (hdb : t.db = out.db)
      (hinsts : t.insts = s.insts.set k out.inst) (hplaces : t.places = s.places)
      (hobjects : s.Shrinks t)

section Changes

variable {d : Deployment σ μ} {s t : Traffic σ μ} {label : Label μ} {i : Nat} {h : Handler μ}

theorem Shrinks.of_eq (hobjects : t.objects = s.objects) : s.Shrinks t := by
  intro node id k hk
  rwa [← hobjects]

theorem Change.goto (hchange : Change d s label t) (i : Nat) (h : Handler μ) (job : Job μ) :
    Change d s label (t.goto i h job) := by
  cases hchange with
  | same hcalls hinsts hplaces hobjects => exact .same hcalls hinsts hplaces hobjects
  | insert hlabel hi hrow hinsert hinsts hplaces hobjects =>
    exact .insert hlabel hi hrow hinsert hinsts hplaces hobjects
  | activate hlabel hi hcreates habsent hdb hinsts hplaces hobjects =>
    exact .activate hlabel hi hcreates habsent hdb hinsts hplaces hobjects
  | quiet hk hinsts hid hloops hmail hdb hplaces hobjects =>
    exact .quiet hk hinsts hid hloops hmail hdb hplaces hobjects
  | act hplace hk hout hdb hinsts hplaces hobjects =>
    exact .act hplace hk hout hdb hinsts hplaces hobjects

theorem CreateCase.change {reply : Reply} {typ id : GoString} (hi : s.handlers[i]? = some h)
    (hcreates : h.job.creates = some (typ, id)) (hcase : CreateCase d s h.gate h.node typ id t) :
    Change d s (.handler i reply) t := by
  cases hcase with
  | live => exact .same rfl rfl rfl (.of_eq rfl)
  | activated habsent hcheck hT =>
    subst hT
    exact .activate rfl hi hcreates habsent rfl rfl rfl rfl

theorem ObjectCase.change {reply : Reply} {cr : Creation μ} {pc next : RpcPC μ}
    (hi : s.handlers[i]? = some h) (hjob : h.job = .object cr pc)
    (hcase : ObjectCase d s h cr pc t next) : Change d s (.handler i reply) t := by
  cases hcase with
  | walk | uncalled | granted | found => exact .same rfl rfl rfl (.of_eq rfl)
  | created hcreate => exact hcreate.change hi (by rw [hjob]; rfl)
  | invoked hcall hplace hinst =>
    exact .quiet hinst rfl rfl (fun pc => .inl) (.inl ⟨rfl, rfl⟩) rfl rfl (.of_eq rfl)

theorem ReliableCase.change {reply : Reply} {req : Request} {pc next : AttemptPC}
    (hi : s.handlers[i]? = some h) (hjob : h.job = .reliable req pc)
    (hcase : ReliableCase d s h req pc t next) : Change d s (.handler i reply) t := by
  cases hcase with
  | walk => exact .same rfl rfl rfl (.of_eq rfl)
  | created hcreate => exact hcreate.change hi (by rw [hjob]; rfl)
  | attempt hpc hcase =>
    cases hcase with
    | created => contradiction
    | inserted hinsert | insertLost hinsert =>
      exact .insert rfl hi (by rw [hjob]; rfl) hinsert rfl rfl (.of_eq rfl)
    | @registered k seq inst hk =>
      exact .quiet hk rfl rfl (fun pc => Instance.mem_spawn_loops) (.inr ⟨seq, rfl, rfl⟩) rfl rfl
        (.of_eq rfl)
    | _ => exact .same rfl rfl rfl (.of_eq rfl)

private theorem shrinks_evict (node id : GoString) : s.Shrinks { s with
    objects := Function.update s.objects node (Function.update (s.objects node) id none) } := by
  intro other name k hk
  simp only [Function.update_apply] at hk
  split at hk
  · rename_i hnode
    subst hnode
    rw [Function.update_apply] at hk
    split at hk
    · contradiction
    · exact hk
  · exact hk

theorem StepCase.change (hcase : StepCase d s label t) : Change d s label t := by
  cases hcase with
  | client | arrive => exact .same rfl rfl rfl (.of_eq rfl)
  | object hi hjob hcase => exact (hcase.change hi hjob).goto _ _ _
  | reliable hi hjob hcase => exact (hcase.change hi hjob).goto _ _ _
  | act hplace hinst hout => exact .act hplace hinst hout rfl rfl rfl (.of_eq rfl)
  | @evict k node id hk =>
    cases hinst : s.insts[k]? with
    | none =>
      refine .same rfl ?_ rfl (shrinks_evict node id)
      simp [List.modify_eq_set_getElem?, hinst]
    | some inst =>
      have hset : s.insts.modify k (fun inst => { inst with obj := inst.obj.destroy }) =
          s.insts.set k { inst with obj := inst.obj.destroy } := by
        simp [List.modify_eq_set_getElem?, hinst]
      exact .quiet hinst hset rfl (fun pc => .inl) (.inl ⟨rfl, rfl⟩) rfl rfl
        (shrinks_evict node id)
  | aside _ hcalls hinsts hplaces hobjects => exact .same hcalls hinsts hplaces (.of_eq hobjects)

/-- Every activation has its place, and an object map names activations of its own node. -/
structure Aligned (s : Traffic σ μ) : Prop where
  length : s.places.length = s.insts.length
  entry : ∀ node id k, s.objects node id = some k → ∃ place inst, s.places[k]? = some place ∧
    s.insts[k]? = some inst ∧ place.node = node ∧ inst.obj.id = id

theorem Change.target (hchange : Change d s label t) {k : Nat} {place : Place σ μ}
    {inst : Instance σ μ} (hplace : s.places[k]? = some place) (hinst : s.insts[k]? = some inst) :
    t.places[k]? = some place ∧ ∃ next, t.insts[k]? = some next ∧ next.obj.id = inst.obj.id := by
  have hset : ∀ {j : Nat} {old new : Instance σ μ}, s.insts[j]? = some old →
      t.insts = s.insts.set j new → new.obj.id = old.obj.id →
      ∃ next, t.insts[k]? = some next ∧ next.obj.id = inst.obj.id := by
    intro j old new hj hinsts hid
    rw [hinsts]
    by_cases hjk : j = k
    · subst hjk
      rw [hj] at hinst
      cases hinst
      exact ⟨new, getElem?_set_same hj, hid⟩
    · exact ⟨inst, by rwa [List.getElem?_set_ne hjk], rfl⟩
  cases hchange with
  | same _ hinsts hplaces => exact ⟨hplaces ▸ hplace, inst, hinsts ▸ hinst, rfl⟩
  | insert _ _ _ _ hinsts hplaces => exact ⟨hplaces ▸ hplace, inst, hinsts ▸ hinst, rfl⟩
  | activate _ _ _ _ _ hinsts hplaces =>
    rw [hplaces, hinsts, List.getElem?_append_left (List.getElem?_eq_some_iff.mp hplace).1,
      List.getElem?_append_left (List.getElem?_eq_some_iff.mp hinst).1]
    exact ⟨hplace, inst, hinst, rfl⟩
  | quiet hk hinsts hid _ _ _ hplaces => exact ⟨hplaces ▸ hplace, hset hk hinsts hid⟩
  | act _ hk hout _ hinsts hplaces =>
    exact ⟨hplaces ▸ hplace, hset hk hinsts (Instance.step_id hout)⟩

@[simp] theorem activation_id (node id : GoString) (data : σ) (nextRcseq : Int) :
    (activation d node id data nextRcseq : Instance σ μ).obj.id = id := by
  unfold activation
  split <;> rfl

theorem Change.entry (hchange : Change d s label t) (hs : s.Aligned) {node id : GoString} {k : Nat}
    (hk : t.objects node id = some k) : s.objects node id = some k ∨
      ∃ place inst, t.places[k]? = some place ∧ t.insts[k]? = some inst ∧ place.node = node ∧
        inst.obj.id = id := by
  cases hchange with
  | same _ _ _ hobjects | insert _ _ _ _ _ _ hobjects | quiet _ _ _ _ _ _ _ hobjects
  | act _ _ _ _ _ _ hobjects => exact .inl (hobjects node id k hk)
  | @activate i reply h name T data nextRcseq _ _ _ _ _ hinsts hplaces hobjects =>
    rw [hobjects, Function.update_apply] at hk
    split at hk
    · rename_i hnode
      rw [Function.update_apply] at hk
      split at hk
      · rename_i hid
        cases hk
        refine .inr ⟨⟨h.node, T⟩, activation d h.node name data nextRcseq, ?_, ?_, hnode.symm, ?_⟩
        · rw [hplaces, ← hs.length]
          exact List.getElem?_concat_length
        · rw [hinsts]
          exact List.getElem?_concat_length
        · rw [activation_id, hid]
      · rw [hnode]
        exact .inl hk
    · exact .inl hk

theorem Aligned.change (hs : s.Aligned) (hchange : Change d s label t) : t.Aligned := by
  refine ⟨?_, fun node id k hk => ?_⟩
  · cases hchange with
    | same _ hinsts hplaces | insert _ _ _ _ hinsts hplaces =>
      rw [hplaces, hinsts, hs.length]
    | activate _ _ _ _ _ hinsts hplaces => simp [hplaces, hinsts, hs.length]
    | quiet _ hinsts _ _ _ _ hplaces | act _ _ _ _ hinsts hplaces =>
      rw [hplaces, hinsts, List.length_set, hs.length]
  · rcases hchange.entry hs hk with hold | hnew
    · obtain ⟨place, inst, hplace, hinst, hnode, hid⟩ := hs.entry node id k hold
      obtain ⟨hplace', next, hnext, hnextID⟩ := hchange.target hplace hinst
      exact ⟨place, next, hplace', hnext, hnode, hnextID.trans hid⟩
    · exact hnew

theorem ObjectCase.logs_eq {h : Handler μ} {cr : Creation μ} {pc next : RpcPC μ}
    (hcase : ObjectCase d s h cr pc t next) :
    t.handlers = s.handlers ∧ t.reported = s.reported := by
  cases hcase with
  | created hcreate => cases hcreate <;> exact ⟨rfl, rfl⟩
  | _ => exact ⟨rfl, rfl⟩

theorem ReliableCase.handlers_eq {h : Handler μ} {req : Request} {pc next : AttemptPC}
    (hcase : ReliableCase d s h req pc t next) : t.handlers = s.handlers := by
  cases hcase with
  | created hcreate => cases hcreate <;> rfl
  | _ => rfl

theorem mem_goto {i : Nat} {h other : Handler μ} {job : Job μ}
    (hother : other ∈ (t.goto i h job).handlers) (hhandlers : t.handlers = s.handlers) :
    other ∈ s.handlers ∨ other = { h with job := job } := by
  rcases mem_set_cases hother with hnew | ⟨j, -, hj⟩
  · exact .inr hnew
  · rw [hhandlers] at hj
    exact .inl (List.mem_of_getElem? hj)

theorem aligned_start (db : DB) (views : GoString → ClusterState) :
    (start db views : Traffic σ μ).Aligned :=
  ⟨rfl, by simp [start]⟩

end Changes

end Traffic

section Examples

instance : Inhabited (ObjectType Bytes Bytes) := ⟨tally⟩

/-- Every gate and every node has the given rules, and every node the type `Tally`. -/
def tallyDeployment (access : List CompiledRule) (lifecycle : List CompiledLifecycleRule) :
    Deployment Bytes Bytes where
  config := twoShards
  objectTypes _ typ := if typ = tally.name then some tally else none
  objectTypes_name := by
    intro node typ T h
    split at h
    · rename_i htyp
      cases h
      exact htyp.symm
    · contradiction
  hasProvider _ := true
  accessValidator _ := some ⟨access⟩
  lifecycleValidator _ := some ⟨lifecycle⟩

/-- Anybody may call anything. -/
def allowMethods : CompiledRule := ⟨.matchAll, .matchAll, .matchAll, .allow⟩

/-- Only nodes may call methods of `a/p`. -/
def internalObject : List CompiledRule :=
  [⟨.matchAll, .literal (lit "a/p"), .matchAll, .internal⟩, allowMethods]

def allowCreate : CompiledLifecycleRule := ⟨.matchAll, .matchAll, .create, .allow⟩

def openDeployment : Deployment Bytes Bytes := tallyDeployment [allowMethods] [allowCreate]

namespace Traffic

/-- The shard of `o` is on the node `a`, as everyone knows. -/
def quietStart : Traffic Bytes Bytes :=
  start DB.empty fun _ => Invocation.placed (lit "a") (lit "a")

theorem quietStart_init (d : Deployment Bytes Bytes) : (machine d).Init quietStart :=
  ⟨DB.empty, _, rfl⟩

def handling (i n : Nat) : List (Label Bytes) := List.replicate n (.handler i .ok)

/-- The first goroutine of activation `k`. -/
def looping (k n : Nat) : List (Label Bytes) := List.replicate n (.act k (.loop 0 true))

def addTo (id : GoString) : Request := ⟨[1], lit "Tally", id, lit "Add", some [7]⟩

def callAdd (id : GoString) : Rpc Bytes := .object ⟨lit "Tally", id, some (lit "Add", [7])⟩

end Traffic

end Examples
end Goverse.Server
