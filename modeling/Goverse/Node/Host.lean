import Goverse.Lib.RWLock
import Goverse.Object.Recovery

/-! A node and everything that runs on it: `CreateObject`, `CallObject`, `DeleteObject`,
`EvictObject`, `SaveAllObjects` and `Stop` on any ids, with `stopMu`, the lifecycle lock of
every id and the object map, next to the processing loops of every instance. A thread is
always between two of its atomic steps. -/
namespace Goverse.Node

open Postgres Lib Object

variable {σ μ : Type}

inductive Lock where
  | stopMu
  | lifecycle (id : GoString)
  deriving DecidableEq, Repr

/-- The arguments of `createObject`, and of `CallObject` if that is who calls it. -/
structure Creation (μ : Type) where
  typ : GoString
  id : GoString
  call : Option (GoString × μ)

inductive Removal where
  | delete (claimedType : GoString)
  | evict
  deriving DecidableEq, Repr

inductive Task (μ : Type) where
  | object (cr : Creation μ)
  | remove (rm : Removal) (id : GoString)
  | saveAll
  | stop

/-- Where a thread is; the name says what it does next. `lookup` up to `unlockKey` are the
body of `createObject`, `rlockKey` up to `runlockKey` the rest of `CallObject`. The steps of
`saveAllObjectsLocked` say whether `Stop` is the caller. `onCreated` and `invoke` are inside
the user's code, and `leave` is the deferred `stopMu.RUnlock`. -/
inductive TaskPC (μ : Type) where
  | start (task : Task μ)
  | checkStopped (task : Task μ)
  | lookup (cr : Creation μ)
  | lockKey (cr : Creation μ)
  | lookupLocked (cr : Creation μ)
  | allocate (cr : Creation μ)
  | restore (cr : Creation μ) (k : Nat)
  | publish (cr : Creation μ) (k : Nat)
  | onCreated (cr : Creation μ) (k : Nat)
  | ensure (cr : Creation μ) (k : Nat)
  | unlockKey (cr : Creation μ) (ok : Bool)
  | rlockKey (cr : Creation μ)
  | find (cr : Creation μ)
  | checkType (cr : Creation μ) (k : Nat)
  | invoke (cr : Creation μ) (k : Nat)
  | runlockKey (id : GoString)
  | lockRemoval (rm : Removal) (id : GoString)
  | findRemoval (rm : Removal) (id : GoString)
  | save (id : GoString) (k : Nat)
  | deleteRow (id : GoString) (k : Nat)
  | remove (id : GoString)
  | destroy (id : GoString) (k : Nat)
  | unlockRemoval (id : GoString)
  | snapshot (stopping : Bool)
  | saveNext (stopping : Bool) (ids : List GoString)
  | saveFind (stopping : Bool) (id : GoString) (ids : List GoString)
  | saveOne (stopping : Bool) (id : GoString) (k : Nat) (ids : List GoString)
  | saveUnlock (stopping : Bool) (id : GoString) (ids : List GoString)
  | stopPersistence
  | lockStop
  | clear
  | destroyAll (ks : List Nat)
  | unlockStop
  | stopDone
  | leave
  | done

/-- What follows `createObject`. -/
def Creation.next (cr : Creation μ) (ok : Bool) : TaskPC μ :=
  if ok ∧ cr.call.isSome then .rlockKey cr else .leave

namespace TaskPC

def stopMode : TaskPC μ → Option Mode
  | .start _ | .stopPersistence | .lockStop | .stopDone | .done => none
  | .snapshot stopping | .saveNext stopping _ | .saveFind stopping _ _ | .saveOne stopping _ _ _
  | .saveUnlock stopping _ _ => some (if stopping then .exclusive else .shared)
  | .clear | .destroyAll _ | .unlockStop => some .exclusive
  | _ => some .shared

/-- The id whose lifecycle lock the thread has. -/
def keyMode : TaskPC μ → Option (GoString × Mode)
  | .lookupLocked cr | .allocate cr | .restore cr _ | .publish cr _ | .onCreated cr _
  | .ensure cr _ | .unlockKey cr _ => some (cr.id, .exclusive)
  | .findRemoval _ id | .save id _ | .deleteRow id _ | .remove id | .destroy id _
  | .unlockRemoval id => some (id, .exclusive)
  | .find cr | .checkType cr _ | .invoke cr _ => some (cr.id, .shared)
  | .runlockKey id | .saveFind _ id _ | .saveOne _ id _ _ | .saveUnlock _ id _ =>
    some (id, .shared)
  | _ => none

def holds (pc : TaskPC μ) : Lock → Option Mode
  | .stopMu => pc.stopMode
  | .lifecycle id => pc.keyMode.bind fun held => if held.1 = id then some held.2 else none

end TaskPC

/-- An instance of a type. `restored` counts the calls of `FromData` that have returned nil
and `created` those of `OnCreated` that have returned; `Destroy` cancels the context of the
object. -/
structure Slot (σ μ : Type) where
  type : ObjectType σ μ
  inst : Instance σ μ
  restored : Nat
  created : Nat

/-- `slots` are all instances that were ever made. -/
structure Host (σ μ : Type) where
  objectTypes : GoString → Option (ObjectType σ μ)
  hasProvider : Bool
  db : DB
  stopped : Bool
  objects : AList fun _ : GoString => Nat
  slots : List (Slot σ μ)
  locks : Lock → RWLock
  threads : List (TaskPC μ)

namespace Host

/-- `act` is a step of a caller or a loop of instance `k`, and `insert` a row that a reliable
call adds. `ok` is the answer of the lifecycle rules, of the provider or of the user's code. -/
inductive Label (μ : Type) where
  | spawn (task : Task μ)
  | thread (self : Nat) (ok : Bool)
  | act (k : Nat) (action : Action)
  | insert (row : ReliableCall)

def goto (s : Host σ μ) (self : Nat) (pc : TaskPC μ) : Host σ μ :=
  { s with threads := s.threads.set self pc }

def relock (s : Host σ μ) (lock : Lock) (l : RWLock) : Host σ μ :=
  { s with locks := Function.update s.locks lock l }

def setSlot (s : Host σ μ) (k : Nat) (slot : Slot σ μ) : Host σ μ :=
  { s with slots := s.slots.set k slot }

/-- `objects[id].Type()`, for the instance of a map entry. -/
def typeName (s : Host σ μ) (k : Nat) : Option GoString := (s.slots[k]?).map (·.type.name)

/-- The first thread to take the lock goes on. -/
def rlockThen (s : Host σ μ) (self : Nat) (lock : Lock) (pc : TaskPC μ) : Option (Host σ μ) :=
  ((s.locks lock).rlock self).map fun l => (s.relock lock l).goto self pc

def lockThen (s : Host σ μ) (self : Nat) (lock : Lock) (pc : TaskPC μ) : Option (Host σ μ) :=
  ((s.locks lock).lock self).map fun l => (s.relock lock l).goto self pc

def runlockThen (s : Host σ μ) (self : Nat) (lock : Lock) (pc : TaskPC μ) : Host σ μ :=
  (s.relock lock ((s.locks lock).runlock self)).goto self pc

def unlockThen (s : Host σ μ) (self : Nat) (lock : Lock) (pc : TaskPC μ) : Host σ μ :=
  (s.relock lock (s.locks lock).unlock).goto self pc

/-- `obj.Save(provider)`; the result is none while `stateMu` is taken, and otherwise says
whether `Save` returned nil or `ErrNotPersistent`. -/
def saveObject (s : Host σ μ) (k : Nat) (ok : Bool) : Option (Bool × DB) :=
  match s.slots[k]? with
  | none => none
  | some slot =>
    match slot.inst.obj.stateMu with
    | some _ => none
    | none =>
      match slot.inst.obj.saveLocked slot.type s.db with
      | .error .notPersistent => some (true, s.db)
      | .error _ => some (false, s.db)
      | .ok saved => if ok then some (true, saved) else some (false, s.db)

/-- The part of `createObject` from the rules to the unlock. -/
def createStep (s : Host σ μ) (self : Nat) (ok : Bool) : TaskPC μ → Option (Host σ μ)
  | .lookup cr =>
    some (s.goto self
      (if cr.id = [] then .leave
      else
        match s.objects.lookup cr.id with
        | some k => cr.next (decide (s.typeName k = some cr.typ))
        | none => .lockKey cr))
  | .lockKey cr => s.lockThen self (.lifecycle cr.id) (.lookupLocked cr)
  | .lookupLocked cr =>
    some (s.goto self
      (match s.objects.lookup cr.id with
      | some k => .unlockKey cr (decide (s.typeName k = some cr.typ))
      | none => .allocate cr))
  | .allocate cr =>
    match if ok then s.objectTypes cr.typ else none with
    | none => some (s.goto self (.unlockKey cr false))
    | some T =>
      some ({ s with slots := s.slots ++ [(⟨T, .start cr.id T.blank 0, 0, 0⟩ : Slot σ μ)] }.goto
        self (.restore cr s.slots.length))
  | .restore cr k =>
    match s.slots[k]? with
    | none => none
    | some slot =>
      match if s.hasProvider then slot.type.restore s.db cr.id ok
          else if ok then some (slot.type.fresh, 0) else none with
      | none => some (s.goto self (.unlockKey cr false))
      | some (data, nextRcseq) =>
        some ((s.setSlot k { slot with
          inst := .start cr.id data nextRcseq
          restored := slot.restored + 1 }).goto self (.publish cr k))
  | .publish cr k =>
    some ({ s with objects := s.objects.insert cr.id k }.goto self (.onCreated cr k))
  | .onCreated cr k =>
    (s.slots[k]?).map fun slot =>
      (s.setSlot k { slot with created := slot.created + 1 }).goto self
        (if s.hasProvider then .ensure cr k else .unlockKey cr true)
  | .ensure cr k =>
    (s.slots[k]?).map fun slot =>
      (s.setSlot k { slot with
        inst := slot.inst.spawn slot.inst.obj.ensureProcessingLoopRunning }).goto self
          (.unlockKey cr true)
  | .unlockKey cr ok => some (s.unlockThen self (.lifecycle cr.id) (cr.next ok))
  | _ => none

/-- The part of `CallObject` that follows `createObject`. -/
def callStep (s : Host σ μ) (self : Nat) : TaskPC μ → Option (Host σ μ)
  | .rlockKey cr => s.rlockThen self (.lifecycle cr.id) (.find cr)
  | .find cr =>
    some (s.goto self
      (match s.objects.lookup cr.id with
      | some k => .checkType cr k
      | none => .runlockKey cr.id))
  | .checkType cr k =>
    some (s.goto self (if s.typeName k = some cr.typ then .invoke cr k else .runlockKey cr.id))
  | .invoke cr k =>
    match s.slots[k]?, cr.call with
    | some slot, some (method, request) =>
      some ((s.setSlot k { slot with inst := { slot.inst with obj := { slot.inst.obj with
        data := (slot.type.invokeMethod slot.inst.obj.data method request).1 } } }).goto self
          (.runlockKey cr.id))
    | _, _ => none
  | .runlockKey id => some (s.runlockThen self (.lifecycle id) .leave)
  | _ => none

/-- `DeleteObject` and `EvictObject`. -/
def removeStep (s : Host σ μ) (self : Nat) (ok : Bool) : TaskPC μ → Option (Host σ μ)
  | .lockRemoval rm id => s.lockThen self (.lifecycle id) (.findRemoval rm id)
  | .findRemoval rm id =>
    some (s.goto self
      (match s.objects.lookup id, rm with
      | none, _ => .unlockRemoval id
      | some k, .delete claimedType =>
        if s.typeName k = some claimedType ∧ ok then
          if s.hasProvider then .deleteRow id k else .remove id
        else .unlockRemoval id
      | some k, .evict => if s.hasProvider then .save id k else .remove id))
  | .save id k =>
    (s.saveObject k ok).map fun (saved, db) =>
      { s with db := db }.goto self (if saved then .remove id else .unlockRemoval id)
  | .deleteRow id k =>
    match s.slots[k]? with
    | none => none
    | some slot =>
      match slot.type.toData slot.inst.obj.data with
      | .error _ => some (s.goto self (.remove id))
      | .ok _ =>
        match if ok then (s.db.deleteObject id).toOption else none with
        | none => some (s.goto self (.unlockRemoval id))
        | some db => some ({ s with db := db }.goto self (.remove id))
  | .remove id =>
    match s.objects.lookup id with
    | none => some (s.goto self (.unlockRemoval id))
    | some k => some ({ s with objects := s.objects.erase id }.goto self (.destroy id k))
  | .destroy id k =>
    (s.slots[k]?).map fun slot =>
      (s.setSlot k { slot with inst := { slot.inst with obj := slot.inst.obj.destroy } }).goto self
        (.unlockRemoval id)
  | .unlockRemoval id => some (s.unlockThen self (.lifecycle id) .leave)
  | _ => none

/-- `saveAllObjectsLocked` -/
def saveStep (s : Host σ μ) (self : Nat) (ok : Bool) : TaskPC μ → Option (Host σ μ)
  | .snapshot stopping =>
    some (s.goto self (.saveNext stopping (if s.hasProvider then s.objects.keys else [])))
  | .saveNext stopping [] => some (s.goto self (if stopping then .clear else .leave))
  | .saveNext stopping (id :: ids) =>
    s.rlockThen self (.lifecycle id) (.saveFind stopping id ids)
  | .saveFind stopping id ids =>
    some (s.goto self
      (match s.objects.lookup id with
      | some k => .saveOne stopping id k ids
      | none => .saveUnlock stopping id ids))
  | .saveOne stopping id k ids =>
    (s.saveObject k ok).map fun (_, db) =>
      { s with db := db }.goto self (.saveUnlock stopping id ids)
  | .saveUnlock stopping id ids =>
    some (s.runlockThen self (.lifecycle id) (.saveNext stopping ids))
  | _ => none

/-- `Stop` after it has set `stopped`. -/
def stopStep (s : Host σ μ) (self : Nat) : TaskPC μ → Option (Host σ μ)
  | .stopPersistence => some (s.goto self .lockStop)
  | .lockStop => s.lockThen self .stopMu (if s.hasProvider then .snapshot true else .clear)
  | .clear =>
    some ({ s with objects := ∅ }.goto self (.destroyAll (s.objects.entries.map Sigma.snd)))
  | .destroyAll [] => some (s.goto self .unlockStop)
  | .destroyAll (k :: ks) =>
    (s.slots[k]?).map fun slot =>
      (s.setSlot k { slot with inst := { slot.inst with obj := slot.inst.obj.destroy } }).goto self
        (.destroyAll ks)
  | .unlockStop => some (s.unlockThen self .stopMu .stopDone)
  | _ => none

def firstPC : Task μ → TaskPC μ
  | .object cr => .lookup cr
  | .remove rm id => .lockRemoval rm id
  | .saveAll => .snapshot false
  | .stop => .leave

def taskStep (s : Host σ μ) (self : Nat) (ok : Bool) : TaskPC μ → Option (Host σ μ)
  | .start .stop => some ({ s with stopped := true }.goto self .stopPersistence)
  | .start (.remove (.delete []) _) => some (s.goto self .done)
  | .start task => s.rlockThen self .stopMu (.checkStopped task)
  | .checkStopped task => some (s.goto self (if s.stopped then .leave else firstPC task))
  | .leave => some (s.runlockThen self .stopMu .done)
  | .stopDone | .done => none
  | pc@(.lookup _) | pc@(.lockKey _) | pc@(.lookupLocked _) | pc@(.allocate _)
  | pc@(.restore _ _) | pc@(.publish _ _) | pc@(.onCreated _ _) | pc@(.ensure _ _)
  | pc@(.unlockKey _ _) => s.createStep self ok pc
  | pc@(.rlockKey _) | pc@(.find _) | pc@(.checkType _ _) | pc@(.invoke _ _)
  | pc@(.runlockKey _) => s.callStep self pc
  | pc@(.lockRemoval _ _) | pc@(.findRemoval _ _) | pc@(.save _ _) | pc@(.deleteRow _ _)
  | pc@(.remove _) | pc@(.destroy _ _) | pc@(.unlockRemoval _) => s.removeStep self ok pc
  | pc@(.snapshot _) | pc@(.saveNext _ _) | pc@(.saveFind _ _ _) | pc@(.saveOne _ _ _ _)
  | pc@(.saveUnlock _ _ _) => s.saveStep self ok pc
  | pc@.stopPersistence | pc@.lockStop | pc@.clear | pc@(.destroyAll _) | pc@.unlockStop =>
    s.stopStep self pc

def step (s : Host σ μ) : Label μ → Option (Host σ μ)
  | .spawn task => some { s with threads := s.threads ++ [.start task] }
  | .thread self ok => (s.threads[self]?).bind (s.taskStep self ok)
  | .act _ (.save _) | .act _ .destroy => none
  | .act k action =>
    (s.slots[k]?).bind fun slot =>
      (slot.inst.step slot.type s.db action).map fun out =>
        { s with db := out.db, slots := s.slots.set k { slot with inst := out.inst } }
  | .insert row => (s.db.insertCall row).toOption.map fun result => { s with db := result.2 }

def start (objectTypes : GoString → Option (ObjectType σ μ)) (hasProvider : Bool) (db : DB) :
    Host σ μ :=
  ⟨objectTypes, hasProvider, db, false, ∅, [], fun _ => .free, []⟩

/-- A type is registered under its own name. -/
def machine (σ μ : Type) : Machine (Host σ μ) (Label μ) where
  Init s := ∃ objectTypes hasProvider db,
    (∀ typ T, objectTypes typ = some T → T.name = typ) ∧ s = start objectTypes hasProvider db
  step := step

/-! ### Everything a step can do -/

/-- A step that changes nothing but where the thread is. -/
inductive Walks (s : Host σ μ) : TaskPC μ → TaskPC μ → Prop
  | refuse {id : GoString} : Walks s (.start (.remove (.delete []) id)) .done
  | stopped {task : Task μ} (hstopped : s.stopped = true) : Walks s (.checkStopped task) .leave
  | enter {task : Task μ} (hrunning : s.stopped = false) :
      Walks s (.checkStopped task) (firstPC task)
  | emptyID {cr : Creation μ} : Walks s (.lookup cr) .leave
  | there {cr : Creation μ} {ok : Bool} : Walks s (.lookup cr) (cr.next ok)
  | absent {cr : Creation μ} : Walks s (.lookup cr) (.lockKey cr)
  | thereLocked {cr : Creation μ} {ok : Bool} : Walks s (.lookupLocked cr) (.unlockKey cr ok)
  | absentLocked {cr : Creation μ} (hnone : s.objects.lookup cr.id = none) :
      Walks s (.lookupLocked cr) (.allocate cr)
  | denied {cr : Creation μ} : Walks s (.allocate cr) (.unlockKey cr false)
  | notRestored {cr : Creation μ} {k : Nat} : Walks s (.restore cr k) (.unlockKey cr false)
  | found {cr : Creation μ} {k : Nat} (hk : s.objects.lookup cr.id = some k) :
      Walks s (.find cr) (.checkType cr k)
  | missing {cr : Creation μ} : Walks s (.find cr) (.runlockKey cr.id)
  | typed {cr : Creation μ} {k : Nat} (htype : s.typeName k = some cr.typ) :
      Walks s (.checkType cr k) (.invoke cr k)
  | mistyped {cr : Creation μ} {k : Nat} : Walks s (.checkType cr k) (.runlockKey cr.id)
  | removalOver {rm : Removal} {id : GoString} : Walks s (.findRemoval rm id) (.unlockRemoval id)
  | removalRow {rm : Removal} {id : GoString} {k : Nat} :
      Walks s (.findRemoval rm id) (.deleteRow id k)
  | removalSave {rm : Removal} {id : GoString} {k : Nat} : Walks s (.findRemoval rm id) (.save id k)
  | removal {rm : Removal} {id : GoString} : Walks s (.findRemoval rm id) (.remove id)
  | noRow {id : GoString} {k : Nat} : Walks s (.deleteRow id k) (.remove id)
  | rowKept {id : GoString} {k : Nat} : Walks s (.deleteRow id k) (.unlockRemoval id)
  | removed {id : GoString} : Walks s (.remove id) (.unlockRemoval id)
  | snapshot {stopping : Bool} {ids : List GoString} :
      Walks s (.snapshot stopping) (.saveNext stopping ids)
  | saved : Walks s (.saveNext false []) .leave
  | savedFinal : Walks s (.saveNext true []) .clear
  | saveFound {stopping : Bool} {id : GoString} {k : Nat} {ids : List GoString} :
      Walks s (.saveFind stopping id ids) (.saveOne stopping id k ids)
  | saveMissing {stopping : Bool} {id : GoString} {ids : List GoString} :
      Walks s (.saveFind stopping id ids) (.saveUnlock stopping id ids)
  | persistence : Walks s .stopPersistence .lockStop
  | destroyed : Walks s (.destroyAll []) .unlockStop

/-- The locks a thread takes, and where it is then. -/
inductive Takes : TaskPC μ → Lock → Mode → TaskPC μ → Prop
  | enter {task : Task μ} : Takes (.start task) .stopMu .shared (.checkStopped task)
  | create {cr : Creation μ} :
      Takes (.lockKey cr) (.lifecycle cr.id) .exclusive (.lookupLocked cr)
  | call {cr : Creation μ} : Takes (.rlockKey cr) (.lifecycle cr.id) .shared (.find cr)
  | remove {rm : Removal} {id : GoString} :
      Takes (.lockRemoval rm id) (.lifecycle id) .exclusive (.findRemoval rm id)
  | save {stopping : Bool} {id : GoString} {ids : List GoString} :
      Takes (.saveNext stopping (id :: ids)) (.lifecycle id) .shared (.saveFind stopping id ids)
  | stopSave : Takes .lockStop .stopMu .exclusive (.snapshot true)
  | stop : Takes .lockStop .stopMu .exclusive .clear

inductive Releases : TaskPC μ → Lock → Mode → TaskPC μ → Prop
  | create {cr : Creation μ} {ok : Bool} :
      Releases (.unlockKey cr ok) (.lifecycle cr.id) .exclusive (cr.next ok)
  | call {id : GoString} : Releases (.runlockKey id) (.lifecycle id) .shared .leave
  | remove {id : GoString} : Releases (.unlockRemoval id) (.lifecycle id) .exclusive .leave
  | save {stopping : Bool} {id : GoString} {ids : List GoString} :
      Releases (.saveUnlock stopping id ids) (.lifecycle id) .shared (.saveNext stopping ids)
  | stop : Releases .unlockStop .stopMu .exclusive .stopDone
  | leave : Releases .leave .stopMu .shared .done

/-- A step in which the thread writes to the store. -/
inductive Stores : TaskPC μ → TaskPC μ → Prop
  | evict {id : GoString} {k : Nat} : Stores (.save id k) (.remove id)
  | notSaved {id : GoString} {k : Nat} : Stores (.save id k) (.unlockRemoval id)
  | delete {id : GoString} {k : Nat} : Stores (.deleteRow id k) (.remove id)
  | save {stopping : Bool} {id : GoString} {k : Nat} {ids : List GoString} :
      Stores (.saveOne stopping id k ids) (.saveUnlock stopping id ids)

inductive TaskCase (s : Host σ μ) (self : Nat) : TaskPC μ → Host σ μ → Prop
  | walk {pc pc' : TaskPC μ} (hwalk : Walks s pc pc') : TaskCase s self pc (s.goto self pc')
  | setStopped : TaskCase s self (.start .stop)
      ({ s with stopped := true }.goto self .stopPersistence)
  | rlock {pc pc' : TaskPC μ} {lock : Lock} {l : RWLock} (htakes : Takes pc lock .shared pc')
      (hl : (s.locks lock).rlock self = some l) :
      TaskCase s self pc ((s.relock lock l).goto self pc')
  | lock {pc pc' : TaskPC μ} {lock : Lock} {l : RWLock} (htakes : Takes pc lock .exclusive pc')
      (hl : (s.locks lock).lock self = some l) :
      TaskCase s self pc ((s.relock lock l).goto self pc')
  | runlock {pc pc' : TaskPC μ} {lock : Lock} (hreleases : Releases pc lock .shared pc') :
      TaskCase s self pc (s.runlockThen self lock pc')
  | unlock {pc pc' : TaskPC μ} {lock : Lock} (hreleases : Releases pc lock .exclusive pc') :
      TaskCase s self pc (s.unlockThen self lock pc')
  | store {pc pc' : TaskPC μ} {db : DB} (hstores : Stores pc pc') :
      TaskCase s self pc ({ s with db := db }.goto self pc')
  | allocate {cr : Creation μ} {T : ObjectType σ μ} (hT : s.objectTypes cr.typ = some T) :
      TaskCase s self (.allocate cr)
        ({ s with slots := s.slots ++ [(⟨T, .start cr.id T.blank 0, 0, 0⟩ : Slot σ μ)] }.goto
          self (.restore cr s.slots.length))
  | restore {cr : Creation μ} {k : Nat} {slot : Slot σ μ} {data : σ} {nextRcseq : Int}
      (hk : s.slots[k]? = some slot) : TaskCase s self (.restore cr k)
        ((s.setSlot k ⟨slot.type, .start cr.id data nextRcseq, slot.restored + 1,
          slot.created⟩).goto self (.publish cr k))
  | publish {cr : Creation μ} {k : Nat} : TaskCase s self (.publish cr k)
      ({ s with objects := s.objects.insert cr.id k }.goto self (.onCreated cr k))
  | onCreated {cr : Creation μ} {k : Nat} {slot : Slot σ μ} {pc' : TaskPC μ}
      (hk : s.slots[k]? = some slot) (hpc' : pc' = .ensure cr k ∨ pc' = .unlockKey cr true) :
      TaskCase s self (.onCreated cr k)
        ((s.setSlot k ⟨slot.type, slot.inst, slot.restored, slot.created + 1⟩).goto self pc')
  | ensure {cr : Creation μ} {k : Nat} {slot : Slot σ μ} (hk : s.slots[k]? = some slot) :
      TaskCase s self (.ensure cr k)
        ((s.setSlot k ⟨slot.type,
          slot.inst.spawn slot.inst.obj.ensureProcessingLoopRunning, slot.restored,
          slot.created⟩).goto self (.unlockKey cr true))
  | invoke {cr : Creation μ} {k : Nat} {slot : Slot σ μ} {data : σ} (hk : s.slots[k]? = some slot) :
      TaskCase s self (.invoke cr k)
        ((s.setSlot k ⟨slot.type, { slot.inst with obj := { slot.inst.obj with data := data } },
          slot.restored, slot.created⟩).goto self (.runlockKey cr.id))
  | remove {id : GoString} {k : Nat} (hk : s.objects.lookup id = some k) :
      TaskCase s self (.remove id)
        ({ s with objects := s.objects.erase id }.goto self (.destroy id k))
  | destroy {id : GoString} {k : Nat} {slot : Slot σ μ} (hk : s.slots[k]? = some slot) :
      TaskCase s self (.destroy id k)
        ((s.setSlot k ⟨slot.type, { slot.inst with obj := slot.inst.obj.destroy }, slot.restored,
          slot.created⟩).goto self (.unlockRemoval id))
  | clear {ks : List Nat} : TaskCase s self .clear
      ({ s with objects := ∅ }.goto self (.destroyAll ks))
  | destroyNext {k : Nat} {ks : List Nat} {slot : Slot σ μ} (hk : s.slots[k]? = some slot) :
      TaskCase s self (.destroyAll (k :: ks))
        ((s.setSlot k ⟨slot.type, { slot.inst with obj := slot.inst.obj.destroy }, slot.restored,
          slot.created⟩).goto self (.destroyAll ks))

variable {s t : Host σ μ} {self : Nat} {ok : Bool} {pc : TaskPC μ}

theorem rlockThen_case {lock : Lock} {pc' : TaskPC μ} (htakes : Takes pc lock .shared pc')
    (h : s.rlockThen self lock pc' = some t) : TaskCase s self pc t := by
  obtain ⟨l, hl, rfl⟩ := Option.map_eq_some_iff.mp h
  exact .rlock htakes hl

theorem lockThen_case {lock : Lock} {pc' : TaskPC μ} (htakes : Takes pc lock .exclusive pc')
    (h : s.lockThen self lock pc' = some t) : TaskCase s self pc t := by
  obtain ⟨l, hl, rfl⟩ := Option.map_eq_some_iff.mp h
  exact .lock htakes hl

theorem createStep_case (h : s.createStep self ok pc = some t) : TaskCase s self pc t := by
  cases pc with
  | lookup cr =>
    cases h
    split
    · exact .walk .emptyID
    · split
      · exact .walk .there
      · exact .walk .absent
  | lockKey cr => exact lockThen_case .create h
  | lookupLocked cr =>
    cases h
    split
    · exact .walk .thereLocked
    · rename_i hnone
      exact .walk (.absentLocked hnone)
  | allocate cr =>
    simp only [createStep] at h
    split at h
    · cases h
      exact .walk .denied
    · rename_i T hT
      cases h
      split at hT
      · exact .allocate hT
      · contradiction
  | restore cr k =>
    simp only [createStep] at h
    split at h
    · contradiction
    · rename_i slot hk
      split at h
      · cases h
        exact .walk .notRestored
      · cases h
        exact .restore hk
  | publish cr k =>
    cases h
    exact .publish
  | onCreated cr k =>
    obtain ⟨slot, hk, rfl⟩ := Option.map_eq_some_iff.mp h
    refine .onCreated hk ?_
    split
    · exact .inl rfl
    · exact .inr rfl
  | ensure cr k =>
    obtain ⟨slot, hk, rfl⟩ := Option.map_eq_some_iff.mp h
    exact .ensure hk
  | unlockKey cr ok =>
    cases h
    exact .unlock .create
  | _ => contradiction

theorem callStep_case (h : s.callStep self pc = some t) : TaskCase s self pc t := by
  cases pc with
  | rlockKey cr => exact rlockThen_case .call h
  | find cr =>
    cases h
    split
    · rename_i k hk
      exact .walk (.found hk)
    · exact .walk .missing
  | checkType cr k =>
    cases h
    split
    · rename_i htype
      exact .walk (.typed htype)
    · exact .walk .mistyped
  | invoke cr k =>
    simp only [callStep] at h
    split at h
    · rename_i slot method request hk _
      cases h
      exact .invoke hk
    · contradiction
  | runlockKey id =>
    cases h
    exact .runlock .call
  | _ => contradiction

theorem removeStep_case (h : s.removeStep self ok pc = some t) : TaskCase s self pc t := by
  cases pc with
  | lockRemoval rm id => exact lockThen_case .remove h
  | findRemoval rm id =>
    cases h
    split
    · exact .walk .removalOver
    · split
      · split
        · exact .walk .removalRow
        · exact .walk .removal
      · exact .walk .removalOver
    · split
      · exact .walk .removalSave
      · exact .walk .removal
  | save id k =>
    obtain ⟨⟨saved, db⟩, -, rfl⟩ := Option.map_eq_some_iff.mp h
    dsimp only
    split
    · exact .store .evict
    · exact .store .notSaved
  | deleteRow id k =>
    simp only [removeStep] at h
    split at h
    · contradiction
    · split at h
      · cases h
        exact .walk .noRow
      · split at h
        · cases h
          exact .walk .rowKept
        · cases h
          exact .store .delete
  | remove id =>
    simp only [removeStep] at h
    split at h
    · cases h
      exact .walk .removed
    · rename_i k hk
      cases h
      exact .remove hk
  | destroy id k =>
    obtain ⟨slot, hk, rfl⟩ := Option.map_eq_some_iff.mp h
    exact .destroy hk
  | unlockRemoval id =>
    cases h
    exact .unlock .remove
  | _ => contradiction

theorem saveStep_case (h : s.saveStep self ok pc = some t) : TaskCase s self pc t := by
  cases pc with
  | snapshot stopping =>
    cases h
    exact .walk .snapshot
  | saveNext stopping ids =>
    cases ids with
    | nil =>
      cases h
      cases stopping
      · exact .walk .saved
      · exact .walk .savedFinal
    | cons id ids => exact rlockThen_case .save h
  | saveFind stopping id ids =>
    cases h
    split
    · exact .walk .saveFound
    · exact .walk .saveMissing
  | saveOne stopping id k ids =>
    obtain ⟨⟨saved, db⟩, -, rfl⟩ := Option.map_eq_some_iff.mp h
    exact .store .save
  | saveUnlock stopping id ids =>
    cases h
    exact .runlock .save
  | _ => contradiction

theorem stopStep_case (h : s.stopStep self pc = some t) : TaskCase s self pc t := by
  cases pc with
  | stopPersistence =>
    cases h
    exact .walk .persistence
  | lockStop =>
    simp only [stopStep] at h
    split at h
    · exact lockThen_case .stopSave h
    · exact lockThen_case .stop h
  | clear =>
    cases h
    exact .clear
  | destroyAll ks =>
    cases ks with
    | nil =>
      cases h
      exact .walk .destroyed
    | cons k ks =>
      obtain ⟨slot, hk, rfl⟩ := Option.map_eq_some_iff.mp h
      exact .destroyNext hk
  | unlockStop =>
    cases h
    exact .unlock .stop
  | _ => contradiction

theorem taskStep_case (h : s.taskStep self ok pc = some t) : TaskCase s self pc t := by
  unfold taskStep at h
  split at h
  · cases h
    exact .setStopped
  · cases h
    exact .walk .refuse
  · exact rlockThen_case .enter h
  · cases h
    split
    · rename_i hstopped
      exact .walk (.stopped hstopped)
    · rename_i hrunning
      exact .walk (.enter (by simpa using hrunning))
  · cases h
    exact .runlock .leave
  · contradiction
  · contradiction
  all_goals first
    | exact createStep_case h
    | exact callStep_case h
    | exact removeStep_case h
    | exact saveStep_case h
    | exact stopStep_case h

/-- What a label can do: start a thread, move one, move an instance or add a row. -/
inductive StepCase (s : Host σ μ) : Label μ → Host σ μ → Prop
  | spawn {task : Task μ} :
      StepCase s (.spawn task) { s with threads := s.threads ++ [.start task] }
  | thread {self : Nat} {ok : Bool} {pc : TaskPC μ} {t : Host σ μ}
      (hpc : s.threads[self]? = some pc) (hcase : TaskCase s self pc t) :
      StepCase s (.thread self ok) t
  | act {k : Nat} {action : Action} {slot : Slot σ μ} {out : Outcome σ μ}
      (hk : s.slots[k]? = some slot) (hout : slot.inst.step slot.type s.db action = some out)
      (hdestroy : action ≠ .destroy) :
      StepCase s (.act k action)
        { s with db := out.db, slots := s.slots.set k { slot with inst := out.inst } }
  | insert {row : ReliableCall} {db : DB} : StepCase s (.insert row) { s with db := db }

theorem step_case {label : Label μ} (h : s.step label = some t) : StepCase s label t := by
  cases label with
  | spawn task =>
    cases h
    exact .spawn
  | thread self ok =>
    obtain ⟨pc, hpc, hstep⟩ := Option.bind_eq_some_iff.mp h
    exact .thread hpc (taskStep_case hstep)
  | act k action =>
    cases action with
    | save | destroy => contradiction
    | _ =>
      obtain ⟨slot, hk, hslot⟩ := Option.bind_eq_some_iff.mp h
      obtain ⟨out, hout, rfl⟩ := Option.map_eq_some_iff.mp hslot
      exact .act hk hout (by simp)
  | insert row =>
    obtain ⟨result, -, rfl⟩ := Option.map_eq_some_iff.mp h
    exact .insert

end Host
end Goverse.Node
