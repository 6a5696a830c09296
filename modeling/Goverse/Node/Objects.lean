import Goverse.Config.AccessControl
import Goverse.Object.Recovery

/-! `createObject` and `DeleteObject` of a node with nothing else going on: the object map,
the registered types, the lifecycle rules and the store. -/
namespace Goverse.Node

open Postgres Object AccessControl

variable {σ μ : Type}

structure LiveObject (σ μ : Type) where
  type : ObjectType σ μ
  base : BaseObject σ

/-- A type is registered under its own name. There is no store without a provider. -/
structure NodeState (σ μ : Type) where
  stopped : Bool
  objectTypes : GoString → Option (ObjectType σ μ)
  objectTypes_name : ∀ typ T, objectTypes typ = some T → T.name = typ
  lifecycleValidator : Option LifecycleValidator
  provider : Option DB
  objects : AList fun _ : GoString => LiveObject σ μ

inductive NodeError where
  | emptyID
  | otherType (id expected got : GoString)
  | createDenied (typ id : GoString)
  | unknownType (typ : GoString)
  | notRestored (id : GoString)
  | emptyType
  | typeMismatch (id claimed real : GoString)
  | deleteDenied (typ id : GoString)
  | deletePersistence (id : GoString)
  deriving DecidableEq, Repr

/-- How the provider answers a statement: it executes it, it fails, or the answer to a
statement that took effect is lost. -/
inductive StoreReply where
  | executed | failed | lost
  deriving DecidableEq, Repr

/-- What `ToData` of a new object returns: a message to load into, `ErrNotPersistent` or
another error. -/
inductive Template where
  | message | notPersistent | failed
  deriving DecidableEq, Repr

/-- What the user's code and the provider answer during one `createObject`. `fromData` is the
state that `FromData` leaves for each argument it can be given, where `none` is nil; it has no
state where `FromData` returns an error. -/
structure Hooks (σ : Type) where
  toData : Template
  loads : Bool
  unmarshals : Bool
  fromData : Option Bytes → Option σ

/-- `object.LoadObject`. `ErrObjectNotFound` is `some none`, and any other error `none`. -/
def Hooks.loadObject (hooks : Hooks σ) (db : DB) (id : GoString) : Option (Option ObjectData) :=
  match if hooks.loads then (db.loadObject id).toOption else none with
  | none => none
  | some none => some none
  | some (some row) => if hooks.unmarshals then some (some row) else none

/-- The answers of a type as `ObjectType` has them. -/
def hooksOf (T : ObjectType σ μ) (loads restores : Bool) : Hooks σ where
  toData :=
    match T.toData T.blank with
    | .ok _ => .message
    | .error .notPersistent => .notPersistent
    | .error _ => .failed
  loads := loads
  unmarshals := true
  fromData given := if restores then given.elim (some T.fresh) T.fromData else none

namespace NodeState

variable (node : NodeState σ μ)

/-- The row the store has for an id. -/
def row (id : GoString) : Option ObjectData :=
  node.provider.bind fun db => db.objects.lookup id

def deniesCreate (typ id : GoString) : Bool :=
  node.lifecycleValidator.any fun v => (v.checkNodeCreate typ id).toOption.isNone

def deniesDelete (typ id : GoString) : Bool :=
  node.lifecycleValidator.any fun v => (v.checkNodeDelete typ id).toOption.isNone

/-- `dataToRestore` and the counter of the new object at its `FromData`. -/
def dataToRestore (id : GoString) (hooks : Hooks σ) : Option (Option Bytes × Int) :=
  match node.provider with
  | none => some (none, 0)
  | some db =>
    match hooks.toData with
    | .message =>
      match hooks.loadObject db id with
      | none => none
      | some none => some (none, 0)
      | some (some row) => some (some row.data, row.nextRcseq)
    | .notPersistent => some (none, 0)
    -- no branch of the source takes this error up: `dataToRestore` is still nil
    | .failed => some (none, 0)

/-- The map entry of a new object. -/
def newObject (T : ObjectType σ μ) (id : GoString) (data : σ) (nextRcseq : Int) :
    LiveObject σ μ :=
  let base := BaseObject.onInit id data nextRcseq
  ⟨T, if node.provider.isSome then base.ensureProcessingLoopRunning.1 else base⟩

def createObject (typ id : GoString) (hooks : Hooks σ) :
    NodeState σ μ × Except NodeError Unit :=
  if id = [] then (node, .error .emptyID)
  else
    match node.objects.lookup id with
    | some existing =>
      if existing.type.name = typ then (node, .ok ())
      else (node, .error (.otherType id typ existing.type.name))
    | none =>
      if node.deniesCreate typ id then (node, .error (.createDenied typ id))
      else
        match node.objectTypes typ with
        | none => (node, .error (.unknownType typ))
        | some T =>
          match node.dataToRestore id hooks with
          | none => (node, .error (.notRestored id))
          | some (given, nextRcseq) =>
            match hooks.fromData given with
            | none => (node, .error (.notRestored id))
            | some data =>
              ({ node with objects :=
                  node.objects.insert id (node.newObject T id data nextRcseq) }, .ok ())

def destroyObject (id : GoString) : NodeState σ μ := { node with objects := node.objects.erase id }

/-- `provider.DeleteObject` -/
def deleteRow (db : DB) (id : GoString) : StoreReply → DB × Bool
  | .executed =>
    match db.deleteObject id with
    | .ok next => (next, true)
    | .error _ => (db, false)
  | .failed => (db, false)
  | .lost =>
    match db.deleteObject id with
    | .ok next => (next, false)
    | .error _ => (db, false)

def deleteObject (claimedType id : GoString) (reply : StoreReply) :
    NodeState σ μ × Except NodeError Unit :=
  if claimedType = [] then (node, .error .emptyType)
  else if node.stopped then (node, .ok ())
  else
    match node.objects.lookup id with
    | none => (node, .ok ())
    | some obj =>
      if obj.type.name ≠ claimedType then
        (node, .error (.typeMismatch id claimedType obj.type.name))
      else if node.deniesDelete obj.type.name id then
        (node, .error (.deleteDenied obj.type.name id))
      else
        match node.provider with
        | none => (node.destroyObject id, .ok ())
        | some db =>
          match obj.type.toData obj.base.data with
          | .error _ => (node.destroyObject id, .ok ())
          | .ok _ =>
            match deleteRow db id reply with
            | (next, false) =>
              ({ node with provider := some next }, .error (.deletePersistence id))
            | (next, true) => ({ node with provider := some next }.destroyObject id, .ok ())

end NodeState

/-- Nothing is left of an id: it is not in the map, it has no row, and an object that is
created under it starts from `FromData(nil)` with `nextRcseq` 0. -/
structure NodeState.Gone (node : NodeState σ μ) (id : GoString) : Prop where
  memory : node.objects.lookup id = none
  store : node.row id = none
  fresh : ∀ typ hooks, (node.createObject typ id hooks).2 = .ok () →
    ∃ T live, node.objectTypes typ = some T ∧
      (node.createObject typ id hooks).1.objects.lookup id = some live ∧ live.type = T ∧
      hooks.fromData none = some live.base.data ∧ live.base.nextRcseq = 0

/-- The other ids are as they were, in memory and in the store, and so are all calls. -/
structure NodeState.Untouched (node next : NodeState σ μ) (id : GoString) : Prop where
  memory : ∀ other, other ≠ id → next.objects.lookup other = node.objects.lookup other
  store : ∀ other, other ≠ id → next.row other = node.row other
  calls : next.provider.map DB.calls = node.provider.map DB.calls

/-- The delete is refused, or the object is live and its `ToData` succeeds. -/
def NodeState.ReachesRow (node : NodeState σ μ) (claimedType id : GoString) : Prop :=
  claimedType = [] ∨ ∃ obj, node.objects.lookup id = some obj ∧
    (obj.type.name ≠ claimedType ∨ node.deniesDelete obj.type.name id = true ∨
      ∃ data, obj.type.toData obj.base.data = .ok data)

namespace NodeState

variable {node next : NodeState σ μ} {id : GoString}

theorem deleteRow_cases (db : DB) (id : GoString) (reply : StoreReply) :
    (deleteRow db id reply).1.calls = db.calls ∧
      (∀ other, other ≠ id →
        (deleteRow db id reply).1.objects.lookup other = db.objects.lookup other) ∧
      ((deleteRow db id reply).2 = true →
        (deleteRow db id reply).1.objects.lookup id = none) := by
  cases reply with
  | failed => exact ⟨rfl, fun _ _ => rfl, by simp [deleteRow]⟩
  | executed | lost =>
    simp only [deleteRow]
    split
    · rename_i next hnext
      obtain ⟨hcalls, hobjects⟩ := DB.deleteObject_ok hnext
      refine ⟨hcalls, fun other hother => ?_, fun _ => ?_⟩
      · rw [hobjects, AList.lookup_erase_ne hother]
      · rw [hobjects, AList.lookup_erase]
    · exact ⟨rfl, fun _ _ => rfl, by simp⟩

/-- What `DeleteObject` of a running node can do. -/
inductive DeleteCase (node : NodeState σ μ) (claimedType id : GoString) :
    NodeState σ μ × Except NodeError Unit → Prop
  | refused (error : NodeError) (hreaches : node.ReachesRow claimedType id) :
      DeleteCase node claimedType id (node, .error error)
  | absent (hreaches : ¬ node.ReachesRow claimedType id)
      (hobjects : node.objects.lookup id = none) :
      DeleteCase node claimedType id (node, .ok ())
  | unreached (hreaches : ¬ node.ReachesRow claimedType id) :
      DeleteCase node claimedType id (node.destroyObject id, .ok ())
  | unstored (hprovider : node.provider = none) :
      DeleteCase node claimedType id (node.destroyObject id, .ok ())
  | failed (db : DB) (reply : StoreReply) (hreaches : node.ReachesRow claimedType id)
      (hprovider : node.provider = some db) :
      DeleteCase node claimedType id
        ({ node with provider := some (deleteRow db id reply).1 },
          .error (.deletePersistence id))
  | deleted (db : DB) (reply : StoreReply) (hreaches : node.ReachesRow claimedType id)
      (hprovider : node.provider = some db) (hrow : (deleteRow db id reply).2 = true) :
      DeleteCase node claimedType id
        ({ node with provider := some (deleteRow db id reply).1 }.destroyObject id, .ok ())

theorem deleteObject_case (hrunning : node.stopped = false) (claimedType id : GoString)
    (reply : StoreReply) :
    DeleteCase node claimedType id (node.deleteObject claimedType id reply) := by
  unfold deleteObject
  split
  · rename_i hempty
    exact .refused _ (.inl hempty)
  · rename_i hclaimed
    rw [if_neg (by rw [hrunning]; decide)]
    cases hobj : node.objects.lookup id with
    | none =>
      refine .absent ?_ hobj
      rintro (hempty | ⟨obj, hlive, -⟩)
      · exact hclaimed hempty
      · rw [hobj] at hlive
        contradiction
    | some obj =>
      dsimp only
      split
      · rename_i htype
        exact .refused _ (.inr ⟨obj, hobj, .inl htype⟩)
      · rename_i htype
        split
        · rename_i hdenied
          exact .refused _ (.inr ⟨obj, hobj, .inr (.inl hdenied)⟩)
        · rename_i hallowed
          cases hprovider : node.provider with
          | none => exact .unstored hprovider
          | some db =>
            cases hdata : obj.type.toData obj.base.data with
            | error e =>
              refine .unreached ?_
              rintro (hempty | ⟨other, hlive, hmismatch | hdenied | ⟨data, hok⟩⟩)
              · exact hclaimed hempty
              · cases hobj.symm.trans hlive
                exact htype hmismatch
              · cases hobj.symm.trans hlive
                exact hallowed hdenied
              · cases hobj.symm.trans hlive
                rw [hdata] at hok
                contradiction
            | ok data =>
              have hreaches : node.ReachesRow claimedType id :=
                .inr ⟨obj, hobj, .inr (.inr ⟨data, hdata⟩)⟩
              dsimp only
              split
              · rename_i next heq
                obtain rfl : (deleteRow db id reply).1 = next := congrArg Prod.fst heq
                exact .failed db reply hreaches hprovider
              · rename_i next heq
                obtain rfl : (deleteRow db id reply).1 = next := congrArg Prod.fst heq
                exact .deleted db reply hreaches hprovider (congrArg Prod.snd heq)

@[simp] theorem row_destroyObject (node : NodeState σ μ) (id other : GoString) :
    (node.destroyObject id).row other = node.row other := rfl

@[simp] theorem lookup_destroyObject (node : NodeState σ μ) (id : GoString) :
    (node.destroyObject id).objects.lookup id = none :=
  AList.lookup_erase _ _

@[simp] theorem lookup_destroyObject_of_ne (node : NodeState σ μ) {id other : GoString}
    (h : other ≠ id) : (node.destroyObject id).objects.lookup other = node.objects.lookup other :=
  AList.lookup_erase_ne h

/-- Everything `createObject` can do. -/
inductive CreateCase (node : NodeState σ μ) (typ id : GoString) (hooks : Hooks σ) :
    NodeState σ μ × Except NodeError Unit → Prop
  | refused (error : NodeError) : CreateCase node typ id hooks (node, .error error)
  | present (live : LiveObject σ μ) (hlive : node.objects.lookup id = some live) :
      CreateCase node typ id hooks (node, .ok ())
  | created (T : ObjectType σ μ) {given : Option Bytes} {nextRcseq : Int} {data : σ}
      (hnone : node.objects.lookup id = none)
      (hgiven : node.dataToRestore id hooks = some (given, nextRcseq))
      (hdata : hooks.fromData given = some data) (hT : node.objectTypes typ = some T) :
      CreateCase node typ id hooks
        ({ node with objects :=
            node.objects.insert id (node.newObject T id data nextRcseq) }, .ok ())

theorem createObject_cases (node : NodeState σ μ) (typ id : GoString) (hooks : Hooks σ) :
    CreateCase node typ id hooks (node.createObject typ id hooks) := by
  unfold createObject
  split
  · exact .refused _
  · cases hobject : node.objects.lookup id with
    | some live =>
      dsimp only
      split
      · exact .present live hobject
      · exact .refused _
    | none =>
      dsimp only
      split
      · exact .refused _
      · split
        · exact .refused _
        · rename_i T hT
          split
          · exact .refused _
          · rename_i given nextRcseq hgiven
            split
            · exact .refused _
            · rename_i data hdata
              exact .created T hobject hgiven hdata hT

@[simp] theorem newObject_data (T : ObjectType σ μ) (id : GoString) (data : σ) (nextRcseq : Int) :
    (node.newObject T id data nextRcseq).base.data = data := by
  unfold newObject
  dsimp only
  split <;> rfl

@[simp] theorem newObject_nextRcseq (T : ObjectType σ μ) (id : GoString) (data : σ)
    (nextRcseq : Int) : (node.newObject T id data nextRcseq).base.nextRcseq = nextRcseq := by
  unfold newObject
  dsimp only
  split <;> rfl

@[simp] theorem newObject_id (T : ObjectType σ μ) (id : GoString) (data : σ) (nextRcseq : Int) :
    (node.newObject T id data nextRcseq).base.id = id := by
  unfold newObject
  dsimp only
  split <;> rfl

private theorem loadObject_eq_some {hooks : Hooks σ} {db : DB} {found : Option ObjectData}
    (h : hooks.loadObject db id = some found) : db.objects.lookup id = found := by
  unfold Hooks.loadObject at h
  split at h
  · contradiction
  · rename_i hanswer
    cases h
    exact DB.loadObject_ok (toOption_eq_some hanswer).2
  · rename_i row hanswer
    split at h
    · cases h
      exact DB.loadObject_ok (toOption_eq_some hanswer).2
    · contradiction

/-- `FromData` is given the row, or nil if there is none or `ToData` has no message for it. -/
theorem dataToRestore_cases {hooks : Hooks σ} {given : Option Bytes} {nextRcseq : Int}
    (h : node.dataToRestore id hooks = some (given, nextRcseq)) :
    (given = none ∧ nextRcseq = 0 ∧ (hooks.toData = .message → node.row id = none)) ∨
      ∃ row, node.row id = some row ∧ given = some row.data ∧ nextRcseq = row.nextRcseq := by
  unfold dataToRestore at h
  rw [row]
  cases hprovider : node.provider with
  | none =>
    rw [hprovider] at h
    cases h
    exact .inl ⟨rfl, rfl, fun _ => rfl⟩
  | some db =>
    rw [hprovider] at h
    rw [Option.bind_some]
    cases hdata : hooks.toData with
    | message =>
      cases hload : hooks.loadObject db id with
      | none => simp [hdata, hload] at h
      | some found =>
        rw [loadObject_eq_some hload]
        cases found with
        | none =>
          simp only [hdata, hload, Option.some.injEq, Prod.mk.injEq] at h
          exact .inl ⟨h.1.symm, h.2.symm, fun _ => rfl⟩
        | some row =>
          simp only [hdata, hload, Option.some.injEq, Prod.mk.injEq] at h
          exact .inr ⟨row, rfl, h.1.symm, h.2.symm⟩
    | notPersistent | failed =>
      simp only [hdata, Option.some.injEq, Prod.mk.injEq] at h
      exact .inl ⟨h.1.symm, h.2.symm, nofun⟩

theorem dataToRestore_of_row {hooks : Hooks σ} {given : Option Bytes} {nextRcseq : Int}
    {row : ObjectData} (hgiven : node.dataToRestore id hooks = some (given, nextRcseq))
    (hmessage : hooks.toData = .message) (hrow : node.row id = some row) :
    given = some row.data ∧ nextRcseq = row.nextRcseq := by
  rcases dataToRestore_cases hgiven with ⟨-, -, hnone⟩ | ⟨found, hfound, hrestored⟩
  · cases hrow.symm.trans (hnone hmessage)
  · cases hrow.symm.trans hfound
    exact hrestored

private theorem gone_of_none (hmemory : node.objects.lookup id = none)
    (hstore : node.row id = none) : node.Gone id := by
  refine ⟨hmemory, hstore, fun typ hooks h => ?_⟩
  have hcase := node.createObject_cases typ id hooks
  generalize node.createObject typ id hooks = result at hcase h ⊢
  cases hcase with
  | refused => contradiction
  | present live hlive =>
    rw [hmemory] at hlive
    contradiction
  | created T hnone hgiven hdata hT =>
    rcases dataToRestore_cases hgiven with ⟨rfl, rfl, -⟩ | ⟨row, hrow, -⟩
    · exact ⟨T, _, hT, AList.lookup_insert _, rfl, by simpa using hdata, by simp⟩
    · rw [hstore] at hrow
      contradiction

theorem DeleteCase.untouched {claimedType : GoString}
    {result : NodeState σ μ × Except NodeError Unit} (h : DeleteCase node claimedType id result) :
    node.Untouched result.1 id := by
  cases h with
  | refused | absent => exact ⟨fun _ _ => rfl, fun _ _ => rfl, rfl⟩
  | unreached | unstored =>
    exact ⟨fun _ hother => node.lookup_destroyObject_of_ne hother, fun _ _ => rfl, rfl⟩
  | failed db reply hreaches hprovider =>
    obtain ⟨hcalls, hothers, -⟩ := deleteRow_cases db id reply
    refine ⟨fun _ _ => rfl, fun other hother => ?_, ?_⟩
    · rw [row, row, hprovider]
      exact hothers other hother
    · rw [hprovider, Option.map_some, Option.map_some, hcalls]
  | deleted db reply hreaches hprovider =>
    obtain ⟨hcalls, hothers, -⟩ := deleteRow_cases db id reply
    refine ⟨fun _ hother => lookup_destroyObject_of_ne _ hother, fun other hother => ?_, ?_⟩
    · rw [row_destroyObject, row, row, hprovider]
      exact hothers other hother
    · rw [hprovider, Option.map_some, ← hcalls]
      rfl

private theorem deleteRow_false {db : DB} {reply : StoreReply}
    (h : (deleteRow db id reply).2 = false) : (deleteRow db id reply).1 = db ∨
      reply = .lost ∧ (deleteRow db id reply).1.objects.lookup id = none := by
  cases reply with
  | failed => exact .inl rfl
  | executed =>
    simp only [deleteRow] at h ⊢
    split
    · rename_i hdeleted
      rw [hdeleted] at h
      contradiction
    · exact .inl rfl
  | lost =>
    simp only [deleteRow]
    split
    · rename_i hdeleted
      refine .inr ⟨trivial, ?_⟩
      rw [(DB.deleteObject_ok hdeleted).2, AList.lookup_erase]
    · exact .inl rfl

/-- What `DeleteObject` leaves of an id: the object is out of the map, or it is still there and
so is its row, unless the answer to the deletion of the row was lost. -/
theorem deleteObject_row (hrunning : node.stopped = false) (claimedType id : GoString)
    (reply : StoreReply) :
    (node.deleteObject claimedType id reply).1.objects.lookup id = none ∨
      (node.deleteObject claimedType id reply).1.objects.lookup id = node.objects.lookup id ∧
        ((node.deleteObject claimedType id reply).1.row id = node.row id ∨
          reply = .lost ∧ (node.deleteObject claimedType id reply).1.row id = none) := by
  unfold deleteObject
  split
  · exact .inr ⟨rfl, .inl rfl⟩
  · rw [if_neg (by rw [hrunning]; decide)]
    split
    · exact .inr ⟨rfl, .inl rfl⟩
    · split
      · exact .inr ⟨rfl, .inl rfl⟩
      · split
        · exact .inr ⟨rfl, .inl rfl⟩
        · split
          · exact .inl (node.lookup_destroyObject id)
          · rename_i db hprovider
            split
            · exact .inl (node.lookup_destroyObject id)
            · split
              · rename_i next heq
                refine .inr ⟨rfl, ?_⟩
                obtain rfl : (deleteRow db id reply).1 = next := congrArg Prod.fst heq
                rcases deleteRow_false (congrArg Prod.snd heq) with hsame | ⟨hlost, hnone⟩
                · left
                  rw [row, row, hprovider, hsame]
                · exact .inr ⟨hlost, hnone⟩
              · exact .inl (lookup_destroyObject _ id)

theorem DeleteCase.gone_iff {claimedType : GoString}
    {result : NodeState σ μ × Except NodeError Unit} (h : DeleteCase node claimedType id result) :
    (result.2 = .ok () → result.1.Gone id) ↔
      node.row id = none ∨ node.ReachesRow claimedType id := by
  cases h with
  | refused error hreaches => exact ⟨fun _ => .inr hreaches, fun _ hok => by contradiction⟩
  | absent hreaches hobjects =>
    refine ⟨fun h => .inl (h rfl).store, fun h _ => ?_⟩
    exact gone_of_none hobjects (h.resolve_right hreaches)
  | unreached hreaches =>
    refine ⟨fun h => .inl (h rfl).store, fun h _ => ?_⟩
    exact gone_of_none (node.lookup_destroyObject id) (h.resolve_right hreaches)
  | unstored hprovider =>
    have hrow : node.row id = none := by
      rw [row, hprovider]
      rfl
    exact ⟨fun _ => .inl hrow, fun _ _ => gone_of_none (node.lookup_destroyObject id) hrow⟩
  | failed db reply hreaches => exact ⟨fun _ => .inr hreaches, fun _ hok => by contradiction⟩
  | deleted db reply hreaches hprovider hrow =>
    refine ⟨fun _ => .inr hreaches, fun _ _ => ?_⟩
    exact gone_of_none (lookup_destroyObject _ id) ((deleteRow_cases db id reply).2.2 hrow)

theorem delete_leaves_nothing_iff (node : NodeState σ μ) (hrunning : node.stopped = false)
    (claimedType id : GoString) (reply : StoreReply) :
    (((node.deleteObject claimedType id reply).2 = .ok () →
        (node.deleteObject claimedType id reply).1.Gone id) ↔
      node.row id = none ∨ node.ReachesRow claimedType id) ∧
    node.Untouched (node.deleteObject claimedType id reply).1 id := by
  have hcase := deleteObject_case hrunning claimedType id reply
  exact ⟨hcase.gone_iff, hcase.untouched⟩

/-- A node with one registered type, whose store has a row for the object `o`. -/
def tallyNode (objects : AList fun _ : GoString => LiveObject Bytes Bytes) :
    NodeState Bytes Bytes where
  stopped := false
  objectTypes typ := if typ = tally.name then some tally else none
  objectTypes_name := by
    intro typ T h
    split at h
    · rename_i htyp
      cases h
      exact htyp.symm
    · contradiction
  lifecycleValidator := none
  provider := some { DB.empty with objects := (∅ : AList _).insert (lit "o") ⟨tally.name, [7], 3⟩ }
  objects := objects

def liveNode : NodeState Bytes Bytes :=
  tallyNode ((∅ : AList _).insert (lit "o") ⟨tally, .onInit (lit "o") [7] 3⟩)

def dormantNode : NodeState Bytes Bytes := tallyNode ∅

theorem delete_leaves_nothing_iff_live :
    liveNode.row (lit "o") ≠ none ∧
      (liveNode.deleteObject tally.name (lit "o") .executed).1.Gone (lit "o") := by
  have hreaches : liveNode.ReachesRow tally.name (lit "o") :=
    .inr ⟨⟨tally, .onInit (lit "o") [7] 3⟩, rfl, .inr (.inr ⟨[7], rfl⟩)⟩
  refine ⟨by decide, ?_⟩
  exact (delete_leaves_nothing_iff liveNode rfl tally.name (lit "o") .executed).1.mpr
    (.inr hreaches) (by decide)

/-- The delete of an object that is not in memory succeeds, and the next activation restores
it from its row. -/
theorem dormant_object_survives_delete :
    (dormantNode.deleteObject tally.name (lit "o") .executed).2 = .ok () ∧
      ((dormantNode.deleteObject tally.name (lit "o") .executed).1.createObject tally.name (lit "o")
        (hooksOf tally true true)).2 = .ok () ∧
      (((dormantNode.deleteObject tally.name (lit "o") .executed).1.createObject tally.name
        (lit "o") (hooksOf tally true true)).1.objects.lookup (lit "o")).any (fun live =>
          live.base.data = [7] ∧ live.base.nextRcseq = 3) = true ∧
      ¬ (dormantNode.deleteObject tally.name (lit "o") .executed).1.Gone (lit "o") := by
  refine ⟨by decide, by decide, by decide, fun h => ?_⟩
  have hrow : (dormantNode.deleteObject tally.name (lit "o") .executed).1.row (lit "o") ≠ none := by
    decide
  exact hrow h.store

end NodeState

end Goverse.Node
