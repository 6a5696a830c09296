import Mathlib.Data.List.TakeWhile
import Goverse.Config.AccessControl
import Goverse.Sharding.ObjectId

/-! The object that an HTTP request names. The handlers of `call`, `create` and `delete` split the
rest of the path after their own prefix, each with its own limit, check the rules on what they
find and pass it on to the cluster. -/
namespace Goverse.Gate

open GoString AccessControl

/-- `strings.SplitN` for a separator of one byte and a limit that is not negative. -/
def splitN (s : GoString) (sep : UInt8) : Nat → List GoString
  | 0 => []
  | 1 => [s]
  | n + 2 => if sep ∈ s then (s.cut sep).1 :: splitN (s.cut sep).2 sep (n + 1) else [s]

/-- `strings.TrimPrefix` -/
def trimHead (s head : GoString) : GoString :=
  if hasPrefix s head then s.drop head.length else s

/-- What `writeError` is called with: a text of the handler, or the error of a check. -/
inductive HTTPError where
  | plain (statusCode : Nat) (code message : GoString)
  | denied (err : AccessError)
  deriving DecidableEq, Repr

/-- `decoded` and `authorised` are the outcomes of reading the body and of `OnClientAuthorise`. -/
structure HTTPRequest where
  method : GoString
  path : GoString
  decoded : Except HTTPError Unit
  authorised : Except HTTPError Unit

inductive ClusterCall where
  | callObject (objType objID method : GoString)
  | createObject (objType objID : GoString)
  | deleteObject (objType objID : GoString)
  deriving DecidableEq, Repr

structure HTTPGate where
  accessValidator : Option AccessValidator
  lifecycleValidator : Option LifecycleValidator

/-- A check is made if there is a validator, and its error is a 403. -/
def checkWith {V : Type} (validator : Option V) (check : V → Except AccessError Unit) :
    Except HTTPError Unit :=
  match validator with
  | none => .ok ()
  | some v => (check v).mapError .denied

section Paths

def callPrefix : GoString := lit "/api/v1/objects/call/"

def createPrefix : GoString := lit "/api/v1/objects/create/"

def deletePrefix : GoString := lit "/api/v1/objects/delete/"

def callPath (objType objID method : GoString) : GoString :=
  callPrefix ++ (objType ++ slash :: (objID ++ slash :: method))

def createPath (objType objID : GoString) : GoString :=
  createPrefix ++ (objType ++ slash :: objID)

def deletePath (objType objID : GoString) : GoString :=
  deletePrefix ++ (objType ++ slash :: objID)

/-- The parts of a path as `handleCallObject` reads them. -/
def callTarget (path : GoString) : Except HTTPError (GoString × GoString × GoString) :=
  match splitN (trimHead path callPrefix) slash 3 with
  | [objType, objID, method] =>
    if objType = [] ∨ objID = [] ∨ method = [] then
      .error (.plain 400 (lit "INVALID_PARAMETERS") (lit "Type, ID, and method must not be empty"))
    else .ok (objType, objID, method)
  | _ => .error (.plain 400 (lit "INVALID_PATH")
      (lit "Path must be /api/v1/objects/call/\x7btype\x7d/\x7bid\x7d/\x7bmethod\x7d"))

def createTarget (path : GoString) : Except HTTPError (GoString × GoString) :=
  match splitN (trimHead path createPrefix) slash 2 with
  | [objType, objID] =>
    if objType = [] ∨ objID = [] then
      .error (.plain 400 (lit "INVALID_PARAMETERS") (lit "Type and ID must not be empty"))
    else .ok (objType, objID)
  | _ => .error (.plain 400 (lit "INVALID_PATH")
      (lit "Path must be /api/v1/objects/create/\x7btype\x7d/\x7bid\x7d"))

/-- Unlike the other two, this one takes an empty part for an invalid path, and it refuses an ID
with a slash. -/
def deleteTarget (path : GoString) : Except HTTPError (GoString × GoString) :=
  let invalidPath : Except HTTPError (GoString × GoString) :=
    .error (.plain 400 (lit "INVALID_PATH")
      (lit "Path must be /api/v1/objects/delete/\x7btype\x7d/\x7bid\x7d"))
  match splitN (trimHead path deletePrefix) slash 2 with
  | [objType, objID] =>
    if objType = [] ∨ objID = [] then invalidPath
    else if slash ∈ objID then
      .error (.plain 400 (lit "INVALID_PARAMETERS") (lit "Object ID must not contain slashes"))
    else .ok (objType, objID)
  | _ => invalidPath

end Paths

namespace HTTPGate

variable (g : HTTPGate) (r : HTTPRequest)

def requirePost : Except HTTPError Unit :=
  if r.method = lit "POST" then .ok ()
  else .error (.plain 405 (lit "METHOD_NOT_ALLOWED") (lit "Only POST method is allowed"))

def handleCallObject : Except HTTPError ClusterCall := do
  requirePost r
  let (objType, objID, method) ← callTarget r.path
  r.decoded
  checkWith g.accessValidator fun v => v.checkClientAccess objType objID method
  r.authorised
  return .callObject objType objID method

def handleCreateObject : Except HTTPError ClusterCall := do
  requirePost r
  let (objType, objID) ← createTarget r.path
  checkWith g.lifecycleValidator fun v => v.checkClientCreate objType objID
  return .createObject objType objID

def handleDeleteObject : Except HTTPError ClusterCall := do
  requirePost r
  let (objType, objID) ← deleteTarget r.path
  checkWith g.lifecycleValidator fun v => v.checkClientDelete objType objID
  return .deleteObject objType objID

end HTTPGate

variable {objType objID method : GoString}

@[simp] theorem trimHead_append (head rest : GoString) : trimHead (head ++ rest) head = rest := by
  rw [trimHead, if_pos (hasPrefix_append _ _), List.drop_left]

@[simp] theorem splitN_append {head : GoString} (h : slash ∉ head) (rest : GoString) (n : Nat) :
    splitN (head ++ slash :: rest) slash (n + 2) = head :: splitN rest slash (n + 1) := by
  rw [splitN, if_pos (List.mem_append_right _ List.mem_cons_self), Sharding.cut_append h]

private theorem createTarget_createPath (htype : objType ≠ []) (hslash : slash ∉ objType)
    (hid : objID ≠ []) : createTarget (createPath objType objID) = .ok (objType, objID) := by
  rw [createTarget, createPath, trimHead_append, splitN_append hslash]
  simp [splitN, htype, hid]

private theorem deleteTarget_deletePath (htype : objType ≠ []) (hslash : slash ∉ objType)
    (hid : objID ≠ []) :
    deleteTarget (deletePath objType objID) = .ok (objType, objID) ↔ slash ∉ objID := by
  rw [deleteTarget, deletePath, trimHead_append, splitN_append hslash]
  by_cases hmem : slash ∈ objID <;> simp [splitN, htype, hid, hmem]

private theorem splitN_of_mem (hmem : slash ∈ objID) (method : GoString) :
    ∃ first rest, splitN (objID ++ slash :: method) slash 2 = [first, rest] ∧ first ≠ objID := by
  refine ⟨((objID ++ slash :: method).cut slash).1, ((objID ++ slash :: method).cut slash).2,
    ?_, ?_⟩
  · rw [splitN, if_pos (List.mem_append_left _ hmem), splitN]
  · intro heq
    have hnot : slash ∉ ((objID ++ slash :: method).cut slash).1 := by
      intro hslash
      have hne := List.mem_takeWhile_imp hslash
      simp at hne
    rw [heq] at hnot
    exact hnot hmem

private theorem callTarget_callPath_nil (hslash : slash ∉ objType) (hplain : slash ∉ objID) :
    callTarget (callPath objType objID []) =
      .error (.plain 400 (lit "INVALID_PARAMETERS")
        (lit "Type, ID, and method must not be empty")) := by
  rw [callTarget, callPath, trimHead_append, splitN_append hslash, splitN_append hplain]
  simp [splitN]

private theorem callTarget_callPath (method : GoString) (htype : objType ≠ [])
    (hslash : slash ∉ objType) (hid : objID ≠ []) :
    callTarget (callPath objType objID method) = .ok (objType, objID, method) ↔
      slash ∉ objID ∧ method ≠ [] := by
  rw [callTarget, callPath, trimHead_append, splitN_append hslash]
  by_cases hmem : slash ∈ objID
  · obtain ⟨first, rest, hsplit, hfirst⟩ := splitN_of_mem hmem method
    rw [hsplit]
    constructor
    · intro h
      dsimp only at h
      split at h
      · contradiction
      · exact absurd (congrArg (fun parts => parts.2.1) (Except.ok.inj h)) hfirst
    · intro h
      exact absurd hmem h.1
  · rw [splitN_append hmem]
    by_cases hmethod : method = [] <;> simp [splitN, htype, hid, hmem, hmethod]

theorem eq_ok_of_checkWith {V : Type} {validator : Option V} {check : V → Except AccessError Unit}
    (h : checkWith validator check = .ok ()) : ∀ v ∈ validator, check v = .ok () := by
  intro v hv
  rw [Option.mem_def.mp hv, checkWith] at h
  cases hcheck : check v with
  | error err =>
    rw [hcheck] at h
    contradiction
  | ok => rfl

theorem ok_of_bind {α β : Type} {x : Except HTTPError α} {f : α → Except HTTPError β} {b : β}
    (h : (x >>= f) = .ok b) : ∃ a, x = .ok a ∧ f a = .ok b := by
  cases x with
  | error err => contradiction
  | ok a => exact ⟨a, rfl, h⟩

private theorem handleCallObject_ok {g : HTTPGate} {r : HTTPRequest} {call : ClusterCall}
    (h : g.handleCallObject r = .ok call) :
    ∃ objType objID method, callTarget r.path = .ok (objType, objID, method) ∧
      call = .callObject objType objID method ∧
      ∀ v ∈ g.accessValidator, v.checkClientAccess objType objID method = .ok () := by
  obtain ⟨-, -, h⟩ := ok_of_bind h
  obtain ⟨⟨objType, objID, method⟩, htarget, h⟩ := ok_of_bind h
  obtain ⟨-, -, h⟩ := ok_of_bind h
  obtain ⟨⟨⟩, hcheck, h⟩ := ok_of_bind h
  obtain ⟨-, -, h⟩ := ok_of_bind h
  exact ⟨objType, objID, method, htarget, (Except.ok.inj h).symm, eq_ok_of_checkWith hcheck⟩

private theorem handleCreateObject_ok {g : HTTPGate} {r : HTTPRequest} {call : ClusterCall}
    (h : g.handleCreateObject r = .ok call) :
    ∃ objType objID, createTarget r.path = .ok (objType, objID) ∧
      call = .createObject objType objID ∧
      ∀ v ∈ g.lifecycleValidator, v.checkClientCreate objType objID = .ok () := by
  obtain ⟨-, -, h⟩ := ok_of_bind h
  obtain ⟨⟨objType, objID⟩, htarget, h⟩ := ok_of_bind h
  obtain ⟨⟨⟩, hcheck, h⟩ := ok_of_bind h
  exact ⟨objType, objID, htarget, (Except.ok.inj h).symm, eq_ok_of_checkWith hcheck⟩

private theorem handleDeleteObject_ok {g : HTTPGate} {r : HTTPRequest} {call : ClusterCall}
    (h : g.handleDeleteObject r = .ok call) :
    ∃ objType objID, deleteTarget r.path = .ok (objType, objID) ∧
      call = .deleteObject objType objID ∧
      ∀ v ∈ g.lifecycleValidator, v.checkClientDelete objType objID = .ok () := by
  obtain ⟨-, -, h⟩ := ok_of_bind h
  obtain ⟨⟨objType, objID⟩, htarget, h⟩ := ok_of_bind h
  obtain ⟨⟨⟩, hcheck, h⟩ := ok_of_bind h
  exact ⟨objType, objID, htarget, (Except.ok.inj h).symm, eq_ok_of_checkWith hcheck⟩

/-- The paths of a created object lead back to it exactly if there is no slash in its ID, and then
the checks and what is passed on are about this object. -/
theorem http_paths_address_one_object_iff (objType objID method : GoString)
    (htype : objType ≠ []) (hslash : slash ∉ objType) (hid : objID ≠ []) :
    createTarget (createPath objType objID) = .ok (objType, objID) ∧
    (callTarget (callPath objType objID method) = .ok (objType, objID, method) ↔
      slash ∉ objID ∧ method ≠ []) ∧
    (deleteTarget (deletePath objType objID) = .ok (objType, objID) ↔ slash ∉ objID) ∧
    ∀ (g : HTTPGate) (r : HTTPRequest) (call : ClusterCall),
      (r.path = createPath objType objID → g.handleCreateObject r = .ok call →
        call = .createObject objType objID ∧
          ∀ v ∈ g.lifecycleValidator, v.checkClientCreate objType objID = .ok ()) ∧
      (slash ∉ objID → r.path = callPath objType objID method → g.handleCallObject r = .ok call →
        call = .callObject objType objID method ∧
          ∀ v ∈ g.accessValidator, v.checkClientAccess objType objID method = .ok ()) ∧
      (slash ∉ objID → r.path = deletePath objType objID → g.handleDeleteObject r = .ok call →
        call = .deleteObject objType objID ∧
          ∀ v ∈ g.lifecycleValidator, v.checkClientDelete objType objID = .ok ()) := by
  have hcreate := createTarget_createPath htype hslash hid
  have hcall := callTarget_callPath method htype hslash hid
  have hdelete := deleteTarget_deletePath htype hslash hid
  refine ⟨hcreate, hcall, hdelete, ?_⟩
  intro g r call
  refine ⟨?_, ?_, ?_⟩
  · intro hpath h
    obtain ⟨typ, id, htarget, hpassed, hchecked⟩ := handleCreateObject_ok h
    rw [hpath, hcreate] at htarget
    cases htarget
    exact ⟨hpassed, hchecked⟩
  · intro hplain hpath h
    obtain ⟨typ, id, m, htarget, hpassed, hchecked⟩ := handleCallObject_ok h
    rw [hpath] at htarget
    have hmethod : method ≠ [] := by
      intro hnil
      rw [hnil, callTarget_callPath_nil hslash hplain] at htarget
      contradiction
    rw [hcall.mpr ⟨hplain, hmethod⟩] at htarget
    cases htarget
    exact ⟨hpassed, hchecked⟩
  · intro hplain hpath h
    obtain ⟨typ, id, htarget, hpassed, hchecked⟩ := handleDeleteObject_ok h
    rw [hpath, hdelete.mpr hplain] at htarget
    cases htarget
    exact ⟨hpassed, hchecked⟩

/-- A request without anything else to complain about. -/
def post (path : GoString) : HTTPRequest := ⟨lit "POST", path, .ok (), .ok ()⟩

def openGate : HTTPGate := ⟨none, none⟩

theorem http_paths_address_one_object_iff_regular :
    callTarget (callPath (lit "Tally") (lit "o") (lit "Add")) =
        .ok (lit "Tally", lit "o", lit "Add") ∧
      deleteTarget (deletePath (lit "Tally") (lit "o")) = .ok (lit "Tally", lit "o") ∧
      openGate.handleCallObject (post (callPath (lit "Tally") (lit "o") (lit "Add"))) =
        .ok (.callObject (lit "Tally") (lit "o") (lit "Add")) := by
  obtain ⟨-, hcall, hdelete, hpassed⟩ := http_paths_address_one_object_iff (lit "Tally") (lit "o")
    (lit "Add") (by decide) (by decide) (by decide)
  refine ⟨hcall.mpr (by decide), hdelete.mpr (by decide), ?_⟩
  have hok : openGate.handleCallObject (post (callPath (lit "Tally") (lit "o") (lit "Add"))) =
      .ok (.callObject (lit "Tally") (lit "o") (lit "Add")) := rfl
  rw [hok, ((hpassed openGate _ _).2.1 (by decide) rfl hok).1]

/-- An object that is pinned to a node is created, and then a call names another object and another
method, and a delete is refused. -/
theorem pinned_object_is_not_addressed :
    openGate.handleCreateObject (post (createPath (lit "Tally") (lit "n:1/o"))) =
        .ok (.createObject (lit "Tally") (lit "n:1/o")) ∧
      openGate.handleCallObject (post (callPath (lit "Tally") (lit "n:1/o") (lit "Add"))) =
        .ok (.callObject (lit "Tally") (lit "n:1") (lit "o/Add")) ∧
      openGate.handleDeleteObject (post (deletePath (lit "Tally") (lit "n:1/o"))) =
        .error (.plain 400 (lit "INVALID_PARAMETERS")
          (lit "Object ID must not contain slashes")) ∧
      Sharding.parseObjectID (lit "n:1/o") =
        .ok ⟨.fixedNode, lit "n:1/o", 0, lit "n:1", lit "o"⟩ := by
  refine ⟨?_, ?_, ?_, ?_⟩ <;> decide

end Goverse.Gate
