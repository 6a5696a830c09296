import Mathlib.Data.List.AList
import Mathlib.Data.List.Sort
import Goverse.GoString

/-! The tables of `util/postgres`. A table is a structure whose fields are the
constraints of its schema, so no statement can leave it in a state the database
would have refused. -/
namespace Goverse.Postgres

abbrev Bytes := List UInt8

inductive Status where
  | pending | success | failed | skipped
  deriving DecidableEq, Repr

/-- The method ran to its end, without or with an error. -/
def Status.Completed (status : Status) : Prop := status = .success ∨ status = .failed

instance (status : Status) : Decidable status.Completed := by
  unfold Status.Completed
  infer_instance

/-- A row of `goverse_reliable_calls`, without its timestamps. -/
structure ReliableCall where
  seq : Int
  callID : GoString
  objectID : GoString
  objectType : GoString
  methodName : GoString
  requestData : Bytes
  resultData : Option Bytes
  error : Option GoString
  status : Status
  deriving DecidableEq, Repr

/-- `valid_success_state` and `valid_error_state` of the schema. -/
def ReliableCall.Valid (call : ReliableCall) : Prop :=
  (call.status = .success → call.resultData ≠ none) ∧
  (call.status = .failed ∨ call.status = .skipped → call.error ≠ none)

instance (call : ReliableCall) : Decidable call.Valid := by
  unfold ReliableCall.Valid
  infer_instance

/-- The call as it was asked for, without its outcome. -/
def ReliableCall.asked (call : ReliableCall) : ReliableCall :=
  { call with resultData := none, error := none, status := .pending }

theorem ReliableCall.eq_of_asked {call other : ReliableCall} (h : call.asked = other.asked) :
    call.seq = other.seq ∧ call.callID = other.callID ∧ call.objectID = other.objectID ∧
      call.objectType = other.objectType ∧ call.methodName = other.methodName ∧
      call.requestData = other.requestData := by
  simpa [asked] using h

inductive Error where
  | emptyCallID | emptyObjectID | emptyObjectType | emptyMethodName
  | seqNotPositive
  | objectNotFound (objectID : GoString)
  | callNotFound (seq : Int)
  | constraintViolation
  deriving DecidableEq, Repr

/-- `goverse_reliable_calls`: `seq` is unique, `call_id` is the primary key. -/
structure CallTable where
  rows : List ReliableCall
  seq_unique : (rows.map (·.seq)).Nodup
  callID_unique : (rows.map (·.callID)).Nodup
  valid : ∀ row ∈ rows, row.Valid

/-- The data of a row of `goverse_objects`. -/
structure ObjectData where
  objectType : GoString
  data : Bytes
  nextRcseq : Int
  deriving DecidableEq, Repr

/-- `lastSeq` is the last value the sequence behind `seq` has handed out. -/
structure DB where
  objects : AList fun _ : GoString => ObjectData
  calls : CallTable
  lastSeq : Int

namespace CallTable

def empty : CallTable := ⟨[], by simp, by simp, by simp⟩

/-- `INSERT ... ON CONFLICT (call_id) DO UPDATE SET call_id = EXCLUDED.call_id
RETURNING ...`: a known call is returned as it stands. -/
def insertOrGet (table : CallTable) (row : ReliableCall) :
    Except Error (ReliableCall × CallTable) :=
  match hfind : table.rows.find? fun old => old.callID = row.callID with
  | some old => .ok (old, table)
  | none =>
    if hrow : row.seq ∉ table.rows.map (·.seq) ∧ row.Valid then
      .ok (row, {
        rows := table.rows ++ [row]
        seq_unique := by
          simp only [List.map_append, List.map_cons, List.map_nil]
          exact table.seq_unique.append (by simp) (by simpa using hrow.1)
        callID_unique := by
          simp only [List.find?_eq_none, decide_eq_true_eq] at hfind
          simp only [List.map_append, List.map_cons, List.map_nil]
          exact table.callID_unique.append (by simp) (by simpa using hfind)
        valid := by
          intro other hother
          rcases List.mem_append.mp hother with h | h
          · exact table.valid other h
          · rw [List.mem_singleton.mp h]
            exact hrow.2 })
    else .error .constraintViolation

def finish (seq : Int) (status : Status) (resultData : Option Bytes) (error : GoString)
    (row : ReliableCall) : ReliableCall :=
  if row.seq = seq then
    { row with status := status, resultData := resultData, error := some error }
  else row

@[simp] theorem finish_seq (seq : Int) (status : Status) (resultData : Option Bytes)
    (error : GoString) (row : ReliableCall) :
    (finish seq status resultData error row).seq = row.seq := by
  unfold finish
  split <;> rfl

@[simp] theorem finish_callID (seq : Int) (status : Status) (resultData : Option Bytes)
    (error : GoString) (row : ReliableCall) :
    (finish seq status resultData error row).callID = row.callID := by
  unfold finish
  split <;> rfl

@[simp] theorem finish_objectID (seq : Int) (status : Status) (resultData : Option Bytes)
    (error : GoString) (row : ReliableCall) :
    (finish seq status resultData error row).objectID = row.objectID := by
  unfold finish
  split <;> rfl

@[simp] theorem finish_asked (seq : Int) (status : Status) (resultData : Option Bytes)
    (error : GoString) (row : ReliableCall) :
    (finish seq status resultData error row).asked = row.asked := by
  unfold finish
  split <;> rfl

/-- `UPDATE goverse_reliable_calls SET status, result_data, error_message WHERE seq`. -/
def updateStatus (table : CallTable) (seq : Int) (status : Status)
    (resultData : Option Bytes) (error : GoString) : Except Error CallTable :=
  if seq ∉ table.rows.map (·.seq) then .error (.callNotFound seq)
  else if hvalid : status = .success → resultData ≠ none then
    .ok {
      rows := table.rows.map (finish seq status resultData error)
      seq_unique := by
        have h : (fun row : ReliableCall => row.seq) ∘ finish seq status resultData error =
            fun row => row.seq := by
          funext row
          simp
        rw [List.map_map, h]
        exact table.seq_unique
      callID_unique := by
        have h : (fun row : ReliableCall => row.callID) ∘ finish seq status resultData error =
            fun row => row.callID := by
          funext row
          simp
        rw [List.map_map, h]
        exact table.callID_unique
      valid := by
        intro row hrow
        obtain ⟨old, hold, rfl⟩ := List.mem_map.mp hrow
        unfold finish
        split
        · exact ⟨hvalid, fun _ => by simp⟩
        · exact table.valid old hold }
  else .error .constraintViolation

/-- `WHERE object_id AND seq >= nextRcseq AND status = 'pending' ORDER BY seq ASC`. -/
def pendingFrom (table : CallTable) (objectID : GoString) (nextRcseq : Int) :
    List ReliableCall :=
  (table.rows.filter fun row =>
    row.objectID = objectID ∧ nextRcseq ≤ row.seq ∧ row.status = .pending).insertionSort
      fun a b => a.seq ≤ b.seq

@[simp] theorem mem_pendingFrom {table : CallTable} {objectID : GoString} {nextRcseq : Int}
    {call : ReliableCall} :
    call ∈ table.pendingFrom objectID nextRcseq ↔
      call ∈ table.rows ∧ call.objectID = objectID ∧ nextRcseq ≤ call.seq ∧
        call.status = .pending := by
  unfold pendingFrom
  rw [(List.perm_insertionSort _ _).mem_iff, List.mem_filter]
  simp

/-- Rows come out in strictly increasing order because `seq` is unique. -/
theorem pendingFrom_increasing (table : CallTable) (objectID : GoString) (nextRcseq : Int) :
    ((table.pendingFrom objectID nextRcseq).map (·.seq)).Pairwise (· < ·) := by
  let kept := table.rows.filter fun row =>
    row.objectID = objectID ∧ nextRcseq ≤ row.seq ∧ row.status = .pending
  have hsorted : (table.pendingFrom objectID nextRcseq).Pairwise fun a b => a.seq ≤ b.seq :=
    List.pairwise_insertionSort _ _
  have hnodup : (kept.map (·.seq)).Nodup :=
    table.seq_unique.sublist (List.filter_sublist.map _)
  have hperm : ((table.pendingFrom objectID nextRcseq).map (·.seq)).Perm (kept.map (·.seq)) :=
    (List.perm_insertionSort _ _).map _
  have hle : ((table.pendingFrom objectID nextRcseq).map (·.seq)).Pairwise (· ≤ ·) :=
    List.pairwise_map.mpr hsorted
  have hne : ((table.pendingFrom objectID nextRcseq).map (·.seq)).Pairwise (· ≠ ·) :=
    hperm.nodup_iff.mpr hnodup
  exact (hle.and hne).imp fun h => lt_of_le_of_ne h.1 h.2

private theorem insertOrGet_ok {table next : CallTable} {row result : ReliableCall}
    (h : table.insertOrGet row = .ok (result, next)) :
    (result ∈ table.rows ∧ result.callID = row.callID ∧ next = table) ∨
      (result = row ∧ row.seq ∉ table.rows.map (·.seq) ∧
        (∀ old ∈ table.rows, old.callID ≠ row.callID) ∧ next.rows = table.rows ++ [row]) := by
  unfold insertOrGet at h
  split at h
  · rename_i old hfind
    cases h
    exact .inl ⟨List.mem_of_find?_eq_some hfind,
      by simpa using List.find?_some hfind, rfl⟩
  · rename_i hfind
    split at h
    · rename_i hrow
      cases h
      exact .inr ⟨rfl, hrow.1, by simpa using hfind, rfl⟩
    · contradiction

private theorem updateStatus_ok {table next : CallTable} {seq : Int} {status : Status}
    {resultData : Option Bytes} {error : GoString}
    (h : table.updateStatus seq status resultData error = .ok next) :
    next.rows = table.rows.map (finish seq status resultData error) := by
  unfold updateStatus at h
  split at h
  · contradiction
  · split at h
    · cases h
      rfl
    · contradiction

end CallTable

namespace DB

def empty : DB := ⟨∅, CallTable.empty, 0⟩

/-- `SaveObject`: an upsert of the whole row. -/
def saveObject (db : DB) (objectID objectType : GoString) (data : Option Bytes)
    (nextRcseq : Int) : Except Error DB :=
  if objectID = [] then .error .emptyObjectID
  else if objectType = [] then .error .emptyObjectType
  else .ok { db with
    objects := db.objects.insert objectID ⟨objectType, data.getD (lit "\x7b\x7d"), nextRcseq⟩ }

/-- `LoadObject`: a missing row is `none`, not an error. -/
def loadObject (db : DB) (objectID : GoString) : Except Error (Option ObjectData) :=
  if objectID = [] then .error .emptyObjectID
  else .ok (db.objects.lookup objectID)

theorem loadObject_ok {db : DB} {objectID : GoString} {found : Option ObjectData}
    (h : db.loadObject objectID = .ok found) : db.objects.lookup objectID = found := by
  unfold loadObject at h
  split at h
  · contradiction
  · exact Except.ok.inj h

def deleteObject (db : DB) (objectID : GoString) : Except Error DB :=
  if objectID = [] then .error .emptyObjectID
  else if objectID ∈ db.objects then .ok { db with objects := db.objects.erase objectID }
  else .error (.objectNotFound objectID)

/-- The default of the `seq` column: evaluated for every `INSERT`, also for one
that then finds its `call_id` taken. -/
def nextval (db : DB) : Int × DB :=
  (db.lastSeq + 1, { db with lastSeq := db.lastSeq + 1 })

def newCall (seq : Int) (callID objectID objectType methodName : GoString)
    (requestData : Bytes) : ReliableCall :=
  ⟨seq, callID, objectID, objectType, methodName, requestData, none, none, .pending⟩

/-- The statement of `InsertOrGetReliableCall` once `seq` has been drawn. -/
def insertCall (db : DB) (row : ReliableCall) : Except Error (ReliableCall × DB) :=
  (db.calls.insertOrGet row).map fun result => (result.1, { db with calls := result.2 })

/-- The checks of `InsertOrGetReliableCall` before its statement. -/
def checkCall (requestID objectID objectType methodName : GoString) : Except Error Unit :=
  if requestID = [] then .error .emptyCallID
  else if objectID = [] then .error .emptyObjectID
  else if objectType = [] then .error .emptyObjectType
  else if methodName = [] then .error .emptyMethodName
  else .ok ()

def insertOrGetReliableCall (db : DB) (requestID objectID objectType methodName : GoString)
    (requestData : Bytes) : Except Error (ReliableCall × DB) :=
  match checkCall requestID objectID objectType methodName with
  | .error e => .error e
  | .ok () =>
    let (seq, db) := db.nextval
    db.insertCall (newCall seq requestID objectID objectType methodName requestData)

def updateReliableCallStatus (db : DB) (seq : Int) (status : Status)
    (resultData : Option Bytes) (errorMessage : GoString) : Except Error DB :=
  if seq ≤ 0 then .error .seqNotPositive
  else (db.calls.updateStatus seq status resultData errorMessage).map
    fun calls => { db with calls := calls }

def getPendingReliableCalls (db : DB) (objectID : GoString) (nextRcseq : Int) :
    Except Error (List ReliableCall) :=
  if objectID = [] then .error .emptyObjectID
  else .ok (db.calls.pendingFrom objectID nextRcseq)

def getReliableCallBySeq (db : DB) (seq : Int) : Except Error ReliableCall :=
  if seq ≤ 0 then .error .seqNotPositive
  else match db.calls.rows.find? fun row => row.seq = seq with
    | some row => .ok row
    | none => .error (.callNotFound seq)

theorem getReliableCallBySeq_ok {db : DB} {seq : Int} {call : ReliableCall}
    (h : db.getReliableCallBySeq seq = .ok call) : call ∈ db.calls.rows ∧ call.seq = seq := by
  unfold getReliableCallBySeq at h
  split at h
  · contradiction
  · split at h
    · rename_i row hfind
      cases h
      exact ⟨List.mem_of_find?_eq_some hfind, by simpa using List.find?_some hfind⟩
    · contradiction

theorem insertCall_ok {db next : DB} {row result : ReliableCall}
    (h : db.insertCall row = .ok (result, next)) :
    next.objects = db.objects ∧ next.lastSeq = db.lastSeq ∧
      ((result ∈ db.calls.rows ∧ result.callID = row.callID ∧ next.calls = db.calls) ∨
        (result = row ∧ row.seq ∉ db.calls.rows.map (·.seq) ∧
          (∀ old ∈ db.calls.rows, old.callID ≠ row.callID) ∧
          next.calls.rows = db.calls.rows ++ [row])) := by
  unfold insertCall at h
  cases hinsert : db.calls.insertOrGet row with
  | error e => rw [hinsert] at h; contradiction
  | ok inserted =>
    rw [hinsert] at h
    cases h
    exact ⟨rfl, rfl, CallTable.insertOrGet_ok hinsert⟩

theorem insertOrGetReliableCall_ok {db next : DB}
    {requestID objectID objectType methodName : GoString} {requestData : Bytes}
    {result : ReliableCall}
    (h : db.insertOrGetReliableCall requestID objectID objectType methodName requestData =
      .ok (result, next)) :
    next.objects = db.objects ∧ next.lastSeq = db.lastSeq + 1 ∧
      ((result ∈ db.calls.rows ∧ result.callID = requestID ∧ next.calls = db.calls) ∨
        (result =
            newCall (db.lastSeq + 1) requestID objectID objectType methodName requestData ∧
          (∀ old ∈ db.calls.rows, old.callID ≠ requestID) ∧
          next.calls.rows = db.calls.rows ++ [result])) := by
  unfold insertOrGetReliableCall at h
  split at h
  · contradiction
  · obtain ⟨hobjects, hlast, hcases⟩ := insertCall_ok h
    refine ⟨hobjects, hlast, ?_⟩
    rcases hcases with hold | ⟨hresult, -, hfresh, hrows⟩
    · exact .inl hold
    · exact .inr ⟨hresult, hfresh, hresult ▸ hrows⟩

theorem updateReliableCallStatus_ok {db next : DB} {seq : Int} {status : Status}
    {resultData : Option Bytes} {errorMessage : GoString}
    (h : db.updateReliableCallStatus seq status resultData errorMessage = .ok next) :
    next.objects = db.objects ∧ next.lastSeq = db.lastSeq ∧
      next.calls.rows =
        db.calls.rows.map (CallTable.finish seq status resultData errorMessage) := by
  unfold updateReliableCallStatus at h
  split at h
  · contradiction
  · cases hcalls : db.calls.updateStatus seq status resultData errorMessage with
    | error e => rw [hcalls] at h; contradiction
    | ok calls =>
      rw [hcalls] at h
      cases h
      exact ⟨rfl, rfl, CallTable.updateStatus_ok hcalls⟩

theorem saveObject_ok {db next : DB} {objectID objectType : GoString} {data : Option Bytes}
    {nextRcseq : Int} (h : db.saveObject objectID objectType data nextRcseq = .ok next) :
    next.calls = db.calls ∧ next.lastSeq = db.lastSeq ∧
      next.objects = db.objects.insert objectID
        ⟨objectType, data.getD (lit "\x7b\x7d"), nextRcseq⟩ := by
  unfold saveObject at h
  split at h
  · contradiction
  · split at h
    · contradiction
    · cases h
      exact ⟨rfl, rfl, rfl⟩

theorem deleteObject_ok {db next : DB} {objectID : GoString}
    (h : db.deleteObject objectID = .ok next) :
    next.calls = db.calls ∧ next.objects = db.objects.erase objectID := by
  unfold deleteObject at h
  split at h
  · contradiction
  · split at h
    · cases h
      exact ⟨rfl, rfl⟩
    · contradiction

end DB
end Goverse.Postgres
