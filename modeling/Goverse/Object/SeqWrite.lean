import Goverse.Object.Watermark

/-! Concurrent `ReliableCallObject` calls on one activation. An `INSERT` draws its `seq`
when it starts and its row becomes visible when it commits; `seqWriteMu` is held from
before the start until the statement has returned, so the rows of the object become
visible in the order of their `seq`. -/
namespace Goverse.Object

open Postgres Lib

variable {σ μ : Type}

/-- Where a `ReliableCallObject` call is: before `LockSeqWrite`, before the `INSERT`,
while it runs, before `unlockSeqWrite`, and before `ProcessPendingReliableCalls`. -/
inductive CallerPC where
  | lock (callID methodName : GoString) (requestData : Bytes)
  | insert (callID methodName : GoString) (requestData : Bytes)
  | commit (row : ReliableCall)
  | unlock (rc : Option ReliableCall)
  | process (seq : Int)
  | done
  deriving DecidableEq, Repr

/-- A row that is still pending is processed, a known outcome is returned. -/
def CallerPC.inserted : Option ReliableCall → CallerPC
  | none => done
  | some rc => if rc.status = .pending then process rc.seq else done

/-- The caller holds `seqWriteMu`. -/
def CallerPC.holdsSeqWrite : CallerPC → Bool
  | insert .. | commit _ | unlock _ => true
  | _ => false

/-- `passed` are the calls passed to `processReliableCall`, in order, and `before` those
an earlier activation is known to have passed. -/
structure SeqWrite (σ μ : Type) where
  db : DB
  inst : Instance σ μ
  callers : List CallerPC
  seqWriteMu : Option Nat
  passed : List Int
  before : List Int

namespace SeqWrite

/-- `other` is a row of another object; `nextval` is a value of the sequence that is
drawn elsewhere. `caller self ok` is the next step of a caller, where `ok` says whether
its statement commits. -/
inductive Label where
  | act (action : Action)
  | arrive (callID methodName : GoString) (requestData : Bytes)
  | caller (self : Nat) (ok : Bool)
  | other (row : ReliableCall)
  | nextval
  deriving DecidableEq, Repr

/-- Move caller `self`. -/
def setCaller (s : SeqWrite σ μ) (self : Nat) (pc : CallerPC) : SeqWrite σ μ :=
  { s with callers := s.callers.set self pc }

def callerStep (T : ObjectType σ μ) (s : SeqWrite σ μ) (self : Nat) (ok : Bool) :
    CallerPC → Option (SeqWrite σ μ)
  | .lock callID methodName requestData =>
    match s.seqWriteMu with
    | some _ => none
    | none =>
      some ({ s with seqWriteMu := some self }.setCaller self
        (.insert callID methodName requestData))
  | .insert callID methodName requestData =>
    match DB.checkCall callID s.inst.obj.id T.name methodName with
    | .error _ => some (s.setCaller self (.unlock none))
    | .ok () =>
      let (seq, db) := s.db.nextval
      some ({ s with db := db }.setCaller self
        (.commit (DB.newCall seq callID s.inst.obj.id T.name methodName requestData)))
  | .commit row =>
    match if ok then (s.db.insertCall row).toOption else none with
    | none => some (s.setCaller self (.unlock none))
    | some (rc, db) => some ({ s with db := db }.setCaller self (.unlock (some rc)))
  | .unlock rc =>
    some ({ s with seqWriteMu := none }.setCaller self (.inserted rc))
  | .process seq =>
    (s.inst.step T s.db (.call seq)).map fun out =>
      { s with inst := out.inst }.setCaller self .done
  | .done => none

def step (T : ObjectType σ μ) (s : SeqWrite σ μ) : Label → Option (SeqWrite σ μ)
  | .act action =>
    (s.inst.step T s.db action).map fun out =>
      { s with
        db := out.db
        inst := out.inst
        passed := s.passed ++ (out.event.bind Event.processed).toList }
  | .arrive callID methodName requestData =>
    some { s with callers := s.callers ++ [.lock callID methodName requestData] }
  | .caller self ok => s.callers[self]?.bind (s.callerStep T self ok)
  | .other row =>
    if row.objectID = s.inst.obj.id then none
    else (s.db.insertCall row).toOption.map fun result => { s with db := result.2 }
  | .nextval => some { s with db := s.db.nextval.2 }

/-- The rows that an activation restored with `nextRcseq` does not fetch. -/
def settledRows (db : DB) (id : GoString) (nextRcseq : Int) : List Int :=
  (db.calls.rows.filter fun row =>
    row.objectID = id ∧ (row.seq < nextRcseq ∨ row.status ≠ .pending)).map (·.seq)

/-- The activation has just been restored and no call has reached it yet. -/
def machine (T : ObjectType σ μ) : Machine (SeqWrite σ μ) Label where
  Init s := (∃ id data nextRcseq, s.inst = Instance.start id data nextRcseq) ∧
    s.callers = [] ∧ s.seqWriteMu = none ∧ s.passed = [] ∧
    s.before = settledRows s.db s.inst.obj.id s.inst.obj.nextRcseq ∧
    s.inst.obj.nextRcseq ≤ s.db.lastSeq + 1 ∧
    ∀ row ∈ s.db.calls.rows, row.objectID = s.inst.obj.id → row.seq ≤ s.db.lastSeq
  step := step T

def OneLoop (s : SeqWrite σ μ) : Label → Prop
  | .act action => s.inst.OneLoop action
  | _ => True

instance (s : SeqWrite σ μ) (label : Label) : Decidable (s.OneLoop label) := by
  cases label <;> simp only [OneLoop] <;> infer_instance

/-- Committed rows of the object that have not been passed to `processReliableCall`. -/
def Due (s : SeqWrite σ μ) (seq : Int) : Prop :=
  (∃ row ∈ s.db.calls.rows, row.objectID = s.inst.obj.id ∧ row.seq = seq) ∧
    seq ∉ s.passed ∧ seq ∉ s.before

/-- `last` is the highest `seq` among the rows of the object; the `INSERT` in flight, if
there is one, has drawn a higher one. -/
structure Sequenced (s : SeqWrite σ μ) (last : Int) : Prop where
  mutex : ∀ (i : Nat) (pc : CallerPC), s.callers[i]? = some pc → pc.holdsSeqWrite = true →
    s.seqWriteMu = some i
  inflight : ∀ row, .commit row ∈ s.callers → row.objectID = s.inst.obj.id ∧
    row.status = .pending ∧ last < row.seq ∧ row.seq ≤ s.db.lastSeq
  last_le : last ≤ s.db.lastSeq
  rows_le : ∀ row ∈ s.db.calls.rows, row.objectID = s.inst.obj.id → row.seq ≤ last
  settled : ∀ row ∈ s.db.calls.rows, row.objectID = s.inst.obj.id → row.status ≠ .pending →
    row.seq ∈ s.passed ∨ row.seq ∈ s.before
  processing : ∀ pc ∈ s.inst.loops, ∀ call, pc.processing = some call → call.seq ∈ s.passed
  complete : s.inst.Complete s.Due last
  exclusive : s.inst.Exclusive s.passed

section Sequenced

variable {T : ObjectType σ μ} {s t : SeqWrite σ μ} {last : Int}

theorem sequenced_init (h : (machine T).Init s) : s.Sequenced s.db.lastSeq := by
  obtain ⟨⟨id, data, nextRcseq, hinst⟩, hcallers, -, hpassed, hbefore, hbound, hrows⟩ := h
  have hsettled : ∀ row ∈ s.db.calls.rows, row.objectID = s.inst.obj.id →
      row.seq < s.inst.obj.nextRcseq ∨ row.status ≠ .pending → row.seq ∈ s.before := by
    intro row hrow hid hdone
    rw [hbefore]
    apply List.mem_map_of_mem
    simpa [hrow, hid] using hdone
  refine ⟨by simp [hcallers], by simp [hcallers], le_refl _, hrows, ?_, ?_, ?_, ?_⟩
  · exact fun row hrow hid hdone => .inr (hsettled row hrow hid (.inr hdone))
  · simp [hinst, Instance.start]
  · rw [hinst] at hbound ⊢
    apply Instance.complete_start hbound
    rintro q ⟨⟨row, hrow, hid, rfl⟩, -, hbefore'⟩
    by_contra hlt
    refine hbefore' (hsettled row hrow hid (.inl ?_))
    rw [hinst]
    simpa [Instance.start, BaseObject.onInit] using hlt
  · rw [hpassed, hinst]
    exact Instance.exclusive_start id data nextRcseq

private theorem due_of_act {action : Action} {out : Outcome σ μ}
    (hstep : s.inst.step T s.db action = some out) {q : Int}
    (h : ({ s with
        db := out.db
        inst := out.inst
        passed := s.passed ++ (out.event.bind Event.processed).toList } : SeqWrite σ μ).Due q) :
    s.Due q := by
  obtain ⟨⟨row, hrow, hid, rfl⟩, hpassed, hbefore⟩ := h
  obtain ⟨old, hold, hseq, hobject, -⟩ := Instance.step_rows hstep hrow
  refine ⟨⟨old, hold, ?_, hseq⟩, ?_, hbefore⟩
  · rw [hobject, hid]
    exact Instance.step_id hstep
  · exact fun hmem => hpassed (List.mem_append_left _ hmem)

theorem Sequenced.settled_act (h : s.Sequenced last) {action : Action} {out : Outcome σ μ}
    (hstep : s.inst.step T s.db action = some out) :
    ∀ row ∈ out.db.calls.rows, row.objectID = s.inst.obj.id → row.status ≠ .pending →
      row.seq ∈ s.passed ∨ row.seq ∈ s.before := by
  intro row hrow hid hdone
  cases Instance.step_effect hstep with
  | quiet hdb | invoke _ _ _ _ hdb | finish _ _ _ _ _ hdb =>
    rw [hdb] at hrow
    exact h.settled row hrow hid hdone
  | save hmay hsaved hobj hevent =>
    obtain ⟨data, -, hcalls, -, -⟩ := BaseObject.saveLocked_ok hsaved
    rw [hcalls] at hrow
    exact h.settled row hrow hid hdone
  | update self call rest final haction hpc hupdated hobj hevent =>
    rw [(DB.updateReliableCallStatus_ok hupdated).2.2] at hrow
    obtain ⟨old, hold, rfl⟩ := List.mem_map.mp hrow
    rw [CallTable.finish_objectID] at hid
    rw [CallTable.finish_seq]
    by_cases hseq : old.seq = call.seq
    · rw [hseq]
      exact .inl (h.processing _ (List.mem_of_getElem? hpc) call rfl)
    · rw [CallTable.finish, if_neg hseq] at hdone
      exact h.settled old hold hid hdone

theorem Sequenced.processing_act (h : s.Sequenced last) {action : Action} {out : Outcome σ μ}
    (hstep : s.inst.step T s.db action = some out) :
    ∀ pc ∈ out.inst.loops, ∀ call, pc.processing = some call →
      call.seq ∈ s.passed ++ (out.event.bind Event.processed).toList := by
  intro p hp call hcall
  cases Instance.step_cases hstep with
  | loop self ok pc mv haction hpc hmv hout =>
    subst hout
    rcases eq_or_mem_of_mem_set hp with rfl | hj
    · rcases loopStep_processing hmv hcall with hold | ⟨-, hevent⟩
      · exact List.mem_append_left _ (h.processing pc (List.mem_of_getElem? hpc) call hold)
      · simp [hevent, Event.processed]
    · exact List.mem_append_left _ (h.processing p hj call hcall)
  | save saved haction hfree hsaved hout =>
    subst hout
    exact List.mem_append_left _ (h.processing p hp call hcall)
  | quiet hdb hevent hid hdata hseq hmu hcancelled hloops =>
    rcases Instance.mem_loops_cases hloops hp
      with hp | rfl
    · exact List.mem_append_left _ (h.processing p hp call hcall)
    · cases hcall

theorem Sequenced.act (h : s.Sequenced last) {action : Action} {out : Outcome σ μ}
    (hone : s.inst.OneLoop action) (hstep : s.inst.step T s.db action = some out) :
    ({ s with
        db := out.db
        inst := out.inst
        passed := s.passed ++ (out.event.bind Event.processed).toList } :
      SeqWrite σ μ).Sequenced last := by
  have hid := Instance.step_id hstep
  have hlast := Instance.step_lastSeq hstep
  refine ⟨h.mutex, ?_, ?_, ?_, ?_, h.processing_act hstep, ?_, h.exclusive.step hone hstep⟩
  · dsimp only
    rw [hid, hlast]
    exact h.inflight
  · dsimp only
    rw [hlast]
    exact h.last_le
  · intro row hrow hobject
    obtain ⟨old, hold, hseq, hsame, -⟩ := Instance.step_rows hstep hrow
    rw [← hseq]
    exact h.rows_le old hold (hsame.trans (hobject.trans hid))
  · intro row hrow hobject hdone
    exact (h.settled_act hstep row hrow (hobject.trans hid) hdone).imp_left
      (List.mem_append_left _)
  · refine h.complete.step hstep h.rows_le (fun q => due_of_act hstep) ?_ ?_
    · rintro q n ⟨⟨row, hrow, hobject, rfl⟩, hpassed, hbefore⟩ hle
      have hpending : row.status = .pending := by
        by_contra hdone
        rcases h.settled row hrow hobject hdone with hmem | hmem
        · exact hpassed hmem
        · exact hbefore hmem
      exact List.mem_map_of_mem
        (CallTable.mem_pendingFrom.mpr ⟨hrow, hobject, hle, hpending⟩)
    · rintro self ok call rest final - hpc q ⟨-, hpassed, -⟩ rfl
      exact hpassed (List.mem_append_left _
        (h.processing _ (List.mem_of_getElem? hpc) call rfl))

theorem Sequenced.grow (h : s.Sequenced last) {db : DB} {last' : Int} (hle : last ≤ last')
    (hlast : last' ≤ db.lastSeq)
    (hinflight : ∀ row, .commit row ∈ s.callers → last' < row.seq ∧ row.seq ≤ db.lastSeq)
    (hrows : ∀ row ∈ db.calls.rows, row.objectID = s.inst.obj.id →
      row ∈ s.db.calls.rows ∨ (row.status = .pending ∧ last < row.seq ∧ row.seq ≤ last')) :
    ({ s with db := db } : SeqWrite σ μ).Sequenced last' := by
  refine ⟨h.mutex, ?_, hlast, ?_, ?_, h.processing, h.complete.grow hle ?_, h.exclusive⟩
  · intro row hrow
    obtain ⟨hid, hstatus, -, -⟩ := h.inflight row hrow
    exact ⟨hid, hstatus, hinflight row hrow⟩
  · intro row hrow hid
    rcases hrows row hrow hid with hold | ⟨-, -, hnew⟩
    · exact le_trans (h.rows_le row hold hid) hle
    · exact hnew
  · intro row hrow hid hdone
    rcases hrows row hrow hid with hold | ⟨hpending, -, -⟩
    · exact h.settled row hold hid hdone
    · exact absurd hpending hdone
  · rintro q ⟨⟨row, hrow, hid, rfl⟩, hpassed, hbefore⟩
    rcases hrows row hrow hid with hold | ⟨-, hnew, -⟩
    · exact .inl ⟨⟨row, hold, hid, rfl⟩, hpassed, hbefore⟩
    · exact .inr hnew

theorem Sequenced.setCaller (h : s.Sequenced last) {self : Nat} {pc pc' : CallerPC}
    {mu : Option Nat} (hself : s.callers[self]? = some pc)
    (hpc' : pc'.holdsSeqWrite = true → mu = some self)
    (hmu : mu = s.seqWriteMu ∨ s.seqWriteMu = none ∨ pc.holdsSeqWrite = true)
    (hcommit : ∀ row, pc' ≠ .commit row) :
    ({ s with seqWriteMu := mu }.setCaller self pc' : SeqWrite σ μ).Sequenced last := by
  refine ⟨?_, ?_, h.last_le, h.rows_le, h.settled, h.processing, h.complete, h.exclusive⟩
  · intro i other hi hother
    rcases getElem?_set_cases hi with ⟨rfl, rfl⟩ | ⟨hne, hi⟩
    · exact hpc' hother
    · have hheld := h.mutex i other hi hother
      rcases hmu with rfl | hfree | hholds
      · exact hheld
      · rw [hfree] at hheld
        contradiction
      · rw [h.mutex self pc hself hholds] at hheld
        exact absurd (Option.some.inj hheld).symm hne
  · intro row hrow
    rcases eq_or_mem_of_mem_set hrow with heq | hj
    · exact absurd heq.symm (hcommit row)
    · exact h.inflight row hj

theorem Sequenced.startInsert (h : s.Sequenced last) {self : Nat} {pc : CallerPC}
    (hself : s.callers[self]? = some pc) (hholds : pc.holdsSeqWrite = true)
    {row : ReliableCall} (hid : row.objectID = s.inst.obj.id) (hstatus : row.status = .pending)
    (hseq : row.seq = s.db.lastSeq + 1) :
    ({ s with db := s.db.nextval.2 }.setCaller self (.commit row) :
      SeqWrite σ μ).Sequenced last := by
  have hlast := h.last_le
  have hgrow : ({ s with db := s.db.nextval.2 } : SeqWrite σ μ).Sequenced last := by
    refine h.grow (le_refl _) (by simp only [DB.nextval]; omega) ?_ fun row hrow _ => .inl hrow
    intro row hrow
    obtain ⟨-, -, hlow, hhigh⟩ := h.inflight row hrow
    exact ⟨hlow, by simp only [DB.nextval]; omega⟩
  refine ⟨?_, ?_, hgrow.last_le, h.rows_le, h.settled, h.processing, h.complete, h.exclusive⟩
  · intro i other hi hother
    rcases getElem?_set_cases hi with ⟨rfl, rfl⟩ | ⟨-, hi⟩
    · exact h.mutex i pc hself hholds
    · exact h.mutex i other hi hother
  · intro other hother
    rcases eq_or_mem_of_mem_set hother with heq | hj
    · cases heq
      exact ⟨hid, hstatus, by omega, le_of_eq hseq⟩
    · exact hgrow.inflight other hj

/-- The `INSERT` commits: its row is the highest of the object, and no other `INSERT` is
in flight. -/
theorem Sequenced.commit (h : s.Sequenced last) {self : Nat} {row rc : ReliableCall} {db : DB}
    (hself : s.callers[self]? = some (.commit row)) (hinsert : s.db.insertCall row = .ok (rc, db)) :
    ∃ last', ({ s with db := db }.setCaller self (.unlock (some rc)) :
      SeqWrite σ μ).Sequenced last' := by
  obtain ⟨hobjects, hlast, hcases⟩ := DB.insertCall_ok hinsert
  obtain ⟨hid, hstatus, hlow, hhigh⟩ := h.inflight row (List.mem_of_getElem? hself)
  have hmoved : (s.setCaller self (.unlock (some rc))).Sequenced last :=
    h.setCaller hself (fun _ => h.mutex self _ hself rfl) (.inl rfl) nofun
  have hnone : ∀ other, .commit other ∉ (s.setCaller self (.unlock (some rc))).callers := by
    intro other hother
    rcases mem_set_cases hother with heq | ⟨j, hne, hj⟩
    · cases heq
    · have hj' := h.mutex j _ hj rfl
      rw [h.mutex self _ hself rfl] at hj'
      exact hne (Option.some.inj hj').symm
  rcases hcases with ⟨-, -, hcalls⟩ | ⟨-, -, -, hrows⟩
  · refine ⟨last, hmoved.grow (le_refl _) (by rw [hlast]; exact h.last_le) ?_ ?_⟩
    · exact fun other hother => absurd hother (hnone other)
    · intro other hother _
      rw [hcalls] at hother
      exact .inl hother
  · refine ⟨row.seq, hmoved.grow (le_of_lt hlow) (by rw [hlast]; exact hhigh) ?_ ?_⟩
    · exact fun other hother => absurd hother (hnone other)
    · intro other hother _
      rw [hrows] at hother
      rcases mem_concat_cases hother with hold | rfl
      · exact .inl hold
      · exact .inr ⟨hstatus, hlow, le_refl _⟩

theorem Sequenced.caller (h : s.Sequenced last) {self : Nat} {ok : Bool} {pc : CallerPC}
    (hself : s.callers[self]? = some pc) (hstep : s.callerStep T self ok pc = some t) :
    ∃ last', t.Sequenced last' := by
  have hheld : pc.holdsSeqWrite = true → s.seqWriteMu = some self := h.mutex self pc hself
  cases pc with
  | lock callID methodName requestData =>
    simp only [callerStep] at hstep
    split at hstep
    · contradiction
    · rename_i hfree
      cases hstep
      exact ⟨last, h.setCaller hself (fun _ => rfl) (.inr (.inl hfree)) (by simp)⟩
  | insert callID methodName requestData =>
    simp only [callerStep] at hstep
    split at hstep
    · cases hstep
      exact ⟨last, h.setCaller hself (fun _ => hheld rfl) (.inl rfl) (by simp)⟩
    · cases hstep
      exact ⟨last, h.startInsert hself rfl rfl rfl rfl⟩
  | commit row =>
    simp only [callerStep] at hstep
    split at hstep
    · cases hstep
      exact ⟨last, h.setCaller hself (fun _ => hheld rfl) (.inl rfl) (by simp)⟩
    · rename_i rc db hinsert
      cases hstep
      exact h.commit hself (toOption_eq_some hinsert).2
  | unlock rc =>
    cases hstep
    refine ⟨last, h.setCaller hself ?_ (.inr (.inr rfl)) ?_⟩
    · intro hholds
      cases rc with
      | none => contradiction
      | some rc =>
        simp only [CallerPC.inserted] at hholds
        split at hholds <;> contradiction
    · intro row hrow
      cases rc with
      | none => contradiction
      | some rc =>
        simp only [CallerPC.inserted] at hrow
        split at hrow <;> contradiction
  | process seq =>
    obtain ⟨out, hout, rfl⟩ := Option.map_eq_some_iff.mp hstep
    have hone : s.inst.OneLoop (.call seq) := fun hstarts => hstarts.elim
    have hact := h.act hone hout
    have hquiet : out.db = s.db ∧ out.event = none := by
      simp only [Instance.step] at hout
      split at hout <;> cases hout <;> exact ⟨rfl, rfl⟩
    rw [hquiet.1, hquiet.2] at hact
    simp only [Option.bind_none, Option.toList_none, List.append_nil] at hact
    refine ⟨last, hact.setCaller hself (fun hholds => ?_) (.inl rfl) (by simp)⟩
    contradiction
  | done => cases hstep

theorem Sequenced.step (h : s.Sequenced last) {label : Label} (hone : s.OneLoop label)
    (hstep : (machine T).step s label = some t) : ∃ last', t.Sequenced last' := by
  cases label with
  | act action =>
    obtain ⟨out, hout, rfl⟩ := Option.map_eq_some_iff.mp hstep
    exact ⟨last, h.act hone hout⟩
  | arrive callID methodName requestData =>
    cases hstep
    refine ⟨last, ?_, ?_, h.last_le, h.rows_le, h.settled, h.processing, h.complete,
      h.exclusive⟩
    · intro i pc hi hpc
      rcases getElem?_concat_cases hi with ⟨-, rfl⟩ | hi
      · contradiction
      · exact h.mutex i pc hi hpc
    · intro row hrow
      exact h.inflight row (by simpa using hrow)
  | caller self ok =>
    obtain ⟨pc, hself, hpc⟩ := Option.bind_eq_some_iff.mp hstep
    exact h.caller hself hpc
  | other row =>
    simp only [machine, SeqWrite.step] at hstep
    split at hstep
    · contradiction
    · rename_i hne
      obtain ⟨result, hresult, rfl⟩ := Option.map_eq_some_iff.mp hstep
      obtain ⟨-, hlast, hcases⟩ := DB.insertCall_ok (eq_ok_of_toOption hresult)
      refine ⟨last, h.grow (le_refl _) (by rw [hlast]; exact h.last_le) ?_ ?_⟩
      · intro other hother
        rw [hlast]
        exact (h.inflight other hother).2.2
      · intro other hother hid
        rcases hcases with ⟨-, -, hcalls⟩ | ⟨-, -, -, hrows⟩
        · rw [hcalls] at hother
          exact .inl hother
        · rw [hrows] at hother
          rcases List.mem_append.mp hother with hold | hnew
          · exact .inl hold
          · rw [List.mem_singleton.mp hnew] at hid
            exact absurd hid hne
  | nextval =>
    cases hstep
    have hlast := h.last_le
    refine ⟨last, h.grow (le_refl _) (by simp only [DB.nextval]; omega) ?_
      fun row hrow _ => .inl hrow⟩
    intro row hrow
    obtain ⟨-, -, hlow, hhigh⟩ := h.inflight row hrow
    exact ⟨hlow, by simp only [DB.nextval]; omega⟩

/-- From `s` on, `nextRcseq` moves forward, and new rows of the object are not below it. -/
structure Follows (s t : SeqWrite σ μ) : Prop where
  seq_le : s.inst.obj.nextRcseq ≤ t.inst.obj.nextRcseq
  id_eq : t.inst.obj.id = s.inst.obj.id
  rows : ∀ row ∈ t.db.calls.rows, row.objectID = s.inst.obj.id →
    (∃ old ∈ s.db.calls.rows, old.seq = row.seq ∧ old.objectID = row.objectID ∧
      old.callID = row.callID) ∨ s.inst.obj.nextRcseq ≤ row.seq

theorem Follows.refl (s : SeqWrite σ μ) : Follows s s :=
  ⟨le_refl _, rfl, fun row hrow _ => .inl ⟨row, hrow, rfl, rfl, rfl⟩⟩

theorem Follows.trans {u : SeqWrite σ μ} (first : Follows s t) (second : Follows t u) :
    Follows s u := by
  refine ⟨le_trans first.seq_le second.seq_le, second.id_eq.trans first.id_eq, ?_⟩
  intro row hrow hid
  rcases second.rows row hrow (hid.trans first.id_eq.symm) with
    ⟨mid, hmid, hseq, hobject, hcall⟩ | hnew
  · rcases first.rows mid hmid (hobject.trans hid) with ⟨old, hold, hseq', hobject', hcall'⟩ | hnew
    · exact .inl ⟨old, hold, hseq'.trans hseq, hobject'.trans hobject, hcall'.trans hcall⟩
    · exact .inr (hseq ▸ hnew)
  · exact .inr (le_trans first.seq_le hnew)

theorem Follows.of_rows (hobj : t.inst.obj = s.inst.obj)
    (hrows : ∀ row ∈ t.db.calls.rows, row.objectID = s.inst.obj.id →
      row ∈ s.db.calls.rows ∨ s.inst.obj.nextRcseq ≤ row.seq) : Follows s t := by
  refine ⟨by rw [hobj], by rw [hobj], fun row hrow hid => ?_⟩
  exact (hrows row hrow hid).imp_left fun hold => ⟨row, hold, rfl, rfl, rfl⟩

theorem Sequenced.follows_caller (h : s.Sequenced last) {self : Nat} {ok : Bool}
    {pc : CallerPC} (hself : s.callers[self]? = some pc)
    (hstep : s.callerStep T self ok pc = some t) : Follows s t := by
  cases pc with
  | lock callID methodName requestData =>
    simp only [callerStep] at hstep
    split at hstep
    · contradiction
    · cases hstep
      exact .of_rows rfl fun row hrow _ => .inl hrow
  | insert callID methodName requestData =>
    simp only [callerStep] at hstep
    split at hstep <;> cases hstep <;> exact .of_rows rfl fun row hrow _ => .inl hrow
  | commit row =>
    simp only [callerStep] at hstep
    split at hstep
    · cases hstep
      exact .of_rows rfl fun row hrow _ => .inl hrow
    · rename_i rc db hinsert
      cases hstep
      obtain ⟨-, -, hlow, -⟩ := h.inflight row (List.mem_of_getElem? hself)
      have hbound := h.complete.bound
      obtain ⟨-, -, ⟨-, -, hcalls⟩ | ⟨-, -, -, hrows⟩⟩ :=
        DB.insertCall_ok (toOption_eq_some hinsert).2
      · exact .of_rows rfl fun other hother _ => .inl (hcalls ▸ hother)
      · refine .of_rows rfl fun other hother _ => ?_
        have hother' : other ∈ s.db.calls.rows ++ [row] := hrows ▸ hother
        rcases mem_concat_cases hother' with hold | rfl
        · exact .inl hold
        · exact .inr (by omega)
  | unlock rc =>
    cases hstep
    exact .of_rows rfl fun row hrow _ => .inl hrow
  | process seq =>
    obtain ⟨out, hout, rfl⟩ := Option.map_eq_some_iff.mp hstep
    simp only [Instance.step] at hout
    split at hout <;> cases hout <;> exact .of_rows rfl fun row hrow _ => .inl hrow
  | done => cases hstep

theorem Sequenced.follows (h : s.Sequenced last) {label : Label}
    (hstep : (machine T).step s label = some t) : Follows s t := by
  cases label with
  | act action =>
    obtain ⟨out, hout, rfl⟩ := Option.map_eq_some_iff.mp hstep
    exact ⟨h.exclusive.nextRcseq_le hout, Instance.step_id hout,
      fun row hrow _ => .inl (Instance.step_rows hout hrow)⟩
  | arrive callID methodName requestData =>
    cases hstep
    exact .of_rows rfl fun row hrow _ => .inl hrow
  | caller self ok =>
    obtain ⟨pc, hself, hpc⟩ := Option.bind_eq_some_iff.mp hstep
    exact h.follows_caller hself hpc
  | other row =>
    simp only [machine, SeqWrite.step] at hstep
    split at hstep
    · contradiction
    · rename_i hne
      obtain ⟨result, hresult, rfl⟩ := Option.map_eq_some_iff.mp hstep
      refine .of_rows rfl fun other hother hid => .inl ?_
      obtain ⟨-, -, ⟨-, -, hcalls⟩ | ⟨-, -, -, hrows⟩⟩ :=
        DB.insertCall_ok (eq_ok_of_toOption hresult)
      · exact hcalls ▸ hother
      · have hother' : other ∈ s.db.calls.rows ++ [row] := hrows ▸ hother
        rcases List.mem_append.mp hother' with hold | hnew
        · exact hold
        · rw [List.mem_singleton.mp hnew] at hid
          exact absurd hid hne
  | nextval =>
    cases hstep
    exact .of_rows rfl fun row hrow _ => .inl hrow

end Sequenced

/-- When `nextRcseq` becomes `q + 1`, every row of the object up to `q` that any later
state has is already there and has been passed to `processReliableCall`, in increasing
order. -/
theorem no_reliable_call_skipped (T : ObjectType σ μ) {s t u : SeqWrite σ μ} {label : Label}
    {ls : List Label} {q : Int} (hs : (machine T).Reachable OneLoop s)
    (hone : s.OneLoop label) (hstep : (machine T).step s label = some t)
    (hadvance : s.inst.obj.nextRcseq ≠ q + 1 ∧ t.inst.obj.nextRcseq = q + 1)
    (hrun : (machine T).Steps OneLoop t ls u) :
    t.passed.Pairwise (· < ·) ∧
      ∀ row ∈ u.db.calls.rows, row.objectID = t.inst.obj.id → row.seq ≤ q →
        (∃ old ∈ t.db.calls.rows, old.seq = row.seq ∧ old.objectID = row.objectID ∧
          old.callID = row.callID) ∧
        (row.seq ∈ t.passed ∨ row.seq ∈ t.before) := by
  have ht : ∃ last, t.Sequenced last :=
    (hs.steps (Machine.Steps.single hone hstep)).invariant
      (I := fun s => ∃ last, s.Sequenced last) (fun hinit => ⟨_, sequenced_init hinit⟩)
      fun ⟨_, hlast⟩ hl hst => hlast.step hl hst
  have hfollows : Follows t u :=
    hrun.relates (I := fun s => ∃ last, s.Sequenced last) Follows.refl Follows.trans
      (fun ⟨_, hlast⟩ hl hst => hlast.step hl hst) (fun ⟨_, hlast⟩ _ hst => hlast.follows hst) ht
  obtain ⟨last, hlast⟩ := ht
  refine ⟨hlast.exclusive.increasing, fun row hrow hid hle => ?_⟩
  rcases hfollows.rows row hrow hid with ⟨old, hold, hseq, hobject, hcall⟩ | hnew
  · refine ⟨⟨old, hold, hseq, hobject, hcall⟩, ?_⟩
    by_contra hnot
    have hdue : t.Due row.seq :=
      ⟨⟨old, hold, hobject.trans hid, hseq⟩, fun hp => hnot (.inl hp), fun hb => hnot (.inr hb)⟩
    have := hlast.complete.watermark row.seq hdue
    omega
  · omega

def tallyStart : SeqWrite Bytes Bytes :=
  ⟨DB.empty, Instance.start (lit "o") [] 0, [], none, [], []⟩

theorem tallyStart_init : (machine tally).Init tallyStart :=
  ⟨⟨lit "o", [], 0, rfl⟩, rfl, rfl, rfl, rfl, by decide, by decide⟩

/-- Call 1 is about to be finalized while the `INSERT` of call 2 is in flight. -/
def inFlight : List Label :=
  [.arrive [1] (lit "Add") [1], .arrive [2] (lit "Add") [2]] ++
    List.replicate 4 (.caller 0 true) ++ List.replicate 2 (.caller 1 true) ++
    [.act .ensure] ++ List.replicate 10 (.act (.loop 0 true))

theorem no_reliable_call_skipped_inFlight :
    ∃ s t u, (machine tally).Steps OneLoop tallyStart inFlight s ∧
      (machine tally).step s (.act (.loop 0 true)) = some t ∧ t.inst.obj.nextRcseq = 1 + 1 ∧
      (machine tally).Steps OneLoop t [.caller 1 true] u ∧
      u.db.calls.rows.map (·.seq) = [1, 2] ∧
      (t.passed.Pairwise (· < ·) ∧
        ∀ row ∈ u.db.calls.rows, row.objectID = t.inst.obj.id → row.seq ≤ 1 →
          (∃ old ∈ t.db.calls.rows, old.seq = row.seq ∧ old.objectID = row.objectID ∧
            old.callID = row.callID) ∧
          (row.seq ∈ t.passed ∨ row.seq ∈ t.before)) := by
  have hrun : ((machine tally).exec OneLoop tallyStart inFlight).any (fun s =>
      ((machine tally).step s (.act (.loop 0 true))).any fun t =>
        decide (s.OneLoop (.act (.loop 0 true)) ∧ s.inst.obj.nextRcseq ≠ 1 + 1 ∧
          t.inst.obj.nextRcseq = 1 + 1) &&
        ((machine tally).exec OneLoop t [.caller 1 true]).any fun u =>
          decide (u.db.calls.rows.map (·.seq) = [1, 2])) = true := by
    decide
  obtain ⟨s, hs, hmid⟩ := Machine.exec_any hrun
  obtain ⟨t, ht, hlast⟩ := Option.any_eq_true _ _ |>.mp hmid
  obtain ⟨hguard, hrest⟩ := Bool.and_eq_true_iff.mp hlast
  obtain ⟨u, hu, hrows⟩ := Machine.exec_any hrest
  obtain ⟨hone, hbefore, hafter⟩ := of_decide_eq_true hguard
  exact ⟨s, t, u, hs, ht, hafter, hu, of_decide_eq_true hrows,
    no_reliable_call_skipped tally ((Machine.Reachable.init tallyStart_init).steps hs) hone ht
      ⟨hbefore, hafter⟩ hu⟩

end SeqWrite
end Goverse.Object
