import Goverse.Object.Identity
import Goverse.Server.Traffic

/-! Whose outcome `ReliableCallObject` returns. The row of a call is found by the ID that the
caller chose: `InsertOrGetReliableCall` returns the row that has it, and nothing compares the
object, the type or the method of that row with those of the request. -/
namespace Goverse.Server

open Postgres Lib Object Consensus Cluster AccessControl
open Node (Creation)

variable {σ μ : Type}

/-- The row is of a call of this method of this object. -/
structure Addresses (req : Request) (row : ReliableCall) : Prop where
  objectID : row.objectID = req.objectID
  objectType : row.objectType = req.objectType
  methodName : row.methodName = req.methodName

instance (req : Request) (row : ReliableCall) : Decidable (Addresses req row) :=
  decidable_of_iff (row.objectID = req.objectID ∧ row.objectType = req.objectType ∧
    row.methodName = req.methodName)
    ⟨fun h => ⟨h.1, h.2.1, h.2.2⟩, fun h => ⟨h.objectID, h.objectType, h.methodName⟩⟩

/-- The row with the number `seq` is of a call of this method of this object. -/
def StoredFor (req : Request) (db : DB) (seq : Int) : Prop :=
  ∃ row ∈ db.calls.rows, row.seq = seq ∧ Addresses req row

theorem StoredFor.mono {req : Request} {db next : DB} {seq : Int} (h : StoredFor req db seq)
    (hkeeps : Keeps db next) : StoredFor req next seq := by
  obtain ⟨row, hrow, hseq, haddresses⟩ := h
  obtain ⟨kept, hkept, hasked⟩ := hkeeps row hrow
  obtain ⟨hkeptSeq, -, hid, htype, hmethod, -⟩ := ReliableCall.eq_of_asked hasked
  exact ⟨kept, hkept, hkeptSeq.trans hseq, hid.trans haddresses.objectID,
    htype.trans haddresses.objectType, hmethod.trans haddresses.methodName⟩

/-- What an attempt remembers is about its own request. -/
def Remembers (req : Request) (db : DB) (insts : List (Instance σ μ)) : AttemptPC → Prop
  | .commit _ row => row.callID = req.callID ∧ Addresses req row
  | .unlockSeqWrite _ (.ok call) | .checkStatus _ call | .finish call =>
    StoredFor req db call.seq
  | .process _ seq | .register _ seq | .poll seq _ => StoredFor req db seq
  | .pause seq _ call => StoredFor req db seq ∧ StoredFor req db call.seq
  | .receive k seq ch =>
    StoredFor req db seq ∧ ∃ inst, insts[k]? = some inst ∧ inst.Promises ch seq
  | _ => True

theorem remembers_of_blank {req : Request} {db : DB} {insts : List (Instance σ μ)}
    {pc : AttemptPC} (h : pc.blank = true) : Remembers req db insts pc := by
  cases pc with
  | unlockSeqWrite k result =>
    cases result with
    | error => trivial
    | ok => contradiction
  | validate | ownership | stopped | checkParameters | provider | create | find | lockSeqWrite
  | serialize | insert | refuse | lost => trivial
  | _ => contradiction

namespace Traffic

/-- The ID of a call that is inserted is new, or that of a call of the same method of the same
object. -/
def OneObjectPerCallID (s : Traffic σ μ) : Label μ → Prop
  | .handler i _ => ∀ h ∈ s.handlers[i]?, ∀ row ∈ h.job.inserts, ∀ stored ∈ s.db.calls.rows,
      stored.callID = row.callID → stored.objectID = row.objectID ∧
        stored.objectType = row.objectType ∧ stored.methodName = row.methodName
  | _ => True

instance (s : Traffic σ μ) : (label : Label μ) → Decidable (s.OneObjectPerCallID label)
  | .handler i _ => inferInstanceAs (Decidable (∀ h ∈ s.handlers[i]?, _))
  | .client _ _ _ | .rpc _ _ | .direct _ _ | .act _ _ | .evict _ _ | .deleteObject _ | .stop _
  | .view _ _ => isTrue trivial

/-- An outcome was read from a row of the call that was asked for. -/
def Honoured (db : DB) (entry : Reported) : Prop :=
  entry.answer.status = .success ∨ entry.answer.status = .failed →
    ∃ call, entry.source = some call ∧ StoredFor entry.req db call.seq

/-- The activations report what is in the store, and the handlers remember it. -/
structure Addressed (s : Traffic σ μ) : Prop where
  aligned : s.Aligned
  reports : ∀ (k : Nat) (place : Place σ μ) (inst : Instance σ μ), s.places[k]? = some place →
    s.insts[k]? = some inst → inst.Reports place.type s.db
  handlers : ∀ h ∈ s.handlers, ∀ req pc, h.job = .reliable req pc → Remembers req s.db s.insts pc
  reported : ∀ entry ∈ s.reported, Honoured s.db entry

/-- What any step does to the rows, the reports and the channels. -/
structure Evolves (s t : Traffic σ μ) : Prop where
  rows : Keeps s.db t.db
  reports : ∀ (k : Nat) (place : Place σ μ) (inst : Instance σ μ), t.places[k]? = some place →
    t.insts[k]? = some inst → inst.Reports place.type t.db
  promises : ∀ (k : Nat) (inst : Instance σ μ), s.insts[k]? = some inst →
    ∃ next, t.insts[k]? = some next ∧ ∀ ch seq, inst.Promises ch seq → next.Promises ch seq

section Evolution

variable {d : Deployment σ μ} {s t : Traffic σ μ} {label : Label μ}

theorem Evolves.remembers (h : Evolves s t) {req : Request} {pc : AttemptPC}
    (hpc : Remembers req s.db s.insts pc) : Remembers req t.db t.insts pc := by
  cases pc with
  | unlockSeqWrite k result =>
    cases result with
    | error => trivial
    | ok => exact StoredFor.mono hpc h.rows
  | commit => exact hpc
  | checkStatus | finish | process | register | poll => exact StoredFor.mono hpc h.rows
  | pause => exact ⟨hpc.1.mono h.rows, hpc.2.mono h.rows⟩
  | receive k seq ch =>
    obtain ⟨hstored, inst, hk, hpromises⟩ := hpc
    obtain ⟨next, hnext, hkept⟩ := h.promises k inst hk
    exact ⟨hstored.mono h.rows, next, hnext, hkept ch seq hpromises⟩
  | _ => trivial

theorem Honoured.mono {db next : DB} {entry : Reported} (h : Honoured db entry)
    (hkeeps : Keeps db next) : Honoured next entry := by
  intro hstatus
  obtain ⟨call, hsource, hstored⟩ := h hstatus
  exact ⟨call, hsource, hstored.mono hkeeps⟩

variable (hs : s.Addressed)
include hs

theorem Addressed.place {k : Nat} {inst : Instance σ μ} (hk : s.insts[k]? = some inst) :
    ∃ place, s.places[k]? = some place ∧ inst.Reports place.type s.db := by
  have hlt : k < s.places.length := by
    rw [hs.aligned.length]
    exact (List.getElem?_eq_some_iff.mp hk).1
  have hplace : s.places[k]? = some s.places[k] := List.getElem?_eq_getElem hlt
  exact ⟨_, hplace, hs.reports k _ inst hplace hk⟩

theorem Addressed.evolves_same (hrows : Keeps s.db t.db) (hinsts : t.insts = s.insts)
    (hplaces : t.places = s.places) : Evolves s t := by
  refine ⟨hrows, fun k place inst hplace hk => ?_, fun k inst hk => ?_⟩
  · rw [hplaces] at hplace
    rw [hinsts] at hk
    exact (hs.reports k place inst hplace hk).mono hrows.extends
  · rw [hinsts]
    exact ⟨inst, hk, fun _ _ => id⟩

theorem Addressed.evolves_set {k : Nat} {inst new : Instance σ μ} (hk : s.insts[k]? = some inst)
    (hrows : Keeps s.db t.db) (hinsts : t.insts = s.insts.set k new)
    (hplaces : t.places = s.places)
    (hnew : ∀ place, s.places[k]? = some place → new.Reports place.type t.db)
    (hkept : ∀ ch seq, inst.Promises ch seq → new.Promises ch seq) : Evolves s t := by
  refine ⟨hrows, fun j place other hplace hj => ?_, fun j other hj => ?_⟩
  · rw [hplaces] at hplace
    rw [hinsts] at hj
    rcases getElem?_set_cases hj with ⟨rfl, rfl⟩ | ⟨-, hold⟩
    · exact hnew place hplace
    · exact (hs.reports j place other hplace hold).mono hrows.extends
  · rw [hinsts]
    by_cases hjk : k = j
    · subst hjk
      rw [hk] at hj
      cases hj
      exact ⟨new, getElem?_set_same hk, hkept⟩
    · exact ⟨other, by rwa [List.getElem?_set_ne hjk], fun _ _ => id⟩

omit hs in
private theorem reports_activation (T : ObjectType σ μ) (db : DB) (node id : GoString) (data : σ)
    (nextRcseq : Int) : (activation d node id data nextRcseq : Instance σ μ).Reports T db := by
  unfold activation
  split
  · exact (Instance.reports_start id data nextRcseq).quiet (fun pc => Instance.mem_spawn_loops)
      (.inl ⟨rfl, rfl⟩)
  · exact Instance.reports_start id data nextRcseq

theorem Addressed.evolves_activate {node id : GoString} {T : ObjectType σ μ} {data : σ}
    {nextRcseq : Int} (hdb : t.db = s.db)
    (hinsts : t.insts = s.insts ++ [activation d node id data nextRcseq])
    (hplaces : t.places = s.places ++ [⟨node, T⟩]) : Evolves s t := by
  refine ⟨keeps_of_calls (by rw [hdb]), fun k place inst hplace hk => ?_, fun k inst hk => ?_⟩
  · rw [hinsts] at hk
    rw [hplaces] at hplace
    rw [hdb]
    rcases getElem?_concat_cases hk with ⟨-, rfl⟩ | hold
    · exact reports_activation _ _ _ _ _ _
    · have hlt : k < s.places.length := by
        rw [hs.aligned.length]
        exact (List.getElem?_eq_some_iff.mp hold).1
      rw [List.getElem?_append_left hlt] at hplace
      exact hs.reports k place inst hplace hold
  · rw [hinsts, List.getElem?_append_left (List.getElem?_eq_some_iff.mp hk).1]
    exact ⟨inst, hk, fun _ _ hpromises => hpromises⟩

theorem Addressed.evolves (hchange : Change d s label t) : Evolves s t := by
  cases hchange with
  | same hcalls hinsts hplaces => exact hs.evolves_same (keeps_of_calls hcalls) hinsts hplaces
  | insert _ _ _ hinsert hinsts hplaces =>
    exact hs.evolves_same (keeps_insertCall hinsert) hinsts hplaces
  | activate _ _ _ _ hdb hinsts hplaces => exact hs.evolves_activate hdb hinsts hplaces
  | quiet hk hinsts _ hloops hmail hdb hplaces =>
    refine hs.evolves_set hk (keeps_of_calls (by rw [hdb])) hinsts hplaces
      (fun place hplace => ?_) fun ch seq hpromises => hpromises.quiet hloops hmail
    rw [hdb]
    exact (hs.reports _ place _ hplace hk).quiet hloops hmail
  | act hplace hk hout hdb hinsts hplaces =>
    refine hs.evolves_set hk (hdb ▸ keeps_step hout) hinsts hplaces (fun place hplace' => ?_)
      fun ch seq hpromises => hpromises.step hout
    rw [hplace] at hplace'
    cases hplace'
    rw [hdb]
    exact (hs.reports _ _ _ hplace hk).step hout

end Evolution

section Attempts

variable {d : Deployment σ μ} {s t : Traffic σ μ} {h : Handler μ} {req : Request}
  {pc next : AttemptPC}

private theorem storedFor_insertCall {db updated : DB} {row rc : ReliableCall}
    (hpc : row.callID = req.callID ∧ Addresses req row)
    (hsame : ∀ stored ∈ db.calls.rows, stored.callID = row.callID →
      stored.objectID = row.objectID ∧ stored.objectType = row.objectType ∧
        stored.methodName = row.methodName)
    (hinsert : db.insertCall row = .ok (rc, updated)) : StoredFor req updated rc.seq := by
  obtain ⟨-, -, ⟨hrow, hcallID, hcalls⟩ | ⟨rfl, -, -, hrows⟩⟩ := DB.insertCall_ok hinsert
  · obtain ⟨hid, htype, hmethod⟩ := hsame rc hrow hcallID
    refine ⟨rc, ?_, rfl, hid.trans hpc.2.objectID, htype.trans hpc.2.objectType,
      hmethod.trans hpc.2.methodName⟩
    rw [hcalls]
    exact hrow
  · refine ⟨rc, ?_, rfl, hpc.2⟩
    rw [hrows]
    exact List.mem_append_right _ (List.mem_singleton_self rc)

theorem Addressed.remembers (hs : s.Addressed) (hjob : h.job = .reliable req pc)
    (hpc : Remembers req s.db s.insts pc)
    (hsame : ∀ row ∈ h.job.inserts, ∀ stored ∈ s.db.calls.rows, stored.callID = row.callID →
      stored.objectID = row.objectID ∧ stored.objectType = row.objectType ∧
        stored.methodName = row.methodName)
    (hcase : ReliableCase d s h req pc t next) : Remembers req t.db t.insts next := by
  cases hcase with
  | walk hnext => exact remembers_of_blank hnext
  | created => trivial
  | attempt _ hcase =>
    cases hcase with
    | early _ hnext => exact remembers_of_blank hnext
    | inserting => exact ⟨rfl, rfl, rfl, rfl⟩
    | inserted hinsert =>
      exact storedFor_insertCall hpc (hsame _ (by rw [hjob]; rfl)) hinsert
    | stored | pending | processed | unprocessed => exact hpc
    | exhausted => exact hpc.2
    | registered hk =>
      obtain ⟨place, -, hreports⟩ := hs.place hk
      refine ⟨hpc, _, getElem?_set_same hk, ?_⟩
      exact hreports.promises (fun pc => Instance.mem_spawn_loops) rfl rfl
    | @received k seq ch inst chan call hk hchan hvalue =>
      obtain ⟨hstored, other, hother, hpromises⟩ := hpc
      have heq : inst = other := Option.some.inj (hk.symm.trans hother)
      subst heq
      have hseq := hpromises.value chan hchan call hvalue
      exact hseq ▸ hstored
    | closed => exact hpc.1
    | polled hget => exact (DB.getReliableCallBySeq_ok hget).2 ▸ hpc
    | pausing hget => exact ⟨hpc, (DB.getReliableCallBySeq_ok hget).2 ▸ hpc⟩
    | again => exact hpc.1
    | created | locked | insertLost | unlocked | cached | unknown | finished | refused => trivial

theorem ReliableCase.reported (hcase : ReliableCase d s h req pc t next) {entry : Reported}
    (hentry : entry ∈ t.reported) : entry ∈ s.reported ∨
      ∃ answer, next = .answered answer ∧ entry = ⟨h.gate, req, answer, sourceOf pc⟩ := by
  cases hcase with
  | walk => exact .inl hentry
  | created hcreate => cases hcreate <;> exact .inl hentry
  | attempt =>
    rcases List.mem_append.mp hentry with hold | hnew
    · exact .inl hold
    · obtain ⟨answer, hanswer, rfl⟩ := List.mem_map.mp hnew
      refine .inr ⟨answer, ?_, rfl⟩
      cases next with
      | answered => rw [List.mem_singleton.mp hanswer]
      | _ => contradiction

private theorem honoured_of_answered {answer : Answer} (hpc : Remembers req s.db s.insts pc)
    (hcase : ReliableCase d s h req pc t (.answered answer)) :
    Honoured t.db ⟨h.gate, req, answer, sourceOf pc⟩ := by
  cases hcase with
  | walk => contradiction
  | attempt _ hcase =>
    cases hcase with
    | cached | finished => exact fun _ => ⟨_, rfl, hpc⟩
    | unknown | refused =>
      intro hstatus
      rcases hstatus with hstatus | hstatus <;> cases hstatus
    | early => contradiction

end Attempts

/-- The gate has checked the method that a client asks for. -/
structure Admitted (d : Deployment σ μ) (s : Traffic σ μ) : Prop where
  handlers : ∀ h ∈ s.handlers, ∀ gate req pc, h.gate = some gate → h.job = .reliable req pc →
    d.checkClientAccess gate req.objectType req.objectID req.methodName = .ok ()
  reported : ∀ entry ∈ s.reported, ∀ gate, entry.gate = some gate →
    d.checkClientAccess gate entry.req.objectType entry.req.objectID entry.req.methodName = .ok ()

section Runs

variable {d : Deployment σ μ} {s t : Traffic σ μ} {label : Label μ}

private theorem outgoing_reliable {rpc sent : Rpc μ} {gate uniqueID : GoString} {req : Request}
    {pc : AttemptPC} (hcheck : rpc.clientCheck d gate = .ok ())
    (hsent : rpc.outgoing uniqueID = some sent) (hjob : sent.job = .reliable req pc) :
    d.checkClientAccess gate req.objectType req.objectID req.methodName = .ok () := by
  unfold Rpc.outgoing at hsent
  split at hsent
  · cases hsent
    contradiction
  · cases hsent
    contradiction
  · split at hsent
    · cases hsent
      cases hjob
      exact hcheck
    · contradiction

theorem Addressed.advance (hs : s.Addressed) (hchange : Change d s label t)
    (hhandlers : ∀ h ∈ t.handlers, h ∈ s.handlers ∨
      ∀ req pc, h.job = .reliable req pc → Remembers req t.db t.insts pc)
    (hreported : ∀ entry ∈ t.reported, entry ∈ s.reported ∨ Honoured t.db entry) :
    t.Addressed := by
  have hevolves := hs.evolves hchange
  refine ⟨hs.aligned.change hchange, hevolves.reports, fun h hh req pc hjob => ?_,
    fun entry hentry => ?_⟩
  · rcases hhandlers h hh with hold | hnew
    · exact hevolves.remembers (hs.handlers h hold req pc hjob)
    · exact hnew req pc hjob
  · rcases hreported entry hentry with hold | hnew
    · exact (hs.reported entry hold).mono hevolves.rows
    · exact hnew

theorem Addressed.arrive (hs : s.Addressed) {h : Handler μ} (hfresh : h.job.fresh = true)
    (hchange : Change d s label (s.arrive h)) : (s.arrive h).Addressed := by
  refine hs.advance hchange (fun other hother => ?_) fun entry => .inl
  rcases mem_concat_cases hother with hold | rfl
  · exact .inl hold
  · refine .inr fun req pc hjob => remembers_of_blank ?_
    rw [hjob] at hfresh
    exact hfresh

theorem Addressed.step (hs : s.Addressed) (hok : s.OneObjectPerCallID label)
    (hcase : StepCase d s label t) : t.Addressed := by
  have hchange := hcase.change
  cases hcase with
  | client => exact hs.arrive (Rpc.job_fresh _) hchange
  | arrive _ hjob => exact hs.arrive hjob hchange
  | object hi hjob hcase =>
    obtain ⟨hhandlers, hreported⟩ := hcase.logs_eq
    refine hs.advance hchange (fun other hother => ?_) fun entry hentry => .inl (hreported ▸ hentry)
    rcases mem_goto hother hhandlers with hold | rfl
    · exact .inl hold
    · exact .inr fun _ _ hjob => by cases hjob
  | reliable hi hjob hcase =>
    have hpc := hs.handlers _ (List.mem_of_getElem? hi) _ _ hjob
    refine hs.advance hchange (fun other hother => ?_) fun entry hentry => ?_
    · rcases mem_goto hother hcase.handlers_eq with hold | rfl
      · exact .inl hold
      · have hnext := hs.remembers hjob hpc (hok _ hi) hcase
        refine .inr fun req pc heq => ?_
        cases heq
        exact hnext
    · rcases hcase.reported hentry with hold | ⟨answer, rfl, rfl⟩
      · exact .inl hold
      · have hnew := honoured_of_answered hpc hcase
        exact .inr hnew
  | act | evict => exact hs.advance hchange (fun other => .inl) fun entry => .inl
  | aside _ _ _ _ _ hhandlers _ _ hreported =>
    exact hs.advance hchange (fun other hother => .inl (hhandlers ▸ hother))
      fun entry hentry => .inl (hreported ▸ hentry)

theorem Admitted.goto (hs : s.Admitted d) {i : Nat} {h : Handler μ} {job : Job μ}
    (hhandlers : t.handlers = s.handlers)
    (hjob : ∀ gate req pc, h.gate = some gate → job = .reliable req pc →
      d.checkClientAccess gate req.objectType req.objectID req.methodName = .ok ())
    (hreported : ∀ entry ∈ t.reported, entry ∈ s.reported ∨
      ∃ pc, entry.gate = h.gate ∧ job = .reliable entry.req pc) : (t.goto i h job).Admitted d := by
  refine ⟨fun other hother => ?_, fun entry hentry gate hgate => ?_⟩
  · rcases mem_goto hother hhandlers with hold | rfl
    · exact hs.handlers other hold
    · exact hjob
  · rcases hreported entry hentry with hold | ⟨pc, heq, hreq⟩
    · exact hs.reported entry hold gate hgate
    · exact hjob gate entry.req pc (heq ▸ hgate) hreq

theorem Admitted.arrive (hs : s.Admitted d) {h : Handler μ}
    (hnew : ∀ gate req pc, h.gate = some gate → h.job = .reliable req pc →
      d.checkClientAccess gate req.objectType req.objectID req.methodName = .ok ()) :
    (s.arrive h).Admitted d := by
  refine ⟨fun other hother => ?_, hs.reported⟩
  rcases mem_concat_cases hother with hold | rfl
  · exact hs.handlers other hold
  · exact hnew

theorem Admitted.step (hs : s.Admitted d) (hcase : StepCase d s label t) : t.Admitted d := by
  cases hcase with
  | client hcheck hsent =>
    refine hs.arrive fun gate req pc hgate hjob => ?_
    cases hgate
    exact outgoing_reliable hcheck hsent hjob
  | arrive => exact hs.arrive fun gate _ _ hgate => by cases hgate
  | object _ _ hcase =>
    obtain ⟨hhandlers, hreported⟩ := hcase.logs_eq
    exact hs.goto hhandlers (fun _ _ _ _ heq => by cases heq)
      fun entry hentry => .inl (hreported ▸ hentry)
  | reliable hi hjob hcase =>
    refine hs.goto hcase.handlers_eq (fun gate req pc hgate heq => ?_) fun entry hentry => ?_
    · cases heq
      exact hs.handlers _ (List.mem_of_getElem? hi) gate _ _ hgate hjob
    · rcases hcase.reported hentry with hold | ⟨answer, -, rfl⟩
      · exact .inl hold
      · exact .inr ⟨_, rfl, rfl⟩
  | act | evict => exact ⟨hs.handlers, hs.reported⟩
  | aside _ _ _ _ _ hhandlers _ _ hreported =>
    refine ⟨?_, ?_⟩
    · rw [hhandlers]
      exact hs.handlers
    · rw [hreported]
      exact hs.reported

variable [Inhabited (ObjectType σ μ)]

/-- A result or an execution error that `ReliableCallObject` returns was read from a row with
the object ID, the type and the method that were asked for, and what a client is told is the
outcome of a call that its gate lets clients make. -/
theorem reliable_outcomes_belong_to_the_object
    (h : (machine d).Reachable OneObjectPerCallID s) {entry : Reported}
    (hentry : entry ∈ s.reported)
    (hstatus : entry.answer.status = .success ∨ entry.answer.status = .failed) :
    ∃ call row, entry.source = some call ∧ row ∈ s.db.calls.rows ∧ row.seq = call.seq ∧
      row.objectID = entry.req.objectID ∧ row.objectType = entry.req.objectType ∧
      row.methodName = entry.req.methodName ∧
      ∀ gate, entry.gate = some gate →
        d.checkClientAccess gate row.objectType row.objectID row.methodName = .ok () := by
  have hs : s.Addressed ∧ s.Admitted d := by
    refine h.invariant (I := fun s => s.Addressed ∧ s.Admitted d) ?_ fun hs hok hstep =>
      ⟨hs.1.step hok (step_case hstep), hs.2.step (step_case hstep)⟩
    rintro s ⟨db, views, rfl⟩
    exact ⟨⟨aligned_start db views, by simp [start], by simp [start], by simp [start]⟩,
      ⟨by simp [start], by simp [start]⟩⟩
  obtain ⟨call, hsource, row, hrow, hseq, hid, htype, hmethod⟩ := hs.1.reported entry hentry hstatus
  refine ⟨call, row, hsource, hrow, hseq, hid, htype, hmethod, fun gate hgate => ?_⟩
  rw [hid, htype, hmethod]
  exact hs.2.reported entry hentry gate hgate

end Runs

section Examples

/-- The client waits until the loop of the object has run its call. -/
def waitingClient : List (Label Bytes) :=
  [.client (lit "g") (.reliable (addTo (lit "a/o"))) []] ++ handling 0 15 ++ looping 0 15 ++
    handling 0 2

theorem reliable_outcomes_belong_to_the_object_waitingClient :
    ∃ (s : Traffic Bytes Bytes) (entry : Reported), entry ∈ s.reported ∧
      entry.gate = some (lit "g") ∧ entry.req = addTo (lit "a/o") ∧
      entry.answer.status = .success ∧
      ∃ call row, entry.source = some call ∧ row ∈ s.db.calls.rows ∧ row.seq = call.seq ∧
        row.objectID = entry.req.objectID ∧ row.objectType = entry.req.objectType ∧
        row.methodName = entry.req.methodName ∧
        ∀ gate, entry.gate = some gate → openDeployment.checkClientAccess gate row.objectType
          row.objectID row.methodName = .ok () := by
  have hrun : ((machine openDeployment).exec OneObjectPerCallID quietStart waitingClient).any
      (fun s => decide (∃ entry ∈ s.reported, entry.gate = some (lit "g") ∧
        entry.req = addTo (lit "a/o") ∧ entry.answer.status = .success)) = true := by decide
  obtain ⟨s, hreach, hs⟩ := Machine.exec_reachable hrun (quietStart_init _)
  obtain ⟨entry, hentry, hgate, hreq, hstatus⟩ := of_decide_eq_true hs
  exact ⟨s, entry, hentry, hgate, hreq, hstatus, reliable_outcomes_belong_to_the_object
    hreach hentry (.inl hstatus)⟩

/-- A node makes a call on `a/p`, and then a client one on `a/o` under the same ID. -/
def reusedCallID : List (Label Bytes) :=
  [.rpc (lit "a") (.reliable (addTo (lit "a/p")))] ++ handling 0 11 ++ looping 0 13 ++
    [.client (lit "g") (.reliable (addTo (lit "a/o"))) []] ++ handling 1 13

theorem client_told_outcome_of_other_object :
    ∃ (d : Deployment Bytes Bytes) (s : Traffic Bytes Bytes) (entry : Reported)
      (call : ReliableCall),
      (machine d).Reachable Machine.Any s ∧ entry ∈ s.reported ∧ entry.gate = some (lit "g") ∧
        entry.answer = ⟨.success, none⟩ ∧ entry.source = some call ∧ call ∈ s.db.calls.rows ∧
        entry.req.objectID = lit "a/o" ∧ call.objectID = lit "a/p" ∧
        d.checkClientAccess (lit "g") call.objectType call.objectID call.methodName ≠ .ok () := by
  have hrun : ((machine (tallyDeployment internalObject [allowCreate])).exec Machine.Any quietStart
      reusedCallID).any (fun s => decide (∃ entry ∈ s.reported, ∃ call ∈ s.db.calls.rows,
        entry.gate = some (lit "g") ∧ entry.answer = ⟨.success, none⟩ ∧
        entry.source = some call ∧ entry.req.objectID = lit "a/o" ∧ call.objectID = lit "a/p" ∧
        (tallyDeployment internalObject [allowCreate]).checkClientAccess (lit "g")
          call.objectType call.objectID call.methodName ≠ .ok ())) = true := by decide
  obtain ⟨s, hreach, hs⟩ := Machine.exec_reachable hrun (quietStart_init _)
  obtain ⟨entry, hentry, call, hcall, hgate, hanswer, hsource, hreq, hobject, hdenied⟩ :=
    of_decide_eq_true hs
  exact ⟨_, s, entry, call, hreach, hentry, hgate, hanswer,
    hsource, hcall, hreq, hobject, hdenied⟩

end Examples

end Traffic
end Goverse.Server
