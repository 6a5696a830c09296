import Goverse.Object.Identity
import Goverse.Server.Traffic

/-! Which methods run on a node. `CallObject` of a server asks `CheckNodeAccess` before it calls
its node; `ReliableCallObject` does not, and neither do the loops that run the stored calls of
an object: what they execute is the method of the row on the type of the activation. -/
namespace Goverse.Server

open Postgres Lib Object Consensus Cluster AccessControl
open Node (Creation)

variable {σ μ : Type}

namespace Traffic

/-- A call that is inserted may be executed on every activation of its object, and what is
pending for an object that is created may be executed there. -/
def RulesCoverCalls (d : Deployment σ μ) (s : Traffic σ μ) : Label μ → Prop
  | .handler i _ => ∀ h ∈ s.handlers[i]?,
      (∀ row ∈ h.job.inserts, ∀ active ∈ s.places.zip s.insts, active.2.obj.id = row.objectID →
        d.checkNodeAccess active.1.node active.1.type.name row.objectID row.methodName = .ok ()) ∧
      ∀ object ∈ h.job.creates, s.objects h.node object.2 = none →
        ∀ row ∈ s.db.calls.rows, row.status = .pending → row.objectID = object.2 →
          d.checkNodeAccess h.node object.1 object.2 row.methodName = .ok ()
  | _ => True

instance (d : Deployment σ μ) (s : Traffic σ μ) :
    (label : Label μ) → Decidable (RulesCoverCalls d s label)
  | .handler i _ => inferInstanceAs (Decidable (∀ h ∈ s.handlers[i]?, _))
  | .client _ _ _ | .rpc _ _ | .direct _ _ | .act _ _ | .evict _ _ | .deleteObject _ | .stop _
  | .view _ _ => isTrue trivial

/-- What an activation may come to execute is permitted on its node. -/
structure Covered (d : Deployment σ μ) (db : DB) (place : Place σ μ) (inst : Instance σ μ) :
    Prop where
  decided : inst.Decided
  rows : ∀ row ∈ db.calls.rows, row.status = .pending → row.objectID = inst.obj.id →
    d.checkNodeAccess place.node place.type.name inst.obj.id row.methodName = .ok ()
  loops : ∀ pc ∈ inst.loops, ∀ call ∈ pc.remaining,
    d.checkNodeAccess place.node place.type.name inst.obj.id call.methodName = .ok ()

/-- A handler of `CallObject` has passed the check, and the activation it is about to call is
the one that was checked. -/
structure Vetted (d : Deployment σ μ) (s : Traffic σ μ) (node : GoString) (cr : Creation μ)
    (pc : RpcPC μ) : Prop where
  checked : pc.cleared = true → ∀ method request, cr.call = some (method, request) →
    d.checkNodeAccess node cr.typ cr.id method = .ok ()
  target : ∀ k, pc = .invoke k → ∃ place inst, s.places[k]? = some place ∧
    s.insts[k]? = some inst ∧ place.node = node ∧ place.type.name = cr.typ ∧ inst.obj.id = cr.id

/-- Everything that has been executed, or will be, is permitted. -/
structure Enforced (d : Deployment σ μ) (s : Traffic σ μ) : Prop where
  aligned : s.Aligned
  covered : ∀ (k : Nat) (place : Place σ μ) (inst : Instance σ μ), s.places[k]? = some place →
    s.insts[k]? = some inst → Covered d s.db place inst
  handlers : ∀ h ∈ s.handlers, ∀ cr pc, h.job = .object cr pc → Vetted d s h.node cr pc
  executed : ∀ entry ∈ s.executed, d.checkNodeAccess entry.node entry.objectType entry.objectID
    entry.methodName = .ok ()

section Covering

variable {d : Deployment σ μ} {db next : DB} {place : Place σ μ} {inst new : Instance σ μ}

theorem Covered.store (h : Covered d db place inst)
    (hrows : ∀ row ∈ next.calls.rows, row.status = .pending → row.objectID = inst.obj.id →
      row ∈ db.calls.rows ∨
        d.checkNodeAccess place.node place.type.name inst.obj.id row.methodName = .ok ()) :
    Covered d next place inst := by
  refine ⟨h.decided, fun row hrow hpending hid => ?_, h.loops⟩
  rcases hrows row hrow hpending hid with hold | hnew
  · exact h.rows row hold hpending hid
  · exact hnew

theorem Covered.of_calls (h : Covered d db place inst) (hcalls : next.calls = db.calls) :
    Covered d next place inst := by
  refine h.store fun row hrow _ _ => ?_
  rw [hcalls] at hrow
  exact .inl hrow

theorem Covered.quiet (h : Covered d db place inst) (hid : new.obj.id = inst.obj.id)
    (hloops : ∀ pc ∈ new.loops, pc ∈ inst.loops ∨ pc = .checkCtx) : Covered d db place new := by
  refine ⟨fun pc hpc => ?_, ?_, fun pc hpc => ?_⟩
  · rcases hloops pc hpc with hold | rfl
    · exact h.decided pc hold
    · trivial
  · rw [hid]
    exact h.rows
  · rw [hid]
    rcases hloops pc hpc with hold | rfl
    · exact h.loops pc hold
    · simp [LoopPC.remaining]

theorem Covered.loop (h : Covered d db place inst) {self : Nat} {ok : Bool} {pc : LoopPC μ}
    {mv : Move σ μ} (hpc : inst.loops[self]? = some pc)
    (hmv : loopStep place.type self ok db inst.obj pc = some mv) {call : ReliableCall}
    (hcall : call ∈ mv.pc.remaining) :
    d.checkNodeAccess place.node place.type.name inst.obj.id call.methodName = .ok () := by
  have hold := h.loops pc (List.mem_of_getElem? hpc)
  rcases loopStep_remaining hmv with hnil | ⟨hsame, -⟩ | ⟨n, -, hfetched, -, -⟩ |
    ⟨current, rest, final, rfl, rfl⟩
  · rw [hnil] at hcall
    contradiction
  · rw [hsame] at hcall
    exact hold call hcall
  · rw [hfetched] at hcall
    obtain ⟨hrow, hid, -, hpending⟩ := CallTable.mem_pendingFrom.mp hcall
    exact h.rows call hrow hpending hid
  · exact hold call (List.mem_cons_of_mem _ hcall)

theorem Covered.step (h : Covered d db place inst) {action : Action} {out : Outcome σ μ}
    (hstep : inst.step place.type db action = some out) : Covered d out.db place out.inst := by
  have hid := Instance.step_id hstep
  refine ⟨h.decided.step hstep, fun row hrow hpending => ?_, fun pc hpc call hcall => ?_⟩
  · rw [hid]
    exact h.rows row (h.decided.pending hstep hrow hpending) hpending
  · rw [hid]
    cases Instance.step_cases hstep with
    | loop self ok old mv haction hold hmv hout =>
      subst hout
      rcases eq_or_mem_of_mem_set hpc with rfl | hj
      · exact h.loop hold hmv hcall
      · exact h.loops pc hj call hcall
    | save saved haction hfree hsaved hout =>
      subst hout
      exact h.loops pc hpc call hcall
    | quiet hdb hevent hid hdata hseq hmu hcancelled hloops =>
      rcases Instance.mem_loops_cases hloops hpc with hold | rfl
      · exact h.loops pc hold call hcall
      · contradiction

theorem Covered.invoked (h : Covered d db place inst) {action : Action} {out : Outcome σ μ}
    (hstep : inst.step place.type db action = some out) {call : ReliableCall}
    (hevent : out.event.bind Event.invoked = some call) :
    d.checkNodeAccess place.node place.type.name inst.obj.id call.methodName = .ok () := by
  cases Instance.step_effect hstep with
  | quiet hdb hdata hquiet =>
    rcases hquiet with hnone | ⟨other, hother⟩
    · rw [hnone] at hevent
      contradiction
    · rw [hother] at hevent
      contradiction
  | invoke self started rest hpc hdb hobj hstarted =>
    rw [hstarted] at hevent
    cases hevent
    exact h.loops _ (List.mem_of_getElem? hpc) _ List.mem_cons_self
  | finish _ _ _ _ _ _ _ _ hother | save _ _ _ hother | update _ _ _ _ _ _ _ _ hother =>
    rw [hother] at hevent
    contradiction

private theorem covered_activation {T : ObjectType σ μ} {node id : GoString} {data : σ}
    {nextRcseq : Int} (hrows : ∀ row ∈ db.calls.rows, row.status = .pending → row.objectID = id →
      d.checkNodeAccess node T.name id row.methodName = .ok ()) :
    Covered d db ⟨node, T⟩ (activation d node id data nextRcseq) := by
  have hstart : Covered d db ⟨node, T⟩ (Instance.start id data nextRcseq) :=
    ⟨by simp [Instance.Decided, Instance.start], hrows, by simp [Instance.start]⟩
  unfold activation
  split
  · exact hstart.quiet rfl fun pc => Instance.mem_spawn_loops
  · exact hstart

end Covering

section Steps

variable {d : Deployment σ μ} {s t : Traffic σ μ} {label : Label μ}

private theorem mem_insertCall {db next : DB} {row rc other : ReliableCall}
    (hinsert : db.insertCall row = .ok (rc, next)) (hother : other ∈ next.calls.rows) :
    other ∈ db.calls.rows ∨ other = row := by
  obtain ⟨-, -, ⟨-, -, hcalls⟩ | ⟨-, -, -, hrows⟩⟩ := DB.insertCall_ok hinsert
  · rw [hcalls] at hother
    exact .inl hother
  · rw [hrows] at hother
    simpa using hother

private theorem mem_zip {k : Nat} {place : Place σ μ} {inst : Instance σ μ}
    (hplace : s.places[k]? = some place) (hinst : s.insts[k]? = some inst) :
    (place, inst) ∈ s.places.zip s.insts := by
  refine List.mem_of_getElem? (i := k) ?_
  rw [List.getElem?_zip_eq_some]
  exact ⟨hplace, hinst⟩

theorem Enforced.covered_change (hs : s.Enforced d) (hok : RulesCoverCalls d s label)
    (hchange : Change d s label t) (k : Nat) (place : Place σ μ) (inst : Instance σ μ)
    (hplace : t.places[k]? = some place) (hinst : t.insts[k]? = some inst) :
    Covered d t.db place inst := by
  cases hchange with
  | same hcalls hinsts hplaces =>
    rw [hplaces] at hplace
    rw [hinsts] at hinst
    exact (hs.covered k place inst hplace hinst).of_calls hcalls
  | @insert i reply h row rc hlabel hi hrow hinsert hinsts hplaces =>
    subst hlabel
    rw [hplaces] at hplace
    rw [hinsts] at hinst
    refine (hs.covered k place inst hplace hinst).store fun other hother _ hid => ?_
    rcases mem_insertCall hinsert hother with hold | rfl
    · exact .inl hold
    · have hcheck := (hok h hi).1 other hrow (place, inst) (mem_zip hplace hinst) hid.symm
      rw [hid] at hcheck
      exact .inr hcheck
  | @activate i reply h id T data nextRcseq hlabel hi hcreates habsent hdb hinsts hplaces =>
    subst hlabel
    rw [hinsts] at hinst
    rw [hplaces] at hplace
    rw [hdb]
    rcases getElem?_concat_cases hinst with ⟨hk, rfl⟩ | hold
    · have hlast : place = ⟨h.node, T⟩ := by
        rw [hk, ← hs.aligned.length, List.getElem?_concat_length] at hplace
        exact (Option.some.inj hplace).symm
      subst hlast
      exact covered_activation ((hok h hi).2 (T.name, id) hcreates habsent)
    · have hlt : k < s.places.length := by
        rw [hs.aligned.length]
        exact (List.getElem?_eq_some_iff.mp hold).1
      rw [List.getElem?_append_left hlt] at hplace
      exact hs.covered k place inst hplace hold
  | quiet hk hinsts hid hloops _ hdb hplaces =>
    rw [hinsts] at hinst
    rw [hplaces] at hplace
    rw [hdb]
    rcases getElem?_set_cases hinst with ⟨rfl, rfl⟩ | ⟨-, hold⟩
    · exact (hs.covered _ place _ hplace hk).quiet hid hloops
    · exact hs.covered k place inst hplace hold
  | act hplace' hk hout hdb hinsts hplaces =>
    rw [hinsts] at hinst
    rw [hplaces] at hplace
    rw [hdb]
    rcases getElem?_set_cases hinst with ⟨rfl, rfl⟩ | ⟨-, hold⟩
    · rw [hplace'] at hplace
      cases hplace
      exact (hs.covered _ _ _ hplace' hk).step hout
    · refine (hs.covered k place inst hplace hold).store fun row hrow hpending _ => ?_
      exact .inl ((hs.covered _ _ _ hplace' hk).decided.pending hout hrow hpending)

theorem Vetted.change {node : GoString} {cr : Creation μ} {pc : RpcPC μ}
    (h : Vetted d s node cr pc) (hchange : Change d s label t) : Vetted d t node cr pc := by
  refine ⟨h.checked, fun k hk => ?_⟩
  obtain ⟨place, inst, hplace, hinst, hnode, htype, hid⟩ := h.target k hk
  obtain ⟨hplace', next, hnext, hnextID⟩ := hchange.target hplace hinst
  exact ⟨place, next, hplace', hnext, hnode, htype, hnextID.trans hid⟩

theorem Vetted.object (hs : s.Enforced d) {h : Handler μ} {cr : Creation μ} {pc next : RpcPC μ}
    (hvetted : Vetted d s h.node cr pc) (hcase : ObjectCase d s h cr pc t next) :
    Vetted d t h.node cr next := by
  cases hcase with
  | walk hcleared hinvoke =>
    exact ⟨fun hnext => hvetted.checked (hcleared hnext), fun k hk => absurd hk (hinvoke k)⟩
  | uncalled hcall =>
    refine ⟨fun _ method request hsome => ?_, by simp⟩
    rw [hcall] at hsome
    contradiction
  | granted hcall hcheck =>
    refine ⟨fun _ method request hsome => ?_, by simp⟩
    rw [hcall] at hsome
    cases hsome
    exact hcheck
  | created =>
    refine ⟨fun _ => hvetted.checked rfl, fun k hk => ?_⟩
    unfold afterCreate at hk
    split at hk <;> cases hk
  | found hk htype =>
    refine ⟨fun _ => hvetted.checked rfl, fun j hj => ?_⟩
    cases hj
    obtain ⟨place, inst, hplace, hinst, hnode, hid⟩ := hs.aligned.entry _ _ _ hk
    refine ⟨place, inst, hplace, hinst, hnode, ?_, hid⟩
    rw [typeName, hplace] at htype
    exact Option.some.inj htype
  | invoked _ _ _ hinvoke =>
    exact ⟨fun _ => hvetted.checked rfl, fun k hk => absurd hk (hinvoke k)⟩

theorem Enforced.executed_object (hs : s.Enforced d) {h : Handler μ} {cr : Creation μ}
    {pc next : RpcPC μ} (hvetted : Vetted d s h.node cr pc) (hcase : ObjectCase d s h cr pc t next)
    {entry : Execution} (hentry : entry ∈ t.executed) :
    d.checkNodeAccess entry.node entry.objectType entry.objectID entry.methodName = .ok () := by
  cases hcase with
  | walk | uncalled | granted | found => exact hs.executed entry hentry
  | created hcreate => cases hcreate <;> exact hs.executed entry hentry
  | @invoked k method request place inst next data hcall hplace hinst hinvoke =>
    rcases List.mem_append.mp hentry with hold | hnew
    · exact hs.executed entry hold
    · obtain ⟨place', inst', hplace', hinst', hnode, htype, hid⟩ := hvetted.target k rfl
      rw [hplace] at hplace'
      rw [hinst] at hinst'
      cases hplace'
      cases hinst'
      rw [List.mem_singleton.mp hnew]
      simp only [hnode, htype, hid]
      exact hvetted.checked rfl method request hcall

theorem ReliableCase.executed_eq {h : Handler μ} {req : Request} {pc next : AttemptPC}
    (hcase : ReliableCase d s h req pc t next) : t.executed = s.executed := by
  cases hcase with
  | created hcreate => cases hcreate <;> rfl
  | _ => rfl

theorem Enforced.advance (hs : s.Enforced d) (hok : RulesCoverCalls d s label)
    (hchange : Change d s label t)
    (hhandlers : ∀ h ∈ t.handlers, h ∈ s.handlers ∨
      ∀ cr pc, h.job = .object cr pc → Vetted d t h.node cr pc)
    (hexecuted : ∀ entry ∈ t.executed, entry ∈ s.executed ∨
      d.checkNodeAccess entry.node entry.objectType entry.objectID entry.methodName = .ok ()) :
    t.Enforced d := by
  refine ⟨hs.aligned.change hchange, hs.covered_change hok hchange, fun h hh cr pc hjob => ?_,
    fun entry hentry => ?_⟩
  · rcases hhandlers h hh with hold | hnew
    · exact (hs.handlers h hold cr pc hjob).change hchange
    · exact hnew cr pc hjob
  · rcases hexecuted entry hentry with hold | hnew
    · exact hs.executed entry hold
    · exact hnew

theorem Enforced.arrive (hs : s.Enforced d) {h : Handler μ} (hfresh : h.job.fresh = true)
    (hok : RulesCoverCalls d s label) (hchange : Change d s label (s.arrive h)) :
    (s.arrive h).Enforced d := by
  refine hs.advance hok hchange (fun other hother => ?_) fun entry => .inl
  rcases mem_concat_cases hother with hold | rfl
  · exact .inl hold
  · refine .inr fun cr pc hjob => ?_
    rw [hjob] at hfresh
    have hnot : pc.cleared = false := by simpa [Job.fresh] using hfresh
    refine ⟨fun hcleared => ?_, fun k hk => ?_⟩
    · rw [hnot] at hcleared
      contradiction
    · rw [hk] at hnot
      contradiction

theorem Enforced.step (hs : s.Enforced d) (hok : RulesCoverCalls d s label)
    (hcase : StepCase d s label t) : t.Enforced d := by
  have hchange := hcase.change
  cases hcase with
  | client => exact hs.arrive (Rpc.job_fresh _) hok hchange
  | arrive _ hjob => exact hs.arrive hjob hok hchange
  | object hi hjob hcase =>
    have hvetted := hs.handlers _ (List.mem_of_getElem? hi) _ _ hjob
    refine hs.advance hok hchange (fun other hother => ?_) fun entry hentry => ?_
    · rcases mem_goto hother hcase.logs_eq.1 with hold | rfl
      · exact .inl hold
      · have hnext := hvetted.object hs hcase
        refine .inr fun cr pc heq => ?_
        cases heq
        exact ⟨hnext.checked, hnext.target⟩
    · exact .inr (hs.executed_object hvetted hcase hentry)
  | reliable hi hjob hcase =>
    refine hs.advance hok hchange (fun other hother => ?_) fun entry hentry => ?_
    · rcases mem_goto hother hcase.handlers_eq with hold | rfl
      · exact .inl hold
      · exact .inr fun _ _ heq => by cases heq
    · have hold : entry ∈ s.executed := hcase.executed_eq ▸ hentry
      exact .inl hold
  | act hplace hinst hout =>
    refine hs.advance hok hchange (fun other => .inl) fun entry hentry => ?_
    rcases List.mem_append.mp hentry with hold | hnew
    · exact .inl hold
    · obtain ⟨call, hcall, rfl⟩ := List.mem_map.mp hnew
      have hevent := Option.mem_toList.mp hcall
      exact .inr ((hs.covered _ _ _ hplace hinst).invoked hout hevent)
  | evict => exact hs.advance hok hchange (fun other => .inl) fun entry => .inl
  | aside _ _ _ _ _ hhandlers hexecuted =>
    exact hs.advance hok hchange (fun other hother => .inl (hhandlers ▸ hother))
      fun entry hentry => .inl (hexecuted ▸ hentry)

variable [Inhabited (ObjectType σ μ)]

/-- Whatever runs on a node, at once or from the call table, is permitted by the rules of the
node, and no rule that comes first rejects it. -/
theorem node_rules_guard_every_execution (h : (machine d).Reachable (RulesCoverCalls d) s)
    {entry : Execution} (hentry : entry ∈ s.executed) {rules : AccessValidator}
    (hrules : d.accessValidator entry.node = some rules) :
    rules.checkNodeAccess entry.objectType entry.objectID entry.methodName = .ok () ∧
      rules.findAccess entry.objectType entry.objectID entry.methodName ≠ .reject := by
  have hs : s.Enforced d := by
    refine h.invariant (I := Enforced d) ?_ fun hs hok hstep => hs.step hok (step_case hstep)
    rintro s ⟨db, views, rfl⟩
    exact ⟨aligned_start db views, by simp [start], by simp [start], by simp [start]⟩
  have hcheck := hs.executed entry hentry
  rw [Deployment.checkNodeAccess, hrules] at hcheck
  refine ⟨hcheck, fun hreject => ?_⟩
  simp [AccessValidator.checkNodeAccess, hreject, AccessLevel.nodes, check] at hcheck

end Steps

section Examples

/-- A client calls a method of `a/o`, and a node makes a reliable call on it. -/
def bothPaths : List (Label Bytes) :=
  [.client (lit "g") (callAdd (lit "a/o")) []] ++ handling 0 7 ++
    [.rpc (lit "a") (.reliable (addTo (lit "a/o")))] ++ handling 1 11 ++ looping 0 9

theorem node_rules_guard_every_execution_bothPaths :
    ∃ s : Traffic Bytes Bytes, s.executed.length = 2 ∧ ∀ entry ∈ s.executed,
      AccessValidator.checkNodeAccess ⟨[allowMethods]⟩ entry.objectType entry.objectID
          entry.methodName = .ok () ∧
        AccessValidator.findAccess ⟨[allowMethods]⟩ entry.objectType entry.objectID
          entry.methodName ≠ .reject := by
  have hrun : ((machine openDeployment).exec (RulesCoverCalls openDeployment) quietStart
      bothPaths).any (fun s => decide (s.executed.length = 2)) = true := by decide
  obtain ⟨s, hreach, hs⟩ := Machine.exec_reachable hrun (quietStart_init _)
  exact ⟨s, of_decide_eq_true hs, fun entry hentry =>
    node_rules_guard_every_execution hreach hentry rfl⟩

/-- Nobody may call `Add`. -/
def rejectAdd : List CompiledRule :=
  [⟨.matchAll, .matchAll, .literal (lit "Add"), .reject⟩, allowMethods]

/-- A node asks for `Add` in a reliable call, and the loop of the new object runs it. -/
def rejectedCall : List (Label Bytes) :=
  [.rpc (lit "a") (.reliable (addTo (lit "a/o")))] ++ handling 0 11 ++ looping 0 9

theorem rejected_method_is_executed :
    ∃ (d : Deployment Bytes Bytes) (rules : AccessValidator) (s : Traffic Bytes Bytes)
      (entry : Execution),
      (machine d).Reachable Machine.Any s ∧ entry ∈ s.executed ∧
        d.accessValidator entry.node = some rules ∧
        rules.checkNodeAccess entry.objectType entry.objectID entry.methodName ≠ .ok () ∧
        rules.findAccess entry.objectType entry.objectID entry.methodName = .reject := by
  have hrun : ((machine (tallyDeployment rejectAdd [allowCreate])).exec Machine.Any quietStart
      rejectedCall).any (fun s => decide (∃ entry ∈ s.executed,
        AccessValidator.checkNodeAccess ⟨rejectAdd⟩ entry.objectType entry.objectID
            entry.methodName ≠ .ok () ∧
          AccessValidator.findAccess ⟨rejectAdd⟩ entry.objectType entry.objectID
            entry.methodName = .reject)) = true := by decide
  obtain ⟨s, hreach, hs⟩ := Machine.exec_reachable hrun (quietStart_init _)
  obtain ⟨entry, hentry, hdenied, hreject⟩ := of_decide_eq_true hs
  exact ⟨_, ⟨rejectAdd⟩, s, entry, hreach, hentry, rfl,
    hdenied, hreject⟩

end Examples

end Traffic
end Goverse.Server
