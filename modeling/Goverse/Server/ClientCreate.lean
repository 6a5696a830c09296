import Goverse.Server.Traffic

/-! What clients bring into being. `CreateObject` of a gate checks `CheckClientCreate`, and
`createObject` of a node `CheckNodeCreate`; `CallObject` and `ReliableCallObject` of a gate check
nothing but the method, although the node creates the object if it is not there. -/
namespace Goverse.Server

open Postgres Lib Object Consensus Cluster AccessControl
open Node (Creation)

variable {σ μ : Type}

/-- What clients may call, and may have made up an ID for, they may create if nodes may. -/
structure Deployment.RulesCoverCreation (d : Deployment σ μ) : Prop where
  called : ∀ gate node typ id method, d.checkClientAccess gate typ id method = .ok () →
    d.checkNodeCreate node typ id = .ok () → d.checkClientCreate gate typ id = .ok ()
  madeUp : ∀ gate node typ uniqueID, d.checkClientCreate gate typ [] = .ok () →
    d.checkNodeCreate node typ (typ ++ lit "-" ++ uniqueID) = .ok () →
      d.checkClientCreate gate typ (typ ++ lit "-" ++ uniqueID) = .ok ()

/-- The type and the ID of the object that a request is about. -/
def Job.subject : Job μ → GoString × GoString
  | object cr _ => (cr.typ, cr.id)
  | reliable req _ => (req.objectType, req.objectID)

/-- The object is one that the client of the gate may create if some node may. -/
def ClientMayCreate (d : Deployment σ μ) (gate : GoString) (object : GoString × GoString) : Prop :=
  ∀ node, d.checkNodeCreate node object.1 object.2 = .ok () →
    d.checkClientCreate gate object.1 object.2 = .ok ()

namespace Traffic

variable {d : Deployment σ μ} {s t : Traffic σ μ}

/-- What was created for clients is permitted, and what is asked for by a client is permitted if
the node agrees. -/
structure Permitted (d : Deployment σ μ) (s : Traffic σ μ) : Prop where
  created : ∀ entry ∈ s.created, ∀ gate, entry.gate = some gate →
    d.checkClientCreate gate entry.objectType entry.objectID = .ok () ∧
      d.checkNodeCreate entry.node entry.objectType entry.objectID = .ok ()
  asked : ∀ h ∈ s.handlers, ∀ gate, h.gate = some gate → ClientMayCreate d gate h.job.subject

/-- A request that a gate passes on. -/
private theorem outgoing_mayCreate (hrules : d.RulesCoverCreation) {rpc sent : Rpc μ}
    {gate uniqueID : GoString} (hcheck : rpc.clientCheck d gate = .ok ())
    (hsent : rpc.outgoing uniqueID = some sent) : ClientMayCreate d gate sent.job.subject := by
  intro node hnode
  unfold Rpc.outgoing at hsent
  split at hsent
  · cases hsent
    exact hrules.madeUp gate node _ uniqueID hcheck hnode
  · rename_i cr _
    obtain ⟨typ, id, call⟩ := cr
    cases hsent
    cases call with
    | none => exact hcheck
    | some call => exact hrules.called gate node typ id call.1 hcheck hnode
  · split at hsent
    · cases hsent
      exact hrules.called gate node _ _ _ hcheck hnode
    · contradiction

theorem Permitted.arrive (hs : s.Permitted d) {h : Handler μ}
    (hnew : ∀ gate, h.gate = some gate → ClientMayCreate d gate h.job.subject) :
    (s.arrive h).Permitted d := by
  refine ⟨hs.created, fun other hother => ?_⟩
  rcases mem_concat_cases hother with hold | rfl
  · exact hs.asked other hold
  · exact hnew

/-- A handler goes on with the same object. -/
theorem Permitted.goto (hs : s.Permitted d) {i : Nat} {h : Handler μ} {job : Job μ}
    (hnew : ∀ gate, h.gate = some gate → ClientMayCreate d gate job.subject) :
    (s.goto i h job).Permitted d := by
  refine ⟨hs.created, fun other hother => ?_⟩
  rcases eq_or_mem_of_mem_set hother with rfl | hj
  · exact hnew
  · exact hs.asked other hj

theorem Permitted.create (hs : s.Permitted d) {gate : Option GoString} {node typ id : GoString}
    (hcase : CreateCase d s gate node typ id t)
    (hclient : ∀ g, gate = some g → ClientMayCreate d g (typ, id)) : t.Permitted d := by
  cases hcase with
  | live => exact hs
  | activated habsent hcheck =>
    refine ⟨fun entry hentry => ?_, hs.asked⟩
    rcases mem_concat_cases hentry with hold | rfl
    · exact hs.created entry hold
    · exact fun g hg => ⟨hclient g hg node hcheck, hcheck⟩

variable [Inhabited (ObjectType σ μ)]

theorem Permitted.step (hrules : d.RulesCoverCreation) (hs : s.Permitted d) {label : Label μ}
    (hstep : s.step d label = some t) : t.Permitted d := by
  cases step_case hstep with
  | client hcheck hsent =>
    refine hs.arrive fun gate hgate => ?_
    cases hgate
    exact outgoing_mayCreate hrules hcheck hsent
  | arrive => exact hs.arrive fun gate hgate => by cases hgate
  | object hi hjob hcase =>
    have hasked := hs.asked _ (List.mem_of_getElem? hi)
    rw [hjob] at hasked
    refine Permitted.goto ?_ hasked
    cases hcase with
    | walk | uncalled | granted | found => exact hs
    | invoked => exact ⟨hs.created, hs.asked⟩
    | created hcreate => exact hs.create hcreate hasked
  | reliable hi hjob hcase =>
    have hasked := hs.asked _ (List.mem_of_getElem? hi)
    rw [hjob] at hasked
    refine Permitted.goto ?_ hasked
    cases hcase with
    | walk => exact hs
    | attempt => exact ⟨hs.created, hs.asked⟩
    | created hcreate => exact hs.create hcreate hasked
  | act | evict => exact ⟨hs.created, hs.asked⟩
  | aside _ _ _ _ _ hhandlers _ hcreated _ =>
    refine ⟨?_, ?_⟩
    · rw [hcreated]
      exact hs.created
    · rw [hhandlers]
      exact hs.asked

/-- An object that is created for a client is one that clients may create, by the rules of the
gate, and one that nodes may create, by the rules of the node. -/
theorem clients_create_what_they_may (hrules : d.RulesCoverCreation)
    (h : (machine d).Reachable Machine.Any s) {entry : Created} (hentry : entry ∈ s.created)
    {gate : GoString} (hgate : entry.gate = some gate) :
    d.checkClientCreate gate entry.objectType entry.objectID = .ok () ∧
      d.checkNodeCreate entry.node entry.objectType entry.objectID = .ok () := by
  have hs : s.Permitted d := by
    refine h.invariant (I := Permitted d) ?_ fun hs _ hstep => hs.step hrules hstep
    rintro s ⟨db, views, rfl⟩
    exact ⟨by simp [start], by simp [start]⟩
  exact hs.created entry hentry gate hgate

section Examples

/-- The object that only nodes may call is also one that only nodes may create. -/
def guardedDeployment : Deployment Bytes Bytes :=
  tallyDeployment internalObject [⟨.matchAll, .literal (lit "a/p"), .create, .internal⟩]

private theorem guardedDeployment_covers : guardedDeployment.RulesCoverCreation := by
  have hcreate : ∀ gate typ id, lit "a/p" ≠ id →
      guardedDeployment.checkClientCreate gate typ id = .ok () := by
    intro gate typ id hid
    simp [guardedDeployment, tallyDeployment, Deployment.checkClientCreate,
      LifecycleValidator.checkClientCreate, LifecycleValidator.findAccess,
      PatternMatcher.matchString, check, AccessLevel.clients, hid]
  refine ⟨fun gate node typ id method haccess _ => hcreate gate typ id fun hid => ?_,
    fun gate node typ uniqueID _ _ => hcreate gate typ _ fun hid => ?_⟩
  · subst hid
    simp [guardedDeployment, tallyDeployment, Deployment.checkClientAccess,
      AccessValidator.checkClientAccess, AccessValidator.findAccess, internalObject,
      PatternMatcher.matchString, check, AccessLevel.clients] at haccess
  · have hdash : lit "-" ⊆ lit "a/p" := by
      rw [hid]
      exact List.Subset.trans (List.subset_append_right _ _) (List.subset_append_left _ _)
    exact absurd hdash (by decide)

/-- A client calls a method of an object that is not there yet. -/
def callOfClient : List (Label Bytes) :=
  .client (lit "g") (callAdd (lit "a/o")) [] :: handling 0 7

theorem clients_create_what_they_may_callOfClient : ∃ s : Traffic Bytes Bytes,
    ∃ entry ∈ s.created, entry = ⟨some (lit "g"), lit "a", lit "Tally", lit "a/o"⟩ ∧
      guardedDeployment.checkClientCreate (lit "g") entry.objectType entry.objectID = .ok () ∧
      guardedDeployment.checkNodeCreate entry.node entry.objectType entry.objectID = .ok () := by
  have hrun : ((machine guardedDeployment).exec Machine.Any quietStart callOfClient).any
      (fun s => decide
        (⟨some (lit "g"), lit "a", lit "Tally", lit "a/o"⟩ ∈ s.created)) = true := by decide
  obtain ⟨s, hreach, hs⟩ := Machine.exec_reachable hrun (quietStart_init _)
  have hentry := of_decide_eq_true hs
  exact ⟨s, _, hentry, rfl,
    clients_create_what_they_may guardedDeployment_covers hreach hentry rfl⟩

/-- Clients may create an object only without saying which. -/
def internalCreate : List CompiledLifecycleRule :=
  [⟨.matchAll, .regexp fun id => id = [], .create, .allow⟩,
    ⟨.matchAll, .matchAll, .create, .internal⟩]

/-- A client makes a call, a reliable call and an object without an ID. -/
def clientRequests : List (Label Bytes) :=
  [.client (lit "g") (callAdd (lit "a/o")) [], .client (lit "g") (.reliable (addTo (lit "a/p"))) [],
    .client (lit "g") (.object ⟨lit "Tally", [], none⟩) (lit "x")] ++
    handling 0 5 ++ handling 1 6 ++ handling 2 4

theorem clients_create_internal_objects :
    ∃ (d : Deployment Bytes Bytes) (access : AccessValidator) (lifecycle : LifecycleValidator)
      (s : Traffic Bytes Bytes),
      (∀ addr, d.accessValidator addr = some access ∧
        d.lifecycleValidator addr = some lifecycle) ∧
      (machine d).Reachable Machine.Any s ∧
      s.created.map (·.objectID) = [lit "a/o", lit "a/p", lit "Tally-x"] ∧
      ∀ entry ∈ s.created, entry.gate = some (lit "g") ∧
        lifecycle.checkClientCreate entry.objectType entry.objectID ≠ .ok () := by
  have hrun : ((machine (tallyDeployment [allowMethods] internalCreate)).exec Machine.Any quietStart
      clientRequests).any (fun s => decide
        (s.created.map (·.objectID) = [lit "a/o", lit "a/p", lit "Tally-x"] ∧
          ∀ entry ∈ s.created, entry.gate = some (lit "g") ∧
            LifecycleValidator.checkClientCreate ⟨internalCreate⟩ entry.objectType
              entry.objectID ≠ .ok ())) = true := by decide
  obtain ⟨s, hreach, hs⟩ := Machine.exec_reachable hrun (quietStart_init _)
  obtain ⟨hcreated, hdenied⟩ := of_decide_eq_true hs
  exact ⟨_, ⟨[allowMethods]⟩, ⟨internalCreate⟩, s, fun _ => ⟨rfl, rfl⟩,
    hreach, hcreated, hdenied⟩

end Examples

end Traffic
end Goverse.Server
