import Goverse.Config.AccessControl
import Goverse.Node.Registry

/-! `DeleteObject` of a client. The gate checks its rules on the type that the client claims and
forwards the claim; the node compares it with the object under its lifecycle lock, checks its own
rules and removes the object, next to everything else that runs on the node. -/
namespace Goverse.Server

open Postgres Lib Object AccessControl Node

variable {σ μ : Type}

/-- The lifecycle rules of the gate and of the node. -/
structure DeleteRules where
  gate : Option LifecycleValidator
  node : Option LifecycleValidator

namespace DeleteRules

variable (rules : DeleteRules) (typ id : GoString)

/-- Nothing is checked without a validator. -/
def gatePermits : Bool := rules.gate.all fun v => (v.checkClientDelete typ id).toOption.isSome

def nodePermits : Bool := rules.node.all fun v => (v.checkNodeDelete typ id).toOption.isSome

end DeleteRules

structure DeleteRequest where
  claimedType : GoString
  id : GoString
  deriving DecidableEq, Repr

/-- An instance that a thread took out of the map, and the request that it served. -/
structure Removed where
  request : DeleteRequest
  id : GoString
  typ : GoString
  deriving DecidableEq, Repr

/-- `serves` has the client's request that each thread of the node serves, if it serves one. -/
structure ClientDelete (σ μ : Type) where
  host : Host σ μ
  serves : List (Option DeleteRequest)
  removed : List Removed

namespace ClientDelete

/-- `routed` says whether the gate found the node and the node took the object for its own. -/
inductive Label (μ : Type) where
  | client (request : DeleteRequest) (routed : Bool)
  | node (label : Host.Label μ)

/-- `CheckNodeDelete(obj.Type(), id)` for the object that `DeleteObject` has found; the other
answers are not about rules of deletion. -/
def answer (rules : DeleteRules) (s : Host σ μ) (self : Nat) (ok : Bool) : Bool :=
  match s.threads[self]? with
  | some (.findRemoval (.delete _) id) =>
    ((s.objects.lookup id).bind s.typeName).all fun typ => rules.nodePermits typ id
  | _ => ok

/-- What the next step of a thread takes out of the map for a client. -/
def removal (s : ClientDelete σ μ) (self : Nat) : List Removed :=
  match s.host.threads[self]?, s.serves[self]? with
  | some (.remove id), some (some request) =>
    ((s.host.objects.lookup id).bind s.host.typeName).toList.map fun typ => ⟨request, id, typ⟩
  | _, _ => []

/-- `GateServer.DeleteObject` up to the start of `Node.DeleteObject`. -/
def request (rules : DeleteRules) (s : ClientDelete σ μ) (req : DeleteRequest) (routed : Bool) :
    ClientDelete σ μ :=
  if req.claimedType = [] then s
  else if rules.gatePermits req.claimedType req.id = false then s
  else if req.id = [] ∨ routed = false then s
  else
    { s with
      host := { s.host with
        threads := s.host.threads ++ [.start (.remove (.delete req.claimedType) req.id)] }
      serves := s.serves ++ [some req] }

def step (rules : DeleteRules) (s : ClientDelete σ μ) : Label μ → Option (ClientDelete σ μ)
  | .client req routed => some (s.request rules req routed)
  | .node (.spawn task) =>
    (s.host.step (.spawn task)).map fun host =>
      { s with host := host, serves := s.serves ++ [none] }
  | .node (.thread self ok) =>
    (s.host.step (.thread self (answer rules s.host self ok))).map fun host =>
      { s with host := host, removed := s.removed ++ s.removal self }
  | .node label => (s.host.step label).map fun host => { s with host := host }

def machine (σ μ : Type) (rules : DeleteRules) : Machine (ClientDelete σ μ) (Label μ) where
  Init s := (Host.machine σ μ).Init s.host ∧ s.serves = [] ∧ s.removed = []
  step := step rules

/-- The instance under the requested id is of the claimed type, and the node's rules permit
its deletion. -/
def Checked (rules : DeleteRules) (s : Host σ μ) (req : DeleteRequest) : Prop :=
  ∀ k, s.objects.lookup req.id = some k →
    s.typeName k = some req.claimedType ∧ rules.nodePermits req.claimedType req.id = true

/-- Where a thread that serves a client can be. -/
def Serving (rules : DeleteRules) (s : Host σ μ) (req : DeleteRequest) : TaskPC μ → Prop
  | .start task | .checkStopped task => task = .remove (.delete req.claimedType) req.id
  | .lockRemoval rm id | .findRemoval rm id => rm = .delete req.claimedType ∧ id = req.id
  | .deleteRow id _ | .remove id => id = req.id ∧ Checked rules s req
  | .destroy _ _ | .unlockRemoval _ | .leave | .done => True
  | _ => False

section Host

variable {rules : DeleteRules} {s t : Host σ μ} {req : DeleteRequest} {self : Nat} {ok : Bool}
  {pc : TaskPC μ}

theorem Checked.of_eq (h : Checked rules s req) (hobjects : t.objects = s.objects)
    (hslots : t.slots = s.slots) : Checked rules t req := by
  intro k hk
  rw [hobjects] at hk
  rw [Host.typeName, hslots]
  exact h k hk

theorem typeName_set {k j : Nat} {old new : Slot σ μ} {typ : GoString}
    (hj : s.slots[j]? = some old) (htype : new.type = old.type)
    (h : s.typeName k = some typ) :
    ((s.slots.set j new)[k]?).map (·.type.name) = some typ := by
  obtain ⟨slot, hslot, hname⟩ := Option.map_eq_some_iff.mp h
  by_cases hk : k = j
  · subst hk
    cases hj.symm.trans hslot
    rw [getElem?_set_same hj, Option.map_some, htype, hname]
  · rw [List.getElem?_set_ne (Ne.symm hk)]
    exact h

private theorem typeName_thread (hcase : s.TaskCase self pc t) {k : Nat} {typ : GoString}
    (h : s.typeName k = some typ) : t.typeName k = some typ := by
  cases hcase with
  | allocate hT =>
    obtain ⟨slot, hslot, hname⟩ := Option.map_eq_some_iff.mp h
    have hlt := (List.getElem?_eq_some_iff.mp hslot).1
    refine Option.map_eq_some_iff.mpr ⟨slot, ?_, hname⟩
    exact (List.getElem?_append_left hlt).trans hslot
  | restore hk => exact typeName_set hk rfl h
  | onCreated hk => exact typeName_set hk rfl h
  | ensure hk => exact typeName_set hk rfl h
  | invoke hk => exact typeName_set hk rfl h
  | destroy hk => exact typeName_set hk rfl h
  | destroyNext hk => exact typeName_set hk rfl h
  | _ => exact h

private theorem lookup_thread (hcase : s.TaskCase self pc t) {id : GoString} {k : Nat}
    (h : t.objects.lookup id = some k) :
    s.objects.lookup id = some k ∨ ∃ cr, pc = .publish cr k ∧ cr.id = id := by
  cases hcase with
  | @publish cr j =>
    by_cases hid : id = cr.id
    · subst hid
      have hinsert : (s.objects.insert cr.id j).lookup cr.id = some k := h
      rw [AList.lookup_insert] at hinsert
      cases hinsert
      exact .inr ⟨cr, rfl, rfl⟩
    · exact .inl ((AList.lookup_insert_ne hid).symm.trans h)
  | @remove id' j hj =>
    have herase : (s.objects.erase id').lookup id = some k := h
    by_cases hid : id = id'
    · rw [hid, AList.lookup_erase] at herase
      contradiction
    · exact .inl ((AList.lookup_erase_ne hid).symm.trans herase)
  | clear => contradiction
  | _ => exact .inl h

/-- What was checked about an object stays true while its lifecycle lock is held: nobody else
can publish an object under the id. -/
theorem Serving.other (h : Serving rules s req pc) (ho : s.Orderly) {i : Nat}
    (hpc : s.threads[i]? = some pc) {other : TaskPC μ} (hother : s.threads[self]? = some other)
    (hne : i ≠ self) (hcase : s.TaskCase self other t) : Serving rules t req pc := by
  have hchecked : pc.keyMode = some (req.id, .exclusive) → Checked rules s req →
      Checked rules t req := by
    intro hkey hchecked k hk
    rcases lookup_thread hcase hk with hbefore | ⟨cr, rfl, hid⟩
    · obtain ⟨htype, hpermits⟩ := hchecked k hbefore
      exact ⟨typeName_thread hcase htype, hpermits⟩
    · refine absurd (ho.disciplined.excludes hpc (TaskPC.holds_lifecycle hkey) hother ?_) hne.symm
      rw [TaskPC.holds_lifecycle (show TaskPC.keyMode (.publish cr k) = some (req.id, .exclusive)
        from hid ▸ rfl)]
      exact Option.some_ne_none _
  cases pc with
  | deleteRow id k | remove id => exact ⟨h.1, hchecked (h.1 ▸ rfl) h.2⟩
  | _ => exact h

theorem Serving.findRemoval {rm : Removal} {id : GoString}
    (h : Serving rules s req (.findRemoval rm id))
    (hpc : s.threads[self]? = some (.findRemoval rm id))
    (hstep : s.taskStep self (answer rules s self ok) (.findRemoval rm id) = some t) :
    ∃ pc', t.threads = s.threads.set self pc' ∧ Serving rules t req pc' := by
  obtain ⟨rfl, rfl⟩ := h
  cases hstep
  refine ⟨_, rfl, ?_⟩
  cases hlookup : s.objects.lookup req.id with
  | none => trivial
  | some k =>
    dsimp only
    split
    · rename_i hfound
      have hanswer : rules.nodePermits req.claimedType req.id = true := by
        have hok := hfound.2
        simp only [answer, hpc, hlookup, Option.bind_some, hfound.1] at hok
        exact hok
      have hchecked : Checked rules s req := by
        intro j hj
        cases hlookup.symm.trans hj
        exact ⟨hfound.1, hanswer⟩
      split <;> exact ⟨rfl, hchecked.of_eq rfl rfl⟩
    · trivial

theorem Serving.deleteRow {id : GoString} {k : Nat} (h : Serving rules s req (.deleteRow id k))
    (hstep : s.taskStep self ok (.deleteRow id k) = some t) :
    ∃ pc', t.threads = s.threads.set self pc' ∧ Serving rules t req pc' := by
  obtain ⟨rfl, hchecked⟩ := h
  simp only [Host.taskStep, Host.removeStep] at hstep
  split at hstep
  · contradiction
  · split at hstep
    · cases hstep
      exact ⟨_, rfl, rfl, hchecked.of_eq rfl rfl⟩
    · split at hstep
      · cases hstep
        exact ⟨_, rfl, trivial⟩
      · cases hstep
        exact ⟨_, rfl, rfl, hchecked.of_eq rfl rfl⟩

theorem Serving.own (h : Serving rules s req pc) (hpc : s.threads[self]? = some pc)
    (hstep : s.taskStep self (answer rules s self ok) pc = some t) :
    ∃ pc', t.threads = s.threads.set self pc' ∧ Serving rules t req pc' := by
  cases pc with
  | start task =>
    obtain rfl : task = _ := h
    cases htyp : req.claimedType with
    | nil =>
      rw [htyp] at hstep
      cases hstep
      exact ⟨_, rfl, trivial⟩
    | cons b rest =>
      rw [htyp] at hstep
      obtain ⟨l, -, rfl⟩ := Option.map_eq_some_iff.mp hstep
      refine ⟨_, rfl, ?_⟩
      rw [Serving, htyp]
  | checkStopped task =>
    obtain rfl : task = _ := h
    cases hstep
    refine ⟨_, rfl, ?_⟩
    split
    · trivial
    · exact ⟨rfl, rfl⟩
  | lockRemoval rm id =>
    obtain ⟨l, -, rfl⟩ := Option.map_eq_some_iff.mp hstep
    exact ⟨_, rfl, h⟩
  | findRemoval rm id => exact h.findRemoval hpc hstep
  | deleteRow id k => exact h.deleteRow hstep
  | remove id =>
    simp only [Host.taskStep, Host.removeStep] at hstep
    split at hstep
    · cases hstep
      exact ⟨_, rfl, trivial⟩
    · cases hstep
      exact ⟨_, rfl, trivial⟩
  | destroy id k =>
    obtain ⟨slot, -, rfl⟩ := Option.map_eq_some_iff.mp hstep
    exact ⟨_, rfl, trivial⟩
  | unlockRemoval id =>
    cases hstep
    exact ⟨_, rfl, trivial⟩
  | leave =>
    cases hstep
    exact ⟨_, rfl, trivial⟩
  | done => contradiction
  | _ => exact h.elim

end Host

variable {rules : DeleteRules} {s t : ClientDelete σ μ}

/-- Both rule lists permit what was removed. -/
def Permitted (rules : DeleteRules) (r : Removed) : Prop :=
  r.id = r.request.id ∧ r.typ = r.request.claimedType ∧
    rules.gatePermits r.typ r.id = true ∧ rules.nodePermits r.typ r.id = true

structure Faithful (rules : DeleteRules) (s : ClientDelete σ μ) : Prop where
  orderly : s.host.Orderly
  aligned : s.serves.length = s.host.threads.length
  admitted : ∀ req, some req ∈ s.serves → rules.gatePermits req.claimedType req.id = true
  serving : ∀ (i : Nat) (req : DeleteRequest) (pc : TaskPC μ), s.serves[i]? = some (some req) →
    s.host.threads[i]? = some pc → Serving rules s.host req pc
  permitted : ∀ r ∈ s.removed, Permitted rules r

theorem Faithful.removal (h : s.Faithful rules) (self : Nat) :
    ∀ r ∈ s.removal self, Permitted rules r := by
  intro r hr
  unfold ClientDelete.removal at hr
  split at hr
  · rename_i id req hpc hreq
    obtain ⟨rfl, hchecked⟩ := h.serving self req _ hreq hpc
    obtain ⟨typ, htyp, rfl⟩ := List.mem_map.mp hr
    obtain ⟨k, hk, htype⟩ := Option.bind_eq_some_iff.mp (Option.mem_toList.mp htyp)
    obtain ⟨hclaimed, hpermits⟩ := hchecked k hk
    obtain rfl := Option.some.inj (hclaimed.symm.trans htype)
    exact ⟨rfl, rfl, h.admitted req (List.mem_of_getElem? hreq), hpermits⟩
  · contradiction

theorem Faithful.spawn (h : s.Faithful rules) {task : Node.Task μ} {served : Option DeleteRequest}
    (hserved : ∀ req, served = some req → task = .remove (.delete req.claimedType) req.id ∧
      rules.gatePermits req.claimedType req.id = true) :
    Faithful rules { s with
      host := { s.host with threads := s.host.threads ++ [.start task] }
      serves := s.serves ++ [served] } := by
  refine ⟨h.orderly.spawn task, by simp [h.aligned], fun req hreq => ?_,
    fun i req pc hreq hpc => ?_, h.permitted⟩
  · rcases List.mem_append.mp hreq with hold | hnew
    · exact h.admitted req hold
    · exact (hserved req (List.mem_singleton.mp hnew).symm).2
  · rcases getElem?_concat_cases hpc with ⟨rfl, rfl⟩ | hold
    · rw [← h.aligned, List.getElem?_concat_length] at hreq
      exact (hserved req (Option.some.inj hreq)).1
    · have hlt := (List.getElem?_eq_some_iff.mp hold).1
      have haligned := h.aligned
      dsimp only at hreq
      rw [List.getElem?_append_left (by omega)] at hreq
      have hserving := h.serving i req pc hreq hold
      cases pc with
      | deleteRow id k | remove id => exact ⟨hserving.1, hserving.2.of_eq rfl rfl⟩
      | _ => exact hserving

theorem Faithful.thread (h : s.Faithful rules) {self : Nat} {ok : Bool} {host : Host σ μ}
    (hstep : s.host.step (.thread self (answer rules s.host self ok)) = some host) :
    Faithful rules { s with host := host, removed := s.removed ++ s.removal self } := by
  obtain ⟨pc, hpc, htask⟩ := Option.bind_eq_some_iff.mp hstep
  have hcase := Host.taskStep_case htask
  obtain ⟨next, hmoves⟩ := hcase.moves
  refine ⟨h.orderly.step hstep, ?_, h.admitted, fun i req pc' hreq hpc' => ?_, fun r hr => ?_⟩
  · rw [hmoves.threads, List.length_set]
    exact h.aligned
  · by_cases hi : i = self
    · subst hi
      obtain ⟨own, hthreads, hserving⟩ := (h.serving i req pc hreq hpc).own hpc htask
      dsimp only at hpc'
      rw [hthreads, getElem?_set_same hpc] at hpc'
      exact Option.some.inj hpc' ▸ hserving
    · dsimp only at hpc'
      rw [hmoves.threads, List.getElem?_set_ne (Ne.symm hi)] at hpc'
      exact (h.serving i req pc' hreq hpc').other h.orderly hpc' hpc hi hcase
  · rcases List.mem_append.mp hr with hold | hnew
    · exact h.permitted r hold
    · exact h.removal self r hnew

theorem Faithful.aside (h : s.Faithful rules) {label : Host.Label μ} {host : Host σ μ}
    (hstep : s.host.step label = some host) (hthreads : host.threads = s.host.threads)
    (hobjects : host.objects = s.host.objects)
    (htypes : ∀ k typ, s.host.typeName k = some typ → host.typeName k = some typ) :
    Faithful rules { s with host := host } := by
  refine ⟨h.orderly.step hstep, h.aligned.trans (congrArg _ hthreads.symm), h.admitted,
    fun i req pc hreq hpc => ?_, h.permitted⟩
  dsimp only at hpc
  rw [hthreads] at hpc
  have hserving := h.serving i req pc hreq hpc
  have hchecked : Checked rules s.host req → Checked rules host req := by
    intro hchecked k hk
    rw [hobjects] at hk
    exact ⟨htypes k _ (hchecked k hk).1, (hchecked k hk).2⟩
  cases pc with
  | deleteRow id k | remove id => exact ⟨hserving.1, hchecked hserving.2⟩
  | _ => exact hserving

theorem Faithful.step (h : s.Faithful rules) {label : Label μ}
    (hstep : s.step rules label = some t) : t.Faithful rules := by
  cases label with
  | client req routed =>
    cases hstep
    unfold request
    split
    · exact h
    · split
      · exact h
      · rename_i hpermits
        split
        · exact h
        · apply h.spawn
          intro other hother
          cases hother
          exact ⟨rfl, by simpa using hpermits⟩
  | node label =>
    cases label with
    | spawn task =>
      cases hstep
      exact h.spawn fun req hreq => by contradiction
    | thread self ok =>
      obtain ⟨host, hhost, rfl⟩ := Option.map_eq_some_iff.mp hstep
      exact h.thread hhost
    | act k action =>
      obtain ⟨host, hhost, rfl⟩ := Option.map_eq_some_iff.mp hstep
      cases Host.step_case hhost with
      | act hk hout => exact h.aside hhost rfl rfl fun j typ hj => typeName_set hk rfl hj
    | insert row =>
      obtain ⟨host, hhost, rfl⟩ := Option.map_eq_some_iff.mp hstep
      cases Host.step_case hhost with
      | insert => exact h.aside hhost rfl rfl fun j typ hj => hj

theorem faithful (hreach : (machine σ μ rules).Reachable Machine.Any s) : s.Faithful rules := by
  apply hreach.invariant (I := Faithful rules)
  · rintro s ⟨hhost, hserves, hremoved⟩
    have hstarted : (Host.machine σ μ).Reachable Machine.Any s.host := .init hhost
    have horderly := (Host.safe_of_reachable hstarted).1
    obtain ⟨objectTypes, hasProvider, db, -, hstart⟩ := hhost
    refine ⟨horderly, ?_, ?_, ?_, ?_⟩ <;> simp [hserves, hremoved, hstart, Host.start]
  · intro s label t h _ hstep
    exact h.step hstep

/-- Whatever else runs on the node, a client's request removes only instances whose real type
the rules of the gate and of the node let it delete. -/
theorem clients_delete_what_they_may (rules : DeleteRules) (s : ClientDelete σ μ)
    (hreach : (machine σ μ rules).Reachable Machine.Any s) (r : Removed) (hr : r ∈ s.removed) :
    (∀ v ∈ rules.gate, v.checkClientDelete r.typ r.id = .ok ()) ∧
      (∀ v ∈ rules.node, v.checkNodeDelete r.typ r.id = .ok ()) ∧
      r.typ = r.request.claimedType ∧ r.id = r.request.id := by
  obtain ⟨hid, htyp, hgate, hnode⟩ := (faithful hreach).permitted r hr
  have hok : ∀ {result : Except AccessError Unit}, result.toOption.isSome = true →
      result = .ok () := by
    intro result hsome
    cases result with
    | error => contradiction
    | ok => rfl
  refine ⟨fun v hv => hok ?_, fun v hv => hok ?_, htyp, hid⟩
  · rw [DeleteRules.gatePermits, Option.mem_def.mp hv] at hgate
    exact hgate
  · rw [DeleteRules.nodePermits, Option.mem_def.mp hv] at hnode
    exact hnode

/-- Everybody may delete a `Tally`. -/
def openDelete : DeleteRules :=
  let validator : LifecycleValidator := ⟨[⟨.regexp fun typ => typ = lit "Tally", .matchAll,
    .delete, .allow⟩]⟩
  ⟨some validator, some validator⟩

/-- An object is created and a client deletes it. -/
theorem clients_delete_what_they_may_tally :
    ∃ (s : ClientDelete Bytes Bytes) (r : Removed), r ∈ s.removed ∧
      r = ⟨⟨lit "Tally", lit "o"⟩, lit "o", lit "Tally"⟩ ∧
      (∀ v ∈ openDelete.gate, v.checkClientDelete r.typ r.id = .ok ()) ∧
      ∀ v ∈ openDelete.node, v.checkNodeDelete r.typ r.id = .ok () := by
  have hrun : ((machine Bytes Bytes openDelete).exec Machine.Any
      ⟨Host.start Host.tallyTypes false DB.empty, [], []⟩
      (.node (.spawn (.object ⟨lit "Tally", lit "o", none⟩)) ::
        List.replicate 11 (.node (.thread 0 true)) ++
        .client ⟨lit "Tally", lit "o"⟩ true :: List.replicate 5 (.node (.thread 1 true)))).any
        (fun s => decide (⟨⟨lit "Tally", lit "o"⟩, lit "o", lit "Tally"⟩ ∈ s.removed)) = true := by
    decide
  have hinit : (machine Bytes Bytes openDelete).Init
      ⟨Host.start Host.tallyTypes false DB.empty, [], []⟩ := by
    refine ⟨⟨Host.tallyTypes, false, DB.empty, ?_, rfl⟩, rfl, rfl⟩
    intro typ T hT
    exact Host.tallyTypes_name hT
  obtain ⟨s, hreach, hs⟩ := Machine.exec_reachable hrun hinit
  obtain ⟨hgate, hnode, -⟩ := clients_delete_what_they_may openDelete s hreach _
    (of_decide_eq_true hs)
  exact ⟨s, _, of_decide_eq_true hs, rfl, hgate, hnode⟩

end ClientDelete
end Goverse.Server
