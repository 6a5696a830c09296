import Goverse.Inspector.Graph
import Goverse.Lib.Machine
import Goverse.Lib.Threads

/-! The inspector with any number of requests under way and its two refreshes. A request looks at
the graph and changes it in separate sections, and a refresh reads all objects or nodes and writes
them back one by one, so that other requests come in between. -/
namespace Goverse

open Lib Lib.Directory

namespace Inspector

structure CallMetric where
  timestamp : Int
  duration : Int
  deriving DecidableEq, Repr

inductive Request where
  | addOrUpdateObject (object : Option ObjectInfo) (nodeAddress : GoString)
  | removeObject (objectID nodeAddress : GoString)
  | registerNode (addr : GoString) (objects : List (Option ObjectInfo))
      (connectedNodes registeredGates : List GoString)
  | unregisterNode (addr : GoString)
  | updateConnectedNodes (addr : GoString) (connectedNodes : List GoString)
  | updateRegisteredGates (addr : GoString) (registeredGates : List GoString)
  | reportObjectCall (objectID nodeAddress : GoString) (duration : Int)
  | reportLinkCall (sourceAddr targetAddr : GoString) (isGateSource : Bool)
  deriving DecidableEq, Repr

/-- Where a request is. After the first section: the objects that are still to be added, one of
them with its metrics, the removals, the updates of a node, and the records of calls. -/
inductive Handler where
  | start (request : Request)
  | addObjects (addr : GoString) (objects : List (Option ObjectInfo))
  | add (addr : GoString) (obj : GoverseObject) (rest : List (Option ObjectInfo))
  | remove (objectID nodeAddress : GoString)
  | removeStale (addr : GoString) (objects : List (Option ObjectInfo))
  | setConnectedNodes (addr : GoString) (connectedNodes : List GoString)
  | setRegisteredGates (addr : GoString) (registeredGates : List GoString)
  | recordCall (objectID : GoString) (duration : Int)
  | checkTarget (sourceAddr targetAddr : GoString)
  | recordLinkCall (sourceAddr targetAddr : GoString)
  | returned (err : Option GoString)
  deriving DecidableEq, Repr

/-- `pending` are the objects that `refreshObjectMetrics` has read and not come to yet, and
`writing` is the one that it has measured. -/
structure ObjectRefresh where
  pending : List GoverseObject
  writing : Option GoverseObject
  deriving DecidableEq, Repr

/-- So for the nodes of `refreshLinkMetrics`; the one that is measured has its own targets still to
do. -/
structure LinkRefresh where
  pending : List GoverseNode
  measuring : Option (GoverseNode × List GoString)

/-- `now` is what the clock shows, and `gate` tells whether the gate is registered that a request
asks for. A refresh takes up the objects and nodes in any order. -/
inductive Label where
  | request (request : Request)
  | handler (i : Nat) (now : Int) (gate : Bool)
  | refreshObjects
  | measureObject (k : Nat) (now : Int)
  | writeObject
  | refreshNodes
  | pickNode (k : Nat)
  | measureLink (now : Int)
  | writeNode
  | cleanupOldMetrics (now : Int)
  | cleanupOldLinkMetrics (now : Int)
  deriving DecidableEq, Repr

/-- The steps of the two refreshes. -/
def Label.refreshes : Label → Bool
  | .refreshObjects | .measureObject .. | .writeObject => true
  | .refreshNodes | .pickNode _ | .measureLink _ | .writeNode => true
  | .request _ | .handler .. | .cleanupOldMetrics _ | .cleanupOldLinkMetrics _ => false

/-- In nanoseconds. -/
def minute : Int := 60 * 1000000000

def metricsRetentionDuration : Int := 2 * minute

namespace Errors

def nodeNotRegistered : GoString := lit "node not registered"

def emptyAddress : GoString := lit "advertise address cannot be empty"

end Errors

def newObject (o : ObjectInfo) (addr : GoString) (metrics : Nat × Rat) : GoverseObject where
  id := o.id
  label := o.objectClass ++ lit " (" ++ o.id ++ lit ")"
  size := 10
  color := []
  type := o.objectClass
  goverseNodeID := addr
  shardID := o.shardID
  callsPerMinute := metrics.1
  avgExecutionDurationUs := metrics.2

def newNode (addr : GoString) (connectedNodes registeredGates : List GoString) (now : Int) :
    GoverseNode where
  id := addr
  label := lit "Node " ++ addr
  color := lit "#4CAF50"
  type := lit "goverse_node"
  advertiseAddr := addr
  registeredAt := now
  objectCount := 0
  connectedNodes
  registeredGates
  linkMetrics := ∅

def linkKey (sourceAddr targetAddr : GoString) : GoString := sourceAddr ++ lit "->" ++ targetAddr

end Inspector

open Inspector in
/-- The metrics of an object or a link that has none are empty. -/
structure Inspector where
  graph : GoverseGraph
  callMetrics : GoString → List CallMetric
  linkMetrics : GoString → List Int
  handlers : List Handler
  objectRefresh : ObjectRefresh
  linkRefresh : LinkRefresh

namespace Inspector

/-- The calls per minute and the average duration. -/
def getCallMetrics (s : Inspector) (objectID : GoString) (now : Int) : Nat × Rat :=
  let calls := (s.callMetrics objectID).filter fun call => decide (now - minute < call.timestamp)
  (calls.length, ((calls.map CallMetric.duration).sum : Rat) / calls.length)

def getLinkCallsPerMinute (s : Inspector) (sourceAddr targetAddr : GoString) (now : Int) : Nat :=
  (s.linkMetrics (linkKey sourceAddr targetAddr)).countP fun timestamp =>
    decide (now - minute < timestamp)

/-- What a request does first. -/
def serve (s : Inspector) (now : Int) (gate : Bool) : Request → Inspector × Handler
  | .addOrUpdateObject none _ => (s, .returned none)
  | .addOrUpdateObject (some o) nodeAddress =>
    if o.id = [] then (s, .returned none)
    else if s.graph.isNodeRegistered nodeAddress then (s, .addObjects nodeAddress [some o])
    else (s, .returned (some Errors.nodeNotRegistered))
  | .removeObject objectID nodeAddress =>
    if objectID = [] then (s, .returned none)
    else if s.graph.isNodeRegistered nodeAddress then (s, .remove objectID nodeAddress)
    else (s, .returned (some Errors.nodeNotRegistered))
  | .registerNode addr objects connectedNodes registeredGates =>
    if addr = [] then (s, .returned (some Errors.emptyAddress))
    else
      let node := newNode addr connectedNodes registeredGates now
      ({ s with graph := s.graph.addOrUpdateNode node }, .removeStale addr objects)
  | .unregisterNode addr => ({ s with graph := s.graph.removeNode addr }, .returned none)
  | .updateConnectedNodes addr connectedNodes =>
    if addr = [] then (s, .returned (some Errors.emptyAddress))
    else if s.graph.isNodeRegistered addr then (s, .setConnectedNodes addr connectedNodes)
    else (s, .returned none)
  | .updateRegisteredGates addr registeredGates =>
    if addr = [] then (s, .returned (some Errors.emptyAddress))
    else if s.graph.isNodeRegistered addr then (s, .setRegisteredGates addr registeredGates)
    else (s, .returned none)
  | .reportObjectCall objectID nodeAddress duration =>
    if objectID = [] then (s, .returned none)
    else if s.graph.isNodeRegistered nodeAddress then (s, .recordCall objectID duration)
    else (s, .returned none)
  | .reportLinkCall sourceAddr targetAddr isGateSource =>
    if sourceAddr = [] ∨ targetAddr = [] then (s, .returned none)
    else if (if isGateSource then gate else s.graph.isNodeRegistered sourceAddr) then
      (s, .checkTarget sourceAddr targetAddr)
    else (s, .returned none)

def handlerStep (s : Inspector) (now : Int) (gate : Bool) : Handler → Option (Inspector × Handler)
  | .start request => some (s.serve now gate request)
  | .addObjects _ [] => some (s, .returned none)
  | .addObjects addr (none :: rest) => some (s, .addObjects addr rest)
  | .addObjects addr (some o :: rest) =>
    if o.id = [] then some (s, .addObjects addr rest)
    else some (s, .add addr (newObject o addr (s.getCallMetrics o.id now)) rest)
  | .add addr obj rest =>
    some ({ s with graph := s.graph.addOrUpdateObject obj }, .addObjects addr rest)
  | .remove objectID _ =>
    some ({ s with graph := s.graph.removeObject objectID }, .returned none)
  | .removeStale addr objects =>
    some ({ s with graph := s.graph.removeStaleObjects addr objects }, .addObjects addr objects)
  | .setConnectedNodes addr connectedNodes =>
    some ({ s with graph := s.graph.updateNodeConnectedNodes addr connectedNodes }, .returned none)
  | .setRegisteredGates addr registeredGates =>
    some ({ s with graph := s.graph.updateNodeRegisteredGates addr registeredGates },
      .returned none)
  | .recordCall objectID duration =>
    let calls := s.callMetrics objectID ++ [⟨now, duration⟩]
    some ({ s with callMetrics := Function.update s.callMetrics objectID calls }, .returned none)
  | .checkTarget sourceAddr targetAddr =>
    some (s, if s.graph.isNodeRegistered targetAddr then .recordLinkCall sourceAddr targetAddr
      else .returned none)
  | .recordLinkCall sourceAddr targetAddr =>
    let key := linkKey sourceAddr targetAddr
    some ({ s with linkMetrics := Function.update s.linkMetrics key (s.linkMetrics key ++ [now]) },
      .returned none)
  | .returned _ => none

def measureObject (s : Inspector) (k : Nat) (now : Int) : Option Inspector :=
  match s.objectRefresh.writing, s.objectRefresh.pending[k]? with
  | none, some obj =>
    let metrics := s.getCallMetrics obj.id now
    let pending := s.objectRefresh.pending.eraseIdx k
    if obj.callsPerMinute ≠ metrics.1 ∨ obj.avgExecutionDurationUs ≠ metrics.2 then
      some { s with objectRefresh := ⟨pending, some { obj with
        callsPerMinute := metrics.1, avgExecutionDurationUs := metrics.2 }⟩ }
    else some { s with objectRefresh := ⟨pending, none⟩ }
  | _, _ => none

def writeObject (s : Inspector) : Option Inspector :=
  s.objectRefresh.writing.map fun obj =>
    { s with
      graph := s.graph.addOrUpdateObject obj
      objectRefresh := { s.objectRefresh with writing := none } }

def pickNode (s : Inspector) (k : Nat) : Option Inspector :=
  match s.linkRefresh.measuring, s.linkRefresh.pending[k]? with
  | none, some node =>
    some { s with linkRefresh := ⟨s.linkRefresh.pending.eraseIdx k,
      some ({ node with linkMetrics := ∅ }, node.connectedNodes)⟩ }
  | _, _ => none

def measureLink (s : Inspector) (now : Int) : Option Inspector :=
  match s.linkRefresh.measuring with
  | some (node, targetAddr :: rest) =>
    let cpm := s.getLinkCallsPerMinute node.advertiseAddr targetAddr now
    let measured := if 0 < cpm then
      { node with linkMetrics := node.linkMetrics.insert targetAddr cpm } else node
    some { s with linkRefresh := { s.linkRefresh with measuring := some (measured, rest) } }
  | _ => none

def writeNode (s : Inspector) : Option Inspector :=
  match s.linkRefresh.measuring with
  | some (node, []) =>
    some { s with
      graph := s.graph.addOrUpdateNode node
      linkRefresh := { s.linkRefresh with measuring := none } }
  | _ => none

/-- The refreshes start over when they are through. -/
def step (s : Inspector) : Label → Option Inspector
  | .request request => some { s with handlers := s.handlers ++ [.start request] }
  | .handler i now gate =>
    (s.handlers[i]?.bind (s.handlerStep now gate)).map fun (t, handler) =>
      { t with handlers := s.handlers.set i handler }
  | .refreshObjects =>
    if s.objectRefresh.pending = [] ∧ s.objectRefresh.writing = none then
      some { s with objectRefresh := ⟨s.graph.getObjects, none⟩ }
    else none
  | .measureObject k now => s.measureObject k now
  | .writeObject => s.writeObject
  | .refreshNodes =>
    if s.linkRefresh.pending.isEmpty && s.linkRefresh.measuring.isNone then
      some { s with linkRefresh := ⟨s.graph.getNodes, none⟩ }
    else none
  | .pickNode k => s.pickNode k
  | .measureLink now => s.measureLink now
  | .writeNode => s.writeNode
  | .cleanupOldMetrics now =>
    some { s with
      callMetrics := fun objectID => (s.callMetrics objectID).filter fun call =>
        decide (now - metricsRetentionDuration < call.timestamp) }
  | .cleanupOldLinkMetrics now =>
    some { s with
      linkMetrics := fun key => (s.linkMetrics key).filter fun timestamp =>
        decide (now - metricsRetentionDuration < timestamp) }

def new : Inspector := ⟨.new, fun _ => [], fun _ => [], [], ⟨[], none⟩, ⟨[], none⟩⟩

/-- The objects of the graph with their nodes, and those that a refresh has yet to write back. -/
def objects (s : Inspector) : Directory GoString GoString where
  entry := s.graph.owner
  pending := (s.objectRefresh.pending ++ s.objectRefresh.writing.toList).map fun obj =>
    (obj.id, obj.goverseNodeID)

def nodes (s : Inspector) : Directory GoString Unit where
  entry := s.graph.member
  pending := (s.linkRefresh.pending ++ (s.linkRefresh.measuring.map Prod.fst).toList).map
    fun node => (node.id, ())

/-- What a node reports about its objects with the next step of a request. -/
def Handler.report : Handler → Option (Report GoString GoString)
  | .start (.unregisterNode addr) => some (.purge addr fun _ => false)
  | .add _ obj _ => some (.put obj.id obj.goverseNodeID)
  | .remove objectID nodeAddress => some (.drop objectID nodeAddress)
  | .removeStale addr objects => some (.purge addr (GoverseGraph.isCurrent objects))
  | _ => none

/-- And about itself. -/
def Handler.nodeReport : Handler → Option (Report GoString Unit)
  | .start (.registerNode addr _ _ _) => if addr = [] then none else some (.put addr ())
  | .start (.unregisterNode addr) => some (.drop addr ())
  | _ => none

/-- The report that a step takes up. -/
def report (s : Inspector) : Label → Option (Report GoString GoString)
  | .handler i _ _ => s.handlers[i]?.bind Handler.report
  | _ => none

def nodeReport (s : Inspector) : Label → Option (Report GoString Unit)
  | .handler i _ _ => s.handlers[i]?.bind Handler.nodeReport
  | _ => none

section Steps

variable {s t : Inspector}

/-- A request changes the graph as its reports say, and no refresh. -/
structure Follows (s t : Inspector) (handler : Handler) : Prop where
  owner : t.graph.owner = handler.report.elim s.graph.owner fun r => r.apply s.graph.owner
  member : t.graph.member = handler.nodeReport.elim s.graph.member fun r => r.apply s.graph.member
  objectRefresh : t.objectRefresh = s.objectRefresh
  linkRefresh : t.linkRefresh = s.linkRefresh

private theorem serve_follows (now : Int) (gate : Bool) (request : Request) :
    Follows s (s.serve now gate request).1 (.start request) := by
  cases request with
  | addOrUpdateObject object nodeAddress =>
    cases object with
    | none => exact ⟨rfl, rfl, rfl, rfl⟩
    | some o =>
      rw [serve]
      split
      · exact ⟨rfl, rfl, rfl, rfl⟩
      · split <;> exact ⟨rfl, rfl, rfl, rfl⟩
  | registerNode addr objects connectedNodes registeredGates =>
    rw [serve]
    split
    · rename_i haddr
      refine ⟨rfl, ?_, rfl, rfl⟩
      rw [Handler.nodeReport, if_pos haddr]
      rfl
    · rename_i haddr
      refine ⟨rfl, ?_, rfl, rfl⟩
      rw [Handler.nodeReport, if_neg haddr]
      exact s.graph.member_addOrUpdateNode _
  | unregisterNode addr =>
    exact ⟨s.graph.owner_removeNode addr, s.graph.member_removeNode addr, rfl, rfl⟩
  | removeObject | updateConnectedNodes | updateRegisteredGates | reportObjectCall =>
    rw [serve]
    split
    · exact ⟨rfl, rfl, rfl, rfl⟩
    · split <;> exact ⟨rfl, rfl, rfl, rfl⟩
  | reportLinkCall sourceAddr targetAddr isGateSource =>
    rw [serve]
    split
    · exact ⟨rfl, rfl, rfl, rfl⟩
    · generalize (if isGateSource then gate else s.graph.isNodeRegistered sourceAddr) = registered
      split <;> exact ⟨rfl, rfl, rfl, rfl⟩

private theorem handlerStep_follows {now : Int} {gate : Bool} {handler next : Handler}
    (h : s.handlerStep now gate handler = some (t, next)) : Follows s t handler := by
  cases handler with
  | start request =>
    have hserve : s.serve now gate request = (t, next) := Option.some.inj h
    have hfollows := serve_follows (s := s) now gate request
    rw [hserve] at hfollows
    exact hfollows
  | addObjects addr objects =>
    cases objects with
    | nil =>
      cases h
      exact ⟨rfl, rfl, rfl, rfl⟩
    | cons object rest =>
      cases object with
      | none =>
        cases h
        exact ⟨rfl, rfl, rfl, rfl⟩
      | some o =>
        rw [handlerStep] at h
        split at h <;> cases h <;> exact ⟨rfl, rfl, rfl, rfl⟩
  | add addr obj rest =>
    cases h
    exact ⟨s.graph.owner_addOrUpdateObject obj, rfl, rfl, rfl⟩
  | remove objectID nodeAddress =>
    cases h
    exact ⟨s.graph.owner_removeObject objectID nodeAddress, rfl, rfl, rfl⟩
  | removeStale addr objects =>
    cases h
    exact ⟨s.graph.owner_removeStaleObjects addr objects, rfl, rfl, rfl⟩
  | setConnectedNodes addr | setRegisteredGates addr =>
    cases h
    exact ⟨s.graph.owner_updateNode addr _, s.graph.member_updateNode addr fun _ => rfl, rfl, rfl⟩
  | recordCall | checkTarget | recordLinkCall =>
    cases h
    exact ⟨rfl, rfl, rfl, rfl⟩
  | returned => contradiction

private theorem measureObject_refines {k : Nat} {now : Int} (h : s.measureObject k now = some t) :
    Step s.objects t.objects none ∧ Step s.nodes t.nodes none := by
  unfold measureObject at h
  split at h
  · rename_i obj hwriting hk
    dsimp only at h
    split at h
    · cases h
      refine ⟨.pass rfl ?_, .stay rfl rfl⟩
      rw [objects, objects, hwriting, Option.toList_none, List.append_nil]
      exact map_eraseIdx_subset hk rfl
    · cases h
      refine ⟨.pass rfl ?_, .stay rfl rfl⟩
      rw [objects, objects, hwriting, Option.toList_none, List.append_nil, List.append_nil]
      exact List.map_subset _ (List.eraseIdx_sublist _ _).subset
  · contradiction

private theorem writeObject_refines (h : s.writeObject = some t) :
    Step s.objects t.objects none ∧ Step s.nodes t.nodes none := by
  obtain ⟨obj, hwriting, rfl⟩ := Option.map_eq_some_iff.mp h
  refine ⟨.write ?_ (s.graph.owner_addOrUpdateObject obj) ?_, .stay rfl rfl⟩
  · rw [objects, hwriting]
    exact List.mem_map_of_mem (List.mem_append_right _ (List.mem_singleton_self obj))
  · exact List.map_subset _ (List.append_subset.mpr
      ⟨List.subset_append_left _ _, List.nil_subset _⟩)

private theorem pickNode_refines {k : Nat} (h : s.pickNode k = some t) :
    Step s.objects t.objects none ∧ Step s.nodes t.nodes none := by
  unfold pickNode at h
  split at h
  · rename_i node hmeasuring hk
    cases h
    refine ⟨.stay rfl rfl, .pass rfl ?_⟩
    rw [nodes, nodes, hmeasuring, Option.map_none, Option.toList_none, List.append_nil]
    exact map_eraseIdx_subset hk rfl
  · contradiction

private theorem measureLink_refines {now : Int} (h : s.measureLink now = some t) :
    Step s.objects t.objects none ∧ Step s.nodes t.nodes none := by
  unfold measureLink at h
  split at h
  · rename_i node targetAddr rest hmeasuring
    cases h
    refine ⟨.stay rfl rfl, .stay rfl ?_⟩
    simp only [nodes, hmeasuring, Option.map_some, Option.toList_some, List.map_append,
      List.map_cons, List.map_nil]
    split <;> rfl
  · contradiction

private theorem writeNode_refines (h : s.writeNode = some t) :
    Step s.objects t.objects none ∧ Step s.nodes t.nodes none := by
  unfold writeNode at h
  split at h
  · rename_i node hmeasuring
    cases h
    refine ⟨.stay rfl rfl, .write ?_ (s.graph.member_addOrUpdateNode node) ?_⟩
    · rw [nodes, hmeasuring]
      exact List.mem_map_of_mem (List.mem_append_right _ (List.mem_singleton_self node))
    · exact List.map_subset _ (List.append_subset.mpr
        ⟨List.subset_append_left _ _, List.nil_subset _⟩)
  · contradiction

theorem step_refines {l : Label} (h : s.step l = some t) :
    Step s.objects t.objects (s.report l) ∧ Step s.nodes t.nodes (s.nodeReport l) := by
  cases l with
  | request =>
    cases h
    exact ⟨.stay rfl rfl, .stay rfl rfl⟩
  | handler i now gate =>
    obtain ⟨⟨t', next⟩, hhandler, rfl⟩ := Option.map_eq_some_iff.mp h
    obtain ⟨handler, hi, hstep⟩ := Option.bind_eq_some_iff.mp hhandler
    have hfollows := handlerStep_follows hstep
    rw [report, nodeReport, hi, Option.bind_some, Option.bind_some]
    constructor
    · apply Step.of_elim hfollows.owner
      simp only [objects, hfollows.objectRefresh]
    · apply Step.of_elim hfollows.member
      simp only [nodes, hfollows.linkRefresh]
  | refreshObjects =>
    rw [Inspector.step] at h
    split at h
    · cases h
      refine ⟨.read rfl ?_, .stay rfl rfl⟩
      intro e he
      obtain ⟨obj, hobj, rfl⟩ := List.mem_map.mp he
      rw [Option.toList_none, List.append_nil] at hobj
      exact GoverseGraph.owner_of_mem_getObjects hobj
    · contradiction
  | measureObject => exact measureObject_refines h
  | writeObject => exact writeObject_refines h
  | refreshNodes =>
    rw [Inspector.step] at h
    split at h
    · cases h
      refine ⟨.stay rfl rfl, .read rfl ?_⟩
      intro e he
      obtain ⟨node, hnode, rfl⟩ := List.mem_map.mp he
      rw [Option.map_none, Option.toList_none, List.append_nil] at hnode
      exact GoverseGraph.member_of_mem_getNodes hnode
    · contradiction
  | pickNode => exact pickNode_refines h
  | measureLink => exact measureLink_refines h
  | writeNode => exact writeNode_refines h
  | cleanupOldMetrics | cleanupOldLinkMetrics =>
    cases h
    exact ⟨.stay rfl rfl, .stay rfl rfl⟩

end Steps

/-- `latest` has the node of the latest addition of each object, unless that node has removed the
object or started over since. -/
structure Watched where
  inspector : Inspector
  latest : GoString → Option GoString

namespace Watched

def step (w : Watched) (l : Label) : Option Watched :=
  (w.inspector.step l).map fun t =>
    ⟨t, (w.inspector.report l).elim w.latest fun r => r.record w.latest⟩

def machine : Machine Watched Label where
  Init w := w = ⟨.new, fun _ => none⟩
  step := step

/-- A node removes only objects that the graph has as its own, and no request removes or moves what
a refresh has yet to write back. -/
def Undisturbed (w : Watched) (l : Label) : Prop :=
  (∀ r ∈ w.inspector.report l, w.inspector.objects.Fair r) ∧
  ∀ r ∈ w.inspector.nodeReport l, w.inspector.nodes.Fair r

instance (w : Watched) (l : Label) : Decidable (Undisturbed w l) :=
  inferInstanceAs (Decidable ((∀ r ∈ w.inspector.report l, w.inspector.objects.Fair r) ∧
    ∀ r ∈ w.inspector.nodeReport l, w.inspector.nodes.Fair r))

variable {w w' : Watched}

structure Sound (w : Watched) : Prop where
  objects : w.inspector.objects.Current
  nodes : w.inspector.nodes.Current
  latest : w.inspector.objects.Truthful w.latest

theorem Sound.step {l : Label} (h : w.Sound) (hok : w.Undisturbed l) (hstep : w.step l = some w') :
    w'.Sound := by
  obtain ⟨t, ht, rfl⟩ := Option.map_eq_some_iff.mp hstep
  obtain ⟨hobjects, hnodes⟩ := step_refines ht
  exact ⟨h.objects.step hobjects hok.1, h.nodes.step hnodes hok.2,
    h.latest.step hobjects h.objects hok.1⟩

theorem sound_of_reachable (hw : machine.Reachable Undisturbed w) : w.Sound := by
  apply hw.invariant
  · rintro _ rfl
    exact ⟨nofun, nofun, nofun⟩
  · exact fun h hok hstep => h.step hok hstep

private theorem report_eq_none {l : Label} (h : l.refreshes = true) :
    w.inspector.report l = none ∧ w.inspector.nodeReport l = none := by
  cases l <;> first | contradiction | exact ⟨rfl, rfl⟩

/-- The graph has every object whose latest addition stands, under the node that has added it, and a
refresh adds no object and no node. -/
theorem graph_reflects_reports (hw : machine.Reachable Undisturbed w) :
    (∀ id node, w.latest id = some node → ∃ obj, w.inspector.graph.objects.get id = some obj ∧
      obj.goverseNodeID = node) ∧
    ∀ l w', l.refreshes = true → w.step l = some w' → ∀ id,
      (w'.inspector.graph.objects.get id).isSome = (w.inspector.graph.objects.get id).isSome ∧
      (w'.inspector.graph.nodes.get id).isSome = (w.inspector.graph.nodes.get id).isSome := by
  have h := sound_of_reachable hw
  refine ⟨fun id node hlatest => Table.view_eq_some.mp (h.latest id node hlatest), ?_⟩
  intro l w' hl hstep id
  obtain ⟨t, ht, rfl⟩ := Option.map_eq_some_iff.mp hstep
  obtain ⟨hobjects, hnodes⟩ := step_refines ht
  obtain ⟨hreport, hnodeReport⟩ := report_eq_none (w := w) hl
  rw [hreport] at hobjects
  rw [hnodeReport] at hnodes
  have howner : t.graph.owner = w.inspector.graph.owner := h.objects.entry_eq hobjects
  have hmember : t.graph.member = w.inspector.graph.member := h.nodes.entry_eq hnodes
  constructor
  · rw [← Table.view_isSome, ← Table.view_isSome]
    exact congrArg Option.isSome (congrFun howner id)
  · rw [← Table.view_isSome, ← Table.view_isSome]
    exact congrArg Option.isSome (congrFun hmember id)

/-- A request that goes through `n` sections. -/
def served (i n : Nat) (request : Request) : List Label :=
  .request request :: List.replicate n (.handler i 0 false)

def registered (i : Nat) (addr : GoString) : List Label :=
  served i 3 (.registerNode addr [] [] [])

def added (i : Nat) (addr : GoString) : List Label :=
  served i 3 (.addOrUpdateObject (some ⟨lit "o", lit "C", 1⟩) addr)

/-- A refresh is about to write back an object that has been called. -/
def untilWriting (i : Nat) (addr : GoString) : List Label :=
  served i 2 (.reportObjectCall (lit "o") addr 5) ++ [.refreshObjects, .measureObject 0 0]

theorem graph_reflects_reports_refreshed : ∃ w w' : Watched, machine.Reachable Undisturbed w ∧
    w.latest (lit "o") = some (lit "b") ∧ w.step .writeObject = some w' ∧
    (w'.inspector.graph.objects.get (lit "o")).isSome = true := by
  have hrun : (machine.exec Undisturbed ⟨.new, fun _ => none⟩ (registered 0 (lit "a") ++
      registered 1 (lit "b") ++ added 2 (lit "a") ++ added 3 (lit "b") ++
      untilWriting 4 (lit "b"))).any (fun w => decide (w.latest (lit "o") = some (lit "b")) &&
        (w.step .writeObject).isSome) = true := by decide
  obtain ⟨w, hreach, hw⟩ := Machine.exec_reachable hrun rfl
  obtain ⟨hlatest, hsome⟩ := Bool.and_eq_true_iff.mp hw
  obtain ⟨w', hw'⟩ := Option.isSome_iff_exists.mp hsome
  have hlatest := of_decide_eq_true hlatest
  obtain ⟨hobjects, hrefresh⟩ := graph_reflects_reports hreach
  obtain ⟨obj, hobj, -⟩ := hobjects _ _ hlatest
  refine ⟨w, w', hreach, hlatest, hw', ?_⟩
  rw [(hrefresh .writeObject w' rfl hw' (lit "o")).1, hobj, Option.isSome_some]

/-- The old node of an object removes what its new node has added. A refresh brings back an object,
and a node, that has been removed since it was read. -/
theorem graph_forgets_and_revives :
    (∃ w : Watched, machine.Reachable Machine.Any w ∧ w.latest (lit "o") = some (lit "b") ∧
      w.inspector.graph.isNodeRegistered (lit "b") = true ∧
      w.inspector.graph.objects.get (lit "o") = none) ∧
    (∃ w w' : Watched, machine.Reachable Machine.Any w ∧ w.step .writeObject = some w' ∧
      w.inspector.graph.objects.get (lit "o") = none ∧
      (w'.inspector.graph.objects.get (lit "o")).isSome = true) ∧
    ∃ w w' : Watched, machine.Reachable Machine.Any w ∧ w.step .writeNode = some w' ∧
      w.inspector.graph.nodes.get (lit "a") = none ∧
      (w'.inspector.graph.nodes.get (lit "a")).isSome = true := by
  refine ⟨?_, ?_, ?_⟩
  · have hrun : (machine.exec Machine.Any ⟨.new, fun _ => none⟩ (registered 0 (lit "a") ++
        registered 1 (lit "b") ++ added 2 (lit "a") ++ added 3 (lit "b") ++
        served 4 2 (.removeObject (lit "o") (lit "a")))).any (fun w =>
          decide (w.latest (lit "o") = some (lit "b") ∧
            w.inspector.graph.isNodeRegistered (lit "b") = true) &&
          (w.inspector.graph.objects.get (lit "o")).isNone) = true := by decide
    obtain ⟨w, hreach, hw⟩ := Machine.exec_reachable hrun rfl
    obtain ⟨hreports, hnone⟩ := Bool.and_eq_true_iff.mp hw
    obtain ⟨hlatest, hregistered⟩ := of_decide_eq_true hreports
    exact ⟨w, hreach, hlatest, hregistered, Option.isNone_iff_eq_none.mp hnone⟩
  · have hrun : (machine.exec Machine.Any ⟨.new, fun _ => none⟩ (registered 0 (lit "a") ++
        added 1 (lit "a") ++ untilWriting 2 (lit "a") ++
        served 3 2 (.removeObject (lit "o") (lit "a")))).any (fun w =>
          (w.step .writeObject).any fun w' =>
            (w.inspector.graph.objects.get (lit "o")).isNone &&
            (w'.inspector.graph.objects.get (lit "o")).isSome) = true := by decide
    obtain ⟨w, hreach, hw⟩ := Machine.exec_reachable hrun rfl
    obtain ⟨w', hw', hback⟩ := (Option.any_eq_true _ _).mp hw
    obtain ⟨hnone, hsome⟩ := Bool.and_eq_true_iff.mp hback
    exact ⟨w, w', hreach, hw', Option.isNone_iff_eq_none.mp hnone, hsome⟩
  · have hrun : (machine.exec Machine.Any ⟨.new, fun _ => none⟩ (registered 0 (lit "a") ++
        [.refreshNodes, .pickNode 0] ++ served 1 1 (.unregisterNode (lit "a")))).any (fun w =>
          (w.step .writeNode).any fun w' => (w.inspector.graph.nodes.get (lit "a")).isNone &&
            (w'.inspector.graph.nodes.get (lit "a")).isSome) = true := by decide
    obtain ⟨w, hreach, hw⟩ := Machine.exec_reachable hrun rfl
    obtain ⟨w', hw', hback⟩ := (Option.any_eq_true _ _).mp hw
    obtain ⟨hnone, hsome⟩ := Bool.and_eq_true_iff.mp hback
    exact ⟨w, w', hreach, hw', Option.isNone_iff_eq_none.mp hnone, hsome⟩

end Watched
end Inspector
end Goverse
