import Goverse.GoString
import Goverse.Lib.Directory
import Goverse.Lib.Table

/-! `graph.GoverseGraph`, in which the inspector keeps the nodes of a cluster and their objects.
Every operation is one section under its mutex. -/
namespace Goverse.Inspector

open Lib Lib.Directory

structure GoverseObject where
  id : GoString
  label : GoString
  size : Nat
  color : GoString
  type : GoString
  goverseNodeID : GoString
  shardID : Int
  callsPerMinute : Nat
  avgExecutionDurationUs : Rat
  deriving DecidableEq, Repr

structure GoverseNode where
  id : GoString
  label : GoString
  color : GoString
  type : GoString
  advertiseAddr : GoString
  registeredAt : Int
  objectCount : Nat
  connectedNodes : List GoString
  registeredGates : List GoString
  linkMetrics : AList fun _ : GoString => Nat

/-- `inspector_pb.Object`. -/
structure ObjectInfo where
  id : GoString
  objectClass : GoString
  shardID : Int
  deriving DecidableEq, Repr

structure GoverseGraph where
  objects : Table GoString GoverseObject GoverseObject.id
  nodes : Table GoString GoverseNode GoverseNode.id

namespace GoverseGraph

/-- `NewGoverseGraph`. -/
def new : GoverseGraph := ⟨.empty, .empty⟩

def getObjects (g : GoverseGraph) : List GoverseObject := g.objects.values

/-- The copies have their object counts. -/
def getNodes (g : GoverseGraph) : List GoverseNode :=
  g.nodes.values.map fun node =>
    { node with
      objectCount := g.objects.values.countP fun obj => decide (obj.goverseNodeID = node.id) }

def addOrUpdateObject (g : GoverseGraph) (obj : GoverseObject) : GoverseGraph :=
  { g with objects := g.objects.put obj }

def addOrUpdateNode (g : GoverseGraph) (node : GoverseNode) : GoverseGraph :=
  { g with nodes := g.nodes.put node }

/-- A node is found by its address, not by its ID. -/
def isNodeRegistered (g : GoverseGraph) (nodeAddress : GoString) : Bool :=
  g.nodes.values.any fun node => decide (node.advertiseAddr = nodeAddress)

def removeObject (g : GoverseGraph) (objectID : GoString) : GoverseGraph :=
  { g with objects := g.objects.remove objectID }

def removeNode (g : GoverseGraph) (goverseNodeID : GoString) : GoverseGraph where
  objects := g.objects.keepIf fun obj => decide (obj.goverseNodeID ≠ goverseNodeID)
  nodes := g.nodes.remove goverseNodeID

/-- `currentIDs` of a registration. -/
def isCurrent (currentObjs : List (Option ObjectInfo)) (id : GoString) : Bool :=
  currentObjs.any fun object => object.any fun o => decide (o.id ≠ [] ∧ o.id = id)

def removeStaleObjects (g : GoverseGraph) (goverseNodeID : GoString)
    (currentObjs : List (Option ObjectInfo)) : GoverseGraph :=
  { g with
    objects := g.objects.keepIf fun obj =>
      decide (obj.goverseNodeID ≠ goverseNodeID) || isCurrent currentObjs obj.id }

/-- A change of a node that is in the graph. -/
def updateNode (g : GoverseGraph) (nodeID : GoString) (update : GoverseNode → GoverseNode) :
    GoverseGraph :=
  match g.nodes.get nodeID with
  | none => g
  | some node => { g with nodes := g.nodes.put (update node) }

def updateNodeConnectedNodes (g : GoverseGraph) (nodeID : GoString)
    (connectedNodes : List GoString) : GoverseGraph :=
  g.updateNode nodeID fun node => { node with connectedNodes := connectedNodes }

def updateNodeRegisteredGates (g : GoverseGraph) (nodeID : GoString)
    (registeredGates : List GoString) : GoverseGraph :=
  g.updateNode nodeID fun node => { node with registeredGates := registeredGates }

/-- The node of each object in the graph. -/
def owner (g : GoverseGraph) : GoString → Option GoString :=
  g.objects.view GoverseObject.goverseNodeID

/-- The nodes in the graph. -/
def member (g : GoverseGraph) : GoString → Option Unit := g.nodes.view fun _ => ()

variable (g : GoverseGraph)

@[simp] theorem owner_addOrUpdateObject (obj : GoverseObject) : (g.addOrUpdateObject obj).owner =
    (Report.put obj.id obj.goverseNodeID).apply g.owner :=
  g.objects.view_put _ obj

@[simp] theorem owner_removeObject (objectID node : GoString) :
    (g.removeObject objectID).owner = (Report.drop objectID node).apply g.owner :=
  g.objects.view_remove _ objectID

@[simp] theorem owner_removeNode (id : GoString) :
    (g.removeNode id).owner = (Report.purge id fun _ => false).apply g.owner := by
  funext k
  apply g.objects.view_keepIf _ _ fun _ node => decide (node ≠ id) || false
  intro obj
  rw [Bool.or_false]

@[simp] theorem owner_removeStaleObjects (id : GoString) (currentObjs : List (Option ObjectInfo)) :
    (g.removeStaleObjects id currentObjs).owner =
      (Report.purge id (isCurrent currentObjs)).apply g.owner := by
  funext k
  exact g.objects.view_keepIf _ _ (fun k node => decide (node ≠ id) || isCurrent currentObjs k)
    (fun _ => rfl) k

@[simp] theorem member_addOrUpdateNode (node : GoverseNode) :
    (g.addOrUpdateNode node).member = (Report.put node.id ()).apply g.member :=
  g.nodes.view_put _ node

@[simp] theorem member_removeNode (id : GoString) :
    (g.removeNode id).member = (Report.drop id ()).apply g.member :=
  g.nodes.view_remove _ id

theorem member_updateNode (id : GoString) {update : GoverseNode → GoverseNode}
    (hid : ∀ node, (update node).id = node.id) : (g.updateNode id update).member = g.member := by
  unfold updateNode
  split
  · rfl
  · rename_i node hnode
    have hmember : g.member (update node).id = some () := by
      rw [hid, g.nodes.keyed id node hnode]
      exact Table.view_of_get hnode
    refine (g.nodes.view_put _ (update node)).trans ?_
    rw [← hmember]
    exact Function.update_eq_self _ g.member

@[simp] theorem owner_updateNode (id : GoString) (update : GoverseNode → GoverseNode) :
    (g.updateNode id update).owner = g.owner := by
  unfold updateNode
  split <;> rfl

variable {g}

theorem owner_of_mem_getObjects {obj : GoverseObject} (h : obj ∈ g.getObjects) :
    g.owner obj.id = some obj.goverseNodeID :=
  Table.view_of_get (Table.get_of_mem_values h)

theorem member_of_mem_getNodes {node : GoverseNode} (h : node ∈ g.getNodes) :
    g.member node.id = some () := by
  obtain ⟨node', hmem, rfl⟩ := List.mem_map.mp h
  have hget := Table.get_of_mem_values hmem
  exact Table.view_of_get hget

end GoverseGraph
end Goverse.Inspector
