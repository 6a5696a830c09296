import Mathlib.Data.Finset.Insert
import Mathlib.Data.List.AList
import Goverse.GoString
import Goverse.Lib.Machine
import Goverse.Lib.Threads

/-! The connections to the other nodes. `SetNodes` reads which nodes are connected and then connects
and disconnects one node at a time, so that other calls and `Stop` come in between. What is done
under `connectionsMu` in one go is one step. -/
namespace Goverse.Cluster

open GoString Lib

/-- Where a call of `SetNodes` is: before it reads the connected nodes, or with the nodes that it
has yet to connect and those that it is to disconnect after them. -/
inductive SetNodesPc where
  | read
  | update (todo removed : Finset GoString)
  deriving DecidableEq

structure SetNodesCall where
  desired : Finset GoString
  pc : SetNodesPc
  deriving DecidableEq

/-- Connections are numbered as they are made. `closed` has a number for each `Close`. -/
structure NodeConnections where
  connections : AList fun _ : GoString => Nat
  made : Nat
  closed : List Nat
  calls : List SetNodesCall

namespace NodeConnections

/-- `choice` is the address that the loop of a call comes to next, and `ok` tells whether
`grpc.NewClient` succeeds for it. -/
inductive Label where
  | updateNodeConnections (allNodes : List GoString)
  | go (i : Nat) (choice : GoString) (ok : Bool)
  | stop
  deriving DecidableEq, Repr

def goto (s : NodeConnections) (i : Nat) (call : SetNodesCall) (pc : SetNodesPc) :
    NodeConnections :=
  { s with calls := s.calls.set i { call with pc } }

def connectToNode (s : NodeConnections) (nodeAddr : GoString) (ok : Bool) : NodeConnections :=
  if nodeAddr ∈ s.connections then s
  else if ok then
    { s with connections := s.connections.insert nodeAddr s.made, made := s.made + 1 }
  else s

def disconnectFromNode (s : NodeConnections) (nodeAddr : GoString) : NodeConnections :=
  match s.connections.lookup nodeAddr with
  | none => s
  | some k => { s with connections := s.connections.erase nodeAddr, closed := k :: s.closed }

/-- The connections in the map. -/
def live (s : NodeConnections) : List Nat := s.connections.entries.map (·.2)

def stop (s : NodeConnections) : NodeConnections :=
  { s with connections := ∅, closed := s.live ++ s.closed }

/-- The tests of both loops are about what the call has read, so they are made at once. -/
def callStep (s : NodeConnections) (i : Nat) (choice : GoString) (ok : Bool)
    (call : SetNodesCall) : Option NodeConnections :=
  match call.pc with
  | .read =>
    let current := s.connections.keys.toFinset
    some (s.goto i call (.update (call.desired \ current) (current \ call.desired)))
  | .update todo removed =>
    if choice ∈ todo then
      some ((s.connectToNode choice ok).goto i call (.update (todo.erase choice) removed))
    else if todo = ∅ ∧ choice ∈ removed then
      some ((s.disconnectFromNode choice).goto i call (.update ∅ (removed.erase choice)))
    else none

/-- What `updateNodeConnections` passes to `SetNodes`. -/
def otherNodes (self : GoString) (allNodes : List GoString) : Finset GoString :=
  (allNodes.filter fun nodeAddr => nodeAddr ≠ self).toFinset

def step (self : GoString) (s : NodeConnections) : Label → Option NodeConnections
  | .updateNodeConnections allNodes =>
    some { s with calls := s.calls ++ [⟨otherNodes self allNodes, .read⟩] }
  | .go i choice ok => s.calls[i]?.bind (s.callStep i choice ok)
  | .stop => some s.stop

def new : NodeConnections := ⟨∅, 0, [], []⟩

def machine (self : GoString) : Machine NodeConnections Label where
  Init s := s = new
  step := step self

variable {self : GoString} {s t : NodeConnections} {a : GoString}

/-- What a step can do to the connections. -/
inductive StepCase (s : NodeConnections) : NodeConnections → Prop
  | call (calls : List SetNodesCall) : StepCase s { s with calls }
  | connect (a : GoString) (ok : Bool) (calls : List SetNodesCall) :
      StepCase s { s.connectToNode a ok with calls }
  | disconnect (a : GoString) (calls : List SetNodesCall) :
      StepCase s { s.disconnectFromNode a with calls }
  | stop : StepCase s s.stop

theorem step_cases {l : Label} (h : s.step self l = some t) : StepCase s t := by
  cases l with
  | updateNodeConnections allNodes =>
    cases h
    exact .call _
  | stop =>
    cases h
    exact .stop
  | go i choice ok =>
    obtain ⟨call, -, hcall⟩ := Option.bind_eq_some_iff.mp h
    unfold callStep at hcall
    split at hcall
    · cases hcall
      exact .call _
    · split at hcall
      · cases hcall
        exact .connect choice ok _
      · split at hcall
        · cases hcall
          exact .disconnect choice _
        · contradiction

/-- Each connection that was made is in the map, or has been closed once. -/
def Sound (s : NodeConnections) : Prop := (s.live ++ s.closed).Perm (List.range s.made)

theorem Sound.connect (h : s.Sound) {ok : Bool} : (s.connectToNode a ok).Sound := by
  unfold connectToNode
  split
  · exact h
  rename_i hnew
  split
  · rw [Sound, live, AList.entries_insert_of_notMem hnew, List.range_succ]
    exact (h.cons _).trans (List.perm_append_singleton _ _).symm
  · exact h

theorem Sound.disconnect (h : s.Sound) : (s.disconnectFromNode a).Sound := by
  unfold disconnectFromNode
  split
  · exact h
  rename_i k hk
  obtain ⟨k', l₁, l₂, -, hentries, herase⟩ :=
    List.exists_of_kerase (AList.lookup_isSome.mp (Option.isSome_of_eq_some hk))
  have hk' : s.connections.lookup a = some k' :=
    AList.mem_lookup_iff.mpr (by simp [hentries])
  cases hk.symm.trans hk'
  rw [Sound, live, hentries, List.map_append, List.map_cons] at h
  change ((s.connections.entries.kerase a).map (·.2) ++ k :: s.closed).Perm (List.range s.made)
  rw [herase, List.map_append]
  exact List.perm_middle.trans ((List.perm_middle.append_right _).symm.trans h)

theorem Sound.step {l : Label} (h : s.Sound) (hstep : s.step self l = some t) : t.Sound := by
  cases step_cases hstep with
  | call => exact h
  | connect => exact h.connect
  | disconnect => exact h.disconnect
  | stop => exact h

theorem sound_of_reachable (hs : (machine self).Reachable Machine.Any s) : s.Sound := by
  apply hs.invariant
  · rintro _ rfl
    exact .nil
  · exact fun h _ hstep => h.step hstep

theorem closed_subset_step {l : Label} (hstep : s.step self l = some t) :
    s.closed ⊆ t.closed := by
  cases step_cases hstep with
  | call => exact List.Subset.refl _
  | connect =>
    change s.closed ⊆ (s.connectToNode _ _).closed
    unfold connectToNode
    split_ifs <;> exact List.Subset.refl _
  | disconnect =>
    change s.closed ⊆ (s.disconnectFromNode _).closed
    unfold disconnectFromNode
    split
    · exact List.Subset.refl _
    · exact List.subset_cons_self _ _
  | stop => exact List.subset_append_right _ _

/-- No connection is lost or closed twice, and however the calls go on after `Stop`, a connection
that was made before it is closed and not handed out any more. -/
theorem connections_are_closed_once (hs : (machine self).Reachable Machine.Any s) :
    (s.live ++ s.closed).Perm (List.range s.made) ∧
    ∀ ls t, (machine self).Steps Machine.Any s.stop ls t →
      ∀ k < s.made, k ∈ t.closed ∧ k ∉ t.live := by
  have hsound := sound_of_reachable hs
  refine ⟨hsound, fun ls t hrun k hk => ?_⟩
  have hsub : s.stop.closed ⊆ t.closed :=
    hrun.preserves (I := fun u => s.stop.closed ⊆ u.closed)
      (fun h _ hstep => List.Subset.trans h (closed_subset_step hstep)) (List.Subset.refl _)
  have hclosed := hsub (hsound.mem_iff.mpr (List.mem_range.mpr hk))
  have hafter : t.Sound := hrun.preserves (fun h _ hstep => h.step hstep) hsound
  have hnodup := hafter.nodup_iff.mpr List.nodup_range
  exact ⟨hclosed, fun hlive => List.disjoint_of_nodup_append hnodup hlive hclosed⟩

/-- A call that began before `Stop` connects a node after it. -/
theorem connections_are_closed_once_overlapped : ∃ s ls t, (machine (lit "a")).Steps
    Machine.Any (stop s) ls t ∧ 0 ∈ t.closed ∧ 0 ∉ t.live ∧ t.live = [1] := by
  have hrun : ((machine (lit "a")).exec Machine.Any new
      [.updateNodeConnections [lit "a", lit "b", lit "c"], .go 0 [] true, .go 0 (lit "b") true]).any
        (fun s => decide (s.made = 1) && ((machine (lit "a")).exec Machine.Any s.stop
          [.go 0 (lit "c") true]).any fun t => decide (t.live = [1])) = true := by decide
  obtain ⟨s, hreach, hs⟩ := Machine.exec_reachable hrun rfl
  obtain ⟨hmade, hs⟩ := Bool.and_eq_true_iff.mp hs
  obtain ⟨t, hsteps, ht⟩ := Machine.exec_any hs
  have h := (connections_are_closed_once hreach).2 _ t hsteps 0
    (by rw [of_decide_eq_true hmade]; decide)
  exact ⟨s, _, t, hsteps, h.1, h.2, of_decide_eq_true ht⟩

end NodeConnections
end Goverse.Cluster
