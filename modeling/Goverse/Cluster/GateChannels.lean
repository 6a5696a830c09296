import Mathlib.Data.List.AList
import Goverse.GoString
import Goverse.Lib.Channel
import Goverse.Lib.Machine
import Goverse.Lib.RWLock

/-! The channels from a node to its gates. Gates connect, connect again and disconnect while
messages are pushed and the node shuts down. The bodies under the write lock are one step each:
the map is read under the lock only. -/
namespace Goverse.Cluster

open GoString Lib

inductive Envelope where
  | clientMessage (clientIDs : List GoString) (message : GoString)
  | broadcast (message : GoString)
  deriving DecidableEq, Repr

/-- A message is the result of `MsgToAny`. -/
inductive GateCall where
  | registerGateConnection (gateAddr : GoString)
  | unregisterGateConnection (gateAddr : GoString) (ch : Nat)
  | cleanupGateChannels
  | pushMessageToClients (clientIDs : List GoString) (message : Except GoString GoString)
  | broadcastToAllClients (message : Except GoString GoString)
  deriving DecidableEq, Repr

inductive GateOutcome where
  | ok
  | channel (k : Nat)
  | error (text : GoString)
  | panicked
  deriving DecidableEq, Repr

def GateOutcome.ofError (lastErr : Option GoString) : GateOutcome := (lastErr.map .error).getD .ok

section Errors

def onlyOnNodes (function : String) : GoString :=
  lit function ++ lit " can only be called on node clusters, not gate clusters"

def invalidClientID (clientID : GoString) : GoString :=
  lit "invalid client ID format: " ++ clientID ++ lit " (expected format: gateAddress/uniqueId)"

def failedToMarshal (err : GoString) : GoString := lit "failed to marshal message: " ++ err

def notConnected (gateAddr : GoString) (clients : Nat) : GoString :=
  lit "gate " ++ gateAddr ++ lit " not connected to this node, cannot push message to " ++
    itoa clients ++ lit " client(s)"

def channelIsFull (gateAddr : GoString) : GoString :=
  lit "gate " ++ gateAddr ++ lit " message channel is full"

end Errors

/-- The gate in a client ID, from `strings.SplitN(clientID, "/", 2)`. -/
def gateOfClient (clientID : GoString) : Option GoString :=
  if clientID.contains slash ∧ (clientID.cut slash).1 ≠ [] ∧ (clientID.cut slash).2 ≠ [] then
    some (clientID.cut slash).1
  else none

abbrev ClientsByGate := AList fun _ : GoString => List GoString

/-- `clientsByGate`, or the first client whose ID is invalid. -/
def groupByGate (clientIDs : List GoString) : Except GoString ClientsByGate :=
  clientIDs.foldlM (fun groups clientID =>
    match gateOfClient clientID with
    | none => .error (invalidClientID clientID)
    | some gateAddr =>
      .ok (groups.insert gateAddr ((groups.lookup gateAddr).getD [] ++ [clientID]))) ∅

/-- What the loop of a push ranges over. -/
def ClientsByGate.groups (clientsByGate : ClientsByGate) : List (GoString × List GoString) :=
  clientsByGate.entries.map fun (entry : Sigma fun _ : GoString => List GoString) =>
    (entry.1, entry.2)

/-- Where a goroutine is: before its lock, with the lock, in the loop of a push or a broadcast, and
at its deferred unlock. -/
inductive GatePc where
  | start (call : GateCall)
  | register (gateAddr : GoString)
  | unregister (gateAddr : GoString) (ch : Nat)
  | cleanup
  | unlock (outcome : GateOutcome)
  | push (todo : List (GoString × List GoString)) (message : GoString) (lastErr : Option GoString)
  | fan (todo : List (GoString × Nat)) (message : GoString) (lastErr : Option GoString)
  | runlock (outcome : GateOutcome)
  | returned (outcome : GateOutcome)
  deriving DecidableEq, Repr

def GatePc.holds : GatePc → Option Mode
  | .register _ | .unregister .. | .cleanup | .unlock _ => some .exclusive
  | .push .. | .fan .. | .runlock _ => some .shared
  | .start _ | .returned _ => none

/-- Run-time panics, also those that `cleanupGateChannels` recovers from. -/
inductive Fault where
  | sendOnClosed (k : Nat)
  | closeOfClosed (k : Nat)
  deriving DecidableEq, Repr

/-- A channel is named by its place among all that were ever made; `closings` are the ones that
have been closed, in that order. -/
structure GateChannels where
  isNode : Bool
  channels : List (Channel Envelope)
  gateChannels : AList fun _ : GoString => Nat
  gateChannelsMu : RWLock
  threads : List GatePc
  closings : List Nat
  faults : List Fault

/-- `choice` is the gate that the iteration of a map comes to next. -/
inductive GateLabel where
  | spawn (call : GateCall)
  | thread (i : Nat) (choice : GoString)
  | receive (k : Nat)
  deriving DecidableEq, Repr

namespace GateChannels

def goto (s : GateChannels) (i : Nat) (pc : GatePc) : GateChannels :=
  { s with threads := s.threads.set i pc }

/-- `close` of a channel; none is a panic. -/
def close (s : GateChannels) (k : Nat) : Option GateChannels :=
  s.channels[k]?.bind fun ch => ch.close.map fun next =>
    { s with channels := s.channels.set k next, closings := s.closings ++ [k] }

/-- A send that does not wait; none is a panic. -/
def send (s : GateChannels) (k : Nat) (envelope : Envelope) : Option (GateChannels × Bool) :=
  s.channels[k]?.bind fun ch => (ch.trySend envelope).map fun sent =>
    ({ s with channels := s.channels.set k sent.1 }, sent.2)

def fault (s : GateChannels) (f : Fault) : GateChannels := { s with faults := s.faults ++ [f] }

/-- A new channel for the gate. -/
def connect (s : GateChannels) (gateAddr : GoString) : GateChannels × GateOutcome :=
  ({ s with
    channels := s.channels ++ [.make 1024]
    gateChannels := s.gateChannels.insert gateAddr s.channels.length },
    .channel s.channels.length)

def registerGateConnection (s : GateChannels) (gateAddr : GoString) : GateChannels × GateOutcome :=
  match s.gateChannels.lookup gateAddr with
  | none => s.connect gateAddr
  | some oldCh =>
    match s.close oldCh with
    | none => (s.fault (.closeOfClosed oldCh), .panicked)
    | some closed => closed.connect gateAddr

def unregisterGateConnection (s : GateChannels) (gateAddr : GoString) (ch : Nat) :
    GateChannels × GateOutcome :=
  match s.gateChannels.lookup gateAddr with
  | none => (s, .ok)
  | some currentCh =>
    if currentCh = ch then
      match s.close currentCh with
      | none => (s.fault (.closeOfClosed currentCh), .panicked)
      | some closed => ({ closed with gateChannels := closed.gateChannels.erase gateAddr }, .ok)
    else (s, .ok)

/-- The channels in the map, with their gates. -/
def connected (s : GateChannels) : List (GoString × Nat) :=
  s.gateChannels.entries.map fun (entry : Sigma fun _ : GoString => Nat) => (entry.1, entry.2)

def closeAll (s : GateChannels) (ks : List Nat) : GateChannels :=
  ks.foldl (fun s k => (s.close k).getD (s.fault (.closeOfClosed k))) s

def cleanupGateChannels (s : GateChannels) : GateChannels :=
  { s.closeAll (s.connected.map Prod.snd) with gateChannels := ∅ }

def startStep (s : GateChannels) (i : Nat) : GateCall → Option GateChannels
  | .registerGateConnection gateAddr =>
    if s.isNode then
      (s.gateChannelsMu.lock i).map fun l =>
        { s with gateChannelsMu := l }.goto i (.register gateAddr)
    else some (s.goto i (.returned (.error (onlyOnNodes "RegisterGateConnection"))))
  | .unregisterGateConnection gateAddr ch =>
    if s.isNode then
      (s.gateChannelsMu.lock i).map fun l =>
        { s with gateChannelsMu := l }.goto i (.unregister gateAddr ch)
    else some (s.goto i (.returned .ok))
  | .cleanupGateChannels =>
    if s.isNode then
      (s.gateChannelsMu.lock i).map fun l => { s with gateChannelsMu := l }.goto i .cleanup
    else some (s.goto i (.returned .ok))
  | .pushMessageToClients clientIDs message =>
    if s.isNode then
      if clientIDs = [] then some (s.goto i (.returned .ok))
      else
        match groupByGate clientIDs, message with
        | .error text, _ => some (s.goto i (.returned (.error text)))
        | .ok _, .error err => some (s.goto i (.returned (.error (failedToMarshal err))))
        | .ok clientsByGate, .ok m =>
          (s.gateChannelsMu.rlock i).map fun l => { s with gateChannelsMu := l }.goto i
            (.push clientsByGate.groups m none)
    else some (s.goto i (.returned (.error (onlyOnNodes "PushMessageToClients"))))
  | .broadcastToAllClients message =>
    if s.isNode then
      match message with
      | .error err => some (s.goto i (.returned (.error (failedToMarshal err))))
      | .ok m =>
        (s.gateChannelsMu.rlock i).map fun l => { s with gateChannelsMu := l }.goto i
          (if s.connected = [] then .runlock (.error (lit "no gates connected"))
            else .fan s.connected m none)
    else some (s.goto i (.returned (.error (onlyOnNodes "BroadcastToAllClients"))))

/-- One turn of the loop of a push or a broadcast; `next` is the rest of the loop. -/
def deliver (s : GateChannels) (i : Nat) (gateAddr : GoString) (k : Nat) (envelope : Envelope)
    (lastErr : Option GoString) (next : Option GoString → GatePc) : GateChannels :=
  match s.send k envelope with
  | none => (s.fault (.sendOnClosed k)).goto i (.runlock .panicked)
  | some (t, true) => t.goto i (next lastErr)
  | some (t, false) => t.goto i (next (some (channelIsFull gateAddr)))

def pushStep (s : GateChannels) (i : Nat) (m : GoString) (lastErr : Option GoString)
    (rest : List (GoString × List GoString)) (entry : GoString × List GoString) : GateChannels :=
  match s.gateChannels.lookup entry.1 with
  | none => s.goto i (.push rest m (some (notConnected entry.1 entry.2.length)))
  | some gateCh =>
    s.deliver i entry.1 gateCh (.clientMessage entry.2 m) lastErr (.push rest m ·)

def threadStep (s : GateChannels) (i : Nat) (choice : GoString) : GatePc → Option GateChannels
  | .start call => s.startStep i call
  | .register gateAddr =>
    some ((s.registerGateConnection gateAddr).1.goto i
      (.unlock (s.registerGateConnection gateAddr).2))
  | .unregister gateAddr ch =>
    some ((s.unregisterGateConnection gateAddr ch).1.goto i
      (.unlock (s.unregisterGateConnection gateAddr ch).2))
  | .cleanup => some (s.cleanupGateChannels.goto i (.unlock .ok))
  | .unlock outcome =>
    some ({ s with gateChannelsMu := s.gateChannelsMu.unlock }.goto i (.returned outcome))
  | .push [] _ lastErr => some (s.goto i (.runlock (.ofError lastErr)))
  | .push todo m lastErr =>
    (todo.find? fun entry => entry.1 = choice).map
      (s.pushStep i m lastErr (todo.filter fun other => other.1 ≠ choice))
  | .fan [] _ lastErr => some (s.goto i (.runlock (.ofError lastErr)))
  | .fan todo m lastErr =>
    (todo.find? fun entry => entry.1 = choice).map fun entry =>
      s.deliver i entry.1 entry.2 (.broadcast m) lastErr
        (.fan (todo.filter fun other => other.1 ≠ choice) m ·)
  | .runlock outcome =>
    some ({ s with gateChannelsMu := s.gateChannelsMu.runlock i }.goto i (.returned outcome))
  | .returned _ => none

def step (s : GateChannels) : GateLabel → Option GateChannels
  | .spawn call => some { s with threads := s.threads ++ [.start call] }
  | .thread i choice => s.threads[i]?.bind (s.threadStep i choice)
  | .receive k =>
    s.channels[k]?.map fun ch => { s with channels := s.channels.set k ch.receive }

def start (isNode : Bool) : GateChannels := ⟨isNode, [], ∅, .free, [], [], []⟩

def machine : Machine GateChannels GateLabel where
  Init s := ∃ isNode, s = start isNode
  step := step

/-! ### The map and the channels -/

/-- Whether a channel is closed; none if there is no such channel. -/
def status (s : GateChannels) (k : Nat) : Option Bool := s.channels[k]?.map Channel.closed

/-- The open channels are those in the map, each of them once. -/
structure Wired (s : GateChannels) : Prop where
  mapped : ∀ gate k, s.gateChannels.lookup gate = some k → s.status k = some false
  injective : ∀ gate gate' k, s.gateChannels.lookup gate = some k →
    s.gateChannels.lookup gate' = some k → gate = gate'
  owned : ∀ k, s.status k = some false → ∃ gate, s.gateChannels.lookup gate = some k
  closed : ∀ k, k ∈ s.closings ↔ s.status k = some true
  nodup : s.closings.Nodup

/-- The channels `ks` are closed and leave the map, and `fresh` gets a new one. -/
structure Rewires (s t : GateChannels) (ks : List Nat) (fresh : Option GoString) : Prop where
  mapped : ∀ k ∈ ks, ∃ gate, s.gateChannels.lookup gate = some k
  nodup : ks.Nodup
  status : ∀ k, t.status k = if k ∈ ks then some true
    else if fresh ≠ none ∧ k = s.channels.length then some false else s.status k
  lookup : ∀ gate k, t.gateChannels.lookup gate = some k ↔
    (s.gateChannels.lookup gate = some k ∧ k ∉ ks) ∨ (fresh = some gate ∧ k = s.channels.length)
  closings : t.closings = s.closings ++ ks

/-- Neither the goroutines nor their lock move, and nothing panics. -/
structure Frames (s t : GateChannels) : Prop where
  threads : t.threads = s.threads
  lock : t.gateChannelsMu = s.gateChannelsMu
  faults : t.faults = s.faults

section Wired

variable {s t : GateChannels} {ks : List Nat} {fresh : Option GoString} {k : Nat}

@[simp] theorem status_length (s : GateChannels) : s.status s.channels.length = none := by
  rw [status, List.getElem?_eq_none (Nat.le_refl _), Option.map_none]

theorem Rewires.open_before (hs : s.Wired) (h : Rewires s t ks fresh) (hk : k ∈ ks) :
    s.status k = some false := by
  obtain ⟨gate, hgate⟩ := h.mapped k hk
  exact hs.mapped gate k hgate

theorem Rewires.status_of_some (h : Rewires s t ks fresh) {b : Bool}
    (hk : s.status k = some b) (hnot : k ∉ ks) : t.status k = some b := by
  have hne : k ≠ s.channels.length := by
    rintro rfl
    rw [status_length] at hk
    contradiction
  rw [h.status, if_neg hnot, if_neg fun hfresh => hne hfresh.2, hk]

theorem Rewires.status_fresh (hs : s.Wired) (h : Rewires s t ks fresh) (hfresh : fresh ≠ none) :
    s.channels.length ∉ ks ∧ t.status s.channels.length = some false := by
  have hnot : s.channels.length ∉ ks := by
    intro hmem
    have hopen := h.open_before hs hmem
    rw [status_length] at hopen
    contradiction
  refine ⟨hnot, ?_⟩
  rw [h.status, if_neg hnot, if_pos ⟨hfresh, rfl⟩]

theorem Rewires.closed_iff (h : Rewires s t ks fresh) :
    t.status k = some true ↔ k ∈ ks ∨ s.status k = some true := by
  by_cases hk : k ∈ ks
  · rw [h.status, if_pos hk]
    simp [hk]
  · rw [h.status, if_neg hk]
    split
    · rename_i hfresh
      rw [hfresh.2, status_length]
      rw [hfresh.2] at hk
      simp [hk]
    · simp [hk]

theorem Rewires.wired (hs : s.Wired) (h : Rewires s t ks fresh) : t.Wired where
  mapped gate k hk := by
    rcases (h.lookup gate k).mp hk with ⟨hold, hnot⟩ | ⟨hfresh, rfl⟩
    · exact h.status_of_some (hs.mapped gate k hold) hnot
    · exact (h.status_fresh hs (by rw [hfresh]; exact nofun)).2
  injective gate gate' k hk hk' := by
    have hnew : ∀ {gate : GoString}, s.gateChannels.lookup gate ≠ some s.channels.length := by
      intro gate hlookup
      have hopen := hs.mapped gate _ hlookup
      rw [status_length] at hopen
      contradiction
    rcases (h.lookup gate k).mp hk with ⟨hold, -⟩ | ⟨hfresh, rfl⟩
    · rcases (h.lookup gate' k).mp hk' with ⟨hold', -⟩ | ⟨-, rfl⟩
      · exact hs.injective gate gate' k hold hold'
      · exact absurd hold hnew
    · rcases (h.lookup gate' _).mp hk' with ⟨hold', -⟩ | ⟨hfresh', -⟩
      · exact absurd hold' hnew
      · exact Option.some.inj (hfresh.symm.trans hfresh')
  owned k hk := by
    have hnot : k ∉ ks := by
      intro hmem
      rw [h.status, if_pos hmem] at hk
      contradiction
    rw [h.status, if_neg hnot] at hk
    split at hk
    · rename_i hfresh
      obtain ⟨gate, hgate⟩ := Option.ne_none_iff_exists'.mp hfresh.1
      exact ⟨gate, (h.lookup gate k).mpr (.inr ⟨hgate, hfresh.2⟩)⟩
    · obtain ⟨gate, hgate⟩ := hs.owned k hk
      exact ⟨gate, (h.lookup gate k).mpr (.inl ⟨hgate, hnot⟩)⟩
  closed k := by
    rw [h.closings, List.mem_append, h.closed_iff, hs.closed, or_comm]
  nodup := by
    rw [h.closings]
    refine List.Nodup.append hs.nodup h.nodup fun k hold hnew => ?_
    have hopen := h.open_before hs hnew
    rw [(hs.closed k).mp hold] at hopen
    contradiction

theorem Rewires.closes_iff (hs : s.Wired) (h : Rewires s t ks fresh) :
    (s.status k = some false ∧ t.status k = some true) ↔
      ∃ gate, s.gateChannels.lookup gate = some k ∧ t.gateChannels.lookup gate ≠ some k := by
  constructor
  · rintro ⟨hopen, hclosed⟩
    rcases h.closed_iff.mp hclosed with hmem | hclosed
    · obtain ⟨gate, hgate⟩ := h.mapped k hmem
      refine ⟨gate, hgate, fun hstill => ?_⟩
      have hopen' := (h.wired hs).mapped gate k hstill
      rw [hclosed] at hopen'
      contradiction
    · rw [hopen] at hclosed
      contradiction
  · rintro ⟨gate, hgate, hgone⟩
    refine ⟨hs.mapped gate k hgate, h.closed_iff.mpr (.inl ?_)⟩
    by_contra hnot
    exact hgone ((h.lookup gate k).mpr (.inl ⟨hgate, hnot⟩))

theorem Wired.lookup_other (hs : s.Wired) {gate other : GoString} {j : Nat}
    (hgate : s.gateChannels.lookup gate = some k) (hother : other ≠ gate) :
    s.gateChannels.lookup other = some j ↔ s.gateChannels.lookup other = some j ∧ j ∉ [k] := by
  refine ⟨fun hj => ⟨hj, fun hmem => hother ?_⟩, fun h => h.1⟩
  rw [List.mem_singleton.mp hmem] at hj
  exact hs.injective other gate k hj hgate

theorem Wired.goto (h : s.Wired) (i : Nat) (pc : GatePc) : (s.goto i pc).Wired :=
  ⟨h.mapped, h.injective, h.owned, h.closed, h.nodup⟩

theorem Rewires.goto (h : Rewires s t ks fresh) (i : Nat) (pc : GatePc) :
    Rewires s (t.goto i pc) ks fresh :=
  ⟨h.mapped, h.nodup, h.status, h.lookup, h.closings⟩

theorem rewires_of_same (hstatus : ∀ k, t.status k = s.status k)
    (hmap : t.gateChannels = s.gateChannels) (hclosings : t.closings = s.closings) :
    Rewires s t [] none where
  mapped := nofun
  nodup := List.nodup_nil
  status k := by simp [hstatus]
  lookup gate k := by simp [hmap]
  closings := by rw [hclosings, List.append_nil]

end Wired

/-! ### What the calls do -/

section Calls

variable {s : GateChannels} {k : Nat}

/-- The state after a channel has been closed. -/
def shut (s : GateChannels) (k : Nat) (next : Channel Envelope) : GateChannels :=
  { s with channels := s.channels.set k next, closings := s.closings ++ [k] }

theorem status_set {ch : Channel Envelope} (hk : s.status k ≠ none) (j : Nat) :
    (s.channels.set k ch)[j]?.map Channel.closed =
      if j = k then some ch.closed else s.status j := by
  split
  · rename_i hj
    subst hj
    have hlt : j < s.channels.length := by
      by_contra hge
      rw [status, List.getElem?_eq_none (Nat.le_of_not_lt hge)] at hk
      contradiction
    rw [List.getElem?_set_self hlt]
    rfl
  · rename_i hj
    rw [List.getElem?_set_ne (Ne.symm hj)]
    rfl

theorem close_of_open (hk : s.status k = some false) : ∃ next : Channel Envelope,
    s.close k = some (s.shut k next) ∧
      ∀ j, (s.shut k next).status j = if j = k then some true else s.status j := by
  obtain ⟨ch, hch, hopen⟩ := Option.map_eq_some_iff.mp hk
  have hsome : ch.close ≠ none := by
    rw [ne_eq, Channel.close_eq_none, hopen]
    decide
  obtain ⟨next, hnext⟩ := Option.ne_none_iff_exists'.mp hsome
  refine ⟨next, ?_, fun j => ?_⟩
  · rw [close, hch, Option.bind_some, hnext, Option.map_some, shut]
  · rw [← (Channel.close_closed hnext).2]
    exact status_set (by rw [hk]; exact nofun) j

private theorem send_of_open (hk : s.status k = some false) (envelope : Envelope) :
    ∃ t sent, s.send k envelope = some (t, sent) ∧ t.gateChannels = s.gateChannels ∧
      Rewires s t [] none ∧ Frames s t := by
  obtain ⟨ch, hch, hopen⟩ := Option.map_eq_some_iff.mp hk
  have hsome : ch.trySend envelope ≠ none := by
    rw [ne_eq, Channel.trySend_eq_none, hopen]
    decide
  obtain ⟨⟨next, sent⟩, hnext⟩ := Option.ne_none_iff_exists'.mp hsome
  refine ⟨{ s with channels := s.channels.set k next }, sent, ?_, rfl, ?_, rfl, rfl, rfl⟩
  · rw [send, hch, Option.bind_some, hnext, Option.map_some]
  · refine rewires_of_same (fun j => ?_) rfl rfl
    rw [status, status_set (by rw [hk]; exact nofun)]
    split
    · rename_i hj
      rw [hj, hk, (Channel.trySend_open hnext).2]
    · rfl

@[simp] theorem mem_connected {entry : GoString × Nat} :
    entry ∈ s.connected ↔ s.gateChannels.lookup entry.1 = some entry.2 := by
  rw [connected, List.mem_map]
  constructor
  · rintro ⟨found, hfound, rfl⟩
    exact AList.mem_lookup_iff.mpr hfound
  · intro hlookup
    exact ⟨⟨entry.1, entry.2⟩, AList.mem_lookup_iff.mp hlookup, rfl⟩

private theorem status_connect (gate : GoString) (j : Nat) :
    (s.connect gate).1.status j = if j = s.channels.length then some false else s.status j := by
  change (s.channels ++ [Channel.make 1024])[j]?.map Channel.closed = _
  split
  · rename_i hj
    rw [hj, List.getElem?_concat_length]
    rfl
  · rename_i hj
    rcases Nat.lt_or_ge j s.channels.length with hlt | hge
    · rw [List.getElem?_append_left hlt]
      rfl
    · rw [status, List.getElem?_eq_none hge, List.getElem?_eq_none]
      · rw [List.length_append, List.length_singleton]
        omega

theorem register_rewires (hs : s.Wired) (gate : GoString) :
    ∃ ks, Rewires s (s.registerGateConnection gate).1 ks (some gate) ∧
      Frames s (s.registerGateConnection gate).1 := by
  cases hlookup : s.gateChannels.lookup gate with
  | none =>
    refine ⟨[], ?_⟩
    rw [registerGateConnection, hlookup]
    refine ⟨⟨nofun, List.nodup_nil, fun j => ?_, fun other j => ?_, (List.append_nil _).symm⟩,
      rfl, rfl, rfl⟩
    · change (s.connect gate).1.status j = _
      rw [status_connect]
      simp
    · change (s.gateChannels.insert gate s.channels.length).lookup other = some j ↔ _
      by_cases hother : other = gate
      · subst hother
        rw [AList.lookup_insert, hlookup]
        simp [eq_comm]
      · rw [AList.lookup_insert_ne hother]
        simp [Ne.symm hother]
  | some k =>
    have hopen := hs.mapped gate k hlookup
    obtain ⟨next, hclose, hstatus⟩ := close_of_open hopen
    refine ⟨[k], ?_⟩
    rw [registerGateConnection, hlookup]
    dsimp only
    rw [hclose]
    refine ⟨⟨fun j hj => ⟨gate, List.mem_singleton.mp hj ▸ hlookup⟩, List.nodup_singleton k,
      fun j => ?_, fun other j => ?_, rfl⟩, rfl, rfl, rfl⟩
    · have hne : k ≠ s.channels.length := by
        rintro rfl
        rw [status_length] at hopen
        contradiction
      change ((s.shut k next).connect gate).1.status j = _
      rw [status_connect, hstatus, shut, List.length_set]
      by_cases hj : j = k
      · simp [hj, hne]
      · simp [hj]
    · change (s.gateChannels.insert gate (s.channels.set k next).length).lookup other = some j ↔ _
      rw [List.length_set]
      by_cases hother : other = gate
      · subst hother
        rw [AList.lookup_insert, hlookup]
        simp only [Option.some.injEq, List.mem_singleton]
        constructor
        · rintro rfl
          exact .inr ⟨trivial, rfl⟩
        · rintro (⟨rfl, hne⟩ | ⟨-, rfl⟩)
          · contradiction
          · rfl
      · rw [AList.lookup_insert_ne hother]
        exact (hs.lookup_other hlookup hother).trans (by simp [Ne.symm hother])

@[simp] theorem unregister_of_ne {gate : GoString} {ch : Nat}
    (h : s.gateChannels.lookup gate ≠ some ch) :
    (s.unregisterGateConnection gate ch).1 = s := by
  rw [unregisterGateConnection]
  split
  · rfl
  · rename_i k hk
    rw [if_neg]
    rintro rfl
    exact h hk

theorem unregister_rewires (hs : s.Wired) (gate : GoString) (ch : Nat) :
    ∃ ks, Rewires s (s.unregisterGateConnection gate ch).1 ks none ∧
      Frames s (s.unregisterGateConnection gate ch).1 ∧
      ∀ k ∈ ks, k = ch ∧ s.gateChannels.lookup gate = some ch := by
  by_cases hlookup : s.gateChannels.lookup gate = some ch
  · obtain ⟨next, hclose, hstatus⟩ := close_of_open (hs.mapped gate ch hlookup)
    refine ⟨[ch], ?_⟩
    rw [unregisterGateConnection, hlookup]
    dsimp only
    rw [if_pos rfl, hclose]
    refine ⟨⟨fun j hj => ⟨gate, List.mem_singleton.mp hj ▸ hlookup⟩, List.nodup_singleton ch,
      fun j => ?_, fun other j => ?_, rfl⟩, ⟨rfl, rfl, rfl⟩,
      fun k hk => ⟨List.mem_singleton.mp hk, rfl⟩⟩
    · change (s.shut ch next).status j = _
      rw [hstatus]
      simp
    · change (s.gateChannels.erase gate).lookup other = some j ↔ _
      by_cases hother : other = gate
      · subst hother
        rw [AList.lookup_erase, hlookup]
        simp [eq_comm]
      · rw [AList.lookup_erase_ne hother]
        exact (hs.lookup_other hlookup hother).trans (by simp)
  · rw [unregister_of_ne hlookup]
    exact ⟨[], rewires_of_same (fun _ => rfl) rfl rfl, ⟨rfl, rfl, rfl⟩, nofun⟩

theorem closeAll_spec {ks : List Nat} (hnodup : ks.Nodup)
    (hopen : ∀ k ∈ ks, s.status k = some false) :
    (∀ j, (s.closeAll ks).status j = if j ∈ ks then some true else s.status j) ∧
      ∃ channels, s.closeAll ks = { s with
        channels := channels, closings := s.closings ++ ks } := by
  induction ks generalizing s with
  | nil => exact ⟨fun j => by simp [closeAll], s.channels, by simp [closeAll]⟩
  | cons k ks ih =>
    obtain ⟨hk, hnodup⟩ := List.nodup_cons.mp hnodup
    obtain ⟨next, hclose, hstatus⟩ := close_of_open (hopen k List.mem_cons_self)
    have hcons : s.closeAll (k :: ks) = (s.shut k next).closeAll ks := by
      rw [closeAll, List.foldl_cons, hclose]
      rfl
    have hrest : ∀ j ∈ ks, (s.shut k next).status j = some false := by
      intro j hj
      have hne : j ≠ k := by
        rintro rfl
        exact hk hj
      rw [hstatus, if_neg hne]
      exact hopen j (List.mem_cons_of_mem _ hj)
    obtain ⟨hall, channels, hframe⟩ := ih hnodup hrest
    rw [hcons]
    refine ⟨fun j => ?_, channels, ?_⟩
    · rw [hall, hstatus]
      by_cases hj : j ∈ ks <;> by_cases hjk : j = k <;> simp [hj, hjk]
    · rw [hframe, shut, List.append_assoc]
      rfl

theorem cleanup_rewires (hs : s.Wired) :
    Rewires s s.cleanupGateChannels (s.connected.map Prod.snd) none ∧
      Frames s s.cleanupGateChannels := by
  have hmem : ∀ k, k ∈ s.connected.map Prod.snd ↔ ∃ gate, s.gateChannels.lookup gate = some k := by
    intro k
    rw [List.mem_map]
    constructor
    · rintro ⟨entry, hentry, rfl⟩
      exact ⟨entry.1, mem_connected.mp hentry⟩
    · rintro ⟨gate, hgate⟩
      exact ⟨(gate, k), mem_connected.mpr hgate, rfl⟩
  have hnodup : (s.connected.map Prod.snd).Nodup := by
    refine List.Nodup.map_on (fun entry hentry other hother heq => ?_) ?_
    · rw [mem_connected] at hentry hother
      rw [heq] at hentry
      exact Prod.ext (hs.injective _ _ _ hentry hother) heq
    · refine List.Nodup.of_map Prod.fst ?_
      rw [connected, List.map_map]
      exact s.gateChannels.keys_nodup
  obtain ⟨hall, channels, hframe⟩ := closeAll_spec hnodup fun k hk => by
    obtain ⟨gate, hgate⟩ := (hmem k).mp hk
    exact hs.mapped gate k hgate
  have hcleanup : s.cleanupGateChannels = { s with
      channels := channels, gateChannels := ∅
      closings := s.closings ++ s.connected.map Prod.snd } := by
    rw [cleanupGateChannels, hframe]
  refine ⟨⟨fun k hk => (hmem k).mp hk, hnodup, fun k => ?_, fun gate k => ?_, ?_⟩, ?_, ?_, ?_⟩
  · change (s.closeAll _).status k = _
    rw [hall]
    simp
  · change (∅ : AList fun _ : GoString => Nat).lookup gate = some k ↔ _
    rw [AList.lookup_empty]
    constructor
    · exact nofun
    · rintro (⟨hgate, hnot⟩ | ⟨hfresh, -⟩)
      · exact absurd ((hmem k).mpr ⟨gate, hgate⟩) hnot
      · contradiction
  all_goals rw [hcleanup]

end Calls

/-! ### Everything a step can do -/

inductive StepCase (s : GateChannels) : GateLabel → GateChannels → Prop
  | spawn {call : GateCall} :
      StepCase s (.spawn call) { s with threads := s.threads ++ [.start call] }
  | receive {k : Nat} {ch : Channel Envelope} (hk : s.channels[k]? = some ch) :
      StepCase s (.receive k) { s with channels := s.channels.set k ch.receive }
  | lock {i : Nat} {choice : GoString} {pc next : GatePc} {l : RWLock}
      (hi : s.threads[i]? = some pc) (hpc : pc.holds = none) (hl : s.gateChannelsMu.lock i = some l)
      (hnext : next.holds = some .exclusive) :
      StepCase s (.thread i choice) (({ s with gateChannelsMu := l } : GateChannels).goto i next)
  | rlock {i : Nat} {choice : GoString} {pc next : GatePc} {l : RWLock}
      (hi : s.threads[i]? = some pc) (hpc : pc.holds = none)
      (hl : s.gateChannelsMu.rlock i = some l) (hnext : next.holds = some .shared)
      (hfan : ∀ todo m lastErr, next = .fan todo m lastErr → todo = s.connected) :
      StepCase s (.thread i choice) (({ s with gateChannelsMu := l } : GateChannels).goto i next)
  | quiet {i : Nat} {choice : GoString} {pc next : GatePc} (hi : s.threads[i]? = some pc)
      (hholds : next.holds = pc.holds) (hfan : ∀ todo m lastErr, next ≠ .fan todo m lastErr) :
      StepCase s (.thread i choice) (s.goto i next)
  | register {i : Nat} {choice gate : GoString} (hi : s.threads[i]? = some (.register gate)) :
      StepCase s (.thread i choice) ((s.registerGateConnection gate).1.goto i
        (.unlock (s.registerGateConnection gate).2))
  | unregister {i : Nat} {choice gate : GoString} {ch : Nat}
      (hi : s.threads[i]? = some (.unregister gate ch)) :
      StepCase s (.thread i choice) ((s.unregisterGateConnection gate ch).1.goto i
        (.unlock (s.unregisterGateConnection gate ch).2))
  | cleanup {i : Nat} {choice : GoString} (hi : s.threads[i]? = some .cleanup) :
      StepCase s (.thread i choice) (s.cleanupGateChannels.goto i (.unlock .ok))
  | unlock {i : Nat} {choice : GoString} {outcome : GateOutcome}
      (hi : s.threads[i]? = some (.unlock outcome)) : StepCase s (.thread i choice)
        (({ s with gateChannelsMu := s.gateChannelsMu.unlock } : GateChannels).goto i
          (.returned outcome))
  | runlock {i : Nat} {choice : GoString} {outcome : GateOutcome}
      (hi : s.threads[i]? = some (.runlock outcome)) : StepCase s (.thread i choice)
        (({ s with gateChannelsMu := s.gateChannelsMu.runlock i } : GateChannels).goto i
          (.returned outcome))
  | push {i : Nat} {choice m : GoString} {todo rest : List (GoString × List GoString)}
      {lastErr : Option GoString} {gate : GoString} {k : Nat} {envelope : Envelope}
      (hi : s.threads[i]? = some (.push todo m lastErr))
      (hk : s.gateChannels.lookup gate = some k) :
      StepCase s (.thread i choice) (s.deliver i gate k envelope lastErr (.push rest m ·))
  | fan {i : Nat} {choice m : GoString} {todo rest : List (GoString × Nat)}
      {lastErr : Option GoString} {entry : GoString × Nat} {envelope : Envelope}
      (hi : s.threads[i]? = some (.fan todo m lastErr)) (hentry : entry ∈ todo)
      (hrest : rest ⊆ todo) :
      StepCase s (.thread i choice) (s.deliver i entry.1 entry.2 envelope lastErr (.fan rest m ·))

theorem startStep_cases {s t : GateChannels} {i : Nat} {choice : GoString} {call : GateCall}
    (hi : s.threads[i]? = some (.start call)) (h : s.startStep i call = some t) :
    StepCase s (.thread i choice) t := by
  have hreturns : ∀ {outcome : GateOutcome}, some (s.goto i (.returned outcome)) = some t →
      StepCase s (.thread i choice) t := by
    intro outcome hreturn
    cases hreturn
    exact .quiet hi rfl nofun
  cases call with
  | registerGateConnection | unregisterGateConnection | cleanupGateChannels =>
    rw [startStep] at h
    split at h
    · obtain ⟨l, hl, rfl⟩ := Option.map_eq_some_iff.mp h
      exact .lock hi rfl hl rfl
    · exact hreturns h
  | pushMessageToClients clientIDs message =>
    unfold startStep at h
    dsimp only at h
    split at h
    · split at h
      · exact hreturns h
      · split at h
        · exact hreturns h
        · exact hreturns h
        · obtain ⟨l, hl, rfl⟩ := Option.map_eq_some_iff.mp h
          exact .rlock hi rfl hl rfl nofun
    · exact hreturns h
  | broadcastToAllClients message =>
    unfold startStep at h
    dsimp only at h
    split at h
    · split at h
      · exact hreturns h
      · obtain ⟨l, hl, rfl⟩ := Option.map_eq_some_iff.mp h
        refine .rlock hi rfl hl ?_ fun todo m lastErr heq => ?_
        · split <;> rfl
        · split at heq
          · contradiction
          · cases heq
            rfl
    · exact hreturns h

theorem step_cases {s t : GateChannels} {label : GateLabel} (h : s.step label = some t) :
    StepCase s label t := by
  cases label with
  | spawn call =>
    cases h
    exact .spawn
  | receive k =>
    obtain ⟨ch, hk, rfl⟩ := Option.map_eq_some_iff.mp h
    exact .receive hk
  | thread i choice =>
    obtain ⟨pc, hi, hpc⟩ := Option.bind_eq_some_iff.mp h
    unfold threadStep at hpc
    split at hpc
    · exact startStep_cases hi hpc
    · cases hpc
      exact .register hi
    · cases hpc
      exact .unregister hi
    · cases hpc
      exact .cleanup hi
    · cases hpc
      exact .unlock hi
    · cases hpc
      exact .quiet hi rfl nofun
    · obtain ⟨entry, -, rfl⟩ := Option.map_eq_some_iff.mp hpc
      unfold pushStep
      split
      · exact .quiet hi rfl nofun
      · rename_i hk
        exact .push hi hk
    · cases hpc
      exact .quiet hi rfl nofun
    · obtain ⟨entry, hentry, rfl⟩ := Option.map_eq_some_iff.mp hpc
      exact .fan hi (List.mem_of_find?_eq_some hentry) (List.filter_subset_self _)
    · cases hpc
      exact .runlock hi
    · contradiction

section Orderly

variable {s t : GateChannels} {label : GateLabel} {i : Nat} {pc next : GatePc}

structure Orderly (s : GateChannels) : Prop where
  wired : s.Wired
  locks : Disciplined (fun _ : Unit => s.gateChannelsMu) (fun pc _ => pc.holds) s.threads
  fanning : ∀ (i : Nat) (todo : List (GoString × Nat)) (m : GoString) (lastErr : Option GoString),
    s.threads[i]? = some (.fan todo m lastErr) →
      ∀ entry ∈ todo, s.gateChannels.lookup entry.1 = some entry.2
  faults : s.faults = []

theorem orderly_start (isNode : Bool) : (start isNode).Orderly where
  wired := ⟨nofun, nofun, nofun, fun k => by simp [start, status], List.nodup_nil⟩
  locks := nofun
  fanning := nofun
  faults := rfl

theorem deliver_spec {k : Nat} (hk : s.status k = some false) (i : Nat) (gate : GoString)
    (envelope : Envelope) (lastErr : Option GoString) (next : Option GoString → GatePc) :
    ∃ u lastErr', s.deliver i gate k envelope lastErr next = u.goto i (next lastErr') ∧
      u.gateChannels = s.gateChannels ∧ Rewires s u [] none ∧ Frames s u := by
  obtain ⟨u, sent, hsend, hmap, hrewires, hframes⟩ := send_of_open hk envelope
  rw [deliver, hsend]
  cases sent with
  | true => exact ⟨u, lastErr, rfl, hmap, hrewires, hframes⟩
  | false => exact ⟨u, _, rfl, hmap, hrewires, hframes⟩

theorem Orderly.fanning_open (h : s.Orderly) {todo : List (GoString × Nat)} {m : GoString}
    {lastErr : Option GoString} (hi : s.threads[i]? = some (.fan todo m lastErr))
    {entry : GoString × Nat} (hentry : entry ∈ todo) : s.status entry.2 = some false :=
  h.wired.mapped entry.1 entry.2 (h.fanning i todo m lastErr hi entry hentry)

theorem Orderly.goto (h : s.Orderly) (hwired : t.Wired) (hfaults : t.faults = s.faults)
    (hthreads : t.threads = s.threads.set i next) (hmap : t.gateChannels = s.gateChannels)
    (hnext : ∀ todo m lastErr, next = .fan todo m lastErr →
      ∀ entry ∈ todo, s.gateChannels.lookup entry.1 = some entry.2)
    (hlocks : Disciplined (fun _ : Unit => t.gateChannelsMu) (fun pc _ => pc.holds)
      (s.threads.set i next)) : t.Orderly := by
  refine ⟨hwired, hthreads ▸ hlocks, fun j todo m lastErr hj => ?_, hfaults.trans h.faults⟩
  rw [hthreads] at hj
  rw [hmap]
  rcases getElem?_set_cases hj with ⟨-, heq⟩ | ⟨-, hj⟩
  · exact hnext todo m lastErr heq.symm
  · exact h.fanning j todo m lastErr hj

/-- The holder of the write lock changes the map: nobody is in the loop of a broadcast. -/
theorem Orderly.rewire (h : s.Orderly) {u : GateChannels} {ks : List Nat}
    {fresh : Option GoString} (hrewires : Rewires s u ks fresh) (hframes : Frames s u)
    (hi : s.threads[i]? = some pc) (hpc : pc.holds = some .exclusive) (outcome : GateOutcome) :
    (u.goto i (.unlock outcome)).Orderly := by
  refine ⟨(hrewires.wired h.wired).goto i _, ?_, fun j todo m lastErr hj => ?_,
    hframes.faults.trans h.faults⟩
  · change Disciplined (fun _ => u.gateChannelsMu) _ (u.threads.set i _)
    rw [hframes.lock, hframes.threads]
    exact h.locks.move hi fun _ _ hmode => hpc.trans hmode
  · change (u.threads.set i _)[j]? = _ at hj
    rw [hframes.threads] at hj
    rcases getElem?_set_cases hj with ⟨-, heq⟩ | ⟨hne, hj⟩
    · contradiction
    · exact absurd (h.locks.excludes (k := ()) hi hpc hj nofun) hne

theorem Orderly.deliver (h : s.Orderly) {gate : GoString} {k : Nat}
    (hk : s.status k = some false) (envelope : Envelope) (lastErr : Option GoString)
    {next : Option GoString → GatePc} (hi : s.threads[i]? = some pc)
    (hholds : ∀ lastErr, (next lastErr).holds = pc.holds)
    (hnext : ∀ e todo m lastErr, next e = .fan todo m lastErr →
      ∀ entry ∈ todo, s.gateChannels.lookup entry.1 = some entry.2) :
    (s.deliver i gate k envelope lastErr next).Orderly ∧
      ∃ ks fresh, Rewires s (s.deliver i gate k envelope lastErr next) ks fresh := by
  obtain ⟨u, lastErr', heq, hmap, hrewires, hframes⟩ :=
    deliver_spec hk i gate envelope lastErr next
  rw [heq]
  refine ⟨h.goto ((hrewires.wired h.wired).goto i _) hframes.faults
    (congrArg (List.set · i _) hframes.threads) hmap (hnext lastErr') ?_, [], none,
    hrewires.goto i _⟩
  change Disciplined (fun _ => u.gateChannelsMu) _ _
  rw [hframes.lock]
  exact h.locks.move hi fun _ _ hmode => (hholds lastErr').symm.trans hmode

private theorem rewires_receive {k : Nat} {ch : Channel Envelope} (hk : s.channels[k]? = some ch) :
    Rewires s { s with channels := s.channels.set k ch.receive } [] none := by
  have hclosed : s.status k = some ch.closed := by
    rw [status, hk, Option.map_some]
  refine rewires_of_same (fun j => ?_) rfl rfl
  rw [status, status_set (by rw [hclosed]; exact nofun)]
  split
  · rename_i hj
    rw [hj, hclosed]
    rfl
  · rfl

theorem Orderly.step (h : s.Orderly) (hstep : s.step label = some t) :
    t.Orderly ∧ ∃ ks fresh, Rewires s t ks fresh := by
  have hsame : ∀ {t : GateChannels}, t.channels = s.channels → t.gateChannels = s.gateChannels →
      t.closings = s.closings → Rewires s t [] none := by
    intro t hchannels hmap hclosings
    refine rewires_of_same (fun k => ?_) hmap hclosings
    rw [status, hchannels, status]
  have hwired : ∀ {t : GateChannels}, t.channels = s.channels →
      t.gateChannels = s.gateChannels → t.closings = s.closings → t.Wired :=
    fun hchannels hmap hclosings => (hsame hchannels hmap hclosings).wired h.wired
  cases step_cases hstep with
  | spawn =>
    refine ⟨⟨hwired rfl rfl rfl, h.locks.spawn fun _ => rfl, fun j todo m lastErr hj => ?_,
      h.faults⟩, [], none, hsame rfl rfl rfl⟩
    rcases getElem?_concat_cases hj with ⟨-, heq⟩ | hj
    · contradiction
    · exact h.fanning j todo m lastErr hj
  | receive hk =>
    have hrewires := rewires_receive hk
    exact ⟨⟨hrewires.wired h.wired, h.locks, h.fanning, h.faults⟩, [], none, hrewires⟩
  | lock hi hpc hl hnext =>
    refine ⟨h.goto (hwired rfl rfl rfl) rfl rfl rfl ?_
      (disciplined_single (h.locks.lock (k := ()) hi hl hnext nofun)), [], none, hsame rfl rfl rfl⟩
    rintro todo m lastErr rfl
    cases hnext
  | rlock hi hpc hl hnext hfan =>
    refine ⟨h.goto (hwired rfl rfl rfl) rfl rfl rfl ?_
      (disciplined_single (h.locks.rlock (k := ()) hi hl hnext nofun)), [], none, hsame rfl rfl rfl⟩
    rintro todo m lastErr heq entry hentry
    rw [hfan todo m lastErr heq] at hentry
    exact mem_connected.mp hentry
  | quiet hi hholds hfan =>
    refine ⟨h.goto (hwired rfl rfl rfl) rfl rfl rfl ?_
      (h.locks.move hi fun _ _ hmode => hholds ▸ hmode), [], none, hsame rfl rfl rfl⟩
    rintro todo m lastErr rfl
    exact absurd rfl (hfan todo m lastErr)
  | @register i choice gate hi =>
    obtain ⟨ks, hrewires, hframes⟩ := register_rewires h.wired _
    exact ⟨h.rewire hrewires hframes hi rfl _, ks, _, hrewires.goto i _⟩
  | @unregister i choice gate ch hi =>
    obtain ⟨ks, hrewires, hframes, -⟩ := unregister_rewires h.wired _ _
    exact ⟨h.rewire hrewires hframes hi rfl _, ks, _, hrewires.goto i _⟩
  | @cleanup i choice hi =>
    obtain ⟨hrewires, hframes⟩ := cleanup_rewires h.wired
    exact ⟨h.rewire hrewires hframes hi rfl _, _, _, hrewires.goto i _⟩
  | unlock hi =>
    exact ⟨h.goto (hwired rfl rfl rfl) rfl rfl rfl (fun _ _ _ heq => nomatch heq)
      (disciplined_single (h.locks.unlock (k := ()) hi rfl rfl nofun)), [], none,
      hsame rfl rfl rfl⟩
  | runlock hi =>
    exact ⟨h.goto (hwired rfl rfl rfl) rfl rfl rfl (fun _ _ _ heq => nomatch heq)
      (disciplined_single (h.locks.runlock (k := ()) hi rfl nofun)), [], none, hsame rfl rfl rfl⟩
  | push hi hk =>
    exact h.deliver (h.wired.mapped _ _ hk) _ _ hi (fun _ => rfl) (fun _ _ _ _ heq => nomatch heq)
  | fan hi hentry hrest =>
    refine h.deliver (h.fanning_open hi hentry) _ _ hi (fun _ => rfl) ?_
    rintro _ todo m lastErr heq entry hmem
    cases heq
    exact h.fanning _ _ _ _ hi entry (hrest hmem)

end Orderly

/-- The channels in the map are open. No channel is closed twice and none is sent to after it was
closed. A channel is closed by the step that takes it out of the map, and a disconnection takes
out the channel it is about and no other. -/
theorem gate_channels_are_used_safely (s : GateChannels)
    (hreach : machine.Reachable Machine.Any s) :
    (∀ gate k, s.gateChannels.lookup gate = some k → s.status k = some false) ∧
    s.closings.Nodup ∧ (∀ k, k ∈ s.closings ↔ s.status k = some true) ∧ s.faults = [] ∧
    ∀ label t, s.step label = some t →
      (∀ k, (s.status k = some false ∧ t.status k = some true) ↔
        ∃ gate, s.gateChannels.lookup gate = some k ∧ t.gateChannels.lookup gate ≠ some k) ∧
      ∀ i choice gate ch, label = .thread i choice →
        s.threads[i]? = some (.unregister gate ch) →
        ∀ other k, s.gateChannels.lookup other = some k → other ≠ gate ∨ k ≠ ch →
          t.gateChannels.lookup other = some k ∧ t.status k = some false := by
  have h : s.Orderly := by
    refine hreach.invariant ?_ fun hs _ hstep => (hs.step hstep).1
    rintro _ ⟨isNode, rfl⟩
    exact orderly_start isNode
  refine ⟨h.wired.mapped, h.wired.nodup, h.wired.closed, h.faults, fun label t hstep => ?_⟩
  obtain ⟨-, ks, fresh, hrewires⟩ := h.step hstep
  refine ⟨fun k => hrewires.closes_iff h.wired, ?_⟩
  rintro i choice gate ch rfl hi other k hk hother
  have ht : t = (s.unregisterGateConnection gate ch).1.goto i
      (.unlock (s.unregisterGateConnection gate ch).2) := by
    rw [step, hi, Option.bind_some] at hstep
    exact (Option.some.inj hstep).symm
  obtain ⟨ks, hrewires, -, honly⟩ := unregister_rewires h.wired gate ch
  have hnot : k ∉ ks := by
    intro hmem
    obtain ⟨rfl, hgate⟩ := honly k hmem
    rcases hother with hne | hne
    · exact hne (h.wired.injective other gate k hk hgate)
    · exact hne rfl
  rw [ht]
  exact ⟨(hrewires.lookup other k).mpr (.inl ⟨hk, hnot⟩),
    hrewires.status_of_some (h.wired.mapped other k hk) hnot⟩

section Examples

/-- Gate `g` connects twice, and then the first connection is given up. -/
def reconnected : List GateLabel :=
  [.spawn (.registerGateConnection (lit "g")), .thread 0 [], .thread 0 [], .thread 0 [],
    .spawn (.registerGateConnection (lit "g")), .thread 1 [], .thread 1 [], .thread 1 [],
    .spawn (.unregisterGateConnection (lit "g") 0), .thread 2 []]

theorem gate_channels_are_used_safely_reconnected : ∃ s t : GateChannels,
    machine.Reachable Machine.Any s ∧ s.step (.thread 2 []) = some t ∧ s.closings = [0] ∧
      t.gateChannels.lookup (lit "g") = some 1 ∧ t.status 1 = some false := by
  have hexec : (machine.exec Machine.Any (start true) reconnected).any (fun s =>
      decide (s.closings = [0] ∧ s.gateChannels.lookup (lit "g") = some 1 ∧
        s.threads[2]? = some (.unregister (lit "g") 0)) &&
      (s.step (.thread 2 [])).isSome) = true := by decide
  obtain ⟨s, hreach, hs⟩ := Machine.exec_reachable hexec ⟨true, rfl⟩
  obtain ⟨htest, hsome⟩ := Bool.and_eq_true_iff.mp hs
  obtain ⟨hclosings, hlookup, hthread⟩ := of_decide_eq_true htest
  obtain ⟨t, ht⟩ := Option.isSome_iff_exists.mp hsome
  obtain ⟨-, -, -, -, hsteps⟩ := gate_channels_are_used_safely s hreach
  obtain ⟨hkept, hopen⟩ := (hsteps _ t ht).2 2 [] (lit "g") 0 rfl hthread (lit "g") 1 hlookup
    (.inr (by decide))
  exact ⟨s, t, hreach, ht, hclosings, hkept, hopen⟩

end Examples
end GateChannels
end Goverse.Cluster
