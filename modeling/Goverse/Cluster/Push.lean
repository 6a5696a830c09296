import Goverse.Cluster.GateChannels
import Goverse.Lib.Threads

/-! What `PushMessageToClients` puts into the channels of the gates, next to everything else that
happens to them, and what it returns. -/
namespace Goverse.Cluster

open GoString Lib

/-- The clients of a gate, as they stand in the list. -/
def clientsOfGate (clientIDs : List GoString) (gate : GoString) : List GoString :=
  clientIDs.filter fun id => gateOfClient id = some gate

section Groups

variable {clientIDs : List GoString} {gate : GoString}

@[simp] theorem mem_clientsOfGate {id : GoString} :
    id ∈ clientsOfGate clientIDs gate ↔ id ∈ clientIDs ∧ gateOfClient id = some gate := by
  rw [clientsOfGate, List.mem_filter, decide_eq_true_iff]

private theorem clientsOfGate_concat (clientIDs : List GoString) (id gate : GoString) :
    clientsOfGate (clientIDs ++ [id]) gate =
      clientsOfGate clientIDs gate ++ if gateOfClient id = some gate then [id] else [] := by
  rw [clientsOfGate, List.filter_append, clientsOfGate]
  congr 1
  split <;> simp_all

/-- Each gate that is named has its clients, in their order, and no other gate has an entry. -/
def Groups (clientIDs : List GoString) (groups : ClientsByGate) : Prop :=
  (∀ id ∈ clientIDs, gateOfClient id ≠ none) ∧ ∀ gate clients,
    groups.lookup gate = some clients ↔ clients = clientsOfGate clientIDs gate ∧ clients ≠ []

private theorem groupByGate_concat (clientIDs : List GoString) (id : GoString) :
    groupByGate (clientIDs ++ [id]) = (groupByGate clientIDs).bind fun groups =>
      match gateOfClient id with
      | none => .error (invalidClientID id)
      | some gateAddr =>
        .ok (groups.insert gateAddr ((groups.lookup gateAddr).getD [] ++ [id])) := by
  rw [groupByGate, List.foldlM_append, groupByGate]
  congr 1
  funext groups
  rw [List.foldlM_cons]
  cases gateOfClient id <;> rfl

theorem Groups.insert {groups : ClientsByGate} (h : Groups clientIDs groups) {id : GoString}
    (hid : gateOfClient id = some gate) :
    Groups (clientIDs ++ [id])
      (groups.insert gate ((groups.lookup gate).getD [] ++ [id])) := by
  have hclients : (groups.lookup gate).getD [] = clientsOfGate clientIDs gate := by
    cases hlookup : groups.lookup gate with
    | some clients => exact ((h.2 gate clients).mp hlookup).1
    | none =>
      by_contra hne
      have hsome := (h.2 gate _).mpr ⟨rfl, Ne.symm hne⟩
      rw [hlookup] at hsome
      contradiction
  refine ⟨fun other hother => ?_, fun other clients => ?_⟩
  · rcases List.mem_append.mp hother with hold | hnew
    · exact h.1 other hold
    · rw [List.mem_singleton.mp hnew, hid]
      exact Option.some_ne_none gate
  · rw [clientsOfGate_concat, hid]
    by_cases hother : other = gate
    · subst hother
      rw [AList.lookup_insert, hclients, if_pos rfl]
      constructor
      · intro heq
        cases heq
        exact ⟨rfl, by simp⟩
      · rintro ⟨rfl, -⟩
        rfl
    · rw [AList.lookup_insert_ne hother, if_neg fun heq => hother (Option.some.inj heq).symm,
        List.append_nil]
      exact h.2 other clients

theorem groupByGate_spec (clientIDs : List GoString) :
    (∀ groups, groupByGate clientIDs = .ok groups → Groups clientIDs groups) ∧
      ∀ text, groupByGate clientIDs = .error text → ∃ id ∈ clientIDs, gateOfClient id = none := by
  induction clientIDs using List.reverseRecOn with
  | nil =>
    refine ⟨fun groups h => ?_, fun text h => by contradiction⟩
    cases h
    exact ⟨fun id hid => by contradiction, fun gate clients => by
      simp [clientsOfGate]⟩
  | append_singleton clientIDs id ih =>
    rw [groupByGate_concat]
    cases hgroups : groupByGate clientIDs with
    | error text =>
      refine ⟨fun groups h => by contradiction, fun _ _ => ?_⟩
      obtain ⟨bad, hbad, hnone⟩ := ih.2 text hgroups
      exact ⟨bad, List.mem_append_left _ hbad, hnone⟩
    | ok groups =>
      cases hid : gateOfClient id with
      | none =>
        refine ⟨fun groups h => by contradiction, fun _ _ => ⟨id, ?_, hid⟩⟩
        exact List.mem_append_right _ List.mem_cons_self
      | some gate =>
        refine ⟨fun next h => ?_, fun text h => by contradiction⟩
        cases h
        exact (ih.1 groups hgroups).insert hid

@[simp] theorem groups_keys (groups : ClientsByGate) :
    groups.groups.map Prod.fst = groups.keys := by
  rw [ClientsByGate.groups, List.map_map]
  rfl

@[simp] theorem mem_groups {groups : ClientsByGate} {entry : GoString × List GoString} :
    entry ∈ groups.groups ↔ groups.lookup entry.1 = some entry.2 := by
  rw [ClientsByGate.groups, List.mem_map]
  constructor
  · rintro ⟨found, hfound, rfl⟩
    exact AList.mem_lookup_iff.mpr hfound
  · intro hlookup
    exact ⟨⟨entry.1, entry.2⟩, AList.mem_lookup_iff.mp hlookup, rfl⟩

end Groups

def Envelope.clientIDs : Envelope → List GoString
  | .clientMessage clientIDs _ => clientIDs
  | .broadcast _ => []

/-- An envelope that a step of a goroutine has put into a channel, and the map at that moment. -/
structure Sent where
  thread : Nat
  channel : Nat
  envelope : Envelope
  gateChannels : AList fun _ : GoString => Nat

/-- The envelope for a gate is in the channel of this gate. -/
structure Sent.To (sent : Sent) (clientIDs : List GoString) (message gate : GoString) : Prop where
  channel : sent.gateChannels.lookup gate = some sent.channel
  envelope : sent.envelope = .clientMessage (clientsOfGate clientIDs gate) message
  named : clientsOfGate clientIDs gate ≠ []

/-- `calls` has the call of each goroutine. -/
structure Pushes where
  gates : GateChannels
  calls : List GateCall
  sent : List Sent

def GateChannels.buffer (s : GateChannels) (k : Nat) : List Envelope :=
  ((s.channels[k]?).map Channel.buffer).getD []

/-- What stands at the end of each channel that did not stand there before. -/
def GateChannels.enqueued (s t : GateChannels) : List (Nat × Envelope) :=
  (List.range t.channels.length).flatMap fun k =>
    ((t.buffer k).drop (s.buffer k).length).map fun envelope => (k, envelope)

namespace Pushes

def step (p : Pushes) : GateLabel → Option Pushes
  | .spawn call =>
    (p.gates.step (.spawn call)).map fun t => { p with gates := t, calls := p.calls ++ [call] }
  | .thread i choice =>
    (p.gates.step (.thread i choice)).map fun t =>
      { p with
        gates := t
        sent := p.sent ++ (p.gates.enqueued t).map fun (k, envelope) =>
          ⟨i, k, envelope, p.gates.gateChannels⟩ }
  | .receive k => (p.gates.step (.receive k)).map fun t => { p with gates := t }

def machine : Machine Pushes GateLabel where
  Init p := GateChannels.machine.Init p.gates ∧ p.calls = [] ∧ p.sent = []
  step := step

/-- What the call of goroutine `i` has put into channels. -/
def mine (p : Pushes) (i : Nat) : List Sent := p.sent.filter fun sent => sent.thread = i

end Pushes

/-- What a push may have put into channels when it returns. -/
structure PushResult (isNode : Bool) (clientIDs : List GoString)
    (message : Except GoString GoString) (mine : List Sent) (outcome : GateOutcome) : Prop where
  refused : (∃ id ∈ clientIDs, gateOfClient id = none) →
    mine = [] ∧ ∃ text, outcome = .error text
  precise : (∀ id ∈ clientIDs, gateOfClient id ≠ none) → ∃ gates : List GoString, gates.Nodup ∧
    List.Forall₂ (fun gate sent => ∃ m, message = .ok m ∧ Sent.To sent clientIDs m gate) gates mine
  complete : isNode = true ∨ clientIDs ≠ [] →
    (outcome = .ok ↔ ∀ id ∈ clientIDs, ∃ sent ∈ mine, id ∈ sent.envelope.clientIDs)

/-- The loop of a push: `sentTo` are the gates that it has sent to. -/
structure PushLoop (clientIDs : List GoString) (message : GoString)
    (todo : List (GoString × List GoString)) (lastErr : Option GoString) (mine : List Sent)
    (sentTo : List GoString) : Prop where
  envelopes : List.Forall₂ (fun gate sent => Sent.To sent clientIDs message gate) sentTo mine
  nodup : (sentTo ++ todo.map Prod.fst).Nodup
  groups : ∀ entry ∈ todo, entry.2 = clientsOfGate clientIDs entry.1 ∧ entry.2 ≠ []
  covers : lastErr = none ↔ ∀ id ∈ clientIDs, ∀ gate, gateOfClient id = some gate →
    gate ∈ sentTo ∨ gate ∈ todo.map Prod.fst

section Loop

variable {clientIDs : List GoString} {m : GoString} {todo : List (GoString × List GoString)}
  {lastErr : Option GoString} {mine : List Sent} {sentTo : List GoString}

theorem PushLoop.start {groups : ClientsByGate} (h : Groups clientIDs groups) (m : GoString) :
    PushLoop clientIDs m groups.groups none [] [] where
  envelopes := .nil
  nodup := by
    rw [List.nil_append, groups_keys]
    exact groups.keys_nodup
  groups entry hentry := (h.2 entry.1 entry.2).mp (mem_groups.mp hentry)
  covers := by
    refine ⟨fun _ id hid gate hgate => .inr ?_, fun _ => rfl⟩
    have hmem : id ∈ clientsOfGate clientIDs gate := mem_clientsOfGate.mpr ⟨hid, hgate⟩
    have hlookup := (h.2 gate _).mpr ⟨rfl, List.ne_nil_of_mem hmem⟩
    exact List.mem_map.mpr ⟨(gate, _), mem_groups.mpr hlookup, rfl⟩

theorem mem_rest {gate other : GoString} :
    other ∈ (todo.filter fun entry => entry.1 ≠ gate).map Prod.fst ↔
      other ∈ todo.map Prod.fst ∧ other ≠ gate := by
  simp only [List.mem_map, List.mem_filter, decide_eq_true_iff]
  constructor
  · rintro ⟨entry, ⟨hentry, hne⟩, rfl⟩
    exact ⟨⟨entry, hentry, rfl⟩, hne⟩
  · rintro ⟨⟨entry, hentry, rfl⟩, hne⟩
    exact ⟨entry, ⟨hentry, hne⟩, rfl⟩

theorem PushLoop.rest_nodup (h : PushLoop clientIDs m todo lastErr mine sentTo)
    (gate : GoString) :
    (sentTo ++ (todo.filter fun entry => entry.1 ≠ gate).map Prod.fst).Nodup :=
  h.nodup.sublist ((List.Sublist.refl _).append (List.filter_sublist.map _))

theorem PushLoop.send (h : PushLoop clientIDs m todo lastErr mine sentTo)
    {entry : GoString × List GoString} (hentry : entry ∈ todo) {sent : Sent}
    (hchannel : sent.gateChannels.lookup entry.1 = some sent.channel)
    (henvelope : sent.envelope = .clientMessage entry.2 m) :
    PushLoop clientIDs m (todo.filter fun other => other.1 ≠ entry.1) lastErr (mine ++ [sent])
      (sentTo ++ [entry.1]) := by
  obtain ⟨hclients, hne⟩ := h.groups entry hentry
  have hkey : entry.1 ∈ todo.map Prod.fst := List.mem_map_of_mem hentry
  have hfresh : entry.1 ∉ sentTo := fun hmem =>
    (List.nodup_append.mp h.nodup).2.2 _ hmem _ hkey rfl
  refine ⟨?_, ?_, fun other hother => h.groups other (List.mem_of_mem_filter hother), ?_⟩
  · refine List.rel_append h.envelopes (.cons ⟨hchannel, ?_, ?_⟩ .nil)
    · rw [henvelope, hclients]
    · rwa [← hclients]
  · rw [List.append_assoc, List.singleton_append]
    refine (List.nodup_middle).mpr (List.nodup_cons.mpr ⟨?_, h.rest_nodup entry.1⟩)
    rw [List.mem_append, mem_rest]
    rintro (hmem | ⟨-, hself⟩)
    · exact hfresh hmem
    · exact hself rfl
  · rw [h.covers]
    refine forall_congr' fun id => forall_congr' fun hid => forall_congr' fun gate =>
      forall_congr' fun hgate => ?_
    rw [List.mem_append, List.mem_singleton, mem_rest]
    by_cases heq : gate = entry.1
    · simp [heq, hkey]
    · simp [heq]

theorem PushLoop.fail (h : PushLoop clientIDs m todo lastErr mine sentTo)
    {entry : GoString × List GoString} (hentry : entry ∈ todo) (text : GoString) :
    PushLoop clientIDs m (todo.filter fun other => other.1 ≠ entry.1) (some text) mine sentTo := by
  obtain ⟨hclients, hne⟩ := h.groups entry hentry
  refine ⟨h.envelopes, h.rest_nodup entry.1,
    fun other hother => h.groups other (List.mem_of_mem_filter hother), ?_⟩
  refine ⟨fun hnone => by contradiction, fun hall => ?_⟩
  obtain ⟨id, hid⟩ := List.exists_mem_of_ne_nil _ hne
  rw [hclients] at hid
  obtain ⟨hmem, hgate⟩ := mem_clientsOfGate.mp hid
  rcases hall id hmem entry.1 hgate with hsent | hrest
  · have hkey : entry.1 ∈ todo.map Prod.fst := List.mem_map_of_mem hentry
    exact absurd rfl ((List.nodup_append.mp h.nodup).2.2 _ hsent _ hkey)
  · exact absurd rfl (mem_rest.mp hrest).2

theorem PushLoop.mem_envelope (h : PushLoop clientIDs m todo lastErr mine sentTo)
    {id gate : GoString} (hid : id ∈ clientIDs) (hgate : gateOfClient id = some gate) :
    (∃ sent ∈ mine, id ∈ sent.envelope.clientIDs) ↔ gate ∈ sentTo := by
  constructor
  · rintro ⟨sent, hsent, hmem⟩
    obtain ⟨other, hother, hto⟩ := exists_of_mem_left h.envelopes.flip hsent
    rw [hto.envelope, Envelope.clientIDs, mem_clientsOfGate, hgate] at hmem
    rwa [Option.some.inj hmem.2]
  · intro hmem
    obtain ⟨sent, hsent, hto⟩ := exists_of_mem_left h.envelopes hmem
    refine ⟨sent, hsent, ?_⟩
    rw [hto.envelope]
    exact mem_clientsOfGate.mpr ⟨hid, hgate⟩

theorem PushLoop.result (h : PushLoop clientIDs m [] lastErr mine sentTo)
    (hvalid : ∀ id ∈ clientIDs, gateOfClient id ≠ none) (isNode : Bool) :
    PushResult isNode clientIDs (.ok m) mine (.ofError lastErr) where
  refused := by
    rintro ⟨id, hid, hnone⟩
    exact absurd hnone (hvalid id hid)
  precise _ := by
    refine ⟨sentTo, ?_, h.envelopes.imp fun gate sent hto => ⟨m, rfl, hto⟩⟩
    have hnodup := h.nodup
    rwa [List.map_nil, List.append_nil] at hnodup
  complete _ := by
    have hok : GateOutcome.ofError lastErr = .ok ↔ lastErr = none := by
      cases lastErr <;> simp [GateOutcome.ofError]
    rw [hok, h.covers]
    refine forall_congr' fun id => forall_congr' fun hid => ?_
    obtain ⟨gate, hgate⟩ := Option.ne_none_iff_exists'.mp (hvalid id hid)
    rw [h.mem_envelope hid hgate, hgate]
    simp

theorem PushResult.failed {isNode : Bool} {message : Except GoString GoString} {text : GoString}
    (hlist : isNode = true → clientIDs ≠ []) :
    PushResult isNode clientIDs message [] (.error text) where
  refused _ := ⟨rfl, text, rfl⟩
  precise _ := ⟨[], List.nodup_nil, .nil⟩
  complete hcase := by
    refine ⟨fun hok => by contradiction, fun hall => ?_⟩
    have hne : clientIDs ≠ [] := hcase.elim hlist fun hne => hne
    obtain ⟨id, hid⟩ := List.exists_mem_of_ne_nil _ hne
    obtain ⟨sent, hsent, -⟩ := hall id hid
    contradiction

theorem PushResult.empty {isNode : Bool} {message : Except GoString GoString} :
    PushResult isNode [] message [] .ok where
  refused := by
    rintro ⟨id, hid, -⟩
    contradiction
  precise _ := ⟨[], List.nodup_nil, .nil⟩
  complete _ := ⟨fun _ id hid => by contradiction, fun _ => rfl⟩

end Loop

section Enqueued

open GateChannels

variable {s t : GateChannels} {k : Nat} {envelope : Envelope}

theorem enqueued_of_channels (h : t.channels = s.channels) : s.enqueued t = [] := by
  rw [enqueued, List.flatMap_eq_nil_iff]
  intro j _
  rw [buffer, buffer, h, List.drop_length, List.map_nil]

@[simp] theorem enqueued_goto (s : GateChannels) (l : RWLock) (i : Nat) (pc : GatePc) :
    s.enqueued (({ s with gateChannelsMu := l } : GateChannels).goto i pc) = [] :=
  enqueued_of_channels rfl

theorem deliver_enqueued (hk : s.status k = some false) (i : Nat) (gate : GoString)
    (envelope : Envelope) (lastErr : Option GoString) (next : Option GoString → GatePc) :
    ∃ channels, (s.deliver i gate k envelope lastErr next =
        { s with channels := channels }.goto i (next lastErr) ∧
          s.enqueued (s.deliver i gate k envelope lastErr next) = [(k, envelope)]) ∨
      (s.deliver i gate k envelope lastErr next =
        { s with channels := channels }.goto i (next (some (channelIsFull gate))) ∧
          s.enqueued (s.deliver i gate k envelope lastErr next) = []) := by
  obtain ⟨ch, hch, hopen⟩ := Option.map_eq_some_iff.mp hk
  have hlt := (List.getElem?_eq_some_iff.mp hch).1
  by_cases hroom : ch.buffer.length < ch.capacity
  · have hsend : s.send k envelope =
        some ({ s with channels := s.channels.set k { ch with
          buffer := ch.buffer ++ [envelope] } }, true) := by
      rw [GateChannels.send, hch, Option.bind_some, Channel.trySend, hopen, if_neg (by decide),
        if_pos hroom]
      rfl
    refine ⟨s.channels.set k { ch with buffer := ch.buffer ++ [envelope] }, .inl ?_⟩
    rw [GateChannels.deliver, hsend]
    refine ⟨rfl, ?_⟩
    rw [enqueued]
    refine (flatMap_range_single (k := k) ?_ ?_).trans ?_
    · exact lt_of_lt_of_eq hlt List.length_set.symm
    · intro j hj
      have hsame : (s.channels.set k { ch with buffer := ch.buffer ++ [envelope] })[j]? =
          s.channels[j]? := List.getElem?_set_ne (Ne.symm hj)
      simp [buffer, goto, hsame]
    · have hself : (s.channels.set k { ch with buffer := ch.buffer ++ [envelope] })[k]? =
          some { ch with buffer := ch.buffer ++ [envelope] } := List.getElem?_set_self hlt
      simp only [buffer, GateChannels.goto, hself, hch, Option.map_some, Option.getD_some,
        List.drop_left, List.map_cons, List.map_nil]
  · have hsend : s.send k envelope = some (s, false) := by
      rw [GateChannels.send, hch, Option.bind_some, Channel.trySend, hopen, if_neg (by decide),
        if_neg hroom, Option.map_some]
      rw [set_same hch]
    refine ⟨s.channels, .inr ?_⟩
    rw [GateChannels.deliver, hsend]
    exact ⟨rfl, enqueued_of_channels rfl⟩

end Enqueued

namespace Pushes

variable {p q : Pushes} {i : Nat} {clientIDs : List GoString} {message : Except GoString GoString}

/-- Where a push is, and what it has put into channels. -/
def Follows (clientIDs : List GoString) (message : Except GoString GoString) (isNode : Bool)
    (mine : List Sent) : GatePc → Prop
  | .start call => call = .pushMessageToClients clientIDs message ∧ mine = []
  | .push todo m lastErr => message = .ok m ∧ (∀ id ∈ clientIDs, gateOfClient id ≠ none) ∧
      ∃ sentTo, PushLoop clientIDs m todo lastErr mine sentTo
  | .runlock outcome | .returned outcome => PushResult isNode clientIDs message mine outcome
  | _ => False

theorem Follows.start {s t : GateChannels}
    (h : s.startStep i (.pushMessageToClients clientIDs message) = some t) :
    t.channels = s.channels ∧ ∃ pc, t.threads = s.threads.set i pc ∧
      Follows clientIDs message s.isNode [] pc := by
  simp only [GateChannels.startStep] at h
  split at h
  · split at h
    · rename_i hempty
      subst hempty
      cases h
      exact ⟨rfl, _, rfl, .empty⟩
    · rename_i hne
      split at h
      · cases h
        exact ⟨rfl, _, rfl, .failed fun _ => hne⟩
      · cases h
        exact ⟨rfl, _, rfl, .failed fun _ => hne⟩
      · rename_i groups m hgroups
        obtain ⟨l, -, rfl⟩ := Option.map_eq_some_iff.mp h
        have hspec := (groupByGate_spec clientIDs).1 groups hgroups
        exact ⟨rfl, _, rfl, rfl, hspec.1, [], .start hspec m⟩
  · rename_i hgate
    cases h
    exact ⟨rfl, _, rfl, .failed fun hnode => absurd hnode hgate⟩

theorem Follows.turn {s t : GateChannels} (hs : s.Wired) {m choice : GoString}
    {todo : List (GoString × List GoString)} {lastErr : Option GoString} {mine : List Sent}
    (h : Follows clientIDs message s.isNode mine (.push todo m lastErr))
    {entry : GoString × List GoString}
    (hentry : todo.find? (fun entry => entry.1 = choice) = some entry)
    (ht : t = s.pushStep i m lastErr (todo.filter fun other => other.1 ≠ choice) entry) :
    ∃ pc, t.threads = s.threads.set i pc ∧
      Follows clientIDs message s.isNode (mine ++ (s.enqueued t).map fun (k, envelope) =>
        ⟨i, k, envelope, s.gateChannels⟩) pc := by
  obtain ⟨hm, hvalid, sentTo, hloop⟩ := h
  have hmem := List.mem_of_find?_eq_some hentry
  obtain rfl : entry.1 = choice := by simpa using List.find?_some hentry
  subst ht
  unfold GateChannels.pushStep
  split
  · refine ⟨_, rfl, hm, hvalid, sentTo, ?_⟩
    rw [enqueued_goto s s.gateChannelsMu, List.map_nil, List.append_nil]
    exact hloop.fail hmem _
  · rename_i k hk
    obtain ⟨channels, ⟨heq, hsent⟩ | ⟨heq, hsent⟩⟩ := deliver_enqueued (hs.mapped entry.1 k hk) i
      entry.1 (.clientMessage entry.2 m) lastErr
      (.push (todo.filter fun other => other.1 ≠ entry.1) m ·)
    · rw [hsent, heq]
      exact ⟨_, rfl, hm, hvalid, _, hloop.send hmem hk rfl⟩
    · rw [hsent, heq, List.map_nil, List.append_nil]
      exact ⟨_, rfl, hm, hvalid, sentTo, hloop.fail hmem _⟩

theorem Follows.step {s t : GateChannels} (hs : s.Wired) {mine : List Sent} {pc : GatePc}
    {choice : GoString} (h : Follows clientIDs message s.isNode mine pc)
    (hstep : s.threadStep i choice pc = some t) :
    ∃ pc', t.threads = s.threads.set i pc' ∧
      Follows clientIDs message s.isNode (mine ++ (s.enqueued t).map fun (k, envelope) =>
        ⟨i, k, envelope, s.gateChannels⟩) pc' := by
  cases pc with
  | start call =>
    obtain ⟨rfl, rfl⟩ := h
    obtain ⟨hchannels, pc', hthreads, hfollows⟩ := Follows.start hstep
    rw [enqueued_of_channels hchannels]
    exact ⟨pc', hthreads, hfollows⟩
  | push todo m lastErr =>
    cases todo with
    | nil =>
      obtain ⟨rfl, hvalid, sentTo, hloop⟩ := h
      cases hstep
      refine ⟨_, rfl, ?_⟩
      rw [enqueued_goto s s.gateChannelsMu, List.map_nil, List.append_nil]
      exact hloop.result hvalid s.isNode
    | cons first rest =>
      obtain ⟨entry, hentry, rfl⟩ := Option.map_eq_some_iff.mp hstep
      exact h.turn hs hentry rfl
  | runlock outcome =>
    cases hstep
    refine ⟨_, rfl, ?_⟩
    rw [enqueued_goto, List.map_nil, List.append_nil]
    exact h
  | returned outcome => contradiction
  | _ => exact h.elim

structure Delivering (p : Pushes) : Prop where
  orderly : p.gates.Orderly
  aligned : p.calls.length = p.gates.threads.length
  started : ∀ sent ∈ p.sent, sent.thread < p.gates.threads.length
  follows : ∀ (i : Nat) (clientIDs : List GoString) (message : Except GoString GoString)
    (pc : GatePc), p.calls[i]? = some (.pushMessageToClients clientIDs message) →
      p.gates.threads[i]? = some pc → Follows clientIDs message p.gates.isNode (p.mine i) pc

theorem Delivering.spawn (h : p.Delivering) (call : GateCall) :
    Delivering { p with
      gates := { p.gates with threads := p.gates.threads ++ [.start call] }
      calls := p.calls ++ [call] } := by
  have hstep : p.gates.step (.spawn call) =
      some { p.gates with threads := p.gates.threads ++ [.start call] } := rfl
  refine ⟨(h.orderly.step hstep).1, by simp [h.aligned], fun sent hsent => ?_,
    fun i clientIDs message pc hcall hpc => ?_⟩
  · rw [List.length_append]
    exact Nat.lt_add_right _ (h.started sent hsent)
  · rcases getElem?_concat_cases hpc with ⟨rfl, rfl⟩ | hold
    · rw [← h.aligned, List.getElem?_concat_length] at hcall
      refine ⟨Option.some.inj hcall, List.filter_eq_nil_iff.mpr fun sent hsent => ?_⟩
      have hlt := h.started sent hsent
      simp
      omega
    · have hlt := (List.getElem?_eq_some_iff.mp hold).1
      have haligned := h.aligned
      dsimp only at hcall
      rw [List.getElem?_append_left (by omega)] at hcall
      exact h.follows i clientIDs message pc hcall hold

theorem isNode_close {s t : GateChannels} {k : Nat} (h : s.close k = some t) :
    t.isNode = s.isNode := by
  obtain ⟨ch, -, hch⟩ := Option.bind_eq_some_iff.mp h
  obtain ⟨next, -, rfl⟩ := Option.map_eq_some_iff.mp hch
  rfl

@[simp] theorem isNode_closeAll (s : GateChannels) (ks : List Nat) :
    (s.closeAll ks).isNode = s.isNode := by
  induction ks generalizing s with
  | nil => rfl
  | cons k ks ih =>
    rw [GateChannels.closeAll, List.foldl_cons]
    refine (ih _).trans ?_
    cases hclose : s.close k with
    | none => rfl
    | some t => exact isNode_close hclose

theorem isNode_step {s t : GateChannels} {label : GateLabel} (h : s.step label = some t) :
    t.isNode = s.isNode := by
  have hdeliver : ∀ {i : Nat} {gate : GoString} {k : Nat} {envelope : Envelope}
      {lastErr : Option GoString} {next : Option GoString → GatePc},
      (s.deliver i gate k envelope lastErr next).isNode = s.isNode := by
    intro i gate k envelope lastErr next
    unfold GateChannels.deliver
    split
    · rfl
    all_goals
      rename_i hsend
      obtain ⟨ch, -, hch⟩ := Option.bind_eq_some_iff.mp hsend
      obtain ⟨next, -, heq⟩ := Option.map_eq_some_iff.mp hch
      rw [← (Prod.mk.inj heq).1]
      rfl
  cases GateChannels.step_cases h with
  | spawn | receive | lock | rlock | quiet | unlock | runlock => rfl
  | register =>
    change (GateChannels.registerGateConnection s _).1.isNode = _
    unfold GateChannels.registerGateConnection
    split
    · rfl
    · split
      · rfl
      · rename_i hclose
        have hsame := isNode_close hclose
        exact hsame
  | unregister =>
    change (GateChannels.unregisterGateConnection s _ _).1.isNode = _
    unfold GateChannels.unregisterGateConnection
    split
    · rfl
    · split
      · split
        · rfl
        · rename_i hclose
          have hsame := isNode_close hclose
          exact hsame
      · rfl
  | cleanup => exact isNode_closeAll s _
  | push | fan => exact hdeliver

theorem threads_step {s t : GateChannels} (hs : s.Orderly) {choice : GoString}
    (h : s.step (.thread i choice) = some t) : ∃ pc, t.threads = s.threads.set i pc := by
  have hdeliver : ∀ {gate : GoString} {k : Nat} {envelope : Envelope}
      {lastErr : Option GoString} {next : Option GoString → GatePc}, s.status k = some false →
      ∃ pc, (s.deliver i gate k envelope lastErr next).threads = s.threads.set i pc := by
    intro gate k envelope lastErr next hk
    obtain ⟨u, lastErr', heq, -, -, hframes⟩ :=
      GateChannels.deliver_spec hk i gate envelope lastErr next
    exact ⟨next lastErr', heq ▸ congrArg (List.set · i _) hframes.threads⟩
  cases GateChannels.step_cases h with
  | lock | rlock | quiet | unlock | runlock => exact ⟨_, rfl⟩
  | register =>
    obtain ⟨ks, -, hframes⟩ := GateChannels.register_rewires hs.wired _
    exact ⟨_, congrArg (List.set · i _) hframes.threads⟩
  | unregister =>
    obtain ⟨ks, -, hframes, -⟩ := GateChannels.unregister_rewires hs.wired _ _
    exact ⟨_, congrArg (List.set · i _) hframes.threads⟩
  | cleanup =>
    exact ⟨_, congrArg (List.set · i _) (GateChannels.cleanup_rewires hs.wired).2.threads⟩
  | push hi hk => exact hdeliver (hs.wired.mapped _ _ hk)
  | fan hi hentry => exact hdeliver (hs.fanning_open hi hentry)

private theorem mine_append (p : Pushes) (t : GateChannels) (i j : Nat)
    (envelopes : List (Nat × Envelope)) :
    mine { p with
      gates := t
      sent := p.sent ++ envelopes.map fun (k, envelope) =>
        ⟨j, k, envelope, p.gates.gateChannels⟩ } i =
      p.mine i ++ if j = i then envelopes.map fun (k, envelope) =>
        ⟨j, k, envelope, p.gates.gateChannels⟩ else [] := by
  rw [mine, List.filter_append, mine]
  congr 1
  split
  · rename_i heq
    rw [List.filter_eq_self]
    intro sent hsent
    obtain ⟨entry, -, rfl⟩ := List.mem_map.mp hsent
    exact decide_eq_true heq
  · rename_i hne
    rw [List.filter_eq_nil_iff]
    intro sent hsent
    obtain ⟨entry, -, rfl⟩ := List.mem_map.mp hsent
    simpa using hne

theorem Delivering.thread (h : p.Delivering) {choice : GoString} {t : GateChannels}
    (hstep : p.gates.step (.thread i choice) = some t) :
    Delivering { p with
      gates := t
      sent := p.sent ++ (p.gates.enqueued t).map fun (k, envelope) =>
        ⟨i, k, envelope, p.gates.gateChannels⟩ } := by
  obtain ⟨pc, hpc, hthread⟩ := Option.bind_eq_some_iff.mp hstep
  obtain ⟨next, hthreads⟩ := threads_step h.orderly hstep
  have hlength : t.threads.length = p.gates.threads.length := by
    rw [hthreads, List.length_set]
  refine ⟨(h.orderly.step hstep).1, h.aligned.trans hlength.symm, fun sent hsent => ?_,
    fun j clientIDs message pc' hcall hpc' => ?_⟩
  · rw [hlength]
    rcases List.mem_append.mp hsent with hold | hnew
    · exact h.started sent hold
    · obtain ⟨entry, -, rfl⟩ := List.mem_map.mp hnew
      exact (List.getElem?_eq_some_iff.mp hpc).1
  · rw [mine_append, isNode_step hstep]
    by_cases hij : i = j
    · subst hij
      rw [if_pos rfl]
      obtain ⟨own, hown, hfollows⟩ :=
        (h.follows i clientIDs message pc hcall hpc).step h.orderly.wired hthread
      dsimp only at hpc'
      rw [hown, getElem?_set_same hpc] at hpc'
      exact Option.some.inj hpc' ▸ hfollows
    · dsimp only at hpc'
      rw [hthreads, List.getElem?_set_ne hij] at hpc'
      rw [if_neg hij, List.append_nil]
      exact h.follows j clientIDs message pc' hcall hpc'

theorem Delivering.step (h : p.Delivering) {label : GateLabel} (hstep : p.step label = some q) :
    q.Delivering := by
  cases label with
  | spawn call =>
    cases hstep
    exact h.spawn call
  | thread i choice =>
    obtain ⟨t, ht, rfl⟩ := Option.map_eq_some_iff.mp hstep
    exact h.thread ht
  | receive k =>
    obtain ⟨t, ht, rfl⟩ := Option.map_eq_some_iff.mp hstep
    have horderly := (h.orderly.step ht).1
    obtain ⟨ch, -, rfl⟩ := Option.map_eq_some_iff.mp ht
    exact ⟨horderly, h.aligned, h.started, h.follows⟩

theorem delivering {ok : Pushes → GateLabel → Prop} (hreach : machine.Reachable ok p) :
    p.Delivering := by
  apply hreach.invariant (I := Delivering)
  · rintro p ⟨⟨isNode, hgates⟩, hcalls, hsent⟩
    refine ⟨hgates ▸ GateChannels.orderly_start isNode, ?_, ?_, ?_⟩ <;>
      simp [hgates, hcalls, hsent, GateChannels.start]
  · intro p label q h _ hstep
    exact h.step hstep

theorem exists_step {choice : GoString} {t : GateChannels}
    (h : p.gates.step (.thread i choice) = some t) :
    ∃ q, p.step (.thread i choice) = some q ∧ q.gates = t := by
  cases hq : p.step (.thread i choice) with
  | none => simp [step, h] at hq
  | some q =>
    rw [step, h] at hq
    cases hq
    exact ⟨_, rfl, rfl⟩

private theorem exists_turn {todo : List (GoString × List GoString)} {m : GoString}
    {lastErr : Option GoString} (h : p.Delivering)
    (hi : p.gates.threads[i]? = some (.push todo m lastErr)) {entry : GoString × List GoString}
    (hentry : entry ∈ todo) :
    ∃ q lastErr', p.step (.thread i entry.1) = some q ∧ q.gates.threads[i]? =
      some (.push (todo.filter fun other => other.1 ≠ entry.1) m lastErr') := by
  have hlt := (List.getElem?_eq_some_iff.mp hi).1
  obtain ⟨found, hfound⟩ : ∃ found, todo.find? (fun other => other.1 = entry.1) = some found :=
    Option.isSome_iff_exists.mp (List.find?_isSome.mpr ⟨entry, hentry, decide_eq_true rfl⟩)
  have hstep : p.gates.step (.thread i entry.1) = some (p.gates.pushStep i m lastErr
      (todo.filter fun other => other.1 ≠ entry.1) found) := by
    rw [GateChannels.step, hi, Option.bind_some]
    cases todo with
    | nil => contradiction
    | cons first rest => exact congrArg (Option.map _) hfound
  have hturn : ∃ lastErr', (p.gates.pushStep i m lastErr
      (todo.filter fun other => other.1 ≠ entry.1) found).threads = p.gates.threads.set i
        (.push (todo.filter fun other => other.1 ≠ entry.1) m lastErr') := by
    unfold GateChannels.pushStep
    split
    · exact ⟨_, rfl⟩
    · rename_i k hk
      obtain ⟨channels, ⟨heq, -⟩ | ⟨heq, -⟩⟩ := deliver_enqueued (h.orderly.wired.mapped _ k hk) i
        found.1 (.clientMessage found.2 m) lastErr
        (.push (todo.filter fun other => other.1 ≠ entry.1) m ·)
      · exact ⟨lastErr, by rw [heq]; rfl⟩
      · exact ⟨_, by rw [heq]; rfl⟩
  obtain ⟨q, hq, hgates⟩ := exists_step hstep
  obtain ⟨lastErr', hthreads⟩ := hturn
  refine ⟨q, lastErr', hq, ?_⟩
  rw [hgates, hthreads, List.getElem?_set_self hlt]

private theorem push_returns {todo : List (GoString × List GoString)} {m : GoString}
    {lastErr : Option GoString} (h : p.Delivering)
    (hi : p.gates.threads[i]? = some (.push todo m lastErr)) :
    ∃ ls q outcome, machine.Steps (fun _ l => ∃ choice, l = .thread i choice) p ls q ∧
      q.gates.threads[i]? = some (.returned outcome) := by
  induction hn : todo.length using Nat.strong_induction_on generalizing p todo lastErr with
  | _ n ih =>
    cases todo with
    | nil =>
      have hlt := (List.getElem?_eq_some_iff.mp hi).1
      have hend : p.gates.step (.thread i []) =
          some (p.gates.goto i (.runlock (.ofError lastErr))) := by
        rw [GateChannels.step, hi]
        rfl
      obtain ⟨q, hq, hgates⟩ := exists_step hend
      have hrunlock : q.gates.threads[i]? = some (.runlock (.ofError lastErr)) := by
        rw [hgates]
        exact List.getElem?_set_self hlt
      have hunlock : q.gates.step (.thread i []) =
          some ({ q.gates with gateChannelsMu := q.gates.gateChannelsMu.runlock i }.goto i
            (.returned (.ofError lastErr))) := by
        rw [GateChannels.step, hrunlock]
        rfl
      obtain ⟨r, hr, hreturned⟩ := exists_step hunlock
      refine ⟨_, r, .ofError lastErr,
        (Machine.Steps.single ⟨_, rfl⟩ hq).append (.single ⟨_, rfl⟩ hr), ?_⟩
      rw [hreturned]
      exact getElem?_set_same hrunlock
    | cons entry rest =>
      obtain ⟨q, lastErr', hstep, hq⟩ := exists_turn h hi List.mem_cons_self
      have hshorter : ((entry :: rest).filter fun other => other.1 ≠ entry.1).length < n := by
        rw [← hn, List.filter_cons, if_neg (by simp)]
        exact Nat.lt_succ_of_le (List.length_filter_le _ _)
      obtain ⟨ls, r, outcome, hrun, hr⟩ := ih _ hshorter (h.step hstep) hq rfl
      exact ⟨_, r, outcome, (Machine.Steps.single ⟨_, rfl⟩ hstep).append hrun, hr⟩

/-- Every push that returns has put into the channels what its list of clients says, and one that
is under way goes on to its end. -/
theorem push_delivery_is_exact (p : Pushes) (hreach : machine.Reachable Machine.Any p) (i : Nat)
    (clientIDs : List GoString) (message : Except GoString GoString)
    (hcall : p.calls[i]? = some (.pushMessageToClients clientIDs message)) :
    (∀ outcome, p.gates.threads[i]? = some (.returned outcome) →
      PushResult p.gates.isNode clientIDs message (p.mine i) outcome) ∧
    ∀ todo m lastErr, p.gates.threads[i]? = some (.push todo m lastErr) →
      ∃ ls q outcome, machine.Steps (fun _ l => ∃ choice, l = .thread i choice) p ls q ∧
        q.gates.threads[i]? = some (.returned outcome) := by
  have h := delivering hreach
  refine ⟨fun outcome hreturned => ?_, fun todo m lastErr hi => push_returns h hi⟩
  exact h.follows i clientIDs message _ hcall hreturned

section Examples

/-- Gate `g` is connected and gate `h` is not; two clients of `g` and one of `h` get a message. -/
def pushed : List GateLabel :=
  [.spawn (.registerGateConnection (lit "g")), .thread 0 [], .thread 0 [], .thread 0 [],
    .spawn (.pushMessageToClients [lit "g/b", lit "h/a", lit "g/a"] (.ok (lit "m"))),
    .thread 1 [], .thread 1 (lit "h"), .thread 1 (lit "g"), .thread 1 [], .thread 1 []]

theorem push_delivery_is_exact_pushed :
    ∃ (p : Pushes) (text : GoString),
      (p.mine 1).map Sent.envelope = [.clientMessage [lit "g/b", lit "g/a"] (lit "m")] ∧
      p.gates.threads[1]? = some (.returned (.error text)) ∧
      PushResult true [lit "g/b", lit "h/a", lit "g/a"] (.ok (lit "m")) (p.mine 1)
        (.error text) := by
  have hrun : (machine.exec Machine.Any ⟨GateChannels.start true, [], []⟩ pushed).any (fun p =>
      decide ((p.mine 1).map Sent.envelope =
          [.clientMessage [lit "g/b", lit "g/a"] (lit "m")] ∧
        p.calls[1]? = some (.pushMessageToClients [lit "g/b", lit "h/a", lit "g/a"]
          (.ok (lit "m"))) ∧ p.gates.isNode = true ∧
        p.gates.threads[1]? = some (.returned (.error (notConnected (lit "h") 1))))) = true := by
    decide
  obtain ⟨p, hreach, hp⟩ := Machine.exec_reachable hrun ⟨⟨true, rfl⟩, rfl, rfl⟩
  obtain ⟨hmine, hcall, hnode, hreturned⟩ := of_decide_eq_true hp
  have hresult := (push_delivery_is_exact p hreach 1 _ _ hcall).1 _ hreturned
  rw [hnode] at hresult
  exact ⟨p, _, hmine, hreturned, hresult⟩

end Examples

end Pushes

end Goverse.Cluster
