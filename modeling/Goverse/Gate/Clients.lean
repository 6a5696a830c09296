import Mathlib.Data.List.AList
import Goverse.GoString
import Goverse.Lib.Channel
import Goverse.Lib.Machine
import Goverse.Lib.RWLock

/-! The clients of a gate. A client's proxy is registered, pushed to and closed by different
goroutines. The map of the clients has a lock, under which proxies are closed and broadcast to;
a message for single clients is pushed after the lookup has given the lock back, to a proxy that
may be closed by then. -/
namespace Goverse.Gate

open GoString Lib

/-- `mu` makes `Close` one step: `closed` is read and written nowhere else. -/
structure ClientProxy where
  id : GoString
  closed : Bool
  messageChan : Channel GoString
  deriving DecidableEq, Repr

def newClientProxy (id : GoString) : ClientProxy := ⟨id, false, .make 10⟩

inductive Task where
  | register (clientID : GoString)
  | unregister (clientID : GoString)
  | cleanupClientProxies
  | handleGateMessage (clientIDs : List GoString) (message : Option GoString)
  | broadcastToAllClients (message : Option GoString)
  deriving DecidableEq, Repr

/-- Where a goroutine is: before its lock, at the head of the loop of `handleGateMessage`, with
the lock, between a lookup and the push, and in the loop of a broadcast. -/
inductive Pc where
  | start (task : Task)
  | insert (clientID : GoString)
  | remove (clientID : GoString)
  | sweep
  | delete (clientID : GoString) (sweeping : Bool)
  | unlock
  | push (k : Nat) (message : GoString) (rest : List GoString)
  | fan (remaining : List (GoString × Nat)) (message : GoString)
  | done
  deriving DecidableEq, Repr

def Pc.holds : Pc → Option Mode
  | .insert _ | .remove _ | .sweep | .delete .. | .unlock => some .exclusive
  | .fan .. => some .shared
  | .start _ | .push .. | .done => none

/-- The proxy that a goroutine has looked up and not pushed to yet. -/
def Pc.pending : Pc → Option Nat
  | .push k _ _ => some k
  | _ => none

inductive Panic where
  | sendOnClosed (k : Nat)
  | closeOfClosed (k : Nat)
  deriving DecidableEq, Repr

/-- A proxy is named by its place among all that were ever made. -/
structure Clients where
  proxies : List ClientProxy
  clients : AList fun _ : GoString => Nat
  clientsMu : RWLock
  threads : List Pc
  panics : List Panic

/-- What the iteration of the map ranges over. -/
def Clients.registered (s : Clients) : List (GoString × Nat) :=
  s.clients.entries.map fun (entry : Sigma fun _ : GoString => Nat) => (entry.1, entry.2)

/-- `choice` is the client that the iteration of a map comes to next. -/
inductive Label where
  | spawn (task : Task)
  | thread (i : Nat) (choice : GoString)
  | receive (k : Nat)
  deriving DecidableEq, Repr

namespace Clients

def goto (s : Clients) (i : Nat) (pc : Pc) : Clients :=
  { s with threads := s.threads.set i pc }

def setProxy (s : Clients) (k : Nat) (proxy : ClientProxy) : Clients :=
  { s with proxies := s.proxies.set k proxy }

/-- `Close` of a proxy. -/
def close (s : Clients) (k : Nat) : Clients :=
  match s.proxies[k]? with
  | none => s
  | some proxy =>
    if proxy.closed then s
    else
      match proxy.messageChan.close with
      | none => { s.setProxy k { proxy with closed := true } with
          panics := s.panics ++ [.closeOfClosed k] }
      | some ch => s.setProxy k { proxy with closed := true, messageChan := ch }

/-- `PushMessageAny` of a proxy. -/
def pushMessageAny (s : Clients) (k : Nat) (message : GoString) : Clients :=
  match s.proxies[k]? with
  | none => s
  | some proxy =>
    match proxy.messageChan.trySend message with
    | none => { s with panics := s.panics ++ [.sendOnClosed k] }
    | some (ch, _) => s.setProxy k { proxy with messageChan := ch }

def startStep (s : Clients) (i : Nat) : Task → Option Clients
  | .register clientID =>
    (s.clientsMu.lock i).map fun l => { s with clientsMu := l }.goto i (.insert clientID)
  | .unregister clientID =>
    (s.clientsMu.lock i).map fun l => { s with clientsMu := l }.goto i (.remove clientID)
  | .cleanupClientProxies =>
    (s.clientsMu.lock i).map fun l => { s with clientsMu := l }.goto i .sweep
  | .handleGateMessage [] _ => some (s.goto i .done)
  | .handleGateMessage (clientID :: rest) message =>
    -- `GetClient` reads the map under the read lock.
    if s.clientsMu.writer = none then
      match s.clients.lookup clientID, message with
      | some k, some m => some (s.goto i (.push k m rest))
      | _, _ => some (s.goto i (.start (.handleGateMessage rest message)))
    else none
  | .broadcastToAllClients none => some (s.goto i .done)
  | .broadcastToAllClients (some m) =>
    (s.clientsMu.rlock i).map fun l => { s with clientsMu := l }.goto i
      (.fan s.registered m)

def threadStep (s : Clients) (i : Nat) (choice : GoString) : Pc → Option Clients
  | .start task => s.startStep i task
  | .insert clientID =>
    some ({ s with
      proxies := s.proxies ++ [newClientProxy clientID]
      clients := s.clients.insert clientID s.proxies.length }.goto i .unlock)
  | .remove clientID =>
    match s.clients.lookup clientID with
    | none => some (s.goto i .unlock)
    | some k => some ((s.close k).goto i (.delete clientID false))
  | .sweep =>
    if s.clients.keys = [] then some (s.goto i .unlock)
    else (s.clients.lookup choice).map fun k => (s.close k).goto i (.delete choice true)
  | .delete clientID sweeping =>
    some ({ s with clients := s.clients.erase clientID }.goto i
      (if sweeping then .sweep else .unlock))
  | .unlock => some ({ s with clientsMu := s.clientsMu.unlock }.goto i .done)
  | .push k m rest =>
    some ((s.pushMessageAny k m).goto i (.start (.handleGateMessage rest (some m))))
  | .fan [] _ => some ({ s with clientsMu := s.clientsMu.runlock i }.goto i .done)
  | .fan remaining m =>
    (remaining.find? fun entry => entry.1 = choice).map fun entry =>
      (s.pushMessageAny entry.2 m).goto i
        (.fan (remaining.filter fun other => other.1 ≠ choice) m)
  | .done => none

def step (s : Clients) : Label → Option Clients
  | .spawn task => some { s with threads := s.threads ++ [.start task] }
  | .thread i choice => s.threads[i]?.bind (s.threadStep i choice)
  | .receive k =>
    s.proxies[k]?.map fun proxy =>
      s.setProxy k { proxy with messageChan := proxy.messageChan.receive }

def start : Clients := ⟨[], ∅, .free, [], []⟩

def machine : Machine Clients Label where
  Init s := s = start
  step := step

/-! ### Everything a step can do -/

inductive StepCase (s : Clients) : Label → Clients → Prop
  | spawn {task : Task} : StepCase s (.spawn task) { s with threads := s.threads ++ [.start task] }
  | receive {k : Nat} {proxy : ClientProxy} (hk : s.proxies[k]? = some proxy) :
      StepCase s (.receive k)
        (s.setProxy k { proxy with messageChan := proxy.messageChan.receive })
  | lock {i : Nat} {choice : GoString} {pc next : Pc} {l : RWLock} (hi : s.threads[i]? = some pc)
      (hpc : pc.holds = none) (hl : s.clientsMu.lock i = some l)
      (hnext : next.holds = some .exclusive) :
      StepCase s (.thread i choice) (({ s with clientsMu := l } : Clients).goto i next)
  | rlock {i : Nat} {choice : GoString} {pc : Pc} {l : RWLock} {m : GoString}
      (hi : s.threads[i]? = some pc) (hpc : pc.holds = none)
      (hl : s.clientsMu.rlock i = some l) :
      StepCase s (.thread i choice)
        (({ s with clientsMu := l } : Clients).goto i (.fan s.registered m))
  | unlock {i : Nat} {choice : GoString} (hi : s.threads[i]? = some .unlock) :
      StepCase s (.thread i choice)
        (({ s with clientsMu := s.clientsMu.unlock } : Clients).goto i .done)
  | runlock {i : Nat} {choice m : GoString} (hi : s.threads[i]? = some (.fan [] m)) :
      StepCase s (.thread i choice)
        (({ s with clientsMu := s.clientsMu.runlock i } : Clients).goto i .done)
  | insert {i : Nat} {choice clientID : GoString} (hi : s.threads[i]? = some (.insert clientID)) :
      StepCase s (.thread i choice) (({ s with
        proxies := s.proxies ++ [newClientProxy clientID]
        clients := s.clients.insert clientID s.proxies.length } : Clients).goto i .unlock)
  | close {i : Nat} {choice clientID : GoString} {pc : Pc} {k : Nat} {sweeping : Bool}
      (hi : s.threads[i]? = some pc)
      (hpc : pc = .remove clientID ∨ (pc = .sweep ∧ clientID = choice))
      (hk : s.clients.lookup clientID = some k) :
      StepCase s (.thread i choice) ((s.close k).goto i (.delete clientID sweeping))
  | delete {i : Nat} {choice clientID : GoString} {sweeping : Bool} {next : Pc}
      (hi : s.threads[i]? = some (.delete clientID sweeping))
      (hnext : next = .sweep ∨ next = .unlock) :
      StepCase s (.thread i choice)
        (({ s with clients := s.clients.erase clientID } : Clients).goto i next)
  | find {i : Nat} {choice clientID : GoString} {pc : Pc} {k : Nat} {m : GoString}
      {rest : List GoString} (hi : s.threads[i]? = some pc) (hpc : pc.holds = none)
      (hwriter : s.clientsMu.writer = none) (hk : s.clients.lookup clientID = some k) :
      StepCase s (.thread i choice) (s.goto i (.push k m rest))
  | skip {i : Nat} {choice : GoString} {pc next : Pc} (hi : s.threads[i]? = some pc)
      (hholds : next.holds = pc.holds)
      (hnext : next = .done ∨ next = .unlock ∨ ∃ rest m, next = .start (.handleGateMessage rest m))
      (hpc : ∀ clientID sweeping, pc ≠ .delete clientID sweeping) :
      StepCase s (.thread i choice) (s.goto i next)
  | push {i : Nat} {choice : GoString} {k : Nat} {m : GoString} {rest : List GoString}
      (hi : s.threads[i]? = some (.push k m rest)) : StepCase s (.thread i choice)
        ((s.pushMessageAny k m).goto i (.start (.handleGateMessage rest (some m))))
  | fan {i : Nat} {choice : GoString} {remaining rest : List (GoString × Nat)}
      {entry : GoString × Nat} {m : GoString} (hi : s.threads[i]? = some (.fan remaining m))
      (hentry : entry ∈ remaining) (hrest : rest ⊆ remaining) :
      StepCase s (.thread i choice) ((s.pushMessageAny entry.2 m).goto i (.fan rest m))

theorem startStep_cases {s t : Clients} {i : Nat} {choice : GoString} {task : Task}
    (hi : s.threads[i]? = some (.start task)) (h : s.startStep i task = some t) :
    StepCase s (.thread i choice) t := by
  unfold startStep at h
  split at h
  · obtain ⟨l, hl, rfl⟩ := Option.map_eq_some_iff.mp h
    exact .lock hi rfl hl rfl
  · obtain ⟨l, hl, rfl⟩ := Option.map_eq_some_iff.mp h
    exact .lock hi rfl hl rfl
  · obtain ⟨l, hl, rfl⟩ := Option.map_eq_some_iff.mp h
    exact .lock hi rfl hl rfl
  · cases h
    exact .skip hi rfl (.inl rfl) nofun
  · split at h
    · rename_i hwriter
      split at h
      · rename_i k m hk
        cases h
        exact .find hi rfl hwriter hk
      · cases h
        exact .skip hi rfl (.inr (.inr ⟨_, _, rfl⟩)) nofun
    · contradiction
  · cases h
    exact .skip hi rfl (.inl rfl) nofun
  · obtain ⟨l, hl, rfl⟩ := Option.map_eq_some_iff.mp h
    exact .rlock hi rfl hl

theorem step_cases {s t : Clients} {label : Label} (h : s.step label = some t) :
    StepCase s label t := by
  cases label with
  | spawn task =>
    cases h
    exact .spawn
  | receive k =>
    obtain ⟨proxy, hk, rfl⟩ := Option.map_eq_some_iff.mp h
    exact .receive hk
  | thread i choice =>
    obtain ⟨pc, hi, hpc⟩ := Option.bind_eq_some_iff.mp h
    unfold threadStep at hpc
    split at hpc
    · exact startStep_cases hi hpc
    · cases hpc
      exact .insert hi
    · split at hpc
      · cases hpc
        exact .skip hi rfl (.inr (.inl rfl)) nofun
      · rename_i k hk
        cases hpc
        exact .close hi (.inl rfl) hk
    · split at hpc
      · cases hpc
        exact .skip hi rfl (.inr (.inl rfl)) nofun
      · obtain ⟨k, hk, rfl⟩ := Option.map_eq_some_iff.mp hpc
        exact .close hi (.inr ⟨rfl, rfl⟩) hk
    · cases hpc
      refine .delete hi ?_
      split
      · exact .inl rfl
      · exact .inr rfl
    · cases hpc
      exact .unlock hi
    · cases hpc
      exact .push hi
    · cases hpc
      exact .runlock hi
    · obtain ⟨entry, hentry, rfl⟩ := Option.map_eq_some_iff.mp hpc
      exact .fan hi (List.mem_of_find?_eq_some hentry) (List.filter_subset_self _)
    · contradiction

/-! ### Names of the proxies -/

/-- What a push or a receiver leaves as it is. -/
def names (s : Clients) : List (GoString × Bool) :=
  s.proxies.map fun proxy => (proxy.id, proxy.closed)

/-- A channel is closed if its proxy is. -/
def Flagged (s : Clients) : Prop :=
  ∀ (k : Nat) (proxy : ClientProxy), s.proxies[k]? = some proxy →
    proxy.messageChan.closed = proxy.closed

section Names

variable {s : Clients} {k : Nat} {proxy next : ClientProxy}

theorem names_getElem? (hk : s.proxies[k]? = some proxy) :
    s.names[k]? = some (proxy.id, proxy.closed) := by
  rw [names, List.getElem?_map, hk, Option.map_some]

theorem names_setProxy (hk : s.proxies[k]? = some proxy) (hid : next.id = proxy.id)
    (hclosed : next.closed = proxy.closed) : (s.setProxy k next).names = s.names := by
  rw [names, setProxy, List.map_set, hid, hclosed, ← names]
  exact set_same (names_getElem? hk)

theorem Flagged.setProxy (h : s.Flagged) (hnext : next.messageChan.closed = next.closed) :
    (s.setProxy k next).Flagged := by
  intro j other hj
  rcases getElem?_set_cases hj with ⟨-, rfl⟩ | ⟨-, hj⟩
  · exact hnext
  · exact h j other hj

@[simp] theorem names_pushMessageAny (s : Clients) (k : Nat) (m : GoString) :
    (s.pushMessageAny k m).names = s.names := by
  unfold pushMessageAny
  split
  · rfl
  · rename_i proxy hk
    split
    · rfl
    · exact names_setProxy hk rfl rfl

theorem Flagged.pushMessageAny (h : s.Flagged) (m : GoString) :
    (s.pushMessageAny k m).Flagged := by
  unfold Clients.pushMessageAny
  split
  · exact h
  · rename_i proxy hk
    split
    · exact h
    · rename_i ch sent hsend
      obtain ⟨hopen, hstill⟩ := Channel.trySend_open hsend
      refine h.setProxy ?_
      rw [← h k proxy hk, hopen]
      exact hstill

theorem pushMessageAny_frame (s : Clients) (k : Nat) (m : GoString) :
    (s.pushMessageAny k m).clients = s.clients ∧ (s.pushMessageAny k m).threads = s.threads ∧
      (s.pushMessageAny k m).clientsMu = s.clientsMu := by
  unfold pushMessageAny
  split
  · exact ⟨rfl, rfl, rfl⟩
  · split <;> exact ⟨rfl, rfl, rfl⟩

theorem close_frame (s : Clients) (k : Nat) : (s.close k).clients = s.clients ∧
    (s.close k).threads = s.threads ∧ (s.close k).clientsMu = s.clientsMu := by
  unfold close
  split
  · exact ⟨rfl, rfl, rfl⟩
  · split
    · exact ⟨rfl, rfl, rfl⟩
    · split <;> exact ⟨rfl, rfl, rfl⟩

theorem panics_pushMessageAny (h : s.Flagged) (m : GoString) :
    (s.pushMessageAny k m).panics = s.panics ∨
      ((s.pushMessageAny k m).panics = s.panics ++ [.sendOnClosed k] ∧
        ∃ id, s.names[k]? = some (id, true)) := by
  unfold Clients.pushMessageAny
  split
  · exact .inl rfl
  · rename_i proxy hk
    split
    · rename_i hpanics
      refine .inr ⟨rfl, proxy.id, ?_⟩
      rw [names_getElem? hk, ← h k proxy hk, Channel.trySend_eq_none.mp hpanics]
    · exact .inl rfl

theorem close_spec (h : s.Flagged) {id : GoString} {closed : Bool}
    (hk : s.names[k]? = some (id, closed)) : (s.close k).Flagged ∧
      (s.close k).names = s.names.set k (id, true) ∧ (s.close k).panics = s.panics := by
  rw [names, List.getElem?_map] at hk
  obtain ⟨proxy, hproxy, heq⟩ := Option.map_eq_some_iff.mp hk
  cases heq
  have hset : ∀ next : ClientProxy, next.id = proxy.id → next.closed = true →
      (s.setProxy k next).names = s.names.set k (proxy.id, true) := by
    intro next hid hclosed
    rw [names, setProxy, List.map_set, hid, hclosed, ← names]
  unfold Clients.close
  rw [hproxy]
  dsimp only
  split
  · rename_i hclosed
    refine ⟨h, ?_, rfl⟩
    rw [← hset proxy rfl hclosed]
    exact (names_setProxy hproxy rfl rfl).symm
  · rename_i hopen
    split
    · rename_i hpanics
      have := Channel.close_eq_none.mp hpanics
      rw [h k proxy hproxy] at this
      contradiction
    · rename_i ch hch
      exact ⟨h.setProxy (Channel.close_closed hch).2, hset _ rfl rfl, rfl⟩

end Names

/-! ### The map and the lock -/

/-- The proxy of a registered client is open, unless a goroutine is about to delete it. -/
def Registered (s : Clients) (clientID : GoString) (k : Nat) : Prop :=
  s.names[k]? = some (clientID, false) ∨
    (s.names[k]? = some (clientID, true) ∧
      ∃ (i : Nat) (sweeping : Bool), s.threads[i]? = some (.delete clientID sweeping))

structure Orderly (s : Clients) : Prop where
  locks : Disciplined (fun _ : Unit => s.clientsMu) (fun pc _ => pc.holds) s.threads
  flagged : s.Flagged
  registered : ∀ clientID k, s.clients.lookup clientID = some k → s.Registered clientID k
  fanning : ∀ (i : Nat) (remaining : List (GoString × Nat)) (m : GoString),
    s.threads[i]? = some (.fan remaining m) →
    ∀ entry ∈ remaining, s.clients.lookup entry.1 = some entry.2
  closings : ∀ k, Panic.closeOfClosed k ∉ s.panics

section Orderly

variable {s t : Clients} {i : Nat} {pc next : Pc}

private theorem mem_registered {entry : GoString × Nat} (h : entry ∈ s.registered) :
    s.clients.lookup entry.1 = some entry.2 := by
  obtain ⟨found, hfound, rfl⟩ := List.mem_map.mp h
  exact AList.mem_lookup_iff.mpr hfound

theorem Registered.goto {clientID : GoString} {k : Nat} (h : s.Registered clientID k)
    (hi : s.threads[i]? = some pc) (hpc : ∀ sweeping, pc ≠ .delete clientID sweeping)
    (hnames : t.names = s.names) (hthreads : t.threads = s.threads.set i next) :
    t.Registered clientID k := by
  rw [Registered, hnames, hthreads]
  refine h.imp_right fun ⟨hclosed, j, sweeping, hj⟩ => ⟨hclosed, j, sweeping, ?_⟩
  have hne : j ≠ i := by
    rintro rfl
    rw [hi] at hj
    exact hpc sweeping (Option.some.inj hj)
  rw [List.getElem?_set_ne hne.symm]
  exact hj

theorem Orderly.fanning_goto (h : s.Orderly)
    (hnext : ∀ remaining m, next = .fan remaining m →
      ∀ entry ∈ remaining, s.clients.lookup entry.1 = some entry.2)
    {j : Nat} {remaining : List (GoString × Nat)} {m : GoString}
    (hj : (s.threads.set i next)[j]? = some (.fan remaining m)) :
    ∀ entry ∈ remaining, s.clients.lookup entry.1 = some entry.2 := by
  rcases getElem?_set_cases hj with ⟨-, heq⟩ | ⟨-, hj⟩
  · exact hnext remaining m heq.symm
  · exact h.fanning j remaining m hj

theorem Orderly.not_fanning (h : s.Orderly) (hi : s.threads[i]? = some pc)
    (hpc : pc.holds = some .exclusive) {j : Nat} {remaining : List (GoString × Nat)}
    {m : GoString} (hnext : ∀ remaining m, next ≠ .fan remaining m) :
    (s.threads.set i next)[j]? ≠ some (.fan remaining m) := by
  intro hj
  rcases getElem?_set_cases hj with ⟨-, heq⟩ | ⟨hne, hj⟩
  · exact hnext remaining m heq.symm
  · exact hne (h.locks.excludes (k := ()) hi hpc hj nofun)

theorem Orderly.open_of_held (h : s.Orderly) (hi : s.threads[i]? = some pc)
    (hheld : pc.holds ≠ none) (hpc : ∀ clientID sweeping, pc ≠ .delete clientID sweeping)
    {clientID : GoString} {k : Nat} (hk : s.clients.lookup clientID = some k) :
    s.names[k]? = some (clientID, false) := by
  rcases h.registered clientID k hk with hopen | ⟨-, j, sweeping, hj⟩
  · exact hopen
  · have := h.locks.excludes (k := ()) hj rfl hi hheld
    subst this
    rw [hj] at hi
    exact absurd (Option.some.inj hi).symm (hpc clientID sweeping)

theorem Orderly.move (h : s.Orderly) (hi : s.threads[i]? = some pc)
    (hthreads : t.threads = s.threads.set i next)
    (hpc : ∀ clientID sweeping, pc ≠ .delete clientID sweeping)
    (hnext : ∀ remaining m, next = .fan remaining m →
      ∀ entry ∈ remaining, s.clients.lookup entry.1 = some entry.2)
    (hclients : t.clients = s.clients)
    (hnames : t.names = s.names) (hflagged : t.Flagged)
    (hclosings : ∀ k, Panic.closeOfClosed k ∉ t.panics)
    (hlocks : Disciplined (fun _ : Unit => t.clientsMu) (fun pc _ => pc.holds)
      (s.threads.set i next)) : t.Orderly := by
  refine ⟨hthreads ▸ hlocks, hflagged, fun clientID k hk => ?_, fun j remaining m hj => ?_,
    hclosings⟩
  · rw [hclients] at hk
    exact (h.registered clientID k hk).goto hi (hpc clientID) hnames hthreads
  · rw [hthreads] at hj
    rw [hclients]
    exact h.fanning_goto hnext hj

theorem Orderly.insert (h : s.Orderly) {clientID : GoString}
    (hi : s.threads[i]? = some (.insert clientID)) :
    Orderly (({ s with
      proxies := s.proxies ++ [newClientProxy clientID]
      clients := s.clients.insert clientID s.proxies.length } : Clients).goto i .unlock) := by
  have hlength : s.names.length = s.proxies.length := List.length_map _
  have hnames : ∀ (j : Nat) (name : GoString × Bool), s.names[j]? = some name →
      (s.names ++ [(clientID, false)])[j]? = some name := by
    intro j name hj
    exact getElem?_grow hj
  refine ⟨h.locks.move hi fun _ _ hmode => hmode, fun k proxy hk => ?_, fun other k hk => ?_,
    fun j remaining m hj => ?_, h.closings⟩
  · rcases getElem?_concat_cases hk with ⟨-, rfl⟩ | hk
    · rfl
    · exact h.flagged k proxy hk
  · change (s.clients.insert clientID s.proxies.length).lookup other = some k at hk
    have hgrown : ((({ s with
        proxies := s.proxies ++ [newClientProxy clientID]
        clients := s.clients.insert clientID s.proxies.length } : Clients).goto i .unlock).names) =
        s.names ++ [(clientID, false)] := List.map_append ..
    rw [Registered, hgrown]
    by_cases hother : other = clientID
    · subst hother
      rw [AList.lookup_insert] at hk
      cases hk
      refine .inl ?_
      rw [← hlength, List.getElem?_concat_length]
    · rw [AList.lookup_insert_ne hother] at hk
      refine .inl (hnames k _ (h.open_of_held hi nofun nofun hk))
  · exact absurd hj (h.not_fanning hi rfl nofun)

theorem Orderly.close (h : s.Orderly) {clientID : GoString} {k : Nat} {sweeping : Bool}
    (hi : s.threads[i]? = some pc) (hpc : pc = .remove clientID ∨ pc = .sweep)
    (hk : s.clients.lookup clientID = some k) :
    ((s.close k).goto i (.delete clientID sweeping)).Orderly := by
  have hholds : pc.holds = some .exclusive := by
    rcases hpc with rfl | rfl <;> rfl
  have hdelete : ∀ clientID sweeping, pc ≠ .delete clientID sweeping := by
    rcases hpc with rfl | rfl <;> exact nofun
  have hopen : ∀ {other : GoString} {j : Nat}, s.clients.lookup other = some j →
      s.names[j]? = some (other, false) :=
    fun hj => h.open_of_held hi (by rw [hholds]; exact nofun) hdelete hj
  obtain ⟨hflagged, hnames, hpanics⟩ := close_spec h.flagged (hopen hk)
  obtain ⟨hclients, hthreads, hmu⟩ := close_frame s k
  have hset : ((s.close k).goto i (.delete clientID sweeping)).threads =
      s.threads.set i (.delete clientID sweeping) := by
    rw [goto, hthreads]
  refine ⟨?_, hflagged, fun other j hj => ?_, fun j remaining m hj => ?_, ?_⟩
  · rw [hset]
    change Disciplined (fun _ => (s.close k).clientsMu) _ _
    rw [hmu]
    exact h.locks.move hi fun _ _ hmode => hmode ▸ hholds
  · change (s.close k).clients.lookup other = some j at hj
    rw [hclients] at hj
    change (s.close k).names[j]? = _ ∨ (s.close k).names[j]? = _ ∧ _
    rw [hnames, hset]
    by_cases hother : other = clientID
    · subst hother
      cases hk.symm.trans hj
      refine .inr ⟨?_, i, sweeping, ?_⟩
      · exact getElem?_set_same (hopen hk)
      · exact getElem?_set_same hi
    · have hne : k ≠ j := by
        rintro rfl
        have heq := (hopen hk).symm.trans (hopen hj)
        exact hother (congrArg Prod.fst (Option.some.inj heq)).symm
      rw [List.getElem?_set_ne hne]
      exact .inl (hopen hj)
  · rw [hset] at hj
    exact absurd hj (h.not_fanning hi hholds nofun)
  · change ∀ k', _ ∉ (s.close k).panics
    rw [hpanics]
    exact h.closings

theorem Orderly.delete (h : s.Orderly) {clientID : GoString} {sweeping : Bool}
    (hi : s.threads[i]? = some (.delete clientID sweeping))
    (hnext : next = .sweep ∨ next = .unlock) :
    (({ s with clients := s.clients.erase clientID } : Clients).goto i next).Orderly := by
  have hholds : next.holds = some .exclusive := by
    rcases hnext with rfl | rfl <;> rfl
  refine ⟨h.locks.move hi fun _ _ hmode => hholds.symm.trans hmode, h.flagged, fun other k hk => ?_,
    fun j remaining m hj => ?_, h.closings⟩
  · change (s.clients.erase clientID).lookup other = some k at hk
    have hother : other ≠ clientID := by
      rintro rfl
      rw [AList.lookup_erase] at hk
      contradiction
    rw [AList.lookup_erase_ne hother] at hk
    rcases h.registered other k hk with hopen | ⟨-, j, _, hj⟩
    · exact .inl hopen
    · have := h.locks.excludes (k := ()) hi rfl hj nofun
      subst this
      rw [hi] at hj
      cases hj
      contradiction
  · exact absurd hj (h.not_fanning hi rfl (by rcases hnext with rfl | rfl <;> exact nofun))

theorem orderly_start : start.Orderly :=
  ⟨nofun, nofun, nofun, nofun, nofun⟩

theorem Orderly.spawn (h : s.Orderly) (task : Task) :
    ({ s with threads := s.threads ++ [.start task] } : Clients).Orderly := by
  constructor
  case locks => exact h.locks.spawn fun _ => rfl
  case flagged => exact h.flagged
  case registered =>
    intro clientID k hk
    refine (h.registered clientID k hk).imp_right fun ⟨hclosed, j, sweeping, hj⟩ => ?_
    refine ⟨hclosed, j, sweeping, ?_⟩
    exact getElem?_grow hj
  case fanning =>
    intro j remaining m hj
    rcases getElem?_concat_cases hj with ⟨-, heq⟩ | hj
    · contradiction
    · exact h.fanning j remaining m hj
  case closings => exact h.closings

theorem Orderly.receive (h : s.Orderly) {k : Nat} {proxy : ClientProxy}
    (hk : s.proxies[k]? = some proxy) :
    (s.setProxy k { proxy with messageChan := proxy.messageChan.receive }).Orderly := by
  have hreceived : proxy.messageChan.receive.closed = proxy.closed := h.flagged k proxy hk
  have hnames : (s.setProxy k { proxy with
      messageChan := proxy.messageChan.receive }).names = s.names := names_setProxy hk rfl rfl
  refine ⟨h.locks, h.flagged.setProxy hreceived, fun clientID j hj => ?_, h.fanning, h.closings⟩
  rw [Registered, hnames]
  exact h.registered clientID j hj

theorem Orderly.closings_pushMessageAny (h : s.Orderly) {k : Nat} {m : GoString} (j : Nat) :
    Panic.closeOfClosed j ∉ (s.pushMessageAny k m).panics := by
  intro hj
  rcases panics_pushMessageAny h.flagged m with hsame | ⟨hmore, -⟩
  · exact h.closings j (hsame ▸ hj)
  · rw [hmore] at hj
    rcases List.mem_append.mp hj with hj | hj
    · exact h.closings j hj
    · cases List.mem_singleton.mp hj

theorem Orderly.step (h : s.Orderly) {label : Label} (hstep : s.step label = some t) :
    t.Orderly := by
  cases step_cases hstep with
  | spawn => exact h.spawn _
  | receive hk => exact h.receive hk
  | lock hi hpc hl hnext =>
    refine h.move hi rfl (by rintro _ _ rfl; contradiction) ?_ rfl rfl h.flagged h.closings
      (disciplined_single (h.locks.lock (k := ()) hi hl hnext nofun))
    rintro remaining m rfl
    cases hnext
  | rlock hi hpc hl =>
    refine h.move hi rfl (by rintro _ _ rfl; contradiction) ?_ rfl rfl h.flagged h.closings
      (disciplined_single (h.locks.rlock (k := ()) hi hl rfl nofun))
    rintro remaining m heq entry hentry
    cases heq
    exact mem_registered hentry
  | unlock hi =>
    exact h.move hi rfl nofun (fun _ _ heq => nomatch heq) rfl rfl h.flagged h.closings
      (disciplined_single (h.locks.unlock (k := ()) hi rfl rfl nofun))
  | runlock hi =>
    exact h.move hi rfl nofun (fun _ _ heq => nomatch heq) rfl rfl h.flagged h.closings
      (disciplined_single (h.locks.runlock (k := ()) hi rfl nofun))
  | insert hi => exact h.insert hi
  | close hi hpc hk => exact h.close hi (hpc.imp_right fun hsweep => hsweep.1) hk
  | delete hi hnext => exact h.delete hi hnext
  | find hi hpc hwriter hk =>
    exact h.move hi rfl (by rintro _ _ rfl; contradiction) (fun _ _ heq => nomatch heq) rfl rfl
      h.flagged h.closings (h.locks.move hi nofun)
  | skip hi hholds hnext hpc =>
    refine h.move hi rfl hpc ?_ rfl rfl h.flagged h.closings
      (h.locks.move hi fun _ _ hmode => hholds ▸ hmode)
    rintro remaining m rfl
    rcases hnext with hnext | hnext | ⟨_, _, hnext⟩ <;> contradiction
  | @push i choice k m rest hi =>
    obtain ⟨hclients, hthreads, hmu⟩ := pushMessageAny_frame s k m
    refine h.move hi (congrArg (List.set · i _) hthreads) nofun (fun _ _ heq => nomatch heq)
      hclients (names_pushMessageAny s k m) (h.flagged.pushMessageAny m)
      h.closings_pushMessageAny ?_
    change Disciplined (fun _ => (s.pushMessageAny k m).clientsMu) _ _
    rw [hmu]
    exact h.locks.move hi nofun
  | @fan i choice remaining rest entry m hi hentry hrest =>
    obtain ⟨hclients, hthreads, hmu⟩ := pushMessageAny_frame s entry.2 m
    refine h.move hi (congrArg (List.set · i _) hthreads) nofun ?_ hclients
      (names_pushMessageAny s entry.2 m) (h.flagged.pushMessageAny m)
      h.closings_pushMessageAny ?_
    · rintro remaining' m' heq other hother
      cases heq
      exact h.fanning i remaining m hi other (hrest hother)
    · change Disciplined (fun _ => (s.pushMessageAny entry.2 m).clientsMu) _ _
      rw [hmu]
      exact h.locks.move hi fun _ _ hmode => hmode

end Orderly

/-! ### Pushes -/

/-- The proxy that a step closes. -/
def closes (s : Clients) : Label → Option Nat
  | .thread i choice =>
    match s.threads[i]? with
    | some (.remove clientID) => s.clients.lookup clientID
    | some .sweep => s.clients.lookup choice
    | _ => none
  | .spawn _ | .receive _ => none

/-- No client is closed between the lookup and the push of a `handleGateMessage`. -/
def NotPending (s : Clients) (label : Label) : Prop :=
  ∀ k ∈ s.closes label, ∀ pc ∈ s.threads, pc.pending ≠ some k

instance (s : Clients) (label : Label) : Decidable (NotPending s label) := by
  unfold NotPending
  infer_instance

structure Safe (s : Clients) : Prop where
  orderly : s.Orderly
  pending : ∀ pc ∈ s.threads, ∀ k, pc.pending = some k → ∃ id, s.names[k]? = some (id, false)
  panics : s.panics = []

section Safe

variable {s t : Clients} {label : Label}

private theorem pending_of_holds {pc : Pc} {mode : Mode} (h : pc.holds = some mode) :
    pc.pending = none := by
  cases pc <;> first | rfl | contradiction

/-- A goroutine is before a push because it was so already, or has just looked the client up. -/
theorem step_pending (hstep : s.step label = some t) {pc : Pc} (hpc : pc ∈ t.threads) {k : Nat}
    (hk : pc.pending = some k) : (∃ old ∈ s.threads, old.pending = some k) ∨
      (t.names = s.names ∧ s.clientsMu.writer = none ∧
        ∃ clientID, s.clients.lookup clientID = some k) := by
  have hset : ∀ {i : Nat} {next : Pc}, pc ∈ s.threads.set i next →
      pc = next ∨ ∃ old ∈ s.threads, old.pending = some k := by
    intro i next hmem
    rcases eq_or_mem_of_mem_set hmem with heq | hj
    · exact .inl heq
    · exact .inr ⟨pc, hj, hk⟩
  have hnone : ∀ {i : Nat} {next : Pc}, pc ∈ s.threads.set i next → next.pending = none →
      ∃ old ∈ s.threads, old.pending = some k := by
    intro i next hmem hnext
    rcases hset hmem with rfl | hold
    · rw [hk] at hnext
      contradiction
    · exact hold
  cases step_cases hstep with
  | spawn =>
    rcases mem_concat_cases hpc with hpc | rfl
    · exact .inl ⟨pc, hpc, hk⟩
    · contradiction
  | receive => exact .inl ⟨pc, hpc, hk⟩
  | lock hi _ hl hnext => exact .inl (hnone hpc (pending_of_holds hnext))
  | rlock | unlock | runlock | insert => exact .inl (hnone hpc rfl)
  | close =>
    rename_i i choice clientID pc' k' sweeping _ _ _
    have hthreads := (close_frame s k').2.1
    rw [goto, hthreads] at hpc
    exact .inl (hnone hpc rfl)
  | delete hi hnext =>
    refine .inl (hnone hpc ?_)
    rcases hnext with rfl | rfl <;> rfl
  | find hi hfree hwriter hfound =>
    rcases hset hpc with rfl | hold
    · cases hk
      exact .inr ⟨rfl, hwriter, _, hfound⟩
    · exact .inl hold
  | skip hi hholds hnext =>
    refine .inl (hnone hpc ?_)
    rcases hnext with rfl | rfl | ⟨_, _, rfl⟩ <;> rfl
  | @push i choice k' m rest hi =>
    rw [goto, (pushMessageAny_frame s k' m).2.1] at hpc
    exact .inl (hnone hpc rfl)
  | @fan i choice remaining rest entry m hi hentry hrest =>
    rw [goto, (pushMessageAny_frame s entry.2 m).2.1] at hpc
    exact .inl (hnone hpc rfl)

theorem Orderly.step_open (h : s.Orderly) (hstep : s.step label = some t) {k : Nat}
    {id : GoString} (hk : s.names[k]? = some (id, false)) :
    t.names[k]? = some (id, false) ∨ s.closes label = some k := by
  cases step_cases hstep with
  | spawn | lock | rlock | unlock | runlock | delete | find | skip => exact .inl hk
  | @receive j proxy hj =>
    have hnames : (s.setProxy j { proxy with
        messageChan := proxy.messageChan.receive }).names = s.names := names_setProxy hj rfl rfl
    rw [hnames]
    exact .inl hk
  | @insert i choice clientID hi =>
    refine .inl ?_
    change ((s.proxies ++ [newClientProxy clientID]).map _)[k]? = _
    rw [List.map_append, List.getElem?_append_left]
    · exact hk
    · exact (List.getElem?_eq_some_iff.mp hk).1
  | @close i choice clientID pc j sweeping hi hpc hj =>
    by_cases hsame : j = k
    · subst hsame
      refine .inr ?_
      rw [closes, hi]
      rcases hpc with rfl | ⟨rfl, rfl⟩ <;> exact hj
    · refine .inl ?_
      have hopen : ∃ closed, s.names[j]? = some (clientID, closed) := by
        rcases h.registered clientID j hj with hopen | ⟨hclosed, -⟩
        · exact ⟨_, hopen⟩
        · exact ⟨_, hclosed⟩
      obtain ⟨closed, hopen⟩ := hopen
      change (s.close j).names[k]? = _
      rw [(close_spec h.flagged hopen).2.1, List.getElem?_set_ne hsame]
      exact hk
  | @push i choice j m rest hi =>
    change (s.pushMessageAny j m).names[k]? = _ ∨ _
    rw [names_pushMessageAny]
    exact .inl hk
  | @fan i choice remaining rest entry m hi hentry hrest =>
    change (s.pushMessageAny entry.2 m).names[k]? = _ ∨ _
    rw [names_pushMessageAny]
    exact .inl hk

private theorem pushMessageAny_open (h : s.Flagged) {k : Nat} {id : GoString}
    (hk : s.names[k]? = some (id, false)) (m : GoString) :
    (s.pushMessageAny k m).panics = s.panics := by
  rcases panics_pushMessageAny h m with hsame | ⟨-, id', hclosed⟩
  · exact hsame
  · rw [hk] at hclosed
    cases hclosed

theorem safe_start : start.Safe := ⟨orderly_start, nofun, rfl⟩

theorem Orderly.open_of_free (h : s.Orderly) (hwriter : s.clientsMu.writer = none)
    {clientID : GoString} {k : Nat} (hk : s.clients.lookup clientID = some k) :
    s.names[k]? = some (clientID, false) := by
  rcases h.registered clientID k hk with hopen | ⟨-, j, sweeping, hj⟩
  · exact hopen
  · have := (h.locks j _ () hj).1 rfl
    rw [hwriter] at this
    contradiction

theorem Safe.step (h : s.Safe) (hok : NotPending s label) (hstep : s.step label = some t) :
    t.Safe := by
  refine ⟨h.orderly.step hstep, fun pc hpc k hk => ?_, ?_⟩
  · rcases step_pending hstep hpc hk with
      ⟨old, hold, hpending⟩ | ⟨hnames, hwriter, clientID, hfound⟩
    · obtain ⟨id, hid⟩ := h.pending old hold k hpending
      rcases h.orderly.step_open hstep hid with hstill | hcloses
      · exact ⟨id, hstill⟩
      · exact absurd hpending (hok k hcloses old hold)
    · rw [hnames]
      exact ⟨clientID, h.orderly.open_of_free hwriter hfound⟩
  · cases step_cases hstep with
    | spawn | receive | lock | rlock | unlock | runlock | insert | delete | find | skip =>
      exact h.panics
    | @close i choice clientID pc k sweeping hi hpc hk =>
      have hopen : s.names[k]? = some (clientID, false) := by
        refine h.orderly.open_of_held hi ?_ ?_ hk
        all_goals rcases hpc with rfl | ⟨rfl, -⟩ <;> exact nofun
      exact (close_spec h.orderly.flagged hopen).2.2.trans h.panics
    | @push i choice k m rest hi =>
      obtain ⟨id, hid⟩ := h.pending _ (List.mem_of_getElem? hi) k rfl
      exact (pushMessageAny_open h.orderly.flagged hid m).trans h.panics
    | @fan i choice remaining rest entry m hi hentry hrest =>
      have hid := h.orderly.open_of_held hi nofun nofun
        (h.orderly.fanning i remaining m hi entry hentry)
      exact (pushMessageAny_open h.orderly.flagged hid m).trans h.panics

end Safe

theorem orderly_of_reachable {s : Clients} {ok : Clients → Label → Prop}
    (h : machine.Reachable ok s) : s.Orderly := by
  refine h.invariant ?_ fun hs _ hstep => hs.step hstep
  rintro _ rfl
  exact orderly_start

/-- No channel is closed twice. If no client is closed between a lookup and the push to it, then
nothing is sent on a closed channel either. -/
theorem gate_never_sends_on_closed_channel (s : Clients) :
    (machine.Reachable Machine.Any s → ∀ k, Panic.closeOfClosed k ∉ s.panics) ∧
    (machine.Reachable NotPending s → s.panics = []) := by
  constructor
  · exact fun h => (orderly_of_reachable h).closings
  · intro h
    have hsafe : s.Safe := by
      refine h.invariant ?_ fun hs hok hstep => hs.step hok hstep
      rintro _ rfl
      exact safe_start
    exact hsafe.panics

section Examples

def client : GoString := lit "g/1"

/-- A client is registered, and a message for it comes in and finds it. -/
def found : List Label :=
  [.spawn (.register client), .thread 0 [], .thread 0 [], .thread 0 [],
    .spawn (.handleGateMessage [client] (some (lit "m"))), .thread 1 []]

/-- The client leaves. -/
def left : List Label :=
  [.spawn (.unregister client), .thread 2 [], .thread 2 [], .thread 2 [], .thread 2 []]

theorem gate_never_sends_on_closed_channel_pushedFirst : ∃ s : Clients,
    machine.Reachable NotPending s ∧ s.clients.keys = [] ∧ s.panics = [] := by
  have hexec : (machine.exec NotPending start (found ++ .thread 1 [] :: left)).any
      (fun s => decide (s.clients.keys = [])) = true := by decide
  obtain ⟨s, hreach, hs⟩ := Machine.exec_reachable hexec rfl
  exact ⟨s, hreach, of_decide_eq_true hs, (gate_never_sends_on_closed_channel s).2 hreach⟩

/-- The client leaves between the lookup and the push. -/
theorem push_after_unregister_panics : ∃ s : Clients, machine.Reachable Machine.Any s ∧
    Panic.sendOnClosed 0 ∈ s.panics := by
  have hexec : (machine.exec Machine.Any start (found ++ left ++ [.thread 1 []])).any
      (fun s => decide (Panic.sendOnClosed 0 ∈ s.panics)) = true := by decide
  obtain ⟨s, hreach, hs⟩ := Machine.exec_reachable hexec rfl
  exact ⟨s, hreach, of_decide_eq_true hs⟩

end Examples
end Clients
end Goverse.Gate
