import Goverse.GoString
import Goverse.Lib.Machine
import Goverse.Lib.Threads

/-! The connection of a client to a gate. `Connect` and `Reconnect` install a connection with its
stream and start a goroutine that receives from the stream. That goroutine reads the client's
current stream on every round, and when a stream fails it drops the client's current connection,
whichever stream that one has. -/
namespace Goverse.Client

open Lib

inductive ClientError where
  | clientClosed
  | connectionFailed
  deriving DecidableEq, Repr

/-- Where a call of `Connect` or `Reconnect` is. At `dial` it has the given addresses still to try,
at `install` it has a registered stream, and at `start` the stream is installed. -/
inductive Call where
  | connect
  | reconnect
  | dial (addrs : List GoString)
  | install (k : Nat) (addr clientID : GoString) (rest : List GoString)
  | start
  | returned (err : Option ClientError)
  deriving DecidableEq, Repr

def Call.installs : Call → Bool
  | .install .. => true
  | _ => false

def Call.starts : Call → Bool
  | .start => true
  | _ => false

/-- Where `receiveMessages` is. After an error of the stream `k` it looks at `closed` and then calls
`handleDisconnect`. -/
inductive Receiver where
  | loop
  | recv (k : Nat)
  | failed (k : Nat)
  | disconnect (k : Nat)
  | done
  deriving DecidableEq, Repr

def Receiver.live : Receiver → Bool
  | .done => false
  | _ => true

/-- The stream a receiver has to do with. -/
def Receiver.stream : Receiver → Option Nat
  | .recv k | .failed k | .disconnect k => some k
  | .loop | .done => none

/-- The receiver handles an error of the stream `k`. -/
def Receiver.Handles (r : Receiver) (k : Nat) : Prop := r = .failed k ∨ r = .disconnect k

/-- A connection and its stream have one number. `cancelled` are those that were cancelled or
closed. -/
structure Connection where
  addresses : List GoString
  conn : Option Nat
  stream : Option Nat
  streamCancel : Option Nat
  clientID : GoString
  currentAddr : GoString
  connected : Bool
  closed : Bool
  made : Nat
  cancelled : List Nat
  calls : List Call
  receivers : List Receiver
  deriving DecidableEq, Repr

/-- `registered` is the client ID with which a gate answers, if it does, and `ok` tells whether
`Recv` returns a message. -/
inductive Label where
  | connect
  | reconnect
  | close
  | call (i : Nat) (registered : Option GoString)
  | receiver (j : Nat) (ok : Bool)
  deriving DecidableEq, Repr

namespace Connection

def goto (s : Connection) (i : Nat) (call : Call) : Connection :=
  { s with calls := s.calls.set i call }

def gotoReceiver (s : Connection) (j : Nat) (r : Receiver) : Connection :=
  { s with receivers := s.receivers.set j r }

/-- The stream is cancelled and the connection is closed. -/
def release (s : Connection) : Connection :=
  { s with cancelled := s.cancelled ++ s.streamCancel.toList ++ s.conn.toList }

/-- What `Reconnect` does to an existing connection. -/
def drop (s : Connection) : Connection :=
  { s.release with
    connected := false
    streamCancel := none
    conn := none
    stream := none
    clientID := [] }

def handleDisconnect (s : Connection) : Connection :=
  if s.closed then s else { s.drop with currentAddr := [] }

def close (s : Connection) : Connection :=
  if s.closed then s else { s.release with closed := true, connected := false }

def callStep (s : Connection) (i : Nat) (registered : Option GoString) :
    Call → Option Connection
  | .connect =>
    if s.closed then some (s.goto i (.returned (some .clientClosed)))
    else if s.connected then some (s.goto i (.returned none))
    else some (s.goto i (.dial s.addresses))
  | .reconnect =>
    if s.closed then some (s.goto i (.returned (some .clientClosed)))
    else some (s.drop.goto i .connect)
  | .dial [] => some (s.goto i (.returned (some .connectionFailed)))
  | .dial (addr :: rest) =>
    match registered with
    | none => some (s.goto i (.dial rest))
    | some clientID =>
      some ({ s with made := s.made + 1 }.goto i (.install s.made addr clientID rest))
  | .install k addr clientID rest =>
    -- The error of a closed client does not end the loop over the addresses.
    if s.closed then some ({ s with cancelled := s.cancelled ++ [k] }.goto i (.dial rest))
    else some ({ s with
      conn := some k
      stream := some k
      streamCancel := some k
      clientID
      currentAddr := addr
      connected := true }.goto i .start)
  | .start => some ({ s with receivers := s.receivers ++ [Receiver.loop] }.goto i (.returned none))
  | .returned _ => none

def receiverStep (s : Connection) (j : Nat) (ok : Bool) : Receiver → Option Connection
  | .loop =>
    match s.stream with
    | none => some (s.gotoReceiver j .done)
    | some k => some (s.gotoReceiver j (if s.closed || !s.connected then .done else .recv k))
  | .recv k => some (s.gotoReceiver j (if ok then .loop else .failed k))
  | .failed k => some (s.gotoReceiver j (if s.closed then .done else .disconnect k))
  | .disconnect _ => some (s.handleDisconnect.gotoReceiver j .done)
  | .done => none

def step (s : Connection) : Label → Option Connection
  | .connect => some { s with calls := s.calls ++ [.connect] }
  | .reconnect => some { s with calls := s.calls ++ [.reconnect] }
  | .close => some s.close
  | .call i registered => s.calls[i]?.bind (s.callStep i registered)
  | .receiver j ok => s.receivers[j]?.bind (s.receiverStep j ok)

def new (addresses : List GoString) : Connection where
  addresses
  conn := none
  stream := none
  streamCancel := none
  clientID := []
  currentAddr := []
  connected := false
  closed := false
  made := 0
  cancelled := []
  calls := []
  receivers := []

def machine : Machine Connection Label where
  Init s := ∃ addresses, s = new addresses
  step := step

/-- A stream is installed only when every earlier receiver has returned and none is about to be
started. -/
def Alone (s : Connection) : Label → Prop
  | .call i _ => s.closed = false → (s.calls[i]?).any (·.installs) = true →
      (∀ r ∈ s.receivers, r.live = false) ∧ ∀ call ∈ s.calls, call.starts = false
  | _ => True

instance (s : Connection) : (l : Label) → Decidable (Alone s l)
  | .call i _ => inferInstanceAs (Decidable (s.closed = false →
      (s.calls[i]?).any (·.installs) = true →
      (∀ r ∈ s.receivers, r.live = false) ∧ ∀ call ∈ s.calls, call.starts = false))
  | .connect | .reconnect | .close | .receiver .. => isTrue trivial

variable {s t : Connection}

/-- The connected state, the connection and the stream are as they were. -/
def Keeps (s t : Connection) : Prop :=
  t.connected = s.connected ∧ t.conn = s.conn ∧ t.stream = s.stream

def Dropped (t : Connection) : Prop :=
  t.connected = false ∧ t.conn = none ∧ t.stream = none

/-- What a step of a receiver can do. -/
inductive ReceiverCase (s t : Connection) (j : Nat) : Prop
  | received {r r' : Receiver} (hj : s.receivers[j]? = some r) (hlive : r.live = true)
      (hcalls : t.calls = s.calls) (hreceivers : t.receivers = s.receivers.set j r')
      (hkeeps : Keeps s t)
      (hnext : ∀ k, r'.stream = some k → r.stream = some k ∨ s.stream = some k)
  | disconnected {k : Nat} (hj : s.receivers[j]? = some (.disconnect k))
      (hcalls : t.calls = s.calls) (hreceivers : t.receivers = s.receivers.set j .done)
      (hdropped : Dropped t)

/-- What any step can do. -/
inductive StepCase (s t : Connection) : Label → Prop
  | called {l : Label} {call : Call} (hstarts : call.starts = false)
      (hcalls : t.calls = s.calls ++ [call]) (hreceivers : t.receivers = s.receivers)
      (hkeeps : Keeps s t) : StepCase s t l
  | moved {l : Label} {i : Nat} {call call' : Call} (hi : s.calls[i]? = some call)
      (hstarts : call'.starts = false) (hcalls : t.calls = s.calls.set i call')
      (hreceivers : t.receivers = s.receivers) (hfields : Keeps s t ∨ Dropped t) : StepCase s t l
  | installed {i k : Nat} {registered : Option GoString} {call : Call}
      (hi : s.calls[i]? = some call) (hinstalls : call.installs = true) (hopen : s.closed = false)
      (hcalls : t.calls = s.calls.set i .start) (hreceivers : t.receivers = s.receivers)
      (hstream : t.stream = some k) : StepCase s t (.call i registered)
  | started {l : Label} {i : Nat} {err : Option ClientError} (hi : s.calls[i]? = some .start)
      (hcalls : t.calls = s.calls.set i (.returned err))
      (hreceivers : t.receivers = s.receivers ++ [Receiver.loop]) (hkeeps : Keeps s t) :
      StepCase s t l
  | closed {l : Label} (hcalls : t.calls = s.calls) (hreceivers : t.receivers = s.receivers)
      (hconn : t.conn = s.conn) (hstream : t.stream = s.stream)
      (hconnected : t.connected = true → s.connected = true) : StepCase s t l
  | receiver {l : Label} {j : Nat} (hcase : ReceiverCase s t j) : StepCase s t l

theorem callStep_cases {i : Nat} {registered : Option GoString} {call : Call}
    (hi : s.calls[i]? = some call) (hstep : s.callStep i registered call = some t) :
    StepCase s t (.call i registered) := by
  unfold callStep at hstep
  split at hstep
  · split at hstep
    · cases hstep
      exact .moved hi rfl rfl rfl (.inl ⟨rfl, rfl, rfl⟩)
    · split at hstep <;>
      · cases hstep
        exact .moved hi rfl rfl rfl (.inl ⟨rfl, rfl, rfl⟩)
  · split at hstep
    · cases hstep
      exact .moved hi rfl rfl rfl (.inl ⟨rfl, rfl, rfl⟩)
    · cases hstep
      exact .moved hi rfl rfl rfl (.inr ⟨rfl, rfl, rfl⟩)
  · cases hstep
    exact .moved hi rfl rfl rfl (.inl ⟨rfl, rfl, rfl⟩)
  · split at hstep <;>
    · cases hstep
      exact .moved hi rfl rfl rfl (.inl ⟨rfl, rfl, rfl⟩)
  · split at hstep
    · cases hstep
      exact .moved hi rfl rfl rfl (.inl ⟨rfl, rfl, rfl⟩)
    · rename_i hopen
      cases hstep
      exact .installed hi rfl (Bool.eq_false_iff.mpr hopen) rfl rfl rfl
  · cases hstep
    exact .started hi rfl rfl ⟨rfl, rfl, rfl⟩
  · contradiction

theorem receiverStep_cases {j : Nat} {ok : Bool} {r : Receiver} (hj : s.receivers[j]? = some r)
    (hstep : s.receiverStep j ok r = some t) : ReceiverCase s t j := by
  cases r with
  | loop =>
    rw [receiverStep] at hstep
    split at hstep
    · cases hstep
      exact .received hj rfl rfl rfl ⟨rfl, rfl, rfl⟩ nofun
    · rename_i k hstream
      cases hstep
      refine .received hj rfl rfl rfl ⟨rfl, rfl, rfl⟩ ?_
      split
      · nofun
      · rintro _ ⟨⟩
        exact .inr hstream
  | recv k =>
    cases hstep
    refine .received hj rfl rfl rfl ⟨rfl, rfl, rfl⟩ ?_
    cases ok
    · exact fun _ h => .inl h
    · nofun
  | failed k =>
    cases hstep
    refine .received hj rfl rfl rfl ⟨rfl, rfl, rfl⟩ ?_
    split
    · nofun
    · exact fun _ h => .inl h
  | disconnect k =>
    cases hstep
    cases hclosed : s.closed with
    | true =>
      rw [handleDisconnect, if_pos hclosed]
      exact .received hj rfl rfl rfl ⟨rfl, rfl, rfl⟩ nofun
    | false =>
      rw [handleDisconnect, if_neg (by simp [hclosed])]
      exact .disconnected hj rfl rfl ⟨rfl, rfl, rfl⟩
  | done => contradiction

theorem step_cases {l : Label} (hstep : s.step l = some t) : StepCase s t l := by
  cases l with
  | connect =>
    cases hstep
    exact .called rfl rfl rfl ⟨rfl, rfl, rfl⟩
  | reconnect =>
    cases hstep
    exact .called rfl rfl rfl ⟨rfl, rfl, rfl⟩
  | close =>
    cases hstep
    unfold close
    split
    · exact .closed rfl rfl rfl rfl id
    · exact .closed rfl rfl rfl rfl nofun
  | call i registered =>
    obtain ⟨call, hi, hstep⟩ := Option.bind_eq_some_iff.mp hstep
    exact callStep_cases hi hstep
  | receiver j ok =>
    obtain ⟨r, hj, hstep⟩ := Option.bind_eq_some_iff.mp hstep
    exact .receiver (receiverStep_cases hj hstep)

/-- There is at most one receiver, or a call that is about to start one. -/
structure Single (s : Connection) : Prop where
  receiver : AtMostOne Receiver.live s.receivers
  starting : AtMostOne Call.starts s.calls
  apart : ∀ call ∈ s.calls, call.starts = true → ∀ r ∈ s.receivers, r.live = false

theorem Single.moveReceiver (h : Single s) {j : Nat} {r r' : Receiver}
    (hj : s.receivers[j]? = some r) (hlive : r.live = true) (hcalls : t.calls = s.calls)
    (hreceivers : t.receivers = s.receivers.set j r') : Single t := by
  constructor
  · rw [hreceivers]
    exact h.receiver.set hj fun _ => hlive
  · rw [hcalls]
    exact h.starting
  · intro call hcall hstarts
    have hdead := h.apart call (hcalls ▸ hcall) hstarts r (List.mem_of_getElem? hj)
    rw [hlive] at hdead
    contradiction

theorem Single.step (h : Single s) {l : Label} (hok : Alone s l) (hstep : s.step l = some t) :
    Single t := by
  cases step_cases hstep with
  | called hstarts hcalls hreceivers _ =>
    constructor
    · rw [hreceivers]
      exact h.receiver
    · rw [hcalls]
      exact h.starting.spawn hstarts
    · rw [hcalls, hreceivers]
      intro other hother hstarting
      rcases mem_concat_cases hother with hother | rfl
      · exact h.apart other hother hstarting
      · rw [hstarts] at hstarting
        contradiction
  | moved hi hstarts hcalls hreceivers _ =>
    constructor
    · rw [hreceivers]
      exact h.receiver
    · rw [hcalls]
      exact h.starting.set hi (by simp [hstarts])
    · rw [hcalls, hreceivers]
      intro other hother hstarting
      rcases eq_or_mem_of_mem_set hother with rfl | hk
      · rw [hstarts] at hstarting
        contradiction
      · exact h.apart other hk hstarting
  | installed hi hinstalls hopen hcalls hreceivers _ =>
    obtain ⟨hreturned, hnone⟩ := hok hopen (by rw [hi]; exact hinstalls)
    constructor
    · rw [hreceivers]
      exact h.receiver
    · rw [hcalls]
      exact AtMostOne.set_of_forall hnone _ _
    · intro _ _ _
      rw [hreceivers]
      exact hreturned
  | started hi hcalls hreceivers _ =>
    have hreturned := h.apart _ (List.mem_of_getElem? hi) rfl
    constructor
    · rw [hreceivers]
      exact AtMostOne.concat hreturned _
    · rw [hcalls]
      exact h.starting.set hi fun _ => rfl
    · rw [hcalls]
      intro other hother hstarting
      rcases mem_set_cases hother with rfl | ⟨k, hne, hk⟩
      · contradiction
      · rw [h.starting.others hi rfl hk hne] at hstarting
        contradiction
  | closed hcalls hreceivers _ _ _ => exact ⟨hreceivers ▸ h.receiver, hcalls ▸ h.starting,
      hcalls ▸ hreceivers ▸ h.apart⟩
  | receiver hcase =>
    cases hcase with
    | received hj hlive hcalls hreceivers => exact h.moveReceiver hj hlive hcalls hreceivers
    | disconnected hj hcalls hreceivers => exact h.moveReceiver hj rfl hcalls hreceivers

/-- The client has the stream of its receivers or none, and without a stream it is not
connected. -/
structure Current (s : Connection) : Prop where
  stream : ∀ r ∈ s.receivers, ∀ k, r.stream = some k → s.stream = some k ∨ s.stream = none
  dropped : s.stream = none → Dropped s

theorem Current.of_receivers (h : Current s)
    (hreceivers : ∀ r' ∈ t.receivers, ∀ k, r'.stream = some k →
      s.stream = some k ∨ ∃ r ∈ s.receivers, r.stream = some k)
    (hfields : (t.connected = true → s.connected = true) ∧ t.conn = s.conn ∧
      t.stream = s.stream ∨ Dropped t) : Current t := by
  rcases hfields with ⟨hconnected, hconn, hstream⟩ | hdropped
  · constructor
    · intro r' hr' k hk
      rw [hstream]
      rcases hreceivers r' hr' k hk with hcurrent | ⟨r, hr, hk⟩
      · exact .inl hcurrent
      · exact h.stream r hr k hk
    · intro hnone
      obtain ⟨hoff, hconn', hstream'⟩ := h.dropped (hstream ▸ hnone)
      refine ⟨Bool.eq_false_iff.mpr fun hon => ?_, hconn.trans hconn', hnone⟩
      rw [hconnected hon] at hoff
      contradiction
  · exact ⟨fun _ _ _ _ => .inr hdropped.2.2, fun _ => hdropped⟩

theorem Current.step (h : Current s) {l : Label} (hok : Alone s l) (hstep : s.step l = some t) :
    Current t := by
  have hsame (hreceivers : t.receivers = s.receivers) : ∀ r' ∈ t.receivers, ∀ k,
      r'.stream = some k → s.stream = some k ∨ ∃ r ∈ s.receivers, r.stream = some k :=
    fun r' hr' k hk => .inr ⟨r', hreceivers ▸ hr', hk⟩
  have hfades (hkeeps : Keeps s t) : (t.connected = true → s.connected = true) ∧
      t.conn = s.conn ∧ t.stream = s.stream :=
    ⟨fun hon => hkeeps.1 ▸ hon, hkeeps.2⟩
  cases step_cases hstep with
  | called _ _ hreceivers hkeeps => exact h.of_receivers (hsame hreceivers) (.inl (hfades hkeeps))
  | moved _ _ _ hreceivers hfields =>
    exact h.of_receivers (hsame hreceivers) (hfields.imp_left hfades)
  | installed hi hinstalls hopen _ hreceivers hstream =>
    -- No receiver is left that could have to do with another stream.
    obtain ⟨hreturned, -⟩ := hok hopen (by rw [hi]; exact hinstalls)
    constructor
    · intro r hr k hk
      have hdead := hreturned r (hreceivers ▸ hr)
      cases r <;> contradiction
    · intro hnone
      rw [hstream] at hnone
      contradiction
  | started _ _ hreceivers hkeeps =>
    refine h.of_receivers ?_ (.inl (hfades hkeeps))
    intro r' hr' k hk
    rw [hreceivers] at hr'
    rcases List.mem_append.mp hr' with hr' | hr'
    · exact .inr ⟨r', hr', hk⟩
    · cases List.mem_singleton.mp hr'
      contradiction
  | closed _ hreceivers hconn hstream hconnected =>
    exact h.of_receivers (hsame hreceivers) (.inl ⟨hconnected, hconn, hstream⟩)
  | receiver hcase =>
    cases hcase with
    | received hj _ _ hreceivers hkeeps hnext =>
      refine h.of_receivers ?_ (.inl (hfades hkeeps))
      intro r' hr' k hk
      rw [hreceivers] at hr'
      rcases eq_or_mem_of_mem_set hr' with rfl | hi
      · exact (hnext k hk).symm.imp_right fun hk => ⟨_, List.mem_of_getElem? hj, hk⟩
      · exact .inr ⟨r', hi, hk⟩
    | disconnected hj _ hreceivers hdropped =>
      refine h.of_receivers ?_ (.inr hdropped)
      intro r' hr' k hk
      rw [hreceivers] at hr'
      rcases eq_or_mem_of_mem_set hr' with rfl | hi
      · contradiction
      · exact .inr ⟨r', hi, hk⟩

theorem invariant_of_reachable (hreach : machine.Reachable Alone s) : Single s ∧ Current s := by
  apply hreach.invariant (I := fun s => Single s ∧ Current s)
  · rintro s ⟨addresses, rfl⟩
    exact ⟨⟨AtMostOne.nil, AtMostOne.nil, nofun⟩, nofun, fun _ => ⟨rfl, rfl, rfl⟩⟩
  · intro s l t h hok hstep
    exact ⟨h.1.step hok hstep, h.2.step hok hstep⟩

theorem Current.handles (h : Current s) {j k : Nat} {ok : Bool} {r : Receiver}
    (hj : s.receivers[j]? = some r) (hhandles : r.Handles k)
    (hstep : s.step (.receiver j ok) = some t) (hchanged : ¬ Keeps s t) : s.stream = some k := by
  have hcurrent : s.stream = some k ∨ s.stream = none := by
    apply h.stream r (List.mem_of_getElem? hj)
    rcases hhandles with rfl | rfl <;> rfl
  apply hcurrent.resolve_right
  intro hnone
  obtain ⟨hoff, hconn, hstream⟩ := h.dropped hnone
  apply hchanged
  obtain ⟨r, hj, hstep⟩ := Option.bind_eq_some_iff.mp hstep
  cases receiverStep_cases hj hstep with
  | received _ _ _ _ hkeeps => exact hkeeps
  | disconnected _ _ _ hdropped =>
    exact ⟨hdropped.1.trans hoff.symm, hdropped.2.1.trans hconn.symm,
      hdropped.2.2.trans hstream.symm⟩

/-- The error of a stream concerns the client only while it is the client's stream, and no stream
has two receivers. -/
theorem stale_stream_is_harmless (hreach : machine.Reachable Alone s) :
    (∀ (j k : Nat) (ok : Bool) (r : Receiver) (t : Connection), s.receivers[j]? = some r →
      r.Handles k → s.step (.receiver j ok) = some t → ¬ Keeps s t → s.stream = some k) ∧
    ∀ i j k : Nat, s.receivers[i]? = some (.recv k) → s.receivers[j]? = some (.recv k) → i = j := by
  obtain ⟨hsingle, hcurrent⟩ := invariant_of_reachable hreach
  constructor
  · intro j k ok r t hj hhandles hstep hchanged
    exact hcurrent.handles hj hhandles hstep hchanged
  · intro i j k hi hj
    exact hsingle.receiver i j _ _ hi hj rfl rfl

/-- A call that succeeds at the first address and has started its receiver. -/
def untilReceiving (i : Nat) (clientID : GoString) : List Label :=
  [.call i none, .call i (some clientID), .call i none, .call i none]

/-- `Reconnect` cancels the first stream, whose receiver has returned when the second one is
installed; then the second stream fails. -/
def reconnected : List Label :=
  .connect :: untilReceiving 0 (lit "c") ++
    [.receiver 0 true, .reconnect, .call 1 none, .receiver 0 false, .receiver 0 true,
      .receiver 0 true] ++
    untilReceiving 1 (lit "d") ++ [.receiver 1 true, .receiver 1 false, .receiver 1 true]

theorem stale_stream_is_harmless_reconnected :
    ∃ s t, machine.Reachable Alone s ∧ s.step (.receiver 1 true) = some t ∧
      s.receivers = [.done, .disconnect 1] ∧ 0 ∈ s.cancelled ∧ ¬ Keeps s t ∧
      s.stream = some 1 := by
  have hrun : (machine.exec Alone (new [lit "g:1"]) reconnected).any (fun s =>
      (s.step (.receiver 1 true)).any fun t => decide (s.receivers = [.done, .disconnect 1] ∧
        0 ∈ s.cancelled ∧ t.connected ≠ s.connected)) = true := by
    decide
  obtain ⟨s, hreach, hs⟩ := Machine.exec_reachable hrun ⟨_, rfl⟩
  obtain ⟨t, hstep, hst⟩ := (Option.any_eq_true _ _).mp hs
  obtain ⟨hreceivers, hcancelled, hchanged⟩ := of_decide_eq_true hst
  have hkeeps : ¬ Keeps s t := fun h => hchanged h.1
  have hstream := (stale_stream_is_harmless hreach).1 1 1 true (.disconnect 1) t
    (by rw [hreceivers]; rfl) (.inr rfl) hstep hkeeps
  exact ⟨s, t, hreach, hstep, hreceivers, hcancelled, hkeeps, hstream⟩

/-- The error of a stream that `Reconnect` has cancelled ends the new connection. If its receiver
was handling a message instead, the new stream gets two receivers. -/
theorem stale_stream_breaks_connection :
    (∃ s t, machine.Reachable Machine.Any s ∧ s.step (.receiver 0 true) = some t ∧
      s.receivers[0]? = some (.disconnect 0) ∧ s.stream = some 1 ∧ s.connected = true ∧
      t.stream = none ∧ t.connected = false ∧ 1 ∈ t.cancelled) ∧
    ∃ s, machine.Reachable Machine.Any s ∧ s.receivers = [.recv 1, .recv 1] := by
  constructor
  · have hrun : (machine.exec Machine.Any (new [lit "g:1"])
        (.connect :: untilReceiving 0 (lit "c") ++ [.receiver 0 true, .reconnect, .call 1 none] ++
          untilReceiving 1 (lit "d") ++ [.receiver 0 false, .receiver 0 true])).any (fun s =>
        (s.step (.receiver 0 true)).any fun t =>
          decide (s.receivers[0]? = some (.disconnect 0) ∧ s.stream = some 1 ∧
            s.connected = true ∧ t.stream = none ∧ t.connected = false ∧
            1 ∈ t.cancelled)) = true := by
      decide
    obtain ⟨s, hreach, hs⟩ := Machine.exec_reachable hrun ⟨_, rfl⟩
    obtain ⟨t, hstep, hst⟩ := (Option.any_eq_true _ _).mp hs
    exact ⟨s, t, hreach, hstep, of_decide_eq_true hst⟩
  · have hrun : (machine.exec Machine.Any (new [lit "g:1"])
        (.connect :: untilReceiving 0 (lit "c") ++ [.receiver 0 true, .receiver 0 true, .reconnect,
          .call 1 none] ++ untilReceiving 1 (lit "d") ++
          [.receiver 0 true, .receiver 1 true])).any (fun s =>
        decide (s.receivers = [.recv 1, .recv 1])) = true := by
      decide
    obtain ⟨s, hreach, hs⟩ := Machine.exec_reachable hrun ⟨_, rfl⟩
    exact ⟨s, hreach, of_decide_eq_true hs⟩

end Connection

end Goverse.Client
