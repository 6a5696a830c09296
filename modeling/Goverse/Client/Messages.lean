import Mathlib.Data.List.AList
import Goverse.Client.Connection
import Goverse.Lib.Channel

/-! The messages of a client. A receiver hands each message to the callback and then puts it into
the client's channel, long after it has looked at `closed`. `Close` closes the channel without
waiting for the receivers. -/
namespace Goverse.Client

open Lib

/-- The size of the message channel. -/
def messageChannelBufferSize : Nat := 100

/-- Both end the program. -/
inductive Panic where
  | sendOnClosed
  | closeOfClosed
  deriving DecidableEq, Repr

/-- What `Recv` and `UnmarshalNew` return. -/
inductive Received (μ : Type*) where
  | error
  | garbled
  | message (msg : μ)
  deriving DecidableEq, Repr

def Received.ok {μ : Type*} : Received μ → Bool
  | .error => false
  | .garbled | .message _ => true

/-- What a receiver does with the message that it has: the callback runs, or the send is next. -/
inductive Stage (μ : Type*) where
  | handle (msg : μ)
  | send (msg : μ)
  deriving DecidableEq, Repr

/-- `onMessage` tells whether there is a callback, and `inHand` has the receivers that have a
message. -/
structure Inbox (μ : Type*) where
  onMessage : Bool
  conn : Connection
  messageChan : Channel μ
  inHand : AList fun _ : Nat => Stage μ
  panicked : Option Panic

namespace Inbox

variable {μ : Type*}

/-- What the receiver `j` has received matters if it is at `Recv`. -/
inductive Label (μ : Type*) where
  | connect
  | reconnect
  | close
  | call (i : Nat) (registered : Option GoString)
  | receiver (j : Nat) (received : Received μ)
  | consume
  deriving DecidableEq, Repr

def close (s : Inbox μ) : Inbox μ :=
  if s.conn.closed then s
  else match s.messageChan.close with
    | some messageChan => { s with conn := s.conn.close, messageChan := messageChan }
    | none => { s with conn := s.conn.close, panicked := some .closeOfClosed }

/-- The message is taken up if the receiver was at `Recv`. -/
def deliver (s : Inbox μ) (j : Nat) : Received μ → Inbox μ
  | .message msg =>
    match s.conn.receivers[j]? with
    | some (.recv _) =>
      { s with inHand := s.inHand.insert j (if s.onMessage then .handle msg else .send msg) }
    | _ => s
  | .error | .garbled => s

def receiveMessages (s : Inbox μ) (j : Nat) (received : Received μ) : Option (Inbox μ) :=
  match s.inHand.lookup j with
  | some (.handle msg) => some { s with inHand := s.inHand.insert j (.send msg) }
  | some (.send msg) =>
    match s.messageChan.trySend msg with
    | some (messageChan, _) =>
      some { s with messageChan := messageChan, inHand := s.inHand.erase j }
    | none => some { s with panicked := some .sendOnClosed }
  | none =>
    (s.conn.step (.receiver j received.ok)).map fun conn =>
      { s.deliver j received with conn := conn }

/-- A panic ends the program. -/
def step (s : Inbox μ) (l : Label μ) : Option (Inbox μ) :=
  if s.panicked ≠ none then none
  else match l with
    | .connect => (s.conn.step .connect).map fun conn => { s with conn := conn }
    | .reconnect => (s.conn.step .reconnect).map fun conn => { s with conn := conn }
    | .close => some s.close
    | .call i registered =>
      (s.conn.step (.call i registered)).map fun conn => { s with conn := conn }
    | .receiver j received => s.receiveMessages j received
    | .consume => some { s with messageChan := s.messageChan.receive }

/-- `NewClient`. -/
def new (onMessage : Bool) (addresses : List GoString) : Inbox μ :=
  ⟨onMessage, .new addresses, .make messageChannelBufferSize, ∅, none⟩

def machine : Machine (Inbox μ) (Label μ) where
  Init s := ∃ onMessage addresses, s = new onMessage addresses
  step := step

/-- The client is closed while no receiver has a message, and `Recv` returns none afterwards. -/
def Quiet (s : Inbox μ) : Label μ → Prop
  | .close => s.inHand.keys = []
  | .receiver _ (.message _) => s.conn.closed = false
  | _ => True

instance (s : Inbox μ) : (l : Label μ) → Decidable (Quiet s l)
  | .close => inferInstanceAs (Decidable (s.inHand.keys = []))
  | .receiver _ (.message _) => inferInstanceAs (Decidable (s.conn.closed = false))
  | .receiver _ .error | .receiver _ .garbled | .connect | .reconnect | .call .. | .consume =>
    isTrue trivial

end Inbox

namespace Connection

variable {s t : Connection}

private theorem callStep_closed {i : Nat} {registered : Option GoString} {call : Call}
    (hstep : s.callStep i registered call = some t) : t.closed = s.closed := by
  unfold callStep at hstep
  split at hstep
  · split at hstep
    · cases hstep
      rfl
    · split at hstep <;> cases hstep <;> rfl
  · split at hstep <;> cases hstep <;> rfl
  · cases hstep
    rfl
  · split at hstep <;> cases hstep <;> rfl
  · split at hstep <;> cases hstep <;> rfl
  · cases hstep
    rfl
  · contradiction

private theorem receiverStep_closed {j : Nat} {ok : Bool} {r : Receiver}
    (hstep : s.receiverStep j ok r = some t) : t.closed = s.closed := by
  cases r with
  | loop =>
    rw [receiverStep] at hstep
    split at hstep <;> cases hstep <;> rfl
  | recv | failed =>
    cases hstep
    rfl
  | disconnect =>
    cases hstep
    unfold handleDisconnect
    split <;> rfl
  | done => contradiction

theorem closed_of_step {l : Client.Label} (hstep : s.step l = some t) (hl : l ≠ .close) :
    t.closed = s.closed := by
  cases l with
  | connect | reconnect =>
    cases hstep
    rfl
  | close => contradiction
  | call i registered =>
    obtain ⟨call, -, hstep⟩ := Option.bind_eq_some_iff.mp hstep
    exact callStep_closed hstep
  | receiver j ok =>
    obtain ⟨r, -, hstep⟩ := Option.bind_eq_some_iff.mp hstep
    exact receiverStep_closed hstep

@[simp] theorem close_closed : s.close.closed = true := by
  unfold close
  split
  · assumption
  · rfl

end Connection

namespace Inbox

variable {μ : Type*} {s t : Inbox μ}

/-- What a step can do. -/
inductive StepCase (s : Inbox μ) : Label μ → Inbox μ → Prop
  | other {l : Label μ} {conn : Connection} (hclosed : conn.closed = s.conn.closed)
      (hfree : ∀ j received, l = .receiver j received → s.inHand.lookup j = none) :
      StepCase s l { s with conn := conn }
  | closed (hclosed : s.conn.closed = true) : StepCase s .close s
  | close {messageChan : Channel μ} (hopen : s.conn.closed = false)
      (hclose : s.messageChan.close = some messageChan) :
      StepCase s .close { s with conn := s.conn.close, messageChan := messageChan }
  | closeAgain (hopen : s.conn.closed = false) (hclose : s.messageChan.close = none) :
      StepCase s .close { s with conn := s.conn.close, panicked := some .closeOfClosed }
  | received {j : Nat} {msg : μ} {conn : Connection} {stage : Stage μ}
      (hclosed : conn.closed = s.conn.closed) (hj : s.inHand.lookup j = none) :
      StepCase s (.receiver j (.message msg))
        { s with conn := conn, inHand := s.inHand.insert j stage }
  | handled {j : Nat} {msg : μ} {received : Received μ}
      (hj : s.inHand.lookup j = some (.handle msg)) :
      StepCase s (.receiver j received) { s with inHand := s.inHand.insert j (.send msg) }
  | sent {j : Nat} {msg : μ} {received : Received μ} {messageChan : Channel μ} {sent : Bool}
      (hj : s.inHand.lookup j = some (.send msg))
      (hsend : s.messageChan.trySend msg = some (messageChan, sent)) :
      StepCase s (.receiver j received)
        { s with messageChan := messageChan, inHand := s.inHand.erase j }
  | sendOnClosed {j : Nat} {msg : μ} {received : Received μ}
      (hj : s.inHand.lookup j = some (.send msg)) (hsend : s.messageChan.trySend msg = none) :
      StepCase s (.receiver j received) { s with panicked := some .sendOnClosed }
  | consume : StepCase s .consume { s with messageChan := s.messageChan.receive }

theorem receiveMessages_cases {j : Nat} {received : Received μ}
    (h : s.receiveMessages j received = some t) : StepCase s (.receiver j received) t := by
  unfold receiveMessages at h
  split at h
  · rename_i msg hj
    cases h
    exact .handled hj
  · rename_i msg hj
    split at h
    · rename_i messageChan sent hsend
      cases h
      exact .sent hj hsend
    · rename_i hsend
      cases h
      exact .sendOnClosed hj hsend
  · rename_i hj
    obtain ⟨conn, hconn, rfl⟩ := Option.map_eq_some_iff.mp h
    have hclosed := Connection.closed_of_step hconn nofun
    have hfree : ∀ j' received', Label.receiver j received = .receiver j' received' →
        s.inHand.lookup j' = none := by
      rintro _ _ ⟨⟩
      exact hj
    cases received with
    | error | garbled => exact .other hclosed hfree
    | message msg =>
      unfold deliver
      dsimp only
      split
      · exact .received hclosed hj
      · exact .other hclosed hfree

theorem step_cases {l : Label μ} (h : s.step l = some t) :
    s.panicked = none ∧ StepCase s l t := by
  unfold step at h
  split at h
  · contradiction
  · rename_i hnone
    refine ⟨not_not.mp hnone, ?_⟩
    split at h
    · obtain ⟨conn, hconn, rfl⟩ := Option.map_eq_some_iff.mp h
      exact .other (Connection.closed_of_step hconn nofun) nofun
    · obtain ⟨conn, hconn, rfl⟩ := Option.map_eq_some_iff.mp h
      exact .other (Connection.closed_of_step hconn nofun) nofun
    · cases h
      unfold close
      split
      · rename_i hclosed
        exact .closed hclosed
      · rename_i hopen
        rw [Bool.not_eq_true] at hopen
        split
        · rename_i messageChan hclose
          exact .close hopen hclose
        · rename_i hclose
          exact .closeAgain hopen hclose
    · obtain ⟨conn, hconn, rfl⟩ := Option.map_eq_some_iff.mp h
      exact .other (Connection.closed_of_step hconn nofun) nofun
    · exact receiveMessages_cases h
    · cases h
      exact .consume

/-- The channel is closed when the client is, so nobody closes it again. -/
structure Closing (s : Inbox μ) : Prop where
  chan : s.messageChan.closed = s.conn.closed
  once : s.panicked ≠ some .closeOfClosed

theorem Closing.step (h : s.Closing) {l : Label μ} (hstep : s.step l = some t) : t.Closing := by
  obtain ⟨hnone, hcase⟩ := step_cases hstep
  cases hcase with
  | other hclosed | received hclosed => exact ⟨h.chan.trans hclosed.symm, h.once⟩
  | closed | handled | consume => exact ⟨h.chan, h.once⟩
  | close hopen hclose =>
    exact ⟨(Channel.close_closed hclose).2.trans Connection.close_closed.symm, h.once⟩
  | closeAgain hopen hclose =>
    have hclosed := Channel.close_eq_none.mp hclose
    rw [h.chan, hopen] at hclosed
    contradiction
  | sent _ hsend =>
    obtain ⟨hopen, hopen'⟩ := Channel.trySend_open hsend
    exact ⟨hopen'.trans (hopen.symm.trans h.chan), h.once⟩
  | sendOnClosed => exact ⟨h.chan, nofun⟩

theorem Closing.panics_iff (h : s.Closing) {l : Label μ} (hstep : s.step l = some t) :
    t.panicked ≠ none ↔ s.conn.closed = true ∧ ∃ j received msg,
      l = .receiver j received ∧ s.inHand.lookup j = some (.send msg) := by
  obtain ⟨hnone, hcase⟩ := step_cases hstep
  cases hcase with
  | other _ hfree =>
    refine ⟨fun hpanicked => absurd hnone hpanicked, ?_⟩
    rintro ⟨-, j, received, msg, hl, hj⟩
    rw [hfree j received hl] at hj
    contradiction
  | closed | close | consume =>
    refine ⟨fun hpanicked => absurd hnone hpanicked, ?_⟩
    rintro ⟨-, j, received, msg, hl, -⟩
    contradiction
  | closeAgain hopen hclose =>
    have hclosed := Channel.close_eq_none.mp hclose
    rw [h.chan, hopen] at hclosed
    contradiction
  | received _ hj | handled hj =>
    refine ⟨fun hpanicked => absurd hnone hpanicked, ?_⟩
    rintro ⟨-, j, received, msg, hl, hsend⟩
    cases hl
    rw [hj] at hsend
    cases hsend
  | sent hj hsend =>
    refine ⟨fun hpanicked => absurd hnone hpanicked, ?_⟩
    rintro ⟨hclosed, -⟩
    rw [← h.chan, (Channel.trySend_open hsend).1] at hclosed
    contradiction
  | sendOnClosed hj hsend =>
    refine ⟨fun _ => ⟨?_, _, _, _, rfl, hj⟩, fun _ => nofun⟩
    rw [← h.chan]
    exact Channel.trySend_eq_none.mp hsend

theorem closing_of_reachable (hs : machine.Reachable Machine.Any s) : s.Closing := by
  apply hs.invariant
  · rintro _ ⟨onMessage, addresses, rfl⟩
    exact ⟨rfl, nofun⟩
  · exact fun h _ hstep => h.step hstep

/-- No receiver of a closed client has a message. -/
structure Settled (s : Inbox μ) : Prop where
  closing : s.Closing
  empty : s.conn.closed = true → ∀ j, s.inHand.lookup j = none
  calm : s.panicked = none

theorem Settled.step (h : s.Settled) {l : Label μ} (hok : Quiet s l) (hstep : s.step l = some t) :
    t.Settled := by
  constructor
  case closing => exact h.closing.step hstep
  case calm =>
    by_contra hpanicked
    obtain ⟨hclosed, j, _, _, -, hj⟩ := (h.closing.panics_iff hstep).mp hpanicked
    rw [h.empty hclosed j] at hj
    contradiction
  case empty =>
    cases (step_cases hstep).2 with
    | other hclosed =>
      intro hclosed'
      exact h.empty (hclosed.symm.trans hclosed')
    | closed | sendOnClosed | consume => exact h.empty
    | close | closeAgain =>
      intro _ j
      apply AList.lookup_eq_none.mpr
      intro hmem
      rw [AList.mem_keys, show s.inHand.keys = [] from hok] at hmem
      contradiction
    | received hclosed hj =>
      intro hclosed'
      rw [hclosed, show s.conn.closed = false from hok] at hclosed'
      contradiction
    | handled hj =>
      intro hclosed
      rw [h.empty hclosed] at hj
      contradiction
    | sent hj =>
      intro hclosed
      rw [h.empty hclosed] at hj
      contradiction

/-- The channel of a client is closed once, and a step panics exactly if a receiver that still has a
message sends it after that. There is no such send if the client is closed while no receiver has a
message and none gets one afterwards. -/
theorem closing_is_safe (s : Inbox μ) :
    (machine.Reachable Machine.Any s → s.messageChan.closed = s.conn.closed ∧
      s.panicked ≠ some .closeOfClosed ∧ ∀ l t, s.step l = some t →
        (t.panicked ≠ none ↔ s.conn.closed = true ∧ ∃ j received msg,
          l = .receiver j received ∧ s.inHand.lookup j = some (.send msg))) ∧
    (machine.Reachable Quiet s → s.panicked = none) := by
  constructor
  · intro hs
    have h := closing_of_reachable hs
    exact ⟨h.chan, h.once, fun l t hstep => h.panics_iff hstep⟩
  · intro hs
    have h : s.Settled := by
      apply hs.invariant
      · rintro _ ⟨onMessage, addresses, rfl⟩
        exact ⟨⟨rfl, nofun⟩, nofun, rfl⟩
      · exact fun h hok hstep => h.step hok hstep
    exact h.calm

/-- A client with a receiver that is at `Recv`. -/
def untilRecv (μ : Type*) : List (Label μ) :=
  [.connect, .call 0 none, .call 0 (some (lit "c")), .call 0 none, .call 0 none, .receiver 0 .error]

/-- The receiver has sent its message, and its stream fails when the client is closed. -/
theorem closing_is_safe_idle : ∃ s : Inbox Nat, machine.Reachable Quiet s ∧
    s.conn.closed = true ∧ s.conn.receivers = [.done] ∧ s.messageChan.buffer = [7] ∧
    s.panicked = none := by
  have hrun : (machine.exec Quiet (new true [lit "g:1"]) (untilRecv Nat ++
      [.receiver 0 (.message 7), .receiver 0 .error, .receiver 0 .error, .receiver 0 .error, .close,
        .receiver 0 .error, .receiver 0 .error])).any (fun s => decide (s.conn.closed = true ∧
          s.conn.receivers = [.done] ∧ s.messageChan.buffer = [7])) = true := by decide
  obtain ⟨s, hreach, hs⟩ := Machine.exec_reachable hrun ⟨_, _, rfl⟩
  obtain ⟨hclosed, hreceivers, hbuffer⟩ := of_decide_eq_true hs
  exact ⟨s, hreach, hclosed, hreceivers, hbuffer, (closing_is_safe s).2 hreach⟩

/-- The client is closed while the callback runs. -/
theorem closing_panics_receiver : ∃ s : Inbox Nat, machine.Reachable Machine.Any s ∧
    s.panicked = some .sendOnClosed := by
  have hrun : (machine.exec Machine.Any (new true [lit "g:1"]) (untilRecv Nat ++
      [.receiver 0 (.message 7), .close, .receiver 0 .error, .receiver 0 .error])).any
        (fun s => decide (s.panicked = some .sendOnClosed)) = true := by decide
  obtain ⟨s, hreach, hs⟩ := Machine.exec_reachable hrun ⟨_, _, rfl⟩
  exact ⟨s, hreach, of_decide_eq_true hs⟩

end Inbox
end Goverse.Client
