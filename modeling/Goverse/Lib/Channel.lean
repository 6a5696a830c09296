import Mathlib.Data.List.Basic

/-! Buffered channels. Sending on a closed channel and closing one again are run-time panics, for
which the operations have no result. -/
namespace Goverse.Lib

structure Channel (α : Type*) where
  capacity : Nat
  buffer : List α
  closed : Bool
  deriving DecidableEq, Repr

namespace Channel

variable {α : Type*}

def make (capacity : Nat) : Channel α := ⟨capacity, [], false⟩

/-- A send that does not wait: if the buffer is full the message is dropped. The second part
tells whether it was sent. -/
def trySend (ch : Channel α) (m : α) : Option (Channel α × Bool) :=
  if ch.closed then none
  else if ch.buffer.length < ch.capacity then
    some ({ ch with buffer := ch.buffer ++ [m] }, true)
  else some (ch, false)

def close (ch : Channel α) : Option (Channel α) :=
  if ch.closed then none else some { ch with closed := true }

/-- A receiver takes the first message, if there is one. -/
def receive (ch : Channel α) : Channel α := { ch with buffer := ch.buffer.tail }

variable {ch next : Channel α} {m : α} {sent : Bool}

@[simp] theorem trySend_eq_none : ch.trySend m = none ↔ ch.closed = true := by
  unfold trySend
  split
  · rename_i hclosed
    exact ⟨fun _ => hclosed, fun _ => rfl⟩
  · rename_i hopen
    split <;> simp [hopen]

theorem trySend_open (h : ch.trySend m = some (next, sent)) :
    ch.closed = false ∧ next.closed = false := by
  unfold trySend at h
  split at h
  · contradiction
  · rename_i hopen
    rw [Bool.not_eq_true] at hopen
    split at h <;> cases h <;> exact ⟨hopen, hopen⟩

@[simp] theorem close_eq_none : ch.close = none ↔ ch.closed = true := by
  unfold close
  split
  · rename_i hclosed
    exact ⟨fun _ => hclosed, fun _ => rfl⟩
  · rename_i hopen
    simp [hopen]

theorem close_closed (h : ch.close = some next) : ch.closed = false ∧ next.closed = true := by
  unfold close at h
  split at h
  · contradiction
  · rename_i hopen
    cases h
    exact ⟨Bool.not_eq_true _ ▸ hopen, rfl⟩

end Channel
end Goverse.Lib
