import Mathlib.Data.Finset.Insert
import Mathlib.Data.List.AList
import Goverse.GoString
import Goverse.Lib.Machine
import Goverse.Lib.Threads

/-! The shared lease of the etcd manager. `RegisterKeyLease` starts the loop that grants a lease,
puts a copy of the registered keys with it and keeps it alive. `UnregisterKeyLease` of the last key
stops the loop, for which it gives `sharedKeysMu` back, and then revokes whatever lease it finds.
The operations on etcd succeed; the loop gives up one whose context is cancelled. -/
namespace Goverse.Cluster

open Lib

/-- Where a call is. `put` and `delete` are the operations on etcd under `sharedKeysMu`; after
`delete` of the last key the call waits for the loop, takes the lock again and revokes. -/
inductive LeaseCall where
  | register (key value : GoString)
  | put (key value : GoString)
  | unregister (key : GoString)
  | delete (key : GoString)
  | wait (key : GoString)
  | relock (key : GoString)
  | revoke (key : GoString)
  | done
  deriving DecidableEq, Repr

/-- The call has given the lock back to wait for the loop. -/
def LeaseCall.waiting : LeaseCall → Bool
  | .wait _ | .relock _ => true
  | _ => false

/-- Where a loop is: at its two looks at the context, in `maintainSharedLease` with the context and
the lease it has, or in the function deferred there (`revoke` and `clear`). -/
inductive LeaseLoop where
  | top
  | enter
  | readOld (ctx : Nat)
  | revokeOld (ctx oldLeaseID : Nat)
  | grant (ctx : Nat)
  | store (ctx leaseID : Nat)
  | copy (ctx leaseID : Nat)
  | puts (ctx leaseID : Nat) (keysCopy : AList fun _ : GoString => GoString)
  | keepAlive (leaseID : Nat)
  | revoke (leaseID : Nat)
  | clear (leaseID : Nat)
  | after
  | done
  deriving DecidableEq

/-- What a loop has copied and not put yet. -/
def LeaseLoop.todo : LeaseLoop → AList fun _ : GoString => GoString
  | .puts _ _ keysCopy => keysCopy
  | _ => ∅

/-- The ID 0 stands for no lease. Contexts are numbered, and `sharedLeaseCtx` is the number of the
last one. `gone` are the keys that were unregistered and not registered again. -/
structure EtcdManager where
  sharedLeaseID : Nat
  sharedLeaseCtx : Nat
  cancelled : Finset Nat
  sharedLeaseRunning : Bool
  sharedKeysMu : Option Nat
  sharedKeys : AList fun _ : GoString => GoString
  calls : List LeaseCall
  loops : List LeaseLoop
  granted : Nat
  etcd : GoString → Option (GoString × Nat)
  gone : Finset GoString

/-- `ok` tells whether an operation succeeds whose context may be cancelled, and `key` is the one
that the loop over the copied keys comes to next. -/
inductive LeaseLabel where
  | registerKeyLease (key value : GoString)
  | unregisterKeyLease (key : GoString)
  | call (i : Nat)
  | loop (j : Nat) (ok : Bool) (key : GoString)
  deriving DecidableEq, Repr

namespace EtcdManager

def goto (s : EtcdManager) (i : Nat) (call : LeaseCall) : EtcdManager :=
  { s with calls := s.calls.set i call }

def gotoLoop (s : EtcdManager) (j : Nat) (loop : LeaseLoop) : EtcdManager :=
  { s with loops := s.loops.set j loop }

def put (s : EtcdManager) (key value : GoString) (leaseID : Nat) : EtcdManager :=
  { s with etcd := fun k => if k = key then some (value, leaseID) else s.etcd k }

/-- Every key that lives under a lease is deleted with it. -/
def revokeLease (s : EtcdManager) (leaseID : Nat) : EtcdManager :=
  { s with etcd := fun k => (s.etcd k).filter fun entry => entry.2 ≠ leaseID }

def startLoop (s : EtcdManager) : EtcdManager :=
  if s.sharedLeaseRunning then s
  else { s with
    sharedLeaseRunning := true
    sharedLeaseCtx := s.sharedLeaseCtx + 1
    loops := s.loops ++ [.top] }

/-- There is no more key and the loop is to be stopped. -/
def lastKey (s : EtcdManager) : Bool := decide (s.sharedKeys.keys = []) && s.sharedLeaseRunning

def callStep (s : EtcdManager) (i : Nat) : LeaseCall → Option EtcdManager
  | .register key value =>
    if s.sharedKeysMu = none then
      some ({ s with
        sharedKeysMu := some i
        sharedKeys := s.sharedKeys.insert key value
        gone := s.gone.erase key }.startLoop.goto i (.put key value))
    else none
  | .put key value =>
    let next := if s.sharedLeaseID = 0 then s else s.put key value s.sharedLeaseID
    some ({ next with sharedKeysMu := none }.goto i .done)
  | .unregister key =>
    if s.sharedKeysMu = none then
      some ({ s with
        sharedKeysMu := some i
        sharedKeys := s.sharedKeys.erase key }.goto i (.delete key))
    else none
  | .delete key =>
    let next := { s with
      etcd := fun k => if k = key then none else s.etcd k
      sharedKeysMu := none }
    if s.lastKey then
      some ({ next with
        sharedLeaseRunning := false
        cancelled := insert s.sharedLeaseCtx s.cancelled }.goto i (.wait key))
    else some ({ next with gone := insert key s.gone }.goto i .done)
  | .wait key => if ∀ loop ∈ s.loops, loop = .done then some (s.goto i (.relock key)) else none
  | .relock key =>
    if s.sharedKeysMu = none then some ({ s with sharedKeysMu := some i }.goto i (.revoke key))
    else none
  | .revoke key =>
    let next := if s.sharedLeaseID = 0 then s else s.revokeLease s.sharedLeaseID
    some ({ next with
      sharedLeaseID := 0
      sharedKeysMu := none
      gone := insert key s.gone }.goto i .done)
  | .done => none

/-- A part of the loop that runs under `sharedKeysMu`. -/
def locked (s next : EtcdManager) : Option EtcdManager :=
  if s.sharedKeysMu = none then some next else none

/-- Where an operation leads whose context may be cancelled. -/
def attempt (s : EtcdManager) (ctx : Nat) (ok : Bool) (success failure : EtcdManager) :
    Option EtcdManager :=
  if ok then some success else if ctx ∈ s.cancelled then some failure else none

def loopStep (s : EtcdManager) (j : Nat) (ok : Bool) (key : GoString) :
    LeaseLoop → Option EtcdManager
  | .top => some (s.gotoLoop j (if s.sharedLeaseCtx ∈ s.cancelled then .done else .enter))
  | .enter => some (s.gotoLoop j (.readOld s.sharedLeaseCtx))
  | .readOld ctx =>
    s.locked (s.gotoLoop j
      (if s.sharedLeaseID = 0 then .grant ctx else .revokeOld ctx s.sharedLeaseID))
  | .revokeOld ctx oldLeaseID => some ((s.revokeLease oldLeaseID).gotoLoop j (.grant ctx))
  | .grant ctx =>
    s.attempt ctx ok
      ({ s with granted := s.granted + 1 }.gotoLoop j (.store ctx (s.granted + 1)))
      (s.gotoLoop j .after)
  | .store ctx leaseID =>
    s.locked ({ s with sharedLeaseID := leaseID }.gotoLoop j (.copy ctx leaseID))
  | .copy ctx leaseID => s.locked (s.gotoLoop j (.puts ctx leaseID s.sharedKeys))
  | .puts ctx leaseID keysCopy =>
    if keysCopy.keys = [] then some (s.gotoLoop j (.keepAlive leaseID))
    else (keysCopy.lookup key).bind fun value =>
      s.attempt ctx ok
        ((s.put key value leaseID).gotoLoop j (.puts ctx leaseID (keysCopy.erase key)))
        (s.gotoLoop j (.revoke leaseID))
  | .keepAlive leaseID => some (s.gotoLoop j (.revoke leaseID))
  | .revoke leaseID => some ((s.revokeLease leaseID).gotoLoop j (.clear leaseID))
  | .clear leaseID =>
    s.locked ({ s with
      sharedLeaseID := if s.sharedLeaseID = leaseID then 0 else s.sharedLeaseID }.gotoLoop j .after)
  | .after => some (s.gotoLoop j (if s.sharedLeaseCtx ∈ s.cancelled then .done else .top))
  | .done => none

def step (s : EtcdManager) : LeaseLabel → Option EtcdManager
  | .registerKeyLease key value => some { s with calls := s.calls ++ [.register key value] }
  | .unregisterKeyLease key => some { s with calls := s.calls ++ [.unregister key] }
  | .call i => s.calls[i]?.bind (s.callStep i)
  | .loop j ok key => s.loops[j]?.bind (s.loopStep j ok key)

def initial : EtcdManager where
  sharedLeaseID := 0
  sharedLeaseCtx := 0
  cancelled := ∅
  sharedLeaseRunning := false
  sharedKeysMu := none
  sharedKeys := ∅
  calls := []
  loops := []
  granted := 0
  etcd := fun _ => none
  gone := ∅

def machine : Machine EtcdManager LeaseLabel where
  Init s := s = initial
  step := step

/-- The key that a step puts. -/
def putBy (s : EtcdManager) : LeaseLabel → Option GoString
  | .call i =>
    match s.calls[i]? with
    | some (.put key _) => if s.sharedLeaseID = 0 then none else some key
    | _ => none
  | .loop j _ key => s.loops[j]?.bind fun loop => (loop.todo.lookup key).map fun _ => key
  | _ => none

/-- The lease that a call of `UnregisterKeyLease` revokes in a step. -/
def revokedBy (s : EtcdManager) : LeaseLabel → Option Nat
  | .call i =>
    match s.calls[i]? with
    | some (.revoke _) => if s.sharedLeaseID = 0 then none else some s.sharedLeaseID
    | _ => none
  | _ => none

def Stopped (s : EtcdManager) : Prop := ∀ loop ∈ s.loops, loop = .done

/-- No key is registered while a call of `UnregisterKeyLease` waits for the loop, and none is
unregistered, other than the last one, that a loop has copied and not put yet. -/
def OrderlyCall (s : EtcdManager) : LeaseCall → Prop
  | .register _ _ => ∀ call ∈ s.calls, call.waiting = false
  | .delete key => s.lastKey = false → ∀ loop ∈ s.loops, key ∉ loop.todo
  | _ => True

instance (s : EtcdManager) : DecidablePred (OrderlyCall s)
  | .register _ _ => inferInstanceAs (Decidable (∀ call ∈ s.calls, call.waiting = false))
  | .delete key =>
    inferInstanceAs (Decidable (s.lastKey = false → ∀ loop ∈ s.loops, key ∉ loop.todo))
  | .put .. | .unregister _ | .wait _ | .relock _ | .revoke _ | .done => isTrue trivial

def Orderly (s : EtcdManager) : LeaseLabel → Prop
  | .call i => ∀ call ∈ s.calls[i]?, OrderlyCall s call
  | _ => True

instance (s : EtcdManager) : (l : LeaseLabel) → Decidable (Orderly s l)
  | .call i => inferInstanceAs (Decidable (∀ call ∈ s.calls[i]?, OrderlyCall s call))
  | .registerKeyLease .. | .unregisterKeyLease _ | .loop .. => isTrue trivial

/-- What a call relies on from the time it has the lock. -/
def CallOk (s : EtcdManager) (i : Nat) : LeaseCall → Prop
  | .put key _ => s.sharedKeysMu = some i ∧ key ∈ s.sharedKeys
  | .delete key => s.sharedKeysMu = some i ∧ key ∉ s.sharedKeys
  | .wait _ => s.sharedKeys.keys = []
  | .relock _ => s.sharedKeys.keys = [] ∧ s.Stopped
  | .revoke _ => s.sharedKeysMu = some i ∧ s.sharedKeys.keys = [] ∧ s.Stopped
  | .register .. | .unregister _ | .done => True

structure Tidy (s : EtcdManager) : Prop where
  calls : ∀ (i : Nat) (call : LeaseCall), s.calls[i]? = some call → CallOk s i call
  gone : ∀ key ∈ s.gone, key ∉ s.sharedKeys ∧ ∀ loop ∈ s.loops, key ∉ loop.todo

variable {s t : EtcdManager}

theorem CallOk.frame {i : Nat} {call : LeaseCall} (h : CallOk s i call)
    (hmu : s.sharedKeysMu = some i → t.sharedKeysMu = some i ∧ t.sharedKeys = s.sharedKeys)
    (hempty : s.sharedKeys.keys = [] → t.sharedKeys.keys = []) (hstopped : s.Stopped → t.Stopped) :
    CallOk t i call := by
  cases call with
  | register | unregister | done => trivial
  | put key value =>
    obtain ⟨hmu, hkeys⟩ := hmu h.1
    exact ⟨hmu, hkeys ▸ h.2⟩
  | delete key =>
    obtain ⟨hmu, hkeys⟩ := hmu h.1
    exact ⟨hmu, hkeys ▸ h.2⟩
  | wait key => exact hempty h
  | relock key => exact ⟨hempty h.1, hstopped h.2⟩
  | revoke key => exact ⟨(hmu h.1).1, hempty h.2.1, hstopped h.2.2⟩

theorem Tidy.moveCall (h : Tidy s) (i : Nat) (call : LeaseCall)
    (hcalls : t.calls = s.calls.set i call) (hself : CallOk t i call)
    (hothers : ∀ (j : Nat) (other : LeaseCall), j ≠ i → s.calls[j]? = some other →
      CallOk s j other → CallOk t j other)
    (hgone : ∀ key ∈ t.gone, key ∉ t.sharedKeys ∧ ∀ loop ∈ t.loops, key ∉ loop.todo) :
    Tidy t := by
  refine ⟨?_, hgone⟩
  intro j other hj
  rw [hcalls] at hj
  rcases getElem?_set_cases hj with ⟨rfl, rfl⟩ | ⟨hne, hj⟩
  · exact hself
  · exact hothers j other hne hj (h.calls j other hj)

/-- What a step of a loop leaves as it was, and what it may have to put after it. -/
structure LoopMoves (s t : EtcdManager) (j : Nat) (loop loop' : LeaseLoop) : Prop where
  running : loop ≠ .done
  loops : t.loops = s.loops.set j loop'
  calls : t.calls = s.calls
  mu : t.sharedKeysMu = s.sharedKeysMu
  keys : t.sharedKeys = s.sharedKeys
  gone : t.gone = s.gone
  todo : ∀ key ∈ loop'.todo, key ∈ loop.todo ∨ key ∈ s.sharedKeys

private theorem eq_of_locked {next : EtcdManager} (h : s.locked next = some t) : t = next := by
  unfold locked at h
  split at h
  · exact (Option.some.inj h).symm
  · contradiction

private theorem eq_or_eq_of_attempt {ctx : Nat} {ok : Bool} {success failure : EtcdManager}
    (h : s.attempt ctx ok success failure = some t) : t = success ∨ t = failure := by
  unfold attempt at h
  split at h
  · exact .inl (Option.some.inj h).symm
  · split at h
    · exact .inr (Option.some.inj h).symm
    · contradiction

private theorem loopStep_moves {j : Nat} {ok : Bool} {key : GoString} {loop : LeaseLoop}
    (hstep : s.loopStep j ok key loop = some t) : ∃ loop', LoopMoves s t j loop loop' := by
  cases loop with
  | top =>
    cases hstep
    refine ⟨_, nofun, rfl, rfl, rfl, rfl, rfl, ?_⟩
    split <;> nofun
  | enter =>
    cases hstep
    exact ⟨_, nofun, rfl, rfl, rfl, rfl, rfl, nofun⟩
  | readOld ctx =>
    cases eq_of_locked hstep
    refine ⟨_, nofun, rfl, rfl, rfl, rfl, rfl, ?_⟩
    split <;> nofun
  | revokeOld ctx oldLeaseID =>
    cases hstep
    exact ⟨_, nofun, rfl, rfl, rfl, rfl, rfl, nofun⟩
  | grant ctx =>
    rcases eq_or_eq_of_attempt hstep with rfl | rfl <;>
      exact ⟨_, nofun, rfl, rfl, rfl, rfl, rfl, nofun⟩
  | store ctx leaseID =>
    cases eq_of_locked hstep
    exact ⟨_, nofun, rfl, rfl, rfl, rfl, rfl, nofun⟩
  | copy ctx leaseID =>
    cases eq_of_locked hstep
    exact ⟨_, nofun, rfl, rfl, rfl, rfl, rfl, fun key hkey => .inr hkey⟩
  | puts ctx leaseID keysCopy =>
    rw [loopStep] at hstep
    split at hstep
    · cases hstep
      exact ⟨_, nofun, rfl, rfl, rfl, rfl, rfl, nofun⟩
    · obtain ⟨value, -, hstep⟩ := Option.bind_eq_some_iff.mp hstep
      rcases eq_or_eq_of_attempt hstep with rfl | rfl
      · exact ⟨_, nofun, rfl, rfl, rfl, rfl, rfl, fun key hkey => .inl (AList.mem_erase.mp hkey).2⟩
      · exact ⟨_, nofun, rfl, rfl, rfl, rfl, rfl, nofun⟩
  | keepAlive leaseID =>
    cases hstep
    exact ⟨_, nofun, rfl, rfl, rfl, rfl, rfl, nofun⟩
  | revoke leaseID =>
    cases hstep
    exact ⟨_, nofun, rfl, rfl, rfl, rfl, rfl, nofun⟩
  | clear leaseID =>
    cases eq_of_locked hstep
    exact ⟨_, nofun, rfl, rfl, rfl, rfl, rfl, nofun⟩
  | after =>
    cases hstep
    refine ⟨_, nofun, rfl, rfl, rfl, rfl, rfl, ?_⟩
    split <;> nofun
  | done => contradiction

theorem Tidy.moveLoop (h : Tidy s) {j : Nat} {loop loop' : LeaseLoop}
    (hj : s.loops[j]? = some loop) (hmoves : LoopMoves s t j loop loop') : Tidy t := by
  have hstopped : s.Stopped → t.Stopped := fun hall =>
    absurd (hall loop (List.mem_of_getElem? hj)) hmoves.running
  constructor
  · intro i call hi
    apply (h.calls i call (hmoves.calls ▸ hi)).frame _ (fun hempty => hmoves.keys ▸ hempty)
      hstopped
    exact fun hmu => ⟨hmoves.mu.trans hmu, hmoves.keys⟩
  · intro key hkey
    obtain ⟨hkeys, htodo⟩ := h.gone key (hmoves.gone ▸ hkey)
    refine ⟨hmoves.keys ▸ hkeys, ?_⟩
    intro other hother
    rw [hmoves.loops] at hother
    rcases eq_or_mem_of_mem_set hother with rfl | hk
    · intro hmem
      rcases hmoves.todo key hmem with hmem | hmem
      · exact htodo loop (List.mem_of_getElem? hj) hmem
      · exact hkeys hmem
    · exact htodo other hk

theorem CallOk.of_ne {j : Nat} {call : LeaseCall} (h : CallOk s j call)
    (hmu : s.sharedKeysMu ≠ some j) (hempty : s.sharedKeys.keys = [] → t.sharedKeys.keys = [])
    (hloops : t.loops = s.loops) : CallOk t j call := by
  apply h.frame (fun hheld => absurd hheld hmu) hempty
  rw [Stopped, Stopped, hloops]
  exact id

private theorem mem_loops_startLoop {loop : LeaseLoop} (h : loop ∈ s.startLoop.loops) :
    loop ∈ s.loops ∨ loop = .top := by
  unfold startLoop at h
  split at h
  · exact .inl h
  · exact (List.mem_append.mp h).imp_right List.mem_singleton.mp

private theorem startLoop_eq : s.startLoop.sharedKeys = s.sharedKeys ∧ s.startLoop.gone = s.gone ∧
    s.startLoop.calls = s.calls ∧ s.startLoop.sharedKeysMu = s.sharedKeysMu := by
  unfold startLoop
  split <;> exact ⟨rfl, rfl, rfl, rfl⟩

section Calls

variable {i : Nat} {key value : GoString}

theorem Tidy.register (h : Tidy s) (hwaiting : ∀ call ∈ s.calls, call.waiting = false)
    (hstep : s.callStep i (.register key value) = some t) : Tidy t := by
  rw [callStep] at hstep
  split at hstep
  · rename_i hfree
    cases hstep
    obtain ⟨hkeys, hgone, hcalls, hmu⟩ := startLoop_eq (s := { s with
      sharedKeysMu := some i
      sharedKeys := s.sharedKeys.insert key value
      gone := s.gone.erase key })
    refine h.moveCall i (.put key value) (congrArg (·.set i (.put key value)) hcalls) ?_ ?_ ?_
    · exact ⟨hmu, hkeys ▸ (AList.mem_insert _).mpr (.inl rfl)⟩
    · intro j other _ hj hother
      have hwaits := hwaiting other (List.mem_of_getElem? hj)
      cases other with
      | register | unregister | done => trivial
      | put | delete | revoke => exact absurd (hfree.symm.trans hother.1) nofun
      | wait | relock => contradiction
    · intro k hk
      obtain ⟨hne, hk⟩ := Finset.mem_erase.mp (hgone ▸ hk)
      obtain ⟨hnot, htodo⟩ := h.gone k hk
      constructor
      · intro hmem
        exact ((AList.mem_insert _).mp (hkeys ▸ hmem)).elim hne hnot
      · intro loop hloop
        rcases mem_loops_startLoop hloop with hloop | rfl
        · exact htodo loop hloop
        · nofun
  · contradiction

theorem ne_of_held {j : Nat} (hmu : s.sharedKeysMu = some i) (hne : j ≠ i) :
    s.sharedKeysMu ≠ some j :=
  fun hj => hne (Option.some.inj (hj.symm.trans hmu))

theorem Tidy.put (h : Tidy s) (hcall : CallOk s i (.put key value))
    (hstep : s.callStep i (.put key value) = some t) : Tidy t := by
  rw [callStep] at hstep
  cases hstep
  split <;>
  · refine h.moveCall i .done rfl trivial ?_ h.gone
    intro j other hne _ hother
    exact hother.of_ne (ne_of_held hcall.1 hne) id rfl

theorem Tidy.unregister (h : Tidy s)
    (hstep : s.callStep i (.unregister key) = some t) : Tidy t := by
  rw [callStep] at hstep
  split at hstep
  · rename_i hfree
    cases hstep
    refine h.moveCall i (.delete key) rfl ⟨rfl, ?_⟩ ?_ ?_
    · exact fun hmem => (AList.mem_erase.mp hmem).1 rfl
    · intro j other _ _ hother
      refine hother.of_ne (by simp [hfree]) ?_ rfl
      intro hempty
      change (s.sharedKeys.erase key).keys = []
      rw [AList.keys_erase, hempty]
      rfl
    · intro k hk
      obtain ⟨hnot, htodo⟩ := h.gone k hk
      exact ⟨fun hmem => hnot (AList.mem_erase.mp hmem).2, htodo⟩
  · contradiction

theorem Tidy.delete (h : Tidy s) (hcall : CallOk s i (.delete key))
    (hok : OrderlyCall s (.delete key)) (hstep : s.callStep i (.delete key) = some t) :
    Tidy t := by
  rw [callStep] at hstep
  split at hstep
  · rename_i hlast
    cases hstep
    have hempty : s.sharedKeys.keys = [] := of_decide_eq_true (Bool.and_eq_true_iff.mp hlast).1
    refine h.moveCall i (.wait key) rfl hempty ?_ h.gone
    intro j other hne _ hother
    exact hother.of_ne (ne_of_held hcall.1 hne) id rfl
  · rename_i hlast
    cases hstep
    refine h.moveCall i .done rfl trivial ?_ ?_
    · intro j other hne _ hother
      exact hother.of_ne (ne_of_held hcall.1 hne) id rfl
    · intro k hk
      rcases Finset.mem_insert.mp hk with rfl | hk
      · exact ⟨hcall.2, hok (Bool.eq_false_iff.mpr hlast)⟩
      · exact h.gone k hk

theorem Tidy.wait (h : Tidy s) (hcall : CallOk s i (.wait key))
    (hstep : s.callStep i (.wait key) = some t) : Tidy t := by
  rw [callStep] at hstep
  split at hstep
  · rename_i hstopped
    cases hstep
    refine h.moveCall i (.relock key) rfl ⟨hcall, hstopped⟩ ?_ h.gone
    intro j other _ _ hother
    exact hother.frame (fun hmu => ⟨hmu, rfl⟩) id id
  · contradiction

theorem Tidy.relock (h : Tidy s) (hcall : CallOk s i (.relock key))
    (hstep : s.callStep i (.relock key) = some t) : Tidy t := by
  rw [callStep] at hstep
  split at hstep
  · rename_i hfree
    cases hstep
    refine h.moveCall i (.revoke key) rfl ⟨rfl, hcall⟩ ?_ h.gone
    intro j other _ _ hother
    exact hother.of_ne (by simp [hfree]) id rfl
  · contradiction

theorem Tidy.revoke (h : Tidy s) (hcall : CallOk s i (.revoke key))
    (hstep : s.callStep i (.revoke key) = some t) : Tidy t := by
  obtain ⟨hmu, hempty, hstopped⟩ := hcall
  have hgone : ∀ k ∈ insert key s.gone, k ∉ s.sharedKeys ∧ ∀ loop ∈ s.loops, k ∉ loop.todo := by
    intro k _
    constructor
    · rw [AList.mem_keys, hempty]
      exact List.not_mem_nil
    · intro loop hloop
      rw [hstopped loop hloop]
      exact AList.notMem_empty k
  rw [callStep] at hstep
  cases hstep
  split <;>
  · refine h.moveCall i .done rfl trivial ?_ hgone
    intro j other hne _ hother
    exact hother.of_ne (ne_of_held hmu hne) id rfl

end Calls

theorem Tidy.spawn (h : Tidy s) {call : LeaseCall} (hcall : ∀ i, CallOk s i call) :
    Tidy { s with calls := s.calls ++ [call] } := by
  refine ⟨?_, h.gone⟩
  intro j other hj
  have hok : CallOk s j other := by
    rcases getElem?_concat_cases hj with ⟨-, rfl⟩ | hj
    · exact hcall j
    · exact h.calls j other hj
  exact hok.frame (fun hmu => ⟨hmu, rfl⟩) id id

theorem Tidy.step (h : Tidy s) {l : LeaseLabel} (hok : Orderly s l) (hstep : s.step l = some t) :
    Tidy t := by
  cases l with
  | registerKeyLease key value =>
    cases hstep
    exact h.spawn fun _ => trivial
  | unregisterKeyLease key =>
    cases hstep
    exact h.spawn fun _ => trivial
  | call i =>
    obtain ⟨call, hi, hstep⟩ := Option.bind_eq_some_iff.mp hstep
    have hcall := h.calls i call hi
    have hok := hok call hi
    cases call with
    | register key value => exact h.register hok hstep
    | put key value => exact h.put hcall hstep
    | unregister key => exact h.unregister hstep
    | delete key => exact h.delete hcall hok hstep
    | wait key => exact h.wait hcall hstep
    | relock key => exact h.relock hcall hstep
    | revoke key => exact h.revoke hcall hstep
    | done => contradiction
  | loop j ok key =>
    obtain ⟨loop, hj, hstep⟩ := Option.bind_eq_some_iff.mp hstep
    obtain ⟨loop', hmoves⟩ := loopStep_moves hstep
    exact h.moveLoop hj hmoves

theorem tidy_of_reachable (hreach : machine.Reachable Orderly s) : Tidy s := by
  apply hreach.invariant (I := Tidy)
  · rintro s rfl
    exact ⟨nofun, nofun⟩
  · intro s l t h hok hstep
    exact h.step hok hstep

theorem Tidy.putBy (h : Tidy s) {l : LeaseLabel} {key : GoString} (hput : s.putBy l = some key) :
    key ∉ s.gone := by
  intro hgone
  obtain ⟨hkeys, htodo⟩ := h.gone key hgone
  cases l with
  | registerKeyLease | unregisterKeyLease => contradiction
  | call i =>
    rw [EtcdManager.putBy] at hput
    split at hput
    · rename_i hi
      split at hput
      · contradiction
      · cases hput
        exact hkeys (h.calls i _ hi).2
    · contradiction
  | loop j ok k =>
    obtain ⟨loop, hj, hput⟩ := Option.bind_eq_some_iff.mp hput
    obtain ⟨value, hlookup, rfl⟩ := Option.map_eq_some_iff.mp hput
    apply htodo loop (List.mem_of_getElem? hj)
    exact AList.lookup_isSome.mp (Option.isSome_of_eq_some hlookup)

theorem Tidy.revokedBy (h : Tidy s) {l : LeaseLabel} {leaseID : Nat}
    (hrevoke : s.revokedBy l = some leaseID) : s.sharedKeys.keys = [] := by
  cases l with
  | registerKeyLease | unregisterKeyLease | loop => contradiction
  | call i =>
    rw [EtcdManager.revokedBy] at hrevoke
    split at hrevoke
    · rename_i hi
      exact (h.calls i _ hi).2.1
    · contradiction

/-- No step puts a key that is gone, and when a call revokes a lease there is no key left. -/
theorem unregistered_key_stays_gone (hreach : machine.Reachable Orderly s) (l : LeaseLabel) :
    (∀ key, s.putBy l = some key → key ∉ s.gone) ∧
      ∀ leaseID, s.revokedBy l = some leaseID → s.sharedKeys.keys = [] := by
  have h := tidy_of_reachable hreach
  exact ⟨fun _ => h.putBy, fun _ => h.revokedBy⟩

/-- A loop until it has copied the keys. -/
def untilCopied (j : Nat) : List LeaseLabel := List.replicate 6 (.loop j true [])

theorem unregistered_key_stays_gone_registered :
    ∃ s, machine.Reachable Orderly s ∧ s.gone = {lit "k"} ∧
      s.putBy (.loop 0 true (lit "a")) = some (lit "a") ∧ lit "a" ∉ s.gone := by
  have hrun : (machine.exec Orderly initial
      (([.registerKeyLease (lit "a") [], .call 0, .call 0, .registerKeyLease (lit "k") [],
        .call 1, .call 1, .unregisterKeyLease (lit "k"), .call 2, .call 2] : List LeaseLabel) ++
        untilCopied 0)).any (fun s =>
      decide (s.gone = {lit "k"} ∧
        s.putBy (.loop 0 true (lit "a")) = some (lit "a"))) = true := by
    decide
  obtain ⟨s, hreach, hs⟩ := Machine.exec_reachable hrun rfl
  obtain ⟨hgone, hput⟩ := of_decide_eq_true hs
  exact ⟨s, hreach, hgone, hput, (unregistered_key_stays_gone hreach _).1 _ hput⟩

/-- A key is put after it was unregistered. With the last key it is worse: the call that waits for
the loop revokes the lease of a key that was registered meanwhile. -/
theorem unregistered_key_comes_back :
    (∃ s, machine.Reachable Machine.Any s ∧ lit "k" ∈ s.gone ∧
      s.putBy (.loop 0 true (lit "k")) = some (lit "k")) ∧
    ∃ s, machine.Reachable Machine.Any s ∧ s.revokedBy (.call 1) = some 2 ∧
      s.sharedKeys.lookup (lit "m") = some [] ∧ s.etcd (lit "m") = some ([], 2) := by
  constructor
  · have hrun : (machine.exec Machine.Any initial
        (([.registerKeyLease (lit "a") [], .call 0, .call 0, .registerKeyLease (lit "k") [],
          .call 1, .call 1] : List LeaseLabel) ++ untilCopied 0 ++
        ([.unregisterKeyLease (lit "k"), .call 2, .call 2] : List LeaseLabel))).any (fun s =>
        decide (lit "k" ∈ s.gone ∧
          s.putBy (.loop 0 true (lit "k")) = some (lit "k"))) = true := by
      decide
    obtain ⟨s, hreach, hs⟩ := Machine.exec_reachable hrun rfl
    exact ⟨s, hreach, of_decide_eq_true hs⟩
  · have hrun : (machine.exec Machine.Any initial
        (([.registerKeyLease (lit "k") [], .call 0, .call 0] : List LeaseLabel) ++
          untilCopied 0 ++
        ([.loop 0 true (lit "k"), .loop 0 true [],
          .unregisterKeyLease (lit "k"), .call 1, .call 1,
          -- The loop revokes its lease and ends, and the wait for it is over.
          .loop 0 true [], .loop 0 true [], .loop 0 true [], .loop 0 true [], .call 1,
          .registerKeyLease (lit "m") [], .call 2, .call 2] : List LeaseLabel) ++
          untilCopied 1 ++
        ([.loop 1 true (lit "m"), .call 1] : List LeaseLabel))).any (fun s =>
        decide (s.revokedBy (.call 1) = some 2 ∧ s.sharedKeys.lookup (lit "m") = some [] ∧
          s.etcd (lit "m") = some ([], 2))) = true := by
      decide
    obtain ⟨s, hreach, hs⟩ := Machine.exec_reachable hrun rfl
    exact ⟨s, hreach, of_decide_eq_true hs⟩

end EtcdManager

end Goverse.Cluster
