import Mathlib.Data.List.Sort
import Goverse.Sharding.ObjectId
import Goverse.Util.KeyLock

/-! `shardlock.ShardLock` with any number of goroutines. Each takes the locks of some shards one
after the other, through the key lock, and then gives them all back. The mutex of an entry prefers
writers: one that waits has announced itself, and readers that come later wait for it. -/
namespace Goverse.Cluster

open GoString Lib Sharding Util

/-- At `next` and `unlockNext` a goroutine is at the head of the loop that takes the locks and of
the one that gives them back. A call is one of the key lock. -/
inductive ShardPhase where
  | next
  | locking (shardID : Int) (call : Nat)
  | unlockNext
  | unlocking (shardID : Int) (call : Nat)
  deriving DecidableEq, Repr

/-- `held` are the shards whose locks the goroutine has, in the order of `unlockFuncs`. -/
structure ShardThread where
  mode : Mode
  todo : List Int
  phase : ShardPhase
  held : List (Int × Nat)
  deriving DecidableEq, Repr

def ShardThread.finished (th : ShardThread) : Bool :=
  decide (th.phase = .unlockNext ∧ th.held = [])

/-- `announced` has, for each entry of the key lock, the call that holds its mutex as the writer or
is the next to do so, and `owners` has the goroutine of each call. -/
structure ShardLock where
  numShards : Nat
  keyLock : KeyLock
  announced : Nat → Option Nat
  threads : List ShardThread
  owners : List Nat

namespace ShardLock

inductive Label where
  | acquireRead (objectID : GoString)
  | acquireWrite (shardID : Int)
  | acquireWriteMultiple (shardIDs : List Int)
  | go (i : Nat)
  deriving DecidableEq, Repr

/-- There is no lock for an object with a fixed node. -/
def acquireRead (numShards : Nat) (objectID : GoString) : ShardThread :=
  ⟨.shared, if objectID.contains slash then [] else [getShardID objectID numShards], .next, []⟩

def acquireWrite (shardID : Int) : ShardThread := ⟨.exclusive, [shardID], .next, []⟩

def acquireWriteMultiple (shardIDs : List Int) : ShardThread :=
  ⟨.exclusive, shardIDs.insertionSort (· ≤ ·), .next, []⟩

def goto (s : ShardLock) (i : Nat) (th : ShardThread) : ShardLock :=
  { s with threads := s.threads.set i th }

/-- The next step of a call of the key lock. -/
def advance (s : ShardLock) (c : Nat) : Option ShardLock :=
  (s.keyLock.step (.go c)).map fun keyLock => { s with keyLock := keyLock }

/-- `Lock` or `RLock` of the key lock returns. -/
def acquire (s : ShardLock) (i : Nat) (th : ShardThread) (shardID : Int) (c : Nat) :
    Option ShardLock :=
  (s.advance c).map fun t =>
    t.goto i { th with phase := .next, held := th.held ++ [(shardID, c)] }

def lockStep (s : ShardLock) (i : Nat) (th : ShardThread) (shardID : Int) (c : Nat)
    (call : Call) : Option ShardLock :=
  match call.pc with
  | .count => s.advance c
  | .wait e =>
    match call.mode, s.announced e with
    | .shared, none => s.acquire i th shardID c
    | .shared, some _ => none
    | .exclusive, none => some { s with announced := Function.update s.announced e (some c) }
    | .exclusive, some writer => if writer = c then s.acquire i th shardID c else none
  | .hold _ | .release | .done => none

/-- The function that `Lock` or `RLock` has returned. -/
def unlockStep (s : ShardLock) (i : Nat) (th : ShardThread) (c : Nat) (call : Call) :
    Option ShardLock :=
  match call.pc with
  | .hold e =>
    (s.advance c).map fun t =>
      match call.mode with
      | .shared => t
      | .exclusive => { t with announced := Function.update s.announced e none }
  | .release => (s.advance c).map fun t => t.goto i { th with phase := .unlockNext }
  | .count | .wait _ | .done => none

def threadStep (s : ShardLock) (i : Nat) (th : ShardThread) : Option ShardLock :=
  match th.phase with
  | .next =>
    match th.todo with
    | [] => some (s.goto i { th with phase := .unlockNext })
    | shardID :: todo =>
      (s.keyLock.step (.call (shardLockKey shardID) th.mode)).map fun keyLock =>
        { s with keyLock := keyLock, owners := s.owners ++ [i] }.goto i
          { th with todo := todo, phase := .locking shardID s.keyLock.calls.length }
  | .locking shardID c => s.keyLock.calls[c]?.bind (s.lockStep i th shardID c)
  | .unlockNext =>
    match th.held with
    | [] => none
    | (shardID, c) :: held =>
      some (s.goto i { th with phase := .unlocking shardID c, held := held })
  | .unlocking _ c => s.keyLock.calls[c]?.bind (s.unlockStep i th c)

def spawn (s : ShardLock) (th : ShardThread) : ShardLock :=
  { s with threads := s.threads ++ [th] }

def step (s : ShardLock) : Label → Option ShardLock
  | .acquireRead objectID => some (s.spawn (acquireRead s.numShards objectID))
  | .acquireWrite shardID => some (s.spawn (acquireWrite shardID))
  | .acquireWriteMultiple shardIDs => some (s.spawn (acquireWriteMultiple shardIDs))
  | .go i => s.threads[i]?.bind (s.threadStep i)

/-- `NewShardLock`. -/
def new (numShards : Nat) : ShardLock := ⟨numShards, .new, fun _ => none, [], []⟩

def machine (numShards : Nat) : Machine ShardLock Label where
  Init s := s = new numShards
  step := step

/-- The shards that a goroutine asks for are distinct. -/
def Distinct (_ : ShardLock) : Label → Prop
  | .acquireWriteMultiple shardIDs => shardIDs.Nodup
  | .acquireRead _ | .acquireWrite _ | .go _ => True

instance (s : ShardLock) : (l : Label) → Decidable (Distinct s l)
  | .acquireWriteMultiple shardIDs => inferInstanceAs (Decidable shardIDs.Nodup)
  | .acquireRead _ | .acquireWrite _ | .go _ => isTrue trivial

/-- Goroutine `i` waits for the mutex of an entry, and goroutine `j` is why: one of its calls is the
announced writer, or `i` has announced itself and `j` reads. -/
def WaitsFor (s : ShardLock) (i j : Nat) : Prop :=
  ∃ (th : ShardThread) (shardID : Int) (c : Nat) (call : Call) (e writer : Nat),
    s.threads[i]? = some th ∧ th.phase = .locking shardID c ∧ s.keyLock.calls[c]? = some call ∧
    call.pc = .wait e ∧ s.announced e = some writer ∧
    ((writer ≠ c ∧ s.owners[writer]? = some j) ∨
      (writer = c ∧ ∃ reader ∈ (s.keyLock.entries e).mu.readers, s.owners[reader]? = some j))

/-- A goroutine that is not finished and cannot go on. -/
def Stuck (s : ShardLock) (i : Nat) : Prop :=
  ∃ th, s.threads[i]? = some th ∧ th.finished = false ∧ s.step (.go i) = none

variable {s t : ShardLock} {i : Nat}

/-- What a step can do. -/
inductive StepCase (s : ShardLock) : Label → ShardLock → Prop
  | spawn {l : Label} {mode : Mode} {todo : List Int}
      (hsorted : Distinct s l → todo.Pairwise (· < ·)) :
      StepCase s l (s.spawn ⟨mode, todo, .next, []⟩)
  | ready {l : Label} {i : Nat} {th : ShardThread} (hi : s.threads[i]? = some th)
      (hphase : th.phase = .next) (htodo : th.todo = []) :
      StepCase s l (s.goto i { th with phase := .unlockNext })
  | start {l : Label} {i : Nat} {th : ShardThread} {shardID : Int} {todo : List Int}
      {keyLock : KeyLock} (hi : s.threads[i]? = some th) (hphase : th.phase = .next)
      (htodo : th.todo = shardID :: todo)
      (hkeyLock : s.keyLock.step (.call (shardLockKey shardID) th.mode) = some keyLock) :
      StepCase s l ({ s with keyLock := keyLock, owners := s.owners ++ [i] }.goto i
        { th with todo := todo, phase := .locking shardID s.keyLock.calls.length })
  | count {l : Label} {i : Nat} {th : ShardThread} {shardID : Int} {c : Nat} {call : Call}
      {keyLock : KeyLock} (hi : s.threads[i]? = some th) (hphase : th.phase = .locking shardID c)
      (hc : s.keyLock.calls[c]? = some call) (hpc : call.pc = .count)
      (hkeyLock : s.keyLock.step (.go c) = some keyLock) :
      StepCase s l { s with keyLock := keyLock }
  | announce {l : Label} {i : Nat} {th : ShardThread} {shardID : Int} {c e : Nat} {call : Call}
      (hi : s.threads[i]? = some th) (hphase : th.phase = .locking shardID c)
      (hc : s.keyLock.calls[c]? = some call) (hpc : call.pc = .wait e)
      (hmode : call.mode = .exclusive) (hfree : s.announced e = none) :
      StepCase s l { s with announced := Function.update s.announced e (some c) }
  | acquire {l : Label} {i : Nat} {th : ShardThread} {shardID : Int} {c e : Nat} {call : Call}
      {keyLock : KeyLock} (hi : s.threads[i]? = some th) (hphase : th.phase = .locking shardID c)
      (hc : s.keyLock.calls[c]? = some call) (hpc : call.pc = .wait e)
      (hfree : call.mode = .shared ∧ s.announced e = none ∨
        call.mode = .exclusive ∧ s.announced e = some c)
      (hkeyLock : s.keyLock.step (.go c) = some keyLock) :
      StepCase s l ({ s with keyLock := keyLock }.goto i
        { th with phase := .next, held := th.held ++ [(shardID, c)] })
  | pop {l : Label} {i : Nat} {th : ShardThread} {shardID : Int} {c : Nat}
      {held : List (Int × Nat)} (hi : s.threads[i]? = some th) (hphase : th.phase = .unlockNext)
      (hheld : th.held = (shardID, c) :: held) :
      StepCase s l (s.goto i { th with phase := .unlocking shardID c, held := held })
  | unlock {l : Label} {i : Nat} {th : ShardThread} {shardID : Int} {c e : Nat} {call : Call}
      {keyLock : KeyLock} (hi : s.threads[i]? = some th) (hphase : th.phase = .unlocking shardID c)
      (hc : s.keyLock.calls[c]? = some call) (hpc : call.pc = .hold e)
      (hkeyLock : s.keyLock.step (.go c) = some keyLock) :
      StepCase s l { s with
        keyLock := keyLock
        announced := if call.mode = .exclusive then Function.update s.announced e none
          else s.announced }
  | release {l : Label} {i : Nat} {th : ShardThread} {shardID : Int} {c : Nat} {call : Call}
      {keyLock : KeyLock} (hi : s.threads[i]? = some th) (hphase : th.phase = .unlocking shardID c)
      (hc : s.keyLock.calls[c]? = some call) (hpc : call.pc = .release)
      (hkeyLock : s.keyLock.step (.go c) = some keyLock) :
      StepCase s l ({ s with keyLock := keyLock }.goto i { th with phase := .unlockNext })

theorem lockStep_cases {l : Label} {th : ShardThread} {shardID : Int} {c : Nat} {call : Call}
    (hi : s.threads[i]? = some th) (hphase : th.phase = .locking shardID c)
    (hc : s.keyLock.calls[c]? = some call) (h : s.lockStep i th shardID c call = some t) :
    StepCase s l t := by
  unfold lockStep at h
  split at h
  · rename_i hpc
    obtain ⟨keyLock, hkeyLock, rfl⟩ := Option.map_eq_some_iff.mp h
    exact .count hi hphase hc hpc hkeyLock
  · rename_i e hpc
    split at h
    · rename_i hmode hfree
      obtain ⟨_, hadvance, rfl⟩ := Option.map_eq_some_iff.mp h
      obtain ⟨keyLock, hkeyLock, rfl⟩ := Option.map_eq_some_iff.mp hadvance
      exact .acquire hi hphase hc hpc (.inl ⟨hmode, hfree⟩) hkeyLock
    · contradiction
    · rename_i hmode hfree
      cases h
      exact .announce hi hphase hc hpc hmode hfree
    · rename_i writer hmode hannounced
      split at h
      · rename_i hwriter
        subst hwriter
        obtain ⟨_, hadvance, rfl⟩ := Option.map_eq_some_iff.mp h
        obtain ⟨keyLock, hkeyLock, rfl⟩ := Option.map_eq_some_iff.mp hadvance
        exact .acquire hi hphase hc hpc (.inr ⟨hmode, hannounced⟩) hkeyLock
      · contradiction
  · contradiction
  · contradiction
  · contradiction

theorem unlockStep_cases {l : Label} {th : ShardThread} {shardID : Int} {c : Nat} {call : Call}
    (hi : s.threads[i]? = some th) (hphase : th.phase = .unlocking shardID c)
    (hc : s.keyLock.calls[c]? = some call) (h : s.unlockStep i th c call = some t) :
    StepCase s l t := by
  unfold unlockStep at h
  split at h
  · rename_i e hpc
    obtain ⟨_, hadvance, rfl⟩ := Option.map_eq_some_iff.mp h
    obtain ⟨keyLock, hkeyLock, rfl⟩ := Option.map_eq_some_iff.mp hadvance
    have hcase := StepCase.unlock (l := l) hi hphase hc hpc hkeyLock
    cases hmode : call.mode with
    | shared => simpa [hmode] using hcase
    | exclusive => simpa [hmode] using hcase
  · rename_i hpc
    obtain ⟨_, hadvance, rfl⟩ := Option.map_eq_some_iff.mp h
    obtain ⟨keyLock, hkeyLock, rfl⟩ := Option.map_eq_some_iff.mp hadvance
    exact .release hi hphase hc hpc hkeyLock
  · contradiction
  · contradiction
  · contradiction

private theorem sorted_acquireWriteMultiple {shardIDs : List Int} (h : shardIDs.Nodup) :
    (shardIDs.insertionSort (· ≤ ·)).Pairwise (· < ·) := by
  have hle := List.pairwise_insertionSort (· ≤ ·) shardIDs
  have hne := (List.perm_insertionSort (· ≤ ·) shardIDs).nodup_iff.mpr h
  exact hle.imp₂ (fun _ _ hab hne => lt_of_le_of_ne hab hne) hne

theorem step_cases {l : Label} (h : s.step l = some t) : StepCase s l t := by
  cases l with
  | acquireRead objectID =>
    cases h
    refine .spawn fun _ => ?_
    split
    · exact .nil
    · exact List.pairwise_singleton _ _
  | acquireWrite shardID =>
    cases h
    exact .spawn fun _ => List.pairwise_singleton _ _
  | acquireWriteMultiple shardIDs =>
    cases h
    exact .spawn sorted_acquireWriteMultiple
  | go i =>
    obtain ⟨th, hi, h⟩ := Option.bind_eq_some_iff.mp h
    unfold threadStep at h
    split at h
    · rename_i hphase
      split at h
      · rename_i htodo
        cases h
        exact .ready hi hphase htodo
      · rename_i shardID todo htodo
        obtain ⟨keyLock, hkeyLock, rfl⟩ := Option.map_eq_some_iff.mp h
        exact .start hi hphase htodo hkeyLock
    · rename_i shardID c hphase
      obtain ⟨call, hc, h⟩ := Option.bind_eq_some_iff.mp h
      exact lockStep_cases hi hphase hc h
    · rename_i hphase
      split at h
      · contradiction
      · rename_i shardID c held hheld
        cases h
        exact .pop hi hphase hheld
    · rename_i shardID c hphase
      obtain ⟨call, hc, h⟩ := Option.bind_eq_some_iff.mp h
      exact unlockStep_cases hi hphase hc h

end ShardLock

namespace ShardThread

/-- The shards whose locks a goroutine has or is about to take or to give back, with the calls. -/
def inUse (th : ShardThread) : List (Int × Nat) :=
  match th.phase with
  | .next | .unlockNext => th.held
  | .locking shardID c => th.held ++ [(shardID, c)]
  | .unlocking shardID c => (shardID, c) :: th.held

/-- All the shards that a goroutine still has to do with, in the order in which it takes them. -/
def line (th : ShardThread) : List Int := th.inUse.map Prod.fst ++ th.todo

/-- Where a call in use can be. -/
def Allows (th : ShardThread) (c : Nat) : CallPC → Prop
  | .count | .wait _ => ∃ shardID, th.phase = .locking shardID c
  | .hold _ => ∀ shardID, th.phase ≠ .locking shardID c
  | .release => ∃ shardID, th.phase = .unlocking shardID c
  | .done => False

variable {th : ShardThread} {c : Nat}

theorem inUse_locking {shardID : Int} (hphase : th.phase = .locking shardID c) :
    th.inUse = th.held ++ [(shardID, c)] := by
  rw [inUse, hphase]

theorem inUse_unlocking {shardID : Int} (hphase : th.phase = .unlocking shardID c) :
    th.inUse = (shardID, c) :: th.held := by
  rw [inUse, hphase]

theorem mem_inUse_locking {shardID : Int} (hphase : th.phase = .locking shardID c) :
    (shardID, c) ∈ th.inUse := by
  rw [inUse_locking hphase]
  exact List.mem_append_right _ (List.mem_singleton_self _)

theorem mem_inUse_unlocking {shardID : Int} (hphase : th.phase = .unlocking shardID c) :
    (shardID, c) ∈ th.inUse := by
  rw [inUse_unlocking hphase]
  exact List.mem_cons_self

theorem Allows.locking {shardID : Int} {pc : CallPC} (h : th.Allows c pc)
    (hphase : th.phase = .locking shardID c) : pc = .count ∨ ∃ e, pc = .wait e := by
  cases pc with
  | count => exact .inl rfl
  | wait e => exact .inr ⟨e, rfl⟩
  | hold => exact absurd hphase (h shardID)
  | release =>
    obtain ⟨_, hunlocking⟩ := h
    rw [hphase] at hunlocking
    contradiction
  | done => exact h.elim

theorem Allows.unlocking {shardID : Int} {pc : CallPC} (h : th.Allows c pc)
    (hphase : th.phase = .unlocking shardID c) : (∃ e, pc = .hold e) ∨ pc = .release := by
  cases pc with
  | count | wait =>
    obtain ⟨_, hlocking⟩ := h
    rw [hphase] at hlocking
    contradiction
  | hold e => exact .inl ⟨e, rfl⟩
  | release => exact .inr rfl
  | done => exact h.elim

theorem Allows.of_idle {th' : ShardThread} {pc : CallPC} (h : th.Allows c pc)
    (hidle : th.phase = .next ∨ th.phase = .unlockNext)
    (hphase : ∀ shardID, th'.phase ≠ .locking shardID c) : th'.Allows c pc := by
  cases pc with
  | count | wait =>
    obtain ⟨_, hlocking⟩ := h
    rw [hlocking] at hidle
    rcases hidle with hidle | hidle <;> contradiction
  | hold => exact hphase
  | release =>
    obtain ⟨_, hunlocking⟩ := h
    rw [hunlocking] at hidle
    rcases hidle with hidle | hidle <;> contradiction
  | done => exact h

theorem Allows.of_busy {th' : ShardThread} {c' : Nat} {shardID : Int} {pc : CallPC}
    (h : th.Allows c' pc) (hne : c' ≠ c)
    (hbusy : th.phase = .locking shardID c ∨ th.phase = .unlocking shardID c)
    (hphase : ∀ shardID, th'.phase ≠ .locking shardID c') : th'.Allows c' pc := by
  cases pc with
  | count | wait =>
    obtain ⟨_, hlocking⟩ := h
    rw [hlocking] at hbusy
    rcases hbusy with hbusy | hbusy
    · exact absurd (ShardPhase.locking.inj hbusy).2 hne
    · contradiction
  | hold => exact hphase
  | release =>
    obtain ⟨_, hunlocking⟩ := h
    rw [hunlocking] at hbusy
    rcases hbusy with hbusy | hbusy
    · contradiction
    · exact absurd (ShardPhase.unlocking.inj hbusy).2 hne
  | done => exact h

end ShardThread

namespace ShardLock

variable {s t : ShardLock} {i : Nat}

/-- The calls that goroutine `i` uses are its own, for the right keys and where they should be. -/
def Linked (calls : List Call) (owners : List Nat) (i : Nat) (th : ShardThread) : Prop :=
  ∀ shardID c, (shardID, c) ∈ th.inUse → ∃ call, calls[c]? = some call ∧ owners[c]? = some i ∧
    call.key = shardLockKey shardID ∧ call.mode = th.mode ∧ th.Allows c call.pc

/-- A call that has not returned is in use by its owner. -/
def Used (owners : List Nat) (threads : List ShardThread) (c : Nat) : Prop :=
  ∃ i th shardID, owners[c]? = some i ∧ threads[i]? = some th ∧ (shardID, c) ∈ th.inUse

/-- The announced writer of an entry waits for it or has it, and whoever has it as a writer is the
announced one. -/
structure Announced (calls : List Call) (announced : Nat → Option Nat) : Prop where
  writer : ∀ e c, announced e = some c → ∃ call, calls[c]? = some call ∧
    call.mode = .exclusive ∧ (call.pc = .wait e ∨ call.pc = .hold e)
  holder : ∀ (c : Nat) (call : Call) (e : Nat), calls[c]? = some call → call.mode = .exclusive →
    call.pc = .hold e → announced e = some c

structure Tidy (s : ShardLock) : Prop where
  sound : s.keyLock.Sound
  named : s.keyLock.Named
  owned : s.owners.length = s.keyLock.calls.length
  linked : ∀ (i : Nat) (th : ShardThread), s.threads[i]? = some th →
    Linked s.keyLock.calls s.owners i th
  used : ∀ (c : Nat) (call : Call), s.keyLock.calls[c]? = some call → call.pc ≠ .done →
    Used s.owners s.threads c
  ascending : ∀ (i : Nat) (th : ShardThread), s.threads[i]? = some th → th.line.Pairwise (· < ·)
  announced : Announced s.keyLock.calls s.announced

section Announcements

variable {calls : List Call} {announced : Nat → Option Nat} {c : Nat} {call : Call}

theorem Announced.spawn (h : Announced calls announced) {next : Call}
    (hnext : ∀ e, next.pc ≠ .hold e) : Announced (calls ++ [next]) announced := by
  constructor
  case writer =>
    intro e c hc
    obtain ⟨call, hcall, hrest⟩ := h.writer e c hc
    refine ⟨call, ?_, hrest⟩
    exact getElem?_grow hcall
  case holder =>
    intro c call e hcall hmode hpc
    rcases getElem?_concat_cases hcall with ⟨-, rfl⟩ | hold
    · exact absurd hpc (hnext e)
    · exact h.holder c call e hold hmode hpc

theorem Announced.move (h : Announced calls announced) (hc : calls[c]? = some call) {pc : CallPC}
    {announced' : Nat → Option Nat}
    (hsame : ∀ e c', c' ≠ c → (announced' e = some c' ↔ announced e = some c'))
    (hwriter : ∀ e, announced' e = some c → call.mode = .exclusive ∧ (pc = .wait e ∨ pc = .hold e))
    (hholder : ∀ e, call.mode = .exclusive → pc = .hold e → announced' e = some c) :
    Announced (calls.set c { call with pc := pc }) announced' := by
  constructor
  case writer =>
    intro e c' hc'
    by_cases hne : c' = c
    · subst hne
      exact ⟨_, getElem?_set_same hc, hwriter e hc'⟩
    · rw [List.getElem?_set_ne (Ne.symm hne)]
      exact h.writer e c' ((hsame e c' hne).mp hc')
  case holder =>
    intro c' call' e hcall hmode hpc
    rcases getElem?_set_cases hcall with ⟨rfl, rfl⟩ | ⟨hne, hold⟩
    · exact hholder e hmode hpc
    · exact (hsame e c' hne).mpr (h.holder c' call' e hold hmode hpc)

theorem Announced.keep (h : Announced calls announced) (hc : calls[c]? = some call) {pc : CallPC}
    (hnot : ∀ e, announced e ≠ some c) (hholder : ∀ e, call.mode = .exclusive → pc ≠ .hold e) :
    Announced (calls.set c { call with pc := pc }) announced := by
  apply h.move hc
  case hsame => exact fun _ _ _ => Iff.rfl
  case hwriter => exact fun e he => absurd he (hnot e)
  case hholder => exact fun e hmode hpc => absurd hpc (hholder e hmode)

theorem Announced.not_some (h : Announced calls announced) (hc : calls[c]? = some call) {e : Nat}
    (hcall : call.mode = .exclusive → call.pc ≠ .wait e ∧ call.pc ≠ .hold e) :
    announced e ≠ some c := by
  intro he
  obtain ⟨call', hc', hmode, hpc⟩ := h.writer e c he
  cases hc.symm.trans hc'
  obtain ⟨hwait, hhold⟩ := hcall hmode
  rcases hpc with hpc | hpc
  · exact hwait hpc
  · exact hhold hpc

theorem Announced.announce (h : Announced calls announced) (hc : calls[c]? = some call) {e : Nat}
    (hmode : call.mode = .exclusive) (hpc : call.pc = .wait e) (hfree : announced e = none) :
    Announced calls (Function.update announced e (some c)) := by
  constructor
  case writer =>
    intro e' c' hc'
    by_cases he : e' = e
    · subst he
      rw [Function.update_self] at hc'
      cases hc'
      exact ⟨call, hc, hmode, .inl hpc⟩
    · rw [Function.update_of_ne he] at hc'
      exact h.writer e' c' hc'
  case holder =>
    intro c' call' e' hcall' hmode' hpc'
    have hannounced := h.holder c' call' e' hcall' hmode' hpc'
    by_cases he : e' = e
    · subst he
      rw [hfree] at hannounced
      contradiction
    · rw [Function.update_of_ne he]
      exact hannounced

theorem Announced.acquire (h : Announced calls announced) (hc : calls[c]? = some call) {e : Nat}
    (hpc : call.pc = .wait e) (hfree : call.mode = .shared ∧ announced e = none ∨
      call.mode = .exclusive ∧ announced e = some c) :
    Announced (calls.set c { call with pc := .hold e }) announced := by
  rcases hfree with ⟨hmode, -⟩ | ⟨hmode, hannounced⟩
  · have hshared : call.mode ≠ .exclusive := by
      rw [hmode]
      nofun
    apply h.keep hc
    · exact fun e' => h.not_some hc fun hexclusive => absurd hexclusive hshared
    · exact fun _ hexclusive => absurd hexclusive hshared
  · apply h.move hc
    case hsame => exact fun _ _ _ => Iff.rfl
    case hwriter =>
      intro e' he'
      refine ⟨hmode, .inr ?_⟩
      by_contra hne
      refine h.not_some hc (fun _ => ?_) he'
      rw [hpc]
      exact ⟨fun heq => hne (congrArg CallPC.hold (CallPC.wait.inj heq)), nofun⟩
    case hholder =>
      intro e' _ he'
      cases he'
      exact hannounced

theorem Announced.unlock (h : Announced calls announced) (hc : calls[c]? = some call) {e : Nat}
    (hpc : call.pc = .hold e) : Announced (calls.set c { call with pc := .release })
      (if call.mode = .exclusive then Function.update announced e none else announced) := by
  split
  · rename_i hmode
    have hannounced := h.holder c call e hc hmode hpc
    apply h.move hc
    case hsame =>
      intro e' c' hne
      by_cases he : e' = e
      · subst he
        rw [Function.update_self, hannounced]
        exact ⟨nofun, fun heq => absurd (Option.some.inj heq).symm hne⟩
      · rw [Function.update_of_ne he]
    case hwriter =>
      intro e' he'
      by_cases he : e' = e
      · subst he
        rw [Function.update_self] at he'
        contradiction
      · rw [Function.update_of_ne he] at he'
        refine absurd he' (h.not_some hc fun _ => ?_)
        rw [hpc]
        exact ⟨nofun, fun heq => he (CallPC.hold.inj heq).symm⟩
    case hholder => exact fun _ _ => nofun
  · rename_i hmode
    apply h.keep hc
    · exact fun e' => h.not_some hc fun hexclusive => absurd hexclusive hmode
    · exact fun _ _ => nofun

end Announcements

section Links

variable {calls : List Call} {owners : List Nat} {threads : List ShardThread} {c : Nat}
  {th th' : ShardThread}

theorem Linked.set_other {j : Nat} {next : Call} (h : Linked calls owners j th)
    (howner : owners[c]? = some i) (hne : j ≠ i) : Linked (calls.set c next) owners j th := by
  intro shardID c' hmem
  obtain ⟨call, hcall, howner', hrest⟩ := h shardID c' hmem
  have hcc : c ≠ c' := by
    rintro rfl
    exact hne (Option.some.inj (howner'.symm.trans howner))
  refine ⟨call, ?_, howner', hrest⟩
  rw [List.getElem?_set_ne hcc]
  exact hcall

theorem Linked.spawn {j : Nat} {next : Call} (h : Linked calls owners j th) :
    Linked (calls ++ [next]) (owners ++ [i]) j th := by
  intro shardID c hmem
  obtain ⟨call, hcall, howner, hrest⟩ := h shardID c hmem
  refine ⟨call, ?_, ?_, hrest⟩
  · exact getElem?_grow hcall
  · exact getElem?_grow howner

theorem Used.set (h : Used owners threads c) (hi : threads[i]? = some th)
    (hkeep : ∀ shardID, (shardID, c) ∈ th.inUse → (shardID, c) ∈ th'.inUse) :
    Used owners (threads.set i th') c := by
  obtain ⟨j, other, shardID, howner, hj, hmem⟩ := h
  by_cases hij : i = j
  · subst hij
    cases hi.symm.trans hj
    exact ⟨i, th', shardID, howner, getElem?_set_same hi, hkeep shardID hmem⟩
  · refine ⟨j, other, shardID, howner, ?_, hmem⟩
    rw [List.getElem?_set_ne hij]
    exact hj

theorem Used.own (h : Used owners threads c) (i : Nat) : Used (owners ++ [i]) threads c := by
  obtain ⟨j, other, shardID, howner, hrest⟩ := h
  refine ⟨j, other, shardID, ?_, hrest⟩
  exact getElem?_grow howner

theorem Used.spawn (h : Used owners threads c) (th : ShardThread) :
    Used owners (threads ++ [th]) c := by
  obtain ⟨j, other, shardID, howner, hj, hmem⟩ := h
  refine ⟨j, other, shardID, howner, ?_, hmem⟩
  exact getElem?_grow hj

end Links

section Steps

variable {th : ShardThread}

theorem Tidy.spawn (h : s.Tidy) {mode : Mode} {todo : List Int} (hsorted : todo.Pairwise (· < ·)) :
    (s.spawn ⟨mode, todo, .next, []⟩).Tidy := by
  constructor
  case sound => exact h.sound
  case named => exact h.named
  case owned => exact h.owned
  case announced => exact h.announced
  case linked =>
    intro j other hj
    rcases getElem?_concat_cases hj with ⟨-, rfl⟩ | hold
    · exact fun _ _ => nofun
    · exact h.linked j other hold
  case used =>
    intro c call hc hpc
    exact (h.used c call hc hpc).spawn _
  case ascending =>
    intro j other hj
    rcases getElem?_concat_cases hj with ⟨-, rfl⟩ | hold
    · exact hsorted
    · exact h.ascending j other hold

theorem Tidy.rethread (h : s.Tidy) (hi : s.threads[i]? = some th) {th' : ShardThread}
    (hinUse : th'.inUse = th.inUse) (htodo : th'.todo = th.todo) (hmode : th'.mode = th.mode)
    (hallows : ∀ c pc, th.Allows c pc → th'.Allows c pc) : (s.goto i th').Tidy := by
  constructor
  case sound => exact h.sound
  case named => exact h.named
  case owned => exact h.owned
  case announced => exact h.announced
  case linked =>
    intro j other hj
    rcases getElem?_set_cases hj with ⟨rfl, rfl⟩ | ⟨-, hold⟩
    · intro shardID c hmem
      rw [hinUse] at hmem
      obtain ⟨call, hc, howner, hkey, hcall, hpc⟩ := h.linked j th hi shardID c hmem
      exact ⟨call, hc, howner, hkey, hcall.trans hmode.symm, hallows c _ hpc⟩
    · exact h.linked j other hold
  case used =>
    intro c call hc hpc
    refine (h.used c call hc hpc).set hi ?_
    rw [hinUse]
    exact fun _ hmem => hmem
  case ascending =>
    intro j other hj
    rcases getElem?_set_cases hj with ⟨rfl, rfl⟩ | ⟨-, hold⟩
    · rw [ShardThread.line, hinUse, htodo]
      exact h.ascending j th hi
    · exact h.ascending j other hold

theorem Tidy.move (h : s.Tidy) (hi : s.threads[i]? = some th) {th' : ShardThread} {c : Nat}
    {call : Call} {pc : CallPC} {shardID : Int} (hmem : (shardID, c) ∈ th.inUse)
    (hc : s.keyLock.calls[c]? = some call) (hsound : t.keyLock.Sound) (hnamed : t.keyLock.Named)
    (hcalls : t.keyLock.calls = s.keyLock.calls.set c { call with pc := pc })
    (hthreads : t.threads = s.threads.set i th') (howners : t.owners = s.owners)
    (hinUse : th'.inUse = th.inUse) (htodo : th'.todo = th.todo) (hmode : th'.mode = th.mode)
    (hpc : call.pc ≠ .done) (hself : th'.Allows c pc)
    (hothers : ∀ c' pc, c' ≠ c → th.Allows c' pc → th'.Allows c' pc)
    (hannounced : Announced t.keyLock.calls t.announced) : t.Tidy := by
  obtain ⟨_, hc', howner, hkey, hcall, -⟩ := h.linked i th hi shardID c hmem
  cases hc.symm.trans hc'
  have hnew : (s.keyLock.calls.set c { call with pc := pc })[c]? = some { call with pc := pc } :=
    getElem?_set_same hc
  constructor
  case sound => exact hsound
  case named => exact hnamed
  case owned =>
    rw [howners, hcalls, List.length_set]
    exact h.owned
  case announced => exact hannounced
  case linked =>
    intro j other hj
    rw [hthreads] at hj
    rw [hcalls, howners]
    rcases getElem?_set_cases hj with ⟨rfl, rfl⟩ | ⟨hne, hold⟩
    · intro shardID' c' hmem'
      rw [hinUse] at hmem'
      obtain ⟨call', hcall', howner', hkey', hmode', hpc'⟩ := h.linked j th hi shardID' c' hmem'
      by_cases hcc : c' = c
      · subst hcc
        cases hc.symm.trans hcall'
        exact ⟨_, hnew, howner, hkey', hmode'.trans hmode.symm, hself⟩
      · rw [List.getElem?_set_ne (Ne.symm hcc)]
        exact ⟨call', hcall', howner', hkey', hmode'.trans hmode.symm, hothers c' _ hcc hpc'⟩
    · exact (h.linked j other hold).set_other howner hne
  case used =>
    intro c' call' hcall' hpc'
    rw [hcalls] at hcall'
    rw [howners, hthreads]
    have hold : Used s.owners s.threads c' := by
      rcases getElem?_set_cases hcall' with ⟨rfl, -⟩ | ⟨-, hold⟩
      · exact h.used c' call hc hpc
      · exact h.used c' call' hold hpc'
    refine hold.set hi ?_
    rw [hinUse]
    exact fun _ hmem => hmem
  case ascending =>
    intro j other hj
    rw [hthreads] at hj
    rcases getElem?_set_cases hj with ⟨rfl, rfl⟩ | ⟨-, hold⟩
    · rw [ShardThread.line, hinUse, htodo]
      exact h.ascending j th hi
    · exact h.ascending j other hold

theorem Tidy.start (h : s.Tidy) (hi : s.threads[i]? = some th) {shardID : Int} {todo : List Int}
    {keyLock : KeyLock} (hphase : th.phase = .next) (htodo : th.todo = shardID :: todo)
    (hkeyLock : s.keyLock.step (.call (shardLockKey shardID) th.mode) = some keyLock) :
    ({ s with keyLock := keyLock, owners := s.owners ++ [i] }.goto i
      { th with todo := todo, phase := .locking shardID s.keyLock.calls.length }).Tidy := by
  have hsound := h.sound.step hkeyLock
  have hheld : th.inUse = th.held := by rw [ShardThread.inUse, hphase]
  cases hkeyLock
  constructor
  case sound => exact hsound
  case named => exact Recorded.spawn h.named _
  case owned =>
    change (s.owners ++ [i]).length = (s.keyLock.calls ++ [_]).length
    simp [h.owned]
  case announced => exact h.announced.spawn nofun
  case linked =>
    intro j other hj
    rcases getElem?_set_cases hj with ⟨rfl, rfl⟩ | ⟨-, hold⟩
    · intro shardID' c hmem
      rcases mem_concat_cases hmem with hmem | hmem
      · rw [← hheld] at hmem
        obtain ⟨call, hc, howner, hkey, hmode, hpc⟩ := (h.linked j th hi).spawn shardID' c hmem
        refine ⟨call, hc, howner, hkey, hmode, hpc.of_idle (.inl hphase) ?_⟩
        intro _ heq
        obtain ⟨_, hc', -⟩ := h.linked j th hi shardID' c hmem
        have hlt := (List.getElem?_eq_some_iff.mp hc').1
        have hlength := (ShardPhase.locking.inj heq).2
        omega
      · cases hmem
        exact ⟨⟨shardLockKey shardID, th.mode, .count⟩, List.getElem?_concat_length,
          h.owned ▸ List.getElem?_concat_length, rfl, rfl, shardID, rfl⟩
    · exact (h.linked j other hold).spawn
  case used =>
    intro c call hc hpc
    rcases getElem?_concat_cases hc with ⟨rfl, rfl⟩ | hold
    · refine ⟨i, _, shardID, h.owned ▸ List.getElem?_concat_length,
        getElem?_set_same hi, ?_⟩
      exact ShardThread.mem_inUse_locking rfl
    · refine ((h.used c call hold hpc).own i).set hi ?_
      intro _ hmem
      rw [hheld] at hmem
      exact List.mem_append_left _ hmem
  case ascending =>
    intro j other hj
    rcases getElem?_set_cases hj with ⟨rfl, rfl⟩ | ⟨-, hold⟩
    · have hline := h.ascending j th hi
      rw [ShardThread.line, hheld, htodo] at hline
      simpa [ShardThread.line, ShardThread.inUse] using hline
    · exact h.ascending j other hold

/-- The calls in use are for different shards, so they are different. -/
theorem Tidy.ne_of_mem_held (h : s.Tidy) (hi : s.threads[i]? = some th) {shardID shardID' : Int}
    {c c' : Nat} (hphase : th.phase = .unlocking shardID c) (hmem : (shardID', c') ∈ th.held) :
    c' ≠ c := by
  rintro rfl
  have hline := h.ascending i th hi
  rw [ShardThread.line, ShardThread.inUse_unlocking hphase] at hline
  have hlt := (List.pairwise_cons.mp (List.pairwise_append.mp hline).1).1 shardID'
    (List.mem_map_of_mem hmem)
  obtain ⟨_, hc, -, hkey, -⟩ :=
    h.linked i th hi shardID c' (ShardThread.mem_inUse_unlocking hphase)
  have hmem' : (shardID', c') ∈ th.inUse := by
    rw [ShardThread.inUse_unlocking hphase]
    exact List.mem_cons_of_mem _ hmem
  obtain ⟨_, hc', -, hkey', -⟩ := h.linked i th hi shardID' c' hmem'
  cases hc.symm.trans hc'
  have heq := itoa_injective (hkey.symm.trans hkey')
  omega

theorem Tidy.release (h : s.Tidy) (hi : s.threads[i]? = some th) {shardID : Int} {c : Nat}
    {call : Call} {keyLock : KeyLock} (hphase : th.phase = .unlocking shardID c)
    (hsound : keyLock.Sound) (hnamed : keyLock.Named)
    (hcalls : keyLock.calls = s.keyLock.calls.set c { call with pc := .done })
    (hannounced : Announced keyLock.calls s.announced) :
    ({ s with keyLock := keyLock }.goto i { th with phase := .unlockNext }).Tidy := by
  obtain ⟨_, -, howner, -⟩ := h.linked i th hi shardID c (ShardThread.mem_inUse_unlocking hphase)
  have hheld := ShardThread.inUse_unlocking hphase
  constructor
  case sound => exact hsound
  case named => exact hnamed
  case owned =>
    change s.owners.length = keyLock.calls.length
    rw [hcalls, List.length_set]
    exact h.owned
  case announced => exact hannounced
  case linked =>
    intro j other hj
    change Linked keyLock.calls s.owners j other
    rw [hcalls]
    rcases getElem?_set_cases hj with ⟨rfl, rfl⟩ | ⟨hne, hold⟩
    · intro shardID' c' hmem
      have hne := h.ne_of_mem_held hi hphase hmem
      obtain ⟨call', hc', howner', hkey', hmode', hpc'⟩ :=
        h.linked j th hi shardID' c' (hheld ▸ List.mem_cons_of_mem _ hmem)
      rw [List.getElem?_set_ne (Ne.symm hne)]
      exact ⟨call', hc', howner', hkey', hmode', hpc'.of_busy hne (.inr hphase) fun _ => nofun⟩
    · exact (h.linked j other hold).set_other howner hne
  case used =>
    intro c' call' hc' hpc'
    change keyLock.calls[c']? = some call' at hc'
    rw [hcalls] at hc'
    rcases getElem?_set_cases hc' with ⟨-, rfl⟩ | ⟨hne, hold⟩
    · exact absurd rfl hpc'
    · refine (h.used c' call' hold hpc').set hi ?_
      intro shardID' hmem
      rw [hheld] at hmem
      rcases List.mem_cons.mp hmem with heq | hmem
      · exact absurd (Prod.mk.inj heq).2 hne
      · exact hmem
  case ascending =>
    intro j other hj
    rcases getElem?_set_cases hj with ⟨rfl, rfl⟩ | ⟨-, hold⟩
    · have hline := h.ascending j th hi
      rw [ShardThread.line, hheld] at hline
      exact (List.pairwise_cons.mp hline).2
    · exact h.ascending j other hold

theorem Tidy.recall (h : s.Tidy) (hi : s.threads[i]? = some th) {shardID : Int} {c : Nat}
    {call : Call} {pc : CallPC} {keyLock : KeyLock} {announced : Nat → Option Nat}
    (hmem : (shardID, c) ∈ th.inUse) (hc : s.keyLock.calls[c]? = some call)
    (hsound : keyLock.Sound) (hnamed : keyLock.Named)
    (hcalls : keyLock.calls = s.keyLock.calls.set c { call with pc := pc })
    (hpc : call.pc ≠ .done) (hself : th.Allows c pc)
    (hannounced : Announced keyLock.calls announced) :
    Tidy { s with keyLock := keyLock, announced := announced } := by
  exact h.move hi hmem hc hsound hnamed hcalls (set_same hi).symm rfl rfl rfl rfl hpc hself
    (fun _ _ _ hallows => hallows) hannounced

theorem Tidy.step {l : Label} (h : s.Tidy) (hok : Distinct s l) (hstep : s.step l = some t) :
    t.Tidy := by
  cases step_cases hstep with
  | spawn hsorted => exact h.spawn (hsorted hok)
  | ready hi hphase htodo =>
    apply h.rethread hi
    · rw [ShardThread.inUse, ShardThread.inUse, hphase]
    · rfl
    · rfl
    · exact fun c pc hallows => hallows.of_idle (.inl hphase) fun _ => nofun
  | start hi hphase htodo hkeyLock => exact h.start hi hphase htodo hkeyLock
  | @count i th shardID c call keyLock hi hphase hc hpc hkeyLock =>
    obtain ⟨hnamed, pc, hgoes, hcalls⟩ := h.named.go hc hkeyLock
    rw [hpc] at hgoes
    cases hgoes with | count e =>
    refine h.recall hi (ShardThread.mem_inUse_locking hphase) hc (h.sound.step hkeyLock) hnamed
      hcalls (hpc ▸ nofun) ⟨shardID, hphase⟩ ?_
    rw [hcalls]
    apply h.announced.keep hc
    · exact fun e => h.announced.not_some hc fun _ => hpc ▸ ⟨nofun, nofun⟩
    · exact fun _ _ => nofun
  | announce hi hphase hc hpc hmode hfree =>
    exact ⟨h.sound, h.named, h.owned, h.linked, h.used, h.ascending,
      h.announced.announce hc hmode hpc hfree⟩
  | @acquire i th shardID c e call keyLock hi hphase hc hpc hfree hkeyLock =>
    obtain ⟨hnamed, pc, hgoes, hcalls⟩ := h.named.go hc hkeyLock
    rw [hpc] at hgoes
    cases hgoes
    refine h.move hi (ShardThread.mem_inUse_locking hphase) hc (h.sound.step hkeyLock) hnamed
      hcalls rfl rfl (ShardThread.inUse_locking hphase).symm rfl rfl (hpc ▸ nofun) (fun _ => nofun)
      ?_ ?_
    · exact fun c' pc hne hallows => hallows.of_busy hne (.inl hphase) fun _ => nofun
    · change Announced keyLock.calls s.announced
      rw [hcalls]
      exact h.announced.acquire hc hpc hfree
  | pop hi hphase hheld =>
    apply h.rethread hi
    · rw [ShardThread.inUse, ShardThread.inUse, hphase, hheld]
    · rfl
    · rfl
    · exact fun c pc hallows => hallows.of_idle (.inr hphase) fun _ => nofun
  | @unlock i th shardID c e call keyLock hi hphase hc hpc hkeyLock =>
    obtain ⟨hnamed, pc, hgoes, hcalls⟩ := h.named.go hc hkeyLock
    rw [hpc] at hgoes
    cases hgoes
    refine h.recall hi (ShardThread.mem_inUse_unlocking hphase) hc (h.sound.step hkeyLock) hnamed
      hcalls (hpc ▸ nofun) ⟨shardID, hphase⟩ ?_
    rw [hcalls]
    exact h.announced.unlock hc hpc
  | @release i th shardID c call keyLock hi hphase hc hpc hkeyLock =>
    obtain ⟨hnamed, pc, hgoes, hcalls⟩ := h.named.go hc hkeyLock
    rw [hpc] at hgoes
    cases hgoes
    refine h.release hi hphase (h.sound.step hkeyLock) hnamed hcalls ?_
    rw [hcalls]
    apply h.announced.keep hc
    · exact fun e => h.announced.not_some hc fun _ => hpc ▸ ⟨nofun, nofun⟩
    · exact fun _ _ => nofun

theorem tidy_of_reachable {numShards : Nat} (hs : (machine numShards).Reachable Distinct s) :
    s.Tidy := by
  apply hs.invariant
  · rintro _ rfl
    exact ⟨KeyLock.sound_new, KeyLock.named_new, rfl, nofun, nofun, nofun, nofun, nofun⟩
  · exact fun h hok hstep => h.step hok hstep

end Steps

/-- Goroutine `i` has the mutex of a shard. -/
def Has (s : ShardLock) (i : Nat) (shardID : Int) (mode : Mode) : Prop :=
  ∃ th c call, s.threads[i]? = some th ∧ th.mode = mode ∧ (shardID, c) ∈ th.inUse ∧
    s.keyLock.calls[c]? = some call ∧ call.holding = true

theorem Tidy.has_of_mem_held (h : s.Tidy) {th : ShardThread} (hi : s.threads[i]? = some th)
    {shardID : Int} {c : Nat} (hheld : (shardID, c) ∈ th.held) : s.Has i shardID th.mode := by
  have hmem : (shardID, c) ∈ th.inUse := by
    cases hphase : th.phase <;> simp [ShardThread.inUse, hphase, hheld]
  obtain ⟨call, hc, -, hkey, -, hallows⟩ := h.linked i th hi shardID c hmem
  have hlocked : ∀ shardID', th.phase ≠ .locking shardID' c := by
    intro shardID' hphase
    obtain ⟨_, hc', -, hkey', -⟩ :=
      h.linked i th hi shardID' c (ShardThread.mem_inUse_locking hphase)
    cases hc.symm.trans hc'
    have heq := itoa_injective (hkey.symm.trans hkey')
    have hline := h.ascending i th hi
    rw [ShardThread.line, ShardThread.inUse_locking hphase, List.map_append] at hline
    have hlt := (List.pairwise_append.mp (List.pairwise_append.mp hline).1).2.2 shardID
      (List.mem_map_of_mem hheld) shardID' (List.mem_singleton_self _)
    omega
  refine ⟨th, c, call, hi, rfl, hmem, hc, ?_⟩
  cases hpc : call.pc with
  | hold => rw [Call.holding, hpc]
  | count | wait =>
    rw [hpc] at hallows
    obtain ⟨shardID', hphase⟩ := hallows
    exact absurd hphase (hlocked shardID')
  | release =>
    rw [hpc] at hallows
    obtain ⟨_, hphase⟩ := hallows
    exact absurd rfl (h.ne_of_mem_held hi hphase hheld)
  | done =>
    rw [hpc] at hallows
    contradiction

/-- A writer of a shard is alone with it, a goroutine that has taken its locks has them all until it
gives them back, and nothing is left of the locks when all goroutines have finished. -/
theorem shard_locks_exclude {numShards : Nat} (hs : (machine numShards).Reachable Distinct s) :
    (∀ i j shardID mode, s.Has i shardID .exclusive → s.Has j shardID mode → i = j) ∧
    (∀ i th, s.threads[i]? = some th → ∀ entry ∈ th.held, s.Has i entry.1 th.mode) ∧
    ((∀ th ∈ s.threads, th.finished = true) → s.keyLock.locks = ∅) := by
  have h := tidy_of_reachable hs
  refine ⟨?_, fun i th hi entry hheld => h.has_of_mem_held hi hheld, fun hfinished => ?_⟩
  · rintro i j shardID mode ⟨th, c, call, hi, hmode, hmem, hc, hholding⟩
      ⟨th', c', call', hj, -, hmem', hc', hholding'⟩
    obtain ⟨_, h₁, howner, hkey, hcall, -⟩ := h.linked i th hi shardID c hmem
    obtain ⟨_, h₂, howner', hkey', -⟩ := h.linked j th' hj shardID c' hmem'
    cases hc.symm.trans h₁
    cases hc'.symm.trans h₂
    cases h.sound.exclusive hc hc' (hkey.trans hkey'.symm) hholding (hcall.trans hmode) hholding'
    exact Option.some.inj (howner.symm.trans howner')
  · apply AList.ext
    refine List.eq_nil_iff_forall_not_mem.mpr fun ⟨key, e⟩ hentry => ?_
    have hlookup := AList.mem_lookup_iff.mpr hentry
    have hused : s.keyLock.users key ≠ 0 := by
      intro hzero
      cases hlookup.symm.trans ((h.sound.used key).mpr hzero)
    obtain ⟨call, hcall, hcounted⟩ := List.countP_pos_iff.mp (Nat.pos_of_ne_zero hused)
    obtain ⟨c, hc⟩ := List.mem_iff_getElem?.mp hcall
    obtain ⟨i, th, shardID, -, hi, hmem⟩ := h.used c call hc fun hdone => by
      simp [Call.counted, hdone] at hcounted
    obtain ⟨hphase, hheld⟩ := of_decide_eq_true (hfinished th (List.mem_of_getElem? hi))
    rw [ShardThread.inUse, hphase, hheld] at hmem
    contradiction

/-- Goroutine 1 waits for one of the two shards that goroutine 0 has. -/
theorem shard_locks_exclude_pair : ∃ s : ShardLock, s.threads.length = 2 ∧ s.Has 0 1 .exclusive ∧
    s.Has 0 3 .exclusive ∧ ∀ mode, ¬ s.Has 1 3 mode := by
  have hrun : ((machine 8).exec Distinct (new 8) [.acquireWriteMultiple [3, 1], .acquireWrite 3,
      .go 0, .go 0, .go 0, .go 0, .go 0, .go 0, .go 0, .go 0, .go 1, .go 1]).any (fun s => decide
        (s.threads = [⟨.exclusive, [], .next, [(1, 0), (3, 1)]⟩,
          ⟨.exclusive, [], .locking 3 2, []⟩])) = true := by decide
  obtain ⟨s, hreach, hs⟩ := Machine.exec_reachable hrun rfl
  have hthreads := of_decide_eq_true hs
  obtain ⟨hexclusive, hheld, -⟩ := shard_locks_exclude hreach
  have h := hheld 0 _ (by rw [hthreads]; rfl)
  have h₁ := h (1, 0) (by decide)
  have h₃ := h (3, 1) (by decide)
  refine ⟨s, by rw [hthreads]; rfl, h₁, h₃, fun mode hother => ?_⟩
  cases hexclusive 0 1 3 mode h₃ hother

end ShardLock
end Goverse.Cluster
