import Goverse.Lib.Machine
import Goverse.Lib.RWMutex
import Goverse.Sharding.ObjectId

/-! The locks of a node under nested calls. A method and an `OnCreated` hook run with the locks
of their operation and may call `CallObject` and `CreateObject` on the same node, which take
`stopMu`, a shard lock and a lifecycle lock again on the same goroutine. A thread is the stack
of its operations. -/
namespace Goverse.Node

open Lib Sharding

inductive Mutex where
  | stopMu
  | shard (key : GoString)
  | lifecycle (id : GoString)
  deriving DecidableEq, Repr

inductive Operation where
  | call (id : GoString)
  | create (id : GoString)
  | delete (id : GoString)
  | evict (id : GoString)
  | stop
  deriving DecidableEq, Repr

/-- Where an operation is; the name says what it does next. `rlockShard` up to `runlockShard`
are `createObject`; `onCreated` and `method` are inside the user's code. -/
inductive FramePC where
  | rlockStop
  | checkStopped
  | rlockShard
  | lookup
  | lockKey
  | lookupLocked
  | build
  | onCreated
  | unlockKey (ok : Bool)
  | runlockShard (ok : Bool)
  | rlockKey
  | find
  | method
  | runlockKey
  | lockRemoval
  | removal
  | unlockRemoval
  | runlockStop
  | setStopped
  | lockStop
  | snapshot
  | saveNext (ids : List GoString)
  | save (id : GoString) (ids : List GoString)
  | clear
  | unlockStop
  | returned
  deriving DecidableEq, Repr

structure Frame where
  op : Operation
  pc : FramePC
  deriving DecidableEq, Repr

namespace Operation

def id : Operation → GoString
  | .call id | .create id | .delete id | .evict id => id
  | .stop => []

/-- What a method or a hook may call. -/
def nestable : Operation → Bool
  | .call _ | .create _ => true
  | _ => false

def enter : Operation → Frame
  | .stop => ⟨.stop, .setStopped⟩
  | op => ⟨op, .rlockStop⟩

/-- What follows the test of `stopped`. -/
def body : Operation → FramePC
  | .call id | .create id => if id = [] then .runlockStop else .rlockShard
  | .delete _ | .evict _ => .lockRemoval
  | .stop => .runlockStop

/-- What follows `createObject`. -/
def afterCreate (ok : Bool) : Operation → FramePC
  | .call _ => if ok then .rlockKey else .runlockStop
  | _ => .runlockStop

end Operation

/-- `shards` is the number of shards if the node has a `ShardLock`. -/
structure NodeConfig where
  shards : Option Nat

def NodeConfig.shardKey (c : NodeConfig) (id : GoString) : Option Mutex :=
  (c.shards.bind fun numShards => acquireRead numShards id).map .shard

namespace Frame

variable (c : NodeConfig) (f : Frame)

/-- The lock the operation asks for, and where it is once it has it. -/
def asks : Option (Mutex × Mode × FramePC) :=
  match f.pc with
  | .rlockStop => some (.stopMu, .shared, .checkStopped)
  | .rlockShard => (c.shardKey f.op.id).map fun key => (key, .shared, .lookup)
  | .lockKey => some (.lifecycle f.op.id, .exclusive, .lookupLocked)
  | .rlockKey => some (.lifecycle f.op.id, .shared, .find)
  | .lockRemoval => some (.lifecycle f.op.id, .exclusive, .removal)
  | .lockStop => some (.stopMu, .exclusive, .snapshot)
  | .saveNext (id :: ids) => some (.lifecycle id, .shared, .save id ids)
  | _ => none

/-- The lock the operation releases. -/
def gives : Option (Mutex × Mode × FramePC) :=
  match f.pc with
  | .unlockKey ok => some (.lifecycle f.op.id, .exclusive, .runlockShard ok)
  | .runlockShard ok => (c.shardKey f.op.id).map fun key => (key, .shared, f.op.afterCreate ok)
  | .runlockKey => some (.lifecycle f.op.id, .shared, .runlockStop)
  | .unlockRemoval => some (.lifecycle f.op.id, .exclusive, .runlockStop)
  | .runlockStop => some (.stopMu, .shared, .returned)
  | .save id ids => some (.lifecycle id, .shared, .saveNext ids)
  | .unlockStop => some (.stopMu, .exclusive, .returned)
  | _ => none

def keyHeld : List (Mutex × Mode) :=
  match f.pc with
  | .lookupLocked | .build | .onCreated | .unlockKey _ | .removal | .unlockRemoval =>
    [(.lifecycle f.op.id, .exclusive)]
  | .find | .method | .runlockKey => [(.lifecycle f.op.id, .shared)]
  | .save id _ => [(.lifecycle id, .shared)]
  | _ => []

def shardHeld : List (Mutex × Mode) :=
  match f.pc with
  | .lookup | .lockKey | .lookupLocked | .build | .onCreated | .unlockKey _ | .runlockShard _ =>
    (c.shardKey f.op.id).toList.map fun key => (key, .shared)
  | _ => []

def stopHeld : List (Mutex × Mode) :=
  match f.pc with
  | .rlockStop | .setStopped | .lockStop | .returned => []
  | .snapshot | .saveNext _ | .save _ _ | .clear | .unlockStop => [(.stopMu, .exclusive)]
  | _ => [(.stopMu, .shared)]

/-- The locks the operation has, the last one first. -/
def held : List (Mutex × Mode) := f.keyHeld ++ f.shardHeld c ++ f.stopHeld

end Frame

/-- The innermost operation first. -/
structure Goroutine where
  frames : List Frame
  waiting : Option (Wait Mutex)

/-- What the locks see of a goroutine. -/
def Goroutine.holder (c : NodeConfig) (th : Goroutine) : Holder Mutex :=
  ⟨th.frames.flatMap (Frame.held c), th.waiting⟩

structure Reentrant where
  stopped : Bool
  objects : List GoString
  locks : Mutex → RWMutex
  threads : List Goroutine

namespace Reentrant

/-- `nest` is a call of a method or a hook, and `ok` the answer of the rules, of the provider,
of a comparison of types or of the user's code. -/
inductive Label where
  | spawn (op : Operation)
  | thread (i : Nat) (ok : Bool)
  | nest (i : Nat) (op : Operation)
  deriving DecidableEq, Repr

def goto (s : Reentrant) (i : Nat) (f : Frame) (rest : List Frame) (pc : FramePC) : Reentrant :=
  { s with threads := s.threads.set i ⟨{ f with pc := pc } :: rest, none⟩ }

/-- A step that neither takes nor releases a lock. -/
def work (s : Reentrant) (ok : Bool) (f : Frame) : Option (Reentrant × FramePC) :=
  match f.pc with
  | .checkStopped => some (s, if s.stopped then .runlockStop else f.op.body)
  | .rlockShard => some (s, .lookup)
  | .lookup => some (s, if f.op.id ∈ s.objects then .runlockShard ok else .lockKey)
  | .lookupLocked => some (s, if f.op.id ∈ s.objects then .unlockKey ok else .build)
  | .build =>
    if ok then some ({ s with objects := f.op.id :: s.objects }, .onCreated)
    else some (s, .unlockKey false)
  | .onCreated => some (s, .unlockKey true)
  | .runlockShard ok => some (s, f.op.afterCreate ok)
  | .find => some (s, if f.op.id ∈ s.objects ∧ ok then .method else .runlockKey)
  | .method => some (s, .runlockKey)
  | .removal =>
    some ({ s with objects := if ok then s.objects.erase f.op.id else s.objects }, .unlockRemoval)
  | .setStopped => some ({ s with stopped := true }, .lockStop)
  | .snapshot => some (s, .saveNext (if ok then s.objects else []))
  | .saveNext [] => some (s, .clear)
  | .clear => some ({ s with objects := [] }, .unlockStop)
  | _ => none

/-- A goroutine that asks for a lock it cannot have yet waits, and tries again. -/
def acquire (s : Reentrant) (i : Nat) (th : Goroutine) (f : Frame) (rest : List Frame)
    (key : Mutex) (mode : Mode) (pc : FramePC) : Reentrant :=
  let out := (s.locks key).attempt i key mode th.waiting
  { s with
    locks := Function.update s.locks key out.1
    threads := s.threads.set i
      (if out.2 = none then ⟨{ f with pc := pc } :: rest, none⟩ else ⟨f :: rest, out.2⟩) }

def threadStep (c : NodeConfig) (s : Reentrant) (i : Nat) (ok : Bool) (th : Goroutine) :
    Option Reentrant :=
  match th.frames with
  | [] => none
  | f :: rest =>
    match f.asks c with
    | some (key, mode, pc) => some (s.acquire i th f rest key mode pc)
    | none =>
      match f.gives c with
      | some (key, mode, pc) =>
        some ({ s with locks := Function.update s.locks key ((s.locks key).release i mode) }.goto
          i f rest pc)
      | none =>
        if f.pc = .returned then some { s with threads := s.threads.set i ⟨rest, none⟩ }
        else (s.work ok f).map fun (next, pc) => next.goto i f rest pc

/-- The goroutine is inside a method or a hook, and the call chain does not return to an id. -/
def mayNest (th : Goroutine) (op : Operation) : Bool :=
  match th.frames with
  | [] => false
  | f :: rest => (f.pc = .method ∨ f.pc = .onCreated) ∧ op.nestable ∧
      op.id ∉ (f :: rest).map fun g => g.op.id

def step (c : NodeConfig) (s : Reentrant) : Label → Option Reentrant
  | .spawn op => some { s with threads := s.threads ++ [⟨[op.enter], none⟩] }
  | .thread i ok => (s.threads[i]?).bind (s.threadStep c i ok)
  | .nest i op =>
    match s.threads[i]? with
    | none => none
    | some th =>
      if mayNest th op then
        some { s with threads := s.threads.set i ⟨op.enter :: th.frames, none⟩ }
      else none

def start (objects : List GoString) : Reentrant := ⟨false, objects, fun _ => .free, []⟩

def machine (c : NodeConfig) : Machine Reentrant Label where
  Init s := ∃ objects, s = start objects
  step := step c

/-- A set of goroutines each of which waits for a lock that another one of them has or, as a
writer, awaits. -/
def Deadlock (c : NodeConfig) (s : Reentrant) (S : Finset Nat) : Prop :=
  Deadlocked s.locks (s.threads.map (Goroutine.holder c)) S

instance (c : NodeConfig) (s : Reentrant) (S : Finset Nat) : Decidable (s.Deadlock c S) :=
  inferInstanceAs (Decidable (Deadlocked s.locks (s.threads.map (Goroutine.holder c)) S))

/-! ### Everything a step can do -/

inductive ThreadCase (c : NodeConfig) (s : Reentrant) (i : Nat) (th : Goroutine) : Reentrant → Prop
  | acquire {f : Frame} {rest : List Frame} {key : Mutex} {mode : Mode} {pc : FramePC}
      (hframes : th.frames = f :: rest) (hasks : f.asks c = some (key, mode, pc)) :
      ThreadCase c s i th (s.acquire i th f rest key mode pc)
  | release {f : Frame} {rest : List Frame} {key : Mutex} {mode : Mode} {pc : FramePC}
      (hframes : th.frames = f :: rest) (hasks : f.asks c = none)
      (hgives : f.gives c = some (key, mode, pc)) :
      ThreadCase c s i th
        ({ s with locks := Function.update s.locks key ((s.locks key).release i mode) }.goto
          i f rest pc)
  | returned {f : Frame} {rest : List Frame} (hframes : th.frames = f :: rest)
      (hasks : f.asks c = none) (hpc : f.pc = .returned) :
      ThreadCase c s i th { s with threads := s.threads.set i ⟨rest, none⟩ }
  | work {f : Frame} {rest : List Frame} {ok : Bool} {next : Reentrant} {pc : FramePC}
      (hframes : th.frames = f :: rest) (hasks : f.asks c = none) (hgives : f.gives c = none)
      (hwork : s.work ok f = some (next, pc)) : ThreadCase c s i th (next.goto i f rest pc)

variable {c : NodeConfig} {s t : Reentrant} {i : Nat} {f : Frame} {th : Goroutine}

theorem threadStep_case {ok : Bool} (h : s.threadStep c i ok th = some t) :
    ThreadCase c s i th t := by
  unfold threadStep at h
  split at h
  · contradiction
  · rename_i f rest hframes
    split at h
    · rename_i key mode pc hasks
      cases h
      exact .acquire hframes hasks
    · rename_i hasks
      split at h
      · rename_i key mode pc hgives
        cases h
        exact .release hframes hasks hgives
      · rename_i hgives
        split at h
        · rename_i hpc
          cases h
          exact .returned hframes hasks hpc
        · obtain ⟨⟨next, pc⟩, hwork, rfl⟩ := Option.map_eq_some_iff.mp h
          exact .work hframes hasks hgives hwork

end Reentrant

namespace Frame

variable {c : NodeConfig} {f : Frame} {key : Mutex} {mode : Mode} {pc : FramePC}

/-- Only `Stop` is at the steps of `Stop`. -/
def Proper (f : Frame) : Prop :=
  match f.pc with
  | .setStopped | .lockStop | .snapshot | .saveNext _ | .save _ _ | .clear | .unlockStop =>
    f.op = .stop
  | _ => True

theorem enter_spec (op : Operation) : op.enter.held c = [] ∧ op.enter.Proper := by
  cases op with
  | stop => exact ⟨rfl, rfl⟩
  | _ => exact ⟨rfl, trivial⟩

theorem afterCreate_spec (op : Operation) (ok : Bool) :
    held c ⟨op, op.afterCreate ok⟩ = [(.stopMu, .shared)] ∧ Proper ⟨op, op.afterCreate ok⟩ := by
  cases op with
  | call id => cases ok <;> exact ⟨rfl, trivial⟩
  | _ => exact ⟨rfl, trivial⟩

theorem body_spec (op : Operation) :
    held c ⟨op, op.body⟩ = [(.stopMu, .shared)] ∧ Proper ⟨op, op.body⟩ := by
  cases op with
  | call id | create id =>
    simp only [Operation.body]
    split <;> exact ⟨rfl, trivial⟩
  | _ => exact ⟨rfl, trivial⟩

theorem asks_spec (h : f.asks c = some (key, mode, pc)) :
    held c { f with pc := pc } = (key, mode) :: f.held c ∧
      (f.Proper → Proper { f with pc := pc }) := by
  obtain ⟨op, pc⟩ := f
  cases pc with
  | rlockShard =>
    obtain ⟨shard, hshard, heq⟩ := Option.map_eq_some_iff.mp h
    cases heq
    exact ⟨by simp [held, keyHeld, shardHeld, stopHeld, hshard], fun _ => trivial⟩
  | saveNext ids =>
    cases ids with
    | nil => contradiction
    | cons id ids => cases h; exact ⟨rfl, fun hproper => hproper⟩
  | lockStop => cases h; exact ⟨rfl, fun hproper => hproper⟩
  | rlockStop | lockKey | rlockKey | lockRemoval =>
    cases h
    exact ⟨by simp [held, keyHeld, shardHeld, stopHeld], fun _ => trivial⟩
  | _ => contradiction

theorem gives_spec (h : f.gives c = some (key, mode, pc)) :
    f.held c = (key, mode) :: held c { f with pc := pc } ∧
      (f.Proper → Proper { f with pc := pc }) := by
  obtain ⟨op, pc⟩ := f
  cases pc with
  | runlockShard ok =>
    obtain ⟨shard, hshard, heq⟩ := Option.map_eq_some_iff.mp h
    cases heq
    obtain ⟨hheld, hproper⟩ := afterCreate_spec (c := c) op ok
    rw [hheld]
    exact ⟨by simp [held, keyHeld, shardHeld, stopHeld, hshard], fun _ => hproper⟩
  | save => cases h; exact ⟨rfl, fun hproper => hproper⟩
  | unlockKey | runlockKey | unlockRemoval | runlockStop | unlockStop =>
    cases h
    exact ⟨by simp [held, keyHeld, shardHeld, stopHeld], fun _ => trivial⟩
  | _ => contradiction

theorem work_spec {s next : Reentrant} {ok : Bool} (h : s.work ok f = some (next, pc))
    (hasks : f.asks c = none) (hgives : f.gives c = none) :
    (next.locks = s.locks ∧ next.threads = s.threads) ∧
      held c { f with pc := pc } = f.held c ∧ (f.Proper → Proper { f with pc := pc }) := by
  obtain ⟨op, pc⟩ := f
  cases pc with
  | checkStopped =>
    cases h
    refine ⟨⟨rfl, rfl⟩, ?_⟩
    dsimp only
    split
    · exact ⟨rfl, fun _ => trivial⟩
    · exact ⟨(body_spec op).1, fun _ => (body_spec (c := c) op).2⟩
  | rlockShard =>
    cases h
    have hnone : c.shardKey op.id = none := by simpa [asks] using hasks
    exact ⟨⟨rfl, rfl⟩, by simp [held, keyHeld, shardHeld, stopHeld, hnone], fun _ => trivial⟩
  | runlockShard ok =>
    cases h
    have hnone : c.shardKey op.id = none := by simpa [gives] using hgives
    obtain ⟨hheld, hproper⟩ := afterCreate_spec (c := c) op ok
    rw [hheld]
    exact ⟨⟨rfl, rfl⟩, by simp [held, keyHeld, shardHeld, stopHeld, hnone], fun _ => hproper⟩
  | lookup | lookupLocked | find =>
    cases h
    refine ⟨⟨rfl, rfl⟩, ?_⟩
    dsimp only
    split <;> exact ⟨rfl, fun _ => trivial⟩
  | build =>
    simp only [Reentrant.work] at h
    split at h <;> cases h <;> exact ⟨⟨rfl, rfl⟩, rfl, fun _ => trivial⟩
  | saveNext ids =>
    cases ids with
    | nil => cases h; exact ⟨⟨rfl, rfl⟩, rfl, fun hproper => hproper⟩
    | cons id ids => contradiction
  | setStopped | snapshot | clear =>
    cases h
    exact ⟨⟨rfl, rfl⟩, rfl, fun hproper => hproper⟩
  | onCreated | method | removal => cases h; exact ⟨⟨rfl, rfl⟩, rfl, fun _ => trivial⟩
  | _ => contradiction

/-- Inside a method or a hook. -/
def nests (f : Frame) : Prop := f.pc = .method ∨ f.pc = .onCreated

private theorem asks_of_nests (h : f.nests) : f.asks c = none := by
  rcases h with hpc | hpc <;> simp [asks, hpc]

end Frame

/-! ### The order of the locks -/

/-- `stopMu`, then the shard locks, then the lifecycle locks in the order of their ids. -/
def Mutex.rank (rank : GoString → Nat) : Mutex → Nat
  | .stopMu => 0
  | .shard _ => 1
  | .lifecycle id => rank id + 2

@[simp] theorem Mutex.rank_lifecycle (rank : GoString → Nat) (id : GoString) :
    (Mutex.lifecycle id).rank rank = rank id + 2 := rfl

namespace Frame

variable {c : NodeConfig} {f : Frame} {key : Mutex} {mode : Mode} {pc : FramePC}
  {rank : GoString → Nat}

private theorem rank_shardHeld {held : Mutex × Mode} (h : held ∈ f.shardHeld c) :
    held.1.rank rank = 1 := by
  unfold shardHeld at h
  split at h
  all_goals first
    | contradiction
    | (obtain ⟨key, hkey, rfl⟩ := List.mem_map.mp h
       obtain ⟨shard, -, rfl⟩ := Option.map_eq_some_iff.mp (Option.mem_toList.mp hkey)
       rfl)

private theorem rank_stopHeld {held : Mutex × Mode} (h : held ∈ f.stopHeld) :
    held.1.rank rank = 0 := by
  unfold stopHeld at h
  split at h <;> first | contradiction | (rw [List.mem_singleton.mp h]; rfl)

theorem rank_held (rank : GoString → Nat) {held : Mutex × Mode} (h : held ∈ f.held c) :
    held.1.rank rank < 2 ∨ held ∈ f.keyHeld := by
  rcases List.mem_append.mp h with h | hstop
  · rcases List.mem_append.mp h with hkey | hshard
    · exact .inr hkey
    · rw [rank_shardHeld hshard]
      exact .inl (by omega)
  · rw [rank_stopHeld hstop]
    exact .inl (by omega)

private theorem rank_le_of_nests (rank : GoString → Nat) (h : f.nests) {held : Mutex × Mode}
    (hheld : held ∈ f.held c) : held.1.rank rank ≤ rank f.op.id + 2 := by
  rcases rank_held rank hheld with hlow | hkey
  · omega
  · unfold keyHeld at hkey
    rcases h with hpc | hpc <;> rw [hpc] at hkey
    · rw [List.mem_singleton.mp hkey]
      exact le_rfl
    · rw [List.mem_singleton.mp hkey]
      exact le_rfl

private theorem rank_lt_of_asks (h : f.asks c = some (key, mode, pc)) (hshard : ∀ k, key ≠ .shard k)
    {held : Mutex × Mode} (hheld : held ∈ f.held c) : held.1.rank rank < key.rank rank := by
  obtain ⟨op, pc⟩ := f
  have hlow : ∀ {id : GoString}, key = .lifecycle id → keyHeld ⟨op, pc⟩ = [] →
      held.1.rank rank < key.rank rank := by
    rintro id rfl hnone
    rcases rank_held rank hheld with hlow | hkey
    · rw [Mutex.rank_lifecycle]
      omega
    · rw [hnone] at hkey
      contradiction
  cases pc with
  | rlockShard =>
    obtain ⟨shard, hkey, heq⟩ := Option.map_eq_some_iff.mp h
    obtain ⟨k, -, rfl⟩ := Option.map_eq_some_iff.mp hkey
    cases heq
    exact absurd rfl (hshard k)
  | rlockStop | lockStop => contradiction
  | saveNext ids =>
    cases ids with
    | nil => contradiction
    | cons id ids => cases h; exact hlow rfl rfl
  | lockKey | rlockKey | lockRemoval => cases h; exact hlow rfl rfl
  | _ => contradiction

theorem asks_key (h : f.asks c = some (key, mode, pc)) (hproper : f.Proper) :
    (f.op = .stop ∧ ∀ k, key ≠ .shard k) ∨ (key = .stopMu ∧ f.pc = .rlockStop ∧ mode = .shared) ∨
      (∃ k, key = .shard k ∧ mode = .shared) ∨ key = .lifecycle f.op.id := by
  obtain ⟨op, pc⟩ := f
  cases pc with
  | rlockShard =>
    obtain ⟨shard, hkey, heq⟩ := Option.map_eq_some_iff.mp h
    obtain ⟨k, -, rfl⟩ := Option.map_eq_some_iff.mp hkey
    cases heq
    exact .inr (.inr (.inl ⟨k, rfl, rfl⟩))
  | rlockStop => cases h; exact .inr (.inl ⟨rfl, rfl, rfl⟩)
  | lockStop => cases h; exact .inl ⟨hproper, by simp⟩
  | saveNext ids =>
    cases ids with
    | nil => contradiction
    | cons id ids => cases h; exact .inl ⟨hproper, by simp⟩
  | lockKey | rlockKey | lockRemoval => cases h; exact .inr (.inr (.inr rfl))
  | _ => contradiction

end Frame

/-- A goroutine whose calls climb: each operation was called by a method or a hook of an id of
a lower rank, and it does not wait for `stopMu` inside another operation. -/
structure Goroutine.Ordered (c : NodeConfig) (rank : GoString → Nat) (th : Goroutine) : Prop where
  chain : th.frames.Pairwise fun f g =>
    f.op.nestable = true ∧ g.nests ∧ rank g.op.id < rank f.op.id
  proper : ∀ f ∈ th.frames, f.Proper
  waits : ∀ w, th.waiting = some w → ∃ f rest mode pc, th.frames = f :: rest ∧
    f.asks c = some (w.key, mode, pc) ∧ ((∃ k, w = .announced k) → mode = .exclusive) ∧
    (w.key = .stopMu → rest = []) ∧ ∀ k, w.key ≠ .shard k

namespace Goroutine.Ordered

variable {c : NodeConfig} {rank : GoString → Nat} {th : Goroutine} {f : Frame} {rest : List Frame}

theorem rest_of_stop (h : th.Ordered c rank) (hframes : th.frames = f :: rest)
    (hop : f.op = .stop) : rest = [] := by
  have hchain := h.chain
  rw [hframes] at hchain
  cases rest with
  | nil => rfl
  | cons g rest =>
    have := (List.rel_of_pairwise_cons hchain List.mem_cons_self).1
    rw [hop] at this
    contradiction

theorem waiting_none (h : th.Ordered c rank) (hframes : th.frames = f :: rest)
    (hasks : f.asks c = none) : th.waiting = none := by
  by_contra hwaiting
  obtain ⟨w, hw⟩ := Option.ne_none_iff_exists'.mp hwaiting
  obtain ⟨g, rest', mode, pc, hframes', hg, -⟩ := h.waits w hw
  rw [hframes] at hframes'
  cases hframes'
  rw [hasks] at hg
  contradiction

theorem ascending (h : th.Ordered c rank) {w : Wait Mutex} (hw : th.waiting = some w)
    {held : Mutex × Mode} (hheld : held ∈ (th.holder c).held) :
    held.1.rank rank < w.key.rank rank := by
  obtain ⟨f, rest, mode, pc, hframes, hasks, -, hstop, hshard⟩ := h.waits w hw
  have hproper := h.proper f (by rw [hframes]; exact List.mem_cons_self)
  simp only [Goroutine.holder, hframes] at hheld
  obtain ⟨g, hg, hmem⟩ := List.mem_flatMap.mp hheld
  rcases List.mem_cons.mp hg with heq | hg
  · rw [heq] at hmem
    exact Frame.rank_lt_of_asks hasks hshard hmem
  · have hchain := h.chain
    rw [hframes] at hchain
    obtain ⟨-, hnests, hlt⟩ := List.rel_of_pairwise_cons hchain hg
    have hle := Frame.rank_le_of_nests rank hnests hmem
    rcases Frame.asks_key hasks hproper with ⟨hop, -⟩ | ⟨hkey, -⟩ | ⟨k, hkey, -⟩ | hkey
    · rw [h.rest_of_stop hframes hop] at hg
      contradiction
    · rw [hstop hkey] at hg
      contradiction
    · exact absurd hkey (hshard k)
    · rw [hkey, Mutex.rank_lifecycle]
      omega

theorem move (h : th.Ordered c rank) (hframes : th.frames = f :: rest) {pc : FramePC}
    (hproper : f.Proper → Frame.Proper { f with pc := pc }) :
    Ordered c rank ⟨{ f with pc := pc } :: rest, none⟩ := by
  obtain ⟨hchain, hall, -⟩ := h
  rw [hframes] at hchain hall
  refine ⟨?_, ?_, by simp⟩
  · rw [List.pairwise_cons] at hchain ⊢
    exact hchain
  · rw [List.forall_mem_cons] at hall ⊢
    exact ⟨hproper hall.1, hall.2⟩

theorem pop (h : th.Ordered c rank) (hframes : th.frames = f :: rest) :
    Ordered c rank ⟨rest, none⟩ := by
  obtain ⟨hchain, hall, -⟩ := h
  rw [hframes] at hchain hall
  exact ⟨(List.pairwise_cons.mp hchain).2, (List.forall_mem_cons.mp hall).2, by simp⟩

theorem push (h : th.Ordered c rank) (hframes : th.frames = f :: rest) (hnests : f.nests)
    {op : Operation} (hop : op.nestable = true) (hrank : rank f.op.id < rank op.id) :
    Ordered c rank ⟨op.enter :: f :: rest, none⟩ := by
  obtain ⟨hchain, hall, -⟩ := h
  rw [hframes] at hchain hall
  have hop' : op.enter.op = op := by cases op <;> rfl
  refine ⟨List.pairwise_cons.mpr ⟨fun g hg => ?_, hchain⟩, ?_, by simp⟩
  · rw [hop']
    rcases List.mem_cons.mp hg with rfl | hg
    · exact ⟨hop, hnests, hrank⟩
    · obtain ⟨-, hgnests, hlt⟩ := List.rel_of_pairwise_cons hchain hg
      exact ⟨hop, hgnests, hlt.trans hrank⟩
  · exact List.forall_mem_cons.mpr ⟨(Frame.enter_spec (c := c) op).2, hall⟩

theorem single (op : Operation) : Ordered c rank ⟨[op.enter], none⟩ := by
  refine ⟨List.pairwise_singleton _ _, ?_, by simp⟩
  simpa using (Frame.enter_spec (c := c) op).2

end Goroutine.Ordered

namespace Reentrant

variable {c : NodeConfig} {rank : GoString → Nat} {s t : Reentrant} {i : Nat}

/-- A goroutine that is inside another operation and is about to ask for `stopMu`. -/
def reenters (th : Goroutine) : Bool :=
  match th.frames with
  | f :: _ :: _ => f.pc = .rlockStop
  | _ => false

/-- `stopMu` is asked for again only while no `Stop` has it or awaits it, and a method or a hook
calls only ids of a higher rank than its own. -/
def Climbs (rank : GoString → Nat) (s : Reentrant) : Label → Prop
  | .spawn _ => True
  | .thread i _ => ∀ th ∈ s.threads[i]?, reenters th = true → (s.locks .stopMu).writer = none
  | .nest i op => ∀ th ∈ s.threads[i]?, ∀ f ∈ th.frames.head?, rank f.op.id < rank op.id

instance (rank : GoString → Nat) (s : Reentrant) : (label : Label) → Decidable (s.Climbs rank label)
  | .spawn _ => isTrue trivial
  | .thread i _ => inferInstanceAs (Decidable
      (∀ th ∈ s.threads[i]?, reenters th = true → (s.locks .stopMu).writer = none))
  | .nest i op => inferInstanceAs (Decidable
      (∀ th ∈ s.threads[i]?, ∀ f ∈ th.frames.head?, rank f.op.id < rank op.id))

structure Sound (c : NodeConfig) (rank : GoString → Nat) (s : Reentrant) : Prop where
  consistent : Consistent s.locks (s.threads.map (Goroutine.holder c))
  shards : ∀ key, (s.locks (.shard key)).writer = none
  ordered : ∀ th ∈ s.threads, th.Ordered c rank

theorem Sound.set (h : s.Sound c rank) (new : Goroutine)
    (hthreads : t.threads = s.threads.set i new)
    (hconsistent : Consistent t.locks ((s.threads.map (Goroutine.holder c)).set i (new.holder c)))
    (hshards : ∀ key, (t.locks (.shard key)).writer = none) (hnew : new.Ordered c rank) :
    t.Sound c rank := by
  refine ⟨?_, hshards, fun th hth => ?_⟩
  · rw [hthreads, List.map_set]
    exact hconsistent
  · rw [hthreads] at hth
    rcases eq_or_mem_of_mem_set hth with rfl | hj
    · exact hnew
    · exact h.ordered th hj

theorem holder_of_getElem? {th : Goroutine} (hth : s.threads[i]? = some th) :
    (s.threads.map (Goroutine.holder c))[i]? = some (th.holder c) := by
  rw [List.getElem?_map, hth, Option.map_some]

theorem asks_shard {f : Frame} {key : GoString} {mode : Mode} {pc : FramePC} (hproper : f.Proper)
    (h : f.asks c = some (.shard key, mode, pc)) : mode = .shared := by
  rcases Frame.asks_key h hproper with ⟨-, hnot⟩ | ⟨hkey, -⟩ | ⟨k, -, hmode⟩ | hkey
  · exact absurd rfl (hnot key)
  · contradiction
  · exact hmode
  · contradiction

private theorem ordered_waits (hs : s.Sound c rank) {th : Goroutine} (h : th.Ordered c rank)
    (hguard : reenters th = true → (s.locks .stopMu).writer = none) {f : Frame}
    {rest : List Frame} {key : Mutex} {mode : Mode} {pc : FramePC} {w : Wait Mutex}
    (hframes : th.frames = f :: rest) (hasks : f.asks c = some (key, mode, pc))
    (hw : ((s.locks key).attempt i key mode th.waiting).2 = some w) :
    Goroutine.Ordered c rank ⟨f :: rest, some w⟩ := by
  obtain ⟨rfl, hmode, hblocked⟩ := RWMutex.attempt_waits hw
  have hchain := h.chain
  have hall := h.proper
  rw [hframes] at hchain hall
  have hproper := hall f List.mem_cons_self
  refine ⟨hchain, hall, fun w' hw' => ?_⟩
  cases hw'
  refine ⟨f, rest, mode, pc, rfl, hasks, hmode, fun hkey => ?_, fun k hkey => ?_⟩
  · rcases Frame.asks_key hasks hproper with ⟨hop, -⟩ | ⟨-, hpc, hshared⟩ | ⟨k, hk, -⟩ | hk
    · exact h.rest_of_stop hframes hop
    · cases rest with
      | nil => rfl
      | cons g rest =>
        rw [hkey] at hblocked
        exact absurd (hguard (by simp [reenters, hframes, hpc])) (hblocked hshared)
    · rw [hk] at hkey
      contradiction
    · rw [hk] at hkey
      contradiction
  · rw [hkey] at hasks hblocked
    exact hblocked (asks_shard hproper hasks) (hs.shards k)

theorem Sound.acquire (h : s.Sound c rank) {th : Goroutine} (hth : s.threads[i]? = some th)
    (hguard : reenters th = true → (s.locks .stopMu).writer = none) {f : Frame}
    {rest : List Frame} {key : Mutex} {mode : Mode} {pc : FramePC}
    (hframes : th.frames = f :: rest) (hasks : f.asks c = some (key, mode, pc)) :
    (s.acquire i th f rest key mode pc).Sound c rank := by
  have hord := h.ordered th (List.mem_of_getElem? hth)
  have hpool := holder_of_getElem? (c := c) hth
  obtain ⟨hheld, hproper⟩ := Frame.asks_spec hasks
  have hsame : ∀ k', th.waiting = some (.announced k') → k' = key ∧ mode = .exclusive := by
    intro k' hw
    obtain ⟨g, rest', mode', pc', hframes', hg, hmode, -⟩ := hord.waits _ hw
    rw [hframes] at hframes'
    cases hframes'
    rw [hasks] at hg
    cases hg
    exact ⟨rfl, hmode ⟨k', rfl⟩⟩
  have hconsistent := h.consistent.attempt hpool hsame
  have hshards : ∀ k, (Function.update s.locks key
      ((s.locks key).attempt i key mode th.waiting).1 (.shard k)).writer = none := by
    intro k
    by_cases hk : .shard k = key
    · subst hk
      have hf := hord.proper f (by rw [hframes]; exact List.mem_cons_self)
      rw [Function.update_self, asks_shard hf hasks, RWMutex.attempt_shared_writer]
      exact h.shards k
    · rw [Function.update_of_ne hk]
      exact h.shards k
  cases hout : ((s.locks key).attempt i key mode th.waiting).2 with
  | none =>
    simp only [hout, if_true, hframes, List.flatMap_cons, ← List.cons_append,
      ← hheld] at hconsistent
    simp only [Reentrant.acquire, hout, if_true]
    exact h.set _ rfl hconsistent hshards (hord.move hframes hproper)
  | some w =>
    simp only [hout, reduceCtorEq, if_false, hframes] at hconsistent
    simp only [Reentrant.acquire, hout, reduceCtorEq, if_false]
    exact h.set _ rfl hconsistent hshards (ordered_waits h hord hguard hframes hasks hout)

theorem Sound.thread (h : s.Sound c rank) {th : Goroutine} (hth : s.threads[i]? = some th)
    (hguard : reenters th = true → (s.locks .stopMu).writer = none)
    (hcase : ThreadCase c s i th t) : t.Sound c rank := by
  have hord := h.ordered th (List.mem_of_getElem? hth)
  have hpool := holder_of_getElem? (c := c) hth
  cases hcase with
  | acquire hframes hasks => exact h.acquire hth hguard hframes hasks
  | release hframes hasks hgives =>
    obtain ⟨hheld, hproper⟩ := Frame.gives_spec hgives
    simp only [Goroutine.holder, hframes, hord.waiting_none hframes hasks, List.flatMap_cons, hheld,
      List.cons_append] at hpool
    refine h.set _ rfl (h.consistent.release hpool) (fun k => ?_) (hord.move hframes hproper)
    rename_i key mode pc
    by_cases hk : .shard k = key
    · subst hk
      simp only [goto, Function.update_self]
      exact RWMutex.release_writer (h.shards k)
    · simp only [goto, Function.update_of_ne hk]
      exact h.shards k
  | returned hframes hasks hpc =>
    rename_i f rest
    have hheld : f.held c = [] := by
      simp [Frame.held, Frame.keyHeld, Frame.shardHeld, Frame.stopHeld, hpc]
    simp only [Goroutine.holder, hframes, hord.waiting_none hframes hasks, List.flatMap_cons, hheld,
      List.nil_append] at hpool
    exact h.set _ rfl (h.consistent.move hpool) h.shards (hord.pop hframes)
  | work hframes hasks hgives hwork =>
    obtain ⟨⟨hlocks, hthreads⟩, hheld, hproper⟩ := Frame.work_spec hwork hasks hgives
    simp only [Goroutine.holder, hframes, hord.waiting_none hframes hasks, List.flatMap_cons,
      ← hheld] at hpool
    refine h.set _ (by simp only [goto, hthreads]; rfl) ?_ ?_ (hord.move hframes hproper)
    · simp only [goto, hlocks]
      exact h.consistent.move hpool
    · simp only [goto, hlocks]
      exact h.shards

theorem mayNest_cases {th : Goroutine} {op : Operation} (h : mayNest th op = true) :
    ∃ f rest, th.frames = f :: rest ∧ f.nests ∧ op.nestable = true := by
  unfold mayNest at h
  split at h
  · contradiction
  · rename_i f rest hframes
    obtain ⟨hnests, hop, -⟩ := of_decide_eq_true h
    exact ⟨f, rest, hframes, hnests, hop⟩

theorem Sound.nest (h : s.Sound c rank) {th : Goroutine} (hth : s.threads[i]? = some th)
    {op : Operation} (hmay : mayNest th op = true)
    (hguard : ∀ f ∈ th.frames.head?, rank f.op.id < rank op.id) :
    Sound c rank { s with threads := s.threads.set i ⟨op.enter :: th.frames, none⟩ } := by
  have hord := h.ordered th (List.mem_of_getElem? hth)
  have hpool := holder_of_getElem? (c := c) hth
  obtain ⟨f, rest, hframes, hnests, hop⟩ := mayNest_cases hmay
  rw [hframes] at hguard ⊢
  have hwaiting := hord.waiting_none hframes (Frame.asks_of_nests hnests)
  refine h.set _ rfl ?_ h.shards (hord.push hframes hnests hop (hguard f rfl))
  refine h.consistent.move ?_
  rw [hpool]
  simp [Goroutine.holder, hframes, hwaiting, (Frame.enter_spec (c := c) op).1]

theorem Sound.spawn (h : s.Sound c rank) (op : Operation) :
    Sound c rank { s with threads := s.threads ++ [⟨[op.enter], none⟩] } := by
  refine ⟨?_, h.shards, fun th hth => ?_⟩
  · rw [List.map_append]
    exact h.consistent.spawn _
  · rcases mem_concat_cases hth with hth | rfl
    · exact h.ordered th hth
    · exact .single op

theorem Sound.step (h : s.Sound c rank) {label : Label} (hguard : s.Climbs rank label)
    (hstep : s.step c label = some t) : t.Sound c rank := by
  cases label with
  | spawn op =>
    cases hstep
    exact h.spawn op
  | thread i ok =>
    obtain ⟨th, hth, hstep⟩ := Option.bind_eq_some_iff.mp hstep
    exact h.thread hth (hguard th hth) (threadStep_case hstep)
  | nest i op =>
    simp only [Reentrant.step] at hstep
    split at hstep
    · contradiction
    · rename_i th hth
      split at hstep
      · rename_i hmay
        cases hstep
        exact h.nest hth hmay (hguard th hth)
      · contradiction

theorem sound_of_reachable (h : (machine c).Reachable (Climbs rank) s) : s.Sound c rank := by
  refine h.invariant ?_ fun hs hguard hstep => hs.step hguard hstep
  rintro s ⟨objects, rfl⟩
  refine ⟨⟨?_, ?_⟩, ?_, ?_⟩ <;> simp [start, RWMutex.free]

/-- If `stopMu` is asked for again only while no `Stop` has it or awaits it, and the calls of
methods and hooks climb a fixed order of the ids, then no set of goroutines is deadlocked in
any state that is reached. -/
theorem node_locks_never_deadlock (c : NodeConfig) (rank : GoString → Nat) {s : Reentrant}
    (h : (machine c).Reachable (Climbs rank) s) (S : Finset Nat) : ¬ s.Deadlock c S := by
  have hs := sound_of_reachable h
  refine hs.consistent.not_deadlocked (Mutex.rank rank) ?_ S
  intro holder hholder w hw held hheld
  obtain ⟨th, hth, rfl⟩ := List.mem_map.mp hholder
  exact (hs.ordered th hth).ascending hw hheld

def threadSteps (i n : Nat) : List Label := List.replicate n (.thread i true)

/-- A method of `a` calls `b` while a `Stop` waits for the method to end. -/
def stopMeetsNestedCall : List Label :=
  .spawn (.call (lit "a")) :: threadSteps 0 13 ++ .spawn .stop :: threadSteps 1 2 ++
    .nest 0 (.call (lit "b")) :: threadSteps 0 1

/-- The hooks of two new objects call each other. -/
def hooksCross : List Label :=
  .spawn (.create (lit "a")) :: threadSteps 0 8 ++ .spawn (.create (lit "b")) :: threadSteps 1 8 ++
    .nest 0 (.call (lit "b")) :: threadSteps 0 6 ++ .nest 1 (.call (lit "a")) :: threadSteps 1 6

theorem nested_calls_deadlock :
    (∃ s, (machine ⟨some 4⟩).Steps Machine.Any (start []) stopMeetsNestedCall s ∧
      s.Deadlock ⟨some 4⟩ {0, 1}) ∧
    ∃ s, (machine ⟨some 4⟩).Steps Machine.Any (start []) hooksCross s ∧
      s.Deadlock ⟨some 4⟩ {0, 1} := by
  have hstop : ((machine ⟨some 4⟩).exec Machine.Any (start []) stopMeetsNestedCall).any
      (fun s => decide (s.Deadlock ⟨some 4⟩ {0, 1})) = true := by
    decide +kernel
  have hcross : ((machine ⟨some 4⟩).exec Machine.Any (start []) hooksCross).any
      (fun s => decide (s.Deadlock ⟨some 4⟩ {0, 1})) = true := by
    decide +kernel
  obtain ⟨s, hs, hdead⟩ := Machine.exec_any hstop
  obtain ⟨t, ht, hdead'⟩ := Machine.exec_any hcross
  exact ⟨⟨s, hs, of_decide_eq_true hdead⟩, t, ht, of_decide_eq_true hdead'⟩

/-- A `Stop` waits for a `DeleteObject`, which waits for a method that has called `b`. -/
def queueBehindMethod : List Label :=
  .spawn (.call (lit "a")) :: threadSteps 0 13 ++ .spawn (.delete (lit "a")) :: threadSteps 1 3 ++
    .nest 0 (.call (lit "b")) :: threadSteps 0 13 ++ .spawn .stop :: threadSteps 2 2

/-- The order of the bytes. -/
def firstByte (id : GoString) : Nat := (id.head?.map UInt8.toNat).getD 0

theorem node_locks_never_deadlock_queueBehindMethod :
    ∃ s, (machine ⟨some 4⟩).Steps (Climbs firstByte) (start []) queueBehindMethod s ∧
      (WaitsFor s.locks (s.threads.map (Goroutine.holder ⟨some 4⟩)) 2 1 ∧
        WaitsFor s.locks (s.threads.map (Goroutine.holder ⟨some 4⟩)) 1 0) ∧
      ∀ S, ¬ s.Deadlock ⟨some 4⟩ S := by
  have hrun : ((machine ⟨some 4⟩).exec (Climbs firstByte) (start []) queueBehindMethod).any
      (fun s => decide (WaitsFor s.locks (s.threads.map (Goroutine.holder ⟨some 4⟩)) 2 1 ∧
        WaitsFor s.locks (s.threads.map (Goroutine.holder ⟨some 4⟩)) 1 0)) = true := by
    decide +kernel
  obtain ⟨s, hs, hwaits⟩ := Machine.exec_any hrun
  exact ⟨s, hs, of_decide_eq_true hwaits,
    node_locks_never_deadlock ⟨some 4⟩ firstByte ⟨_, _, ⟨[], rfl⟩, hs⟩⟩

end Reentrant
end Goverse.Node
