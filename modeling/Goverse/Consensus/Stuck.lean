import Goverse.Consensus.World

/-! Shards that are assigned and not claimed. The leader notes when its check first finds one and
takes the target back when the note is old enough. A note belongs to a shard and not to its
target, and only a check removes it: a shard that gets another target between two checks passes
its note on to it. -/
namespace Goverse.Consensus

open GoString Lib ClusterState

/-- Where `leaderShardManagementLogic` is. `count` and `failed` are what `storeShardMapping` has
stored so far, and whether an entry has failed. -/
inductive Stage where
  | idle
  | reassign
  | due
  | reallocate
  | rebalance
  | storing (job : Job) (plan : Plan) (count : Nat) (failed : Bool)

/-- What follows a call of `storeShardMapping`. -/
def Stage.after (count : Nat) (failed : Bool) : Job → Stage
  | .reassign => if 0 < count ∨ failed = true then .idle else .due
  | .reallocate => if 0 < count then .idle else .rebalance
  | _ => .idle

structure Leadership where
  view : ClusterState
  stuckShardFirstSeen : List (Int × Int)
  /-- None is the zero time. -/
  lastStuckShardCheck : Option Int
  clock : Int
  stage : Stage

namespace Leadership

/-- In nanoseconds. -/
def stuckShardCheckInterval : Int := 60000000000

/-- `applied` is the update of the view after a claim or a release of this node. -/
inductive Action where
  | event (w : Write GoString GoString) (rev : Nat)
  | reload (etcd : Etcd)
  | applied (shardID : Int) (info : ShardInfo) (rev : Nat)
  | tick
  | reassign (shuffled : List Int) (offset : Nat)
  | stored (shardID : Int) (rev : Nat)
  | failed (shardID : Int)
  | finish
  | due
  | reallocate
  | rebalance
  deriving DecidableEq, Repr

/-- An action and the time at which it is taken. -/
abbrev Label := Action × Int

def isLeader (s : Leadership) (self : GoString) : Bool :=
  s.view.leader != [] && s.view.leader == self

def checkIsDue (s : Leadership) (now : Int) : Bool :=
  match s.lastStuckShardCheck with
  | none => true
  | some last => decide (stuckShardCheckInterval ≤ now - last)

def logicStep (c : Config) (self : GoString) (now : Int) (s : Leadership) :
    Stage → Action → Option Leadership
  | .idle, .tick =>
    some (if s.isLeader self && s.view.isStateStable c self now then { s with stage := .reassign }
      else s)
  | .reassign, .reassign shuffled offset =>
    (calcReassignShardTargetNodes c s.view shuffled offset).map fun plan =>
      { s with stage := .storing .reassign plan 0 false }
  | .due, .due =>
    some (if s.checkIsDue now then
        { s with lastStuckShardCheck := some now, stage := .reallocate }
      else { s with stage := .rebalance })
  | .reallocate, .reallocate =>
    some { s with
      stuckShardFirstSeen := (calcReallocateStuckShards c s.view s.stuckShardFirstSeen now).2
      stage := .storing .reallocate
        (calcReallocateStuckShards c s.view s.stuckShardFirstSeen now).1 0 false }
  | .rebalance, .rebalance =>
    some { s with stage := .storing .rebalance (rebalanceShards c s.view) 0 false }
  | .storing job plan count failed, .stored shardID rev =>
    (plan.find? fun entry => entry.1 = shardID).map fun entry =>
      { s with
        view := s.view.applyStored shardID entry.2 rev
        stage := .storing job (plan.filter fun entry => entry.1 ≠ shardID) (count + 1) failed }
  | .storing job plan count _, .failed shardID =>
    some { s with stage := .storing job (plan.filter fun entry => entry.1 ≠ shardID) count true }
  | .storing job [] count failed, .finish => some { s with stage := .after count failed job }
  | _, _ => none

def act (c : Config) (self : GoString) (now : Int) (s : Leadership) : Action → Option Leadership
  | .event w rev => some { s with view := s.view.handleEvent c now w rev }
  | .reload etcd => some { s with view := load c etcd now }
  | .applied shardID info rev => some { s with view := s.view.applyStored shardID info rev }
  | action => s.logicStep c self now s.stage action

/-- Time does not go back. -/
def step (c : Config) (self : GoString) (s : Leadership) (label : Label) : Option Leadership :=
  if s.clock ≤ label.2 then (s.act c self label.2 label.1).map ({ · with clock := label.2 })
  else none

/-- A manager with any view, before its first check. -/
def machine (c : Config) (self : GoString) : Machine Leadership Label where
  Init s := s.stuckShardFirstSeen = [] ∧ s.lastStuckShardCheck = none ∧ s.stage matches .idle
  step s label := s.step c self label

/-- What a step does to the notes. -/
inductive NotesCase (c : Config) (s : Leadership) : Label → Leadership → Prop
  | kept {label : Label} {t : Leadership} (seen : t.stuckShardFirstSeen = s.stuckShardFirstSeen) :
      NotesCase c s label t
  | checked {now : Int} {t : Leadership} (view : t.view = s.view)
      (seen : t.stuckShardFirstSeen =
        (calcReallocateStuckShards c s.view s.stuckShardFirstSeen now).2) :
      NotesCase c s (.reallocate, now) t

private theorem logicStep_notes {c : Config} {self : GoString} {now : Int} {s t : Leadership}
    {stage : Stage} {action : Action} (h : s.logicStep c self now stage action = some t) :
    NotesCase c s (action, now) t := by
  unfold logicStep at h
  split at h
  · cases h
    refine .kept ?_
    split <;> rfl
  · obtain ⟨plan, -, rfl⟩ := Option.map_eq_some_iff.mp h
    exact .kept rfl
  · cases h
    refine .kept ?_
    split <;> rfl
  · cases h
    exact .checked rfl rfl
  · cases h
    exact .kept rfl
  · obtain ⟨entry, -, rfl⟩ := Option.map_eq_some_iff.mp h
    exact .kept rfl
  · cases h
    exact .kept rfl
  · cases h
    exact .kept rfl
  · contradiction

theorem step_notes {c : Config} {self : GoString} {s t : Leadership} {label : Label}
    (h : s.step c self label = some t) : NotesCase c s label t := by
  obtain ⟨action, now⟩ := label
  rw [step] at h
  split at h
  · obtain ⟨u, hu, rfl⟩ := Option.map_eq_some_iff.mp h
    have hnotes : NotesCase c s (action, now) u := by
      unfold act at hu
      split at hu
      · cases hu
        exact .kept rfl
      · cases hu
        exact .kept rfl
      · cases hu
        exact .kept rfl
      · exact logicStep_notes hu
    cases hnotes with
    | kept seen => exact .kept seen
    | checked view seen => exact .checked view seen
  · contradiction

/-! ### Notes and targets -/

/-- The shard is assigned to a live node, which has not claimed it. -/
structure Awaits (view : ClusterState) (shardID : Int) (node : GoString) : Prop where
  target : (view.shard shardID).targetNode = node
  unclaimed : (view.shard shardID).currentNode = []
  alive : view.hasNode node = true

instance (view : ClusterState) (shardID : Int) (node : GoString) :
    Decidable (Awaits view shardID node) :=
  decidable_of_iff ((view.shard shardID).targetNode = node ∧
    (view.shard shardID).currentNode = [] ∧ view.hasNode node = true)
    ⟨fun h => ⟨h.1, h.2.1, h.2.2⟩, fun h => ⟨h.target, h.unclaimed, h.alive⟩⟩

theorem awaits_of_isStuck {view : ClusterState} {shardID : Int}
    (h : isStuck view (view.shard shardID) = true) :
    Awaits view shardID (view.shard shardID).targetNode := by
  simp only [isStuck, Bool.and_eq_true, beq_iff_eq] at h
  exact ⟨rfl, h.1.1.2, h.1.2⟩

theorem mem_of_lookup {seen : List (Int × Int)} {shardID since : Int}
    (h : seen.lookup shardID = some since) : (shardID, since) ∈ seen := by
  induction seen with
  | nil => contradiction
  | cons entry seen ih =>
    obtain ⟨id, time⟩ := entry
    rw [List.lookup_cons] at h
    split at h
    · rename_i hid
      cases h
      rw [eq_of_beq hid]
      exact List.mem_cons_self
    · exact List.mem_cons_of_mem _ (ih h)

section Check

variable {c : Config} {view : ClusterState} {seen : List (Int × Int)} {now : Int} {shardID : Int}

private theorem check_notes {since : Int}
    (h : (shardID, since) ∈ (calcReallocateStuckShards c view seen now).2) :
    Awaits view shardID (view.shard shardID).targetNode ∧
      (since = now ∨ (shardID, since) ∈ seen) := by
  unfold calcReallocateStuckShards at h
  split at h
  · contradiction
  obtain ⟨entry, hentry, heq⟩ := List.mem_filterMap.mp h
  obtain ⟨-, hshard⟩ := shard_of_mem_entries hentry
  split at heq
  · rename_i hstuck
    rw [← hshard] at hstuck
    split at heq
    · cases heq
      exact ⟨awaits_of_isStuck hstuck, .inl rfl⟩
    · rename_i time hlookup
      split at heq
      · cases heq
        exact ⟨awaits_of_isStuck hstuck, .inr (mem_of_lookup hlookup)⟩
      · contradiction
  · contradiction

private theorem check_clears {info : ShardInfo}
    (h : (shardID, info) ∈ (calcReallocateStuckShards c view seen now).1) :
    info = (view.shard shardID).withTargetNode [] ∧
      Awaits view shardID (view.shard shardID).targetNode ∧
      ∃ since, (shardID, since) ∈ seen ∧ since + c.stuckShardTimeout ≤ now := by
  obtain ⟨-, hstuck, hinfo, since, hlookup, hold⟩ := mem_calcReallocateStuckShards h
  exact ⟨hinfo, awaits_of_isStuck hstuck, since, mem_of_lookup hlookup, hold⟩

end Check

/-- A shard that has a note is not assigned anew: if it awaits a node after the step, it did so
before. -/
def Uninterrupted (c : Config) (self : GoString) (s : Leadership) (label : Label) : Prop :=
  ∀ t ∈ s.step c self label, ∀ note ∈ s.stuckShardFirstSeen,
    Awaits t.view note.1 (t.view.shard note.1).targetNode →
      Awaits s.view note.1 (t.view.shard note.1).targetNode

instance (c : Config) (self : GoString) (s : Leadership) (label : Label) :
    Decidable (Uninterrupted c self s label) := by
  unfold Uninterrupted
  infer_instance

/-- There was a check at `since`, and the shard has awaited `node` from then on. -/
def Waited (c : Config) (self : GoString) (s₀ : Leadership) (labels : List Label) (s : Leadership)
    (shardID : Int) (node : GoString) (since : Int) : Prop :=
  ∃ before after u, labels = before ++ (.reallocate, since) :: after ∧
    (machine c self).Steps Machine.Any s₀ before u ∧
    (machine c self).Steps (fun v _ => Awaits v.view shardID node) u
      ((.reallocate, since) :: after) s

section Run

variable {c : Config} {self : GoString} {s₀ s t : Leadership} {labels : List Label}
  {label : Label} {shardID : Int} {node : GoString} {since : Int}

theorem Waited.snoc (h : Waited c self s₀ labels s shardID node since)
    (hawaits : Awaits s.view shardID node) (hstep : s.step c self label = some t) :
    Waited c self s₀ (labels ++ [label]) t shardID node since := by
  obtain ⟨before, after, u, rfl, hbefore, hafter⟩ := h
  exact ⟨before, after ++ [label], u, by simp, hbefore, hafter.snoc hawaits hstep⟩

private theorem waited_of_note (hinit : (machine c self).Init s₀)
    (hrun : (machine c self).Steps (Uninterrupted c self) s₀ labels s)
    (hnote : (shardID, since) ∈ s.stuckShardFirstSeen)
    (hawaits : Awaits s.view shardID (s.view.shard shardID).targetNode) :
    Waited c self s₀ labels s shardID (s.view.shard shardID).targetNode since := by
  induction hrun generalizing since with
  | nil =>
    rw [hinit.1] at hnote
    contradiction
  | @snoc s t labels label hprev hok hstep ih =>
    cases step_notes hstep with
    | kept seen =>
      rw [seen] at hnote
      have hbefore := hok t hstep _ hnote hawaits
      have hwaited := ih hnote (by rw [hbefore.target]; exact hbefore)
      rw [hbefore.target] at hwaited
      exact hwaited.snoc hbefore hstep
    | @checked now _ view seen =>
      rw [seen] at hnote
      rw [view] at hawaits ⊢
      obtain ⟨-, rfl | hold⟩ := check_notes hnote
      · exact ⟨labels, [], s, rfl, hprev.mono fun _ => trivial, Machine.Steps.single hawaits hstep⟩
      · exact (ih hold hawaits).snoc hawaits hstep

end Run

/-- When a check takes a shard back from its target, and no shard with a note was assigned anew,
then the target has had the full time: there was a check that long ago, and from then on the
shard has awaited the node that it is now taken from. -/
theorem target_gets_full_claim_window (c : Config) (self : GoString) (s₀ s t : Leadership)
    (hinit : (machine c self).Init s₀) (labels : List Label)
    (hrun : (machine c self).Steps (Uninterrupted c self) s₀ labels s) (now : Int)
    (_hstep : s.step c self (.reallocate, now) = some t) (shardID : Int) (info : ShardInfo)
    (hcleared : (shardID, info) ∈
      (calcReallocateStuckShards c s.view s.stuckShardFirstSeen now).1) :
    info = (s.view.shard shardID).withTargetNode [] ∧
    ∃ since, since + c.stuckShardTimeout ≤ now ∧
      ∃ before after u, labels = before ++ (.reallocate, since) :: after ∧
        (machine c self).Steps Machine.Any s₀ before u ∧
        (machine c self).Steps
          (fun v _ => Awaits v.view shardID (s.view.shard shardID).targetNode) u
          ((.reallocate, since) :: after) s ∧
        Awaits s.view shardID (s.view.shard shardID).targetNode := by
  obtain ⟨hinfo, hawaits, since, hnote, hold⟩ := check_clears hcleared
  obtain ⟨before, after, u, hlabels, hbefore, hafter⟩ := waited_of_note hinit hrun hnote hawaits
  exact ⟨hinfo, since, hold, before, after, u, hlabels, hbefore, hafter, hawaits⟩

section Examples

def registration (node : GoString) : Write GoString GoString :=
  ⟨twoShards.nodesPrefix ++ node, some node⟩

/-- `a` is the leader, and shard 0 is assigned to `x`, which has not claimed it. -/
def assignedToX : Etcd :=
  [registration (lit "a"), registration (lit "b"), registration (lit "x"),
    ⟨twoShards.leaderKey, some (lit "a")⟩, ⟨twoShards.shardKey 0, some (lit "x,")⟩,
    ⟨twoShards.shardKey 1, some (lit "a,a")⟩]

def fresh : Leadership := ⟨ClusterState.empty, [], none, 0, .idle⟩

private theorem init_fresh : (machine twoShards (lit "a")).Init fresh := ⟨rfl, rfl, rfl⟩

/-- A tick at which no shard needs a target. -/
def quietTick (now : Int) : List Label :=
  [(.tick, now), (.reassign [] 0, now), (.finish, now), (.due, now)]

/-- The first check notes shard 0, and nothing is rebalanced. -/
def firstCheck : List Label :=
  (.reload assignedToX, 0) :: quietTick 0 ++
    [(.reallocate, 0), (.finish, 0), (.rebalance, 0), (.finish, 0)]

def minute : Int := stuckShardCheckInterval

theorem target_gets_full_claim_window_noted : ∃ s t : Leadership,
    (machine twoShards (lit "a")).Steps (Uninterrupted twoShards (lit "a")) fresh
      (firstCheck ++ quietTick minute) s ∧
    s.step twoShards (lit "a") (.reallocate, minute) = some t ∧
    ∃ since before after, since + 60 ≤ minute ∧
      firstCheck ++ quietTick minute = before ++ (.reallocate, since) :: after := by
  have hexec : ((machine twoShards (lit "a")).exec (Uninterrupted twoShards (lit "a")) fresh
      (firstCheck ++ quietTick minute)).any (fun s =>
        (s.step twoShards (lit "a") (.reallocate, minute)).isSome &&
        (calcReallocateStuckShards twoShards s.view s.stuckShardFirstSeen minute).1.any
          fun entry => decide (entry.1 = 0)) = true := by decide +kernel
  obtain ⟨s, hrun, htest⟩ := Machine.exec_any hexec
  obtain ⟨hsome, hany⟩ := Bool.and_eq_true_iff.mp htest
  obtain ⟨t, ht⟩ := Option.isSome_iff_exists.mp hsome
  obtain ⟨⟨shardID, info⟩, hentry, -⟩ := List.any_eq_true.mp hany
  obtain ⟨-, since, hold, before, after, -, hlabels, -⟩ := target_gets_full_claim_window twoShards
    (lit "a") fresh s t init_fresh _ hrun minute ht shardID info hentry
  exact ⟨s, t, hrun, ht, since, before, after, hold, hlabels⟩

/-- `x` leaves. -/
def leaves : Label := (.event ⟨twoShards.nodesPrefix ++ lit "x", none⟩ 7, minute)

/-- The leader gives shard 0 to `b`, and is at its next check one tick later. -/
def givenToB : List Label :=
  [(.tick, minute + 1), (.reassign [0] 1, minute + 1), (.stored 0 8, minute + 1),
    (.finish, minute + 1)] ++ quietTick (minute + 2)

/-- The note of shard 0 was made when it was assigned to `x`. It is taken from `b`, although two
units of time before it was not assigned to `b`. -/
theorem reassigned_target_inherits_note : ∃ u s t : Leadership,
    (machine twoShards (lit "a")).Steps Machine.Any fresh (firstCheck ++ [leaves]) u ∧
    (machine twoShards (lit "a")).Steps Machine.Any u givenToB s ∧
    s.step twoShards (lit "a") (.reallocate, minute + 2) = some t ∧
    minute + 2 < u.clock + twoShards.stuckShardTimeout ∧
    (u.view.shard 0).targetNode = lit "x" ∧ (s.view.shard 0).targetNode = lit "b" ∧
    ∃ info, (0, info) ∈ (calcReallocateStuckShards twoShards s.view s.stuckShardFirstSeen
      (minute + 2)).1 := by
  have hexec : ((machine twoShards (lit "a")).exec Machine.Any fresh (firstCheck ++ [leaves])).any
      (fun u => decide (minute + 2 < u.clock + twoShards.stuckShardTimeout ∧
          (u.view.shard 0).targetNode = lit "x") &&
        ((machine twoShards (lit "a")).exec Machine.Any u givenToB).any fun s =>
          (s.step twoShards (lit "a") (.reallocate, minute + 2)).isSome &&
          decide ((s.view.shard 0).targetNode = lit "b") &&
          (calcReallocateStuckShards twoShards s.view s.stuckShardFirstSeen (minute + 2)).1.any
            fun entry => decide (entry.1 = 0)) = true := by decide +kernel
  obtain ⟨u, hu, htest⟩ := Machine.exec_any hexec
  obtain ⟨hbefore, hrest⟩ := Bool.and_eq_true_iff.mp htest
  obtain ⟨hrecent, hx⟩ := of_decide_eq_true hbefore
  obtain ⟨s, hs, hafter⟩ := Machine.exec_any hrest
  obtain ⟨hstep, hany⟩ := Bool.and_eq_true_iff.mp hafter
  obtain ⟨hsome, hb⟩ := Bool.and_eq_true_iff.mp hstep
  obtain ⟨t, ht⟩ := Option.isSome_iff_exists.mp hsome
  obtain ⟨⟨shardID, info⟩, hentry, hid⟩ := List.any_eq_true.mp hany
  cases of_decide_eq_true hid
  exact ⟨u, s, t, hu, hs, ht, hrecent, hx, of_decide_eq_true hb, info, hentry⟩

end Examples
end Leadership
end Goverse.Consensus
