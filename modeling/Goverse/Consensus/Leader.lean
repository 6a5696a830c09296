import Goverse.Consensus.Ownership

/-! The leader's election. Any number of nodes run `TryBecomeLeader` on views of any age. The
comparison in its transaction is with the revision of the leader that was read, so it replaces
what was read and nothing else, provided that a view never holds the leader of one record with
the revision of another. -/
namespace Goverse.Consensus

open GoString Lib ClusterState

/-- How a call of `TryBecomeLeader` returns; only the first is no error. -/
inductive Verdict where
  | ok
  | notInCluster
  | noClient
  | failed
  deriving DecidableEq, Repr

/-- Where a call of `TryBecomeLeader` is. `decided` is the view it read. -/
inductive Bid where
  | read
  | txn (decided : ClusterState)
  | apply (decided : ClusterState) (rev : Nat)
  | returned (verdict : Verdict)

def Bid.decided : Bid → Option ClusterState
  | .txn decided | .apply decided _ => some decided
  | .read | .returned _ => none

/-- `TryBecomeLeader` up to its transaction. -/
def tryBecomeLeader (view : ClusterState) (self : GoString) : Bid :=
  if view.leader ≠ [] ∧ view.hasNode view.leader = true then .returned .ok
  else if view.leader = self then .returned .ok
  else if view.hasNode self = false then .returned .notInCluster
  else .txn view

/-- The in-memory update after a transaction of `self` that succeeded. -/
def ClusterState.applyLeader (view : ClusterState) (self : GoString) (rev : Nat) : ClusterState :=
  if view.leaderModRevision < rev then { view with leader := self, leaderModRevision := rev }
  else view

structure Candidate where
  node : GoString
  bid : Bid

structure Election where
  etcd : Etcd
  members : GoString → Member
  candidates : List Candidate

/-- What becomes of a transaction: it is not sent, it is sent and fails, or it is carried out,
and its answer arrives or gets lost. -/
inductive TxnOutcome where
  | noClient
  | fail
  | answered
  | lost
  deriving DecidableEq, Repr

namespace Election

/-- An `environment` write is any but one of the leader's key. -/
inductive Label where
  | environment (w : Write GoString GoString)
  | watch (node : GoString) (event : WatchEvent)
  | campaign (node : GoString)
  | read (i : Nat)
  | txn (i : Nat) (outcome : TxnOutcome)
  | apply (i : Nat)
  deriving DecidableEq, Repr

variable {c : Config}

def setMember (s : Election) (a : GoString) (m : Member) : Election :=
  { s with members := Function.update s.members a m }

@[simp] theorem members_setMember_self (s : Election) (a : GoString) (m : Member) :
    (s.setMember a m).members a = m := by
  simp only [setMember, Function.update_self]

@[simp] theorem members_setMember_of_ne (s : Election) {a b : GoString} (h : b ≠ a) (m : Member) :
    (s.setMember a m).members b = s.members b := by
  simp only [setMember, Function.update_of_ne h]

def goto (s : Election) (i : Nat) (a : GoString) (bid : Bid) : Election :=
  { s with candidates := s.candidates.set i ⟨a, bid⟩ }

def txnStep (c : Config) (s : Election) (i : Nat) (a : GoString) (decided : ClusterState) :
    TxnOutcome → Election
  | .noClient => s.goto i a (.returned .noClient)
  | .fail => s.goto i a (.returned .failed)
  | .answered =>
    match s.etcd.txn c.leaderKey decided.leaderModRevision a with
    | none => s.goto i a (.returned .ok)
    | some etcd => { s with etcd := etcd }.goto i a (.apply decided etcd.length)
  | .lost =>
    match s.etcd.txn c.leaderKey decided.leaderModRevision a with
    | none => s.goto i a (.returned .failed)
    | some etcd => { s with etcd := etcd }.goto i a (.returned .failed)

def step (c : Config) (s : Election) : Label → Option Election
  | .environment w =>
    if w.key = c.leaderKey then none else some { s with etcd := s.etcd ++ [w] }
  | .watch a event => ((s.members a).step c (Etcd.source c s.etcd) event).map (s.setMember a)
  | .campaign a => some { s with candidates := s.candidates ++ [⟨a, .read⟩] }
  | .read i =>
    match s.candidates[i]? with
    | some ⟨a, .read⟩ => some (s.goto i a (tryBecomeLeader (s.members a).view a))
    | _ => none
  | .txn i outcome =>
    match s.candidates[i]? with
    | some ⟨a, .txn decided⟩ => some (s.txnStep c i a decided outcome)
    | _ => none
  | .apply i =>
    match s.candidates[i]? with
    | some ⟨a, .apply _ rev⟩ =>
      some ((s.setMember a { s.members a with
        view := (s.members a).view.applyLeader a rev }).goto i a (.returned .ok))
    | _ => none

def start (etcd : Etcd) : Election where
  etcd := etcd
  members := fun _ => ⟨ClusterState.empty, .unloaded⟩
  candidates := []

/-- The leader's key may have any history without a deletion. -/
def machine (c : Config) : Machine Election Label where
  Init s := ∃ etcd, ⟨c.leaderKey, none⟩ ∉ etcd ∧ s = start etcd
  step := step c

/-! ### Everything a step can do -/

inductive StepCase (c : Config) (s : Election) : Label → Election → Prop
  | environment {w : Write GoString GoString} (hw : w.key ≠ c.leaderKey) :
      StepCase c s (.environment w) { s with etcd := s.etcd ++ [w] }
  | watch {a : GoString} {event : WatchEvent} {m : Member}
      (hm : (s.members a).StepCase c (Etcd.source c s.etcd) event m) :
      StepCase c s (.watch a event) (s.setMember a m)
  | campaign {a : GoString} :
      StepCase c s (.campaign a) { s with candidates := s.candidates ++ [⟨a, .read⟩] }
  | read {i : Nat} {a : GoString} (hi : s.candidates[i]? = some ⟨a, .read⟩) :
      StepCase c s (.read i) (s.goto i a (tryBecomeLeader (s.members a).view a))
  | refuse {i : Nat} {outcome : TxnOutcome} {a : GoString} {decided : ClusterState}
      {verdict : Verdict} (hi : s.candidates[i]? = some ⟨a, .txn decided⟩) :
      StepCase c s (.txn i outcome) (s.goto i a (.returned verdict))
  | commit {i : Nat} {outcome : TxnOutcome} {a : GoString} {decided : ClusterState} {bid : Bid}
      (hi : s.candidates[i]? = some ⟨a, .txn decided⟩)
      (hmod : s.etcd.modRevision c.leaderKey = decided.leaderModRevision)
      (hbid : bid = .apply decided (s.etcd.length + 1) ∨ bid = .returned .failed) :
      StepCase c s (.txn i outcome)
        (({ s with etcd := s.etcd ++ [⟨c.leaderKey, some a⟩] } : Election).goto i a bid)
  | apply {i : Nat} {a : GoString} {decided : ClusterState} {rev : Nat}
      (hi : s.candidates[i]? = some ⟨a, .apply decided rev⟩) :
      StepCase c s (.apply i) ((s.setMember a { s.members a with
        view := (s.members a).view.applyLeader a rev }).goto i a (.returned .ok))

theorem txnStep_cases {s : Election} {i : Nat} {a : GoString} {decided : ClusterState}
    (hi : s.candidates[i]? = some ⟨a, .txn decided⟩) (outcome : TxnOutcome) :
    StepCase c s (.txn i outcome) (s.txnStep c i a decided outcome) := by
  cases outcome with
  | noClient | fail => exact .refuse hi
  | answered | lost =>
    rw [txnStep]
    split
    · exact .refuse hi
    · rename_i etcd htxn
      obtain ⟨hmod, rfl⟩ := Log.txn_eq_some htxn
      refine .commit hi hmod ?_
      simp

theorem step_cases {s t : Election} {label : Label} (h : s.step c label = some t) :
    StepCase c s label t := by
  cases label with
  | environment w =>
    rw [step] at h
    split at h
    · contradiction
    · rename_i hw
      cases h
      exact .environment hw
  | watch a event =>
    obtain ⟨m, hm, rfl⟩ := Option.map_eq_some_iff.mp h
    exact .watch (Member.step_cases hm)
  | campaign a =>
    cases h
    exact .campaign
  | read i =>
    rw [step] at h
    split at h
    · rename_i a hi
      cases h
      exact .read hi
    · contradiction
  | txn i outcome =>
    rw [step] at h
    split at h
    · rename_i a decided hi
      cases h
      exact txnStep_cases hi outcome
    · contradiction
  | apply i =>
    rw [step] at h
    split at h
    · rename_i a decided rev hi
      cases h
      exact .apply hi
    · contradiction

/-! ### A view's leader and its revision belong together -/

def Paired (c : Config) (etcd : Etcd) (view : ClusterState) : Prop :=
  (view.leader = [] ∧ view.leaderModRevision = 0) ∨
    etcd.Version c.leaderKey view.leaderModRevision view.leader

/-- The leader in etcd and its revision; without a record they are those of an empty view. -/
def storedLeader (c : Config) (etcd : Etcd) : GoString × Nat :=
  (etcd.get c.leaderKey).getD ([], 0)

section Paired

variable {etcd : Etcd} {view : ClusterState}

theorem Paired.concat (h : Paired c etcd view) (w : Write GoString GoString) :
    Paired c (etcd ++ [w]) view :=
  h.imp_right fun hversion => hversion.concat w

theorem Paired.congr {next : ClusterState} (h : Paired c etcd view)
    (hleader : next.leader = view.leader)
    (hrev : next.leaderModRevision = view.leaderModRevision) : Paired c etcd next := by
  rw [Paired, hleader, hrev]
  exact h

theorem handleEvent_leader_of_ne (view : ClusterState) (now : Int)
    {w : Write GoString GoString} (rev : Nat) (hw : w.key ≠ c.leaderKey) :
    (view.handleEvent c now w rev).leader = view.leader ∧
      (view.handleEvent c now w rev).leaderModRevision = view.leaderModRevision := by
  unfold ClusterState.handleEvent
  rw [if_neg hw]
  split
  · exact ⟨rfl, rfl⟩
  split
  · unfold handleNodeEvent
    split <;> exact ⟨rfl, rfl⟩
  split
  · unfold handleGateEvent
    split <;> exact ⟨rfl, rfl⟩
  split
  · unfold handleShardEvent
    split
    · exact ⟨rfl, rfl⟩
    split
    · exact ⟨rfl, rfl⟩
    split <;> exact ⟨rfl, rfl⟩
  · exact ⟨rfl, rfl⟩

theorem Paired.handleEvent (h : Paired c etcd view) (hkept : ⟨c.leaderKey, none⟩ ∉ etcd)
    (now : Int) {w : Write GoString GoString} {cursor : Nat} (hw : etcd[cursor]? = some w) :
    Paired c etcd (view.handleEvent c now w (cursor + 1)) := by
  by_cases hkey : w.key = c.leaderKey
  · obtain ⟨key, value⟩ := w
    subst hkey
    unfold ClusterState.handleEvent
    split
    · exact h
    rw [if_pos rfl, handleLeaderEvent]
    split
    · exact h
    cases value with
    | none => exact absurd (List.mem_of_getElem? hw) hkept
    | some value => exact .inr ⟨cursor, rfl, hw⟩
  · obtain ⟨hleader, hrev⟩ := handleEvent_leader_of_ne view now (cursor + 1) hkey
    exact h.congr hleader hrev

theorem Paired.load (now : Int) : Paired c etcd (ClusterState.load c etcd now) := by
  refine load_induction now (.inl ⟨rfl, rfl⟩) fun {view key value rev} h hget => ?_
  have heffect := loadKey_effect c view (key, value, rev)
  generalize view.loadKey c (key, value, rev) = next at heffect ⊢
  cases heffect with
  | leader hkey =>
    obtain rfl : key = c.leaderKey := hkey
    exact .inr (Log.version_of_get hget)
  | node | gate | shard | ignored => exact h

theorem Paired.applyLeader (h : Paired c etcd view) {self : GoString} {rev : Nat}
    (hversion : etcd.Version c.leaderKey rev self) :
    Paired c etcd (view.applyLeader self rev) := by
  unfold ClusterState.applyLeader
  split
  · exact .inr hversion
  · exact h

theorem Paired.storedLeader_eq (h : Paired c etcd view)
    (hmod : etcd.modRevision c.leaderKey = view.leaderModRevision) :
    storedLeader c etcd = (view.leader, view.leaderModRevision) := by
  rcases h with ⟨hleader, hrev⟩ | hversion
  · rw [storedLeader, Log.get_eq_none_of_modRevision (hmod.trans hrev), hleader, hrev]
    rfl
  · rw [storedLeader, hversion.get_of_modRevision hmod]
    rfl

theorem Paired.le_revision (h : Paired c etcd view) : view.leaderModRevision ≤ etcd.length := by
  rcases h with ⟨-, hrev⟩ | hversion
  · omega
  · exact hversion.le_revision

end Paired

/-- `a` may run for leader on this view. -/
structure Eligible (view : ClusterState) (a : GoString) : Prop where
  vacant : view.leader = [] ∨ view.hasNode view.leader = false
  member : view.hasNode a = true

theorem tryBecomeLeader_decided {view decided : ClusterState} {self : GoString}
    (h : (tryBecomeLeader view self).decided = some decided) :
    decided = view ∧ Eligible view self := by
  unfold tryBecomeLeader at h
  split at h
  · contradiction
  rename_i hvacant
  split at h
  · contradiction
  split at h
  · contradiction
  · rename_i hmember
    cases h
    refine ⟨rfl, ?_, by simpa using hmember⟩
    by_cases hleader : view.leader = []
    · exact .inl hleader
    · exact .inr (by simpa [hleader] using hvacant)

/-- A candidate runs on a paired view that it may run on, and has stored what it applies. -/
structure Truthful (c : Config) (etcd : Etcd) (th : Candidate) : Prop where
  decided : ∀ decided, th.bid.decided = some decided →
    Paired c etcd decided ∧ Eligible decided th.node
  applied : ∀ decided rev, th.bid = .apply decided rev → etcd.Version c.leaderKey rev th.node

structure Sound (c : Config) (s : Election) : Prop where
  kept : ⟨c.leaderKey, none⟩ ∉ s.etcd
  views : ∀ a, Paired c s.etcd (s.members a).view
  snapshots : ∀ a snapshot, (s.members a).watch = .loading snapshot → Paired c s.etcd snapshot
  candidates : ∀ th ∈ s.candidates, Truthful c s.etcd th

private theorem truthful_returned {etcd : Etcd} (a : GoString) (verdict : Verdict) :
    Truthful c etcd ⟨a, .returned verdict⟩ :=
  ⟨nofun, nofun⟩

theorem Truthful.concat {etcd : Etcd} {th : Candidate} (h : Truthful c etcd th)
    (w : Write GoString GoString) : Truthful c (etcd ++ [w]) th :=
  ⟨fun decided hd => (h.decided decided hd).imp_left fun hpaired => hpaired.concat w,
    fun decided rev hbid => (h.applied decided rev hbid).concat w⟩

namespace Sound

variable {s t : Election}

theorem grow (h : s.Sound c) {w : Write GoString GoString} (hw : w ≠ ⟨c.leaderKey, none⟩) :
    ({ s with etcd := s.etcd ++ [w] } : Election).Sound c := by
  refine ⟨fun hmem => ?_, fun a => (h.views a).concat w,
    fun a snapshot hload => (h.snapshots a snapshot hload).concat w,
    fun th hth => (h.candidates th hth).concat w⟩
  rcases List.mem_append.mp hmem with hmem | hmem
  · exact h.kept hmem
  · exact hw (List.mem_singleton.mp hmem).symm

theorem setMember (h : s.Sound c) (a : GoString) {m : Member} (hview : Paired c s.etcd m.view)
    (hload : ∀ snapshot, m.watch = .loading snapshot → Paired c s.etcd snapshot) :
    (s.setMember a m).Sound c := by
  refine ⟨h.kept, fun b => ?_, fun b => ?_, h.candidates⟩
  · by_cases hb : b = a
    · subst hb
      rw [members_setMember_self]
      exact hview
    · rw [members_setMember_of_ne s hb]
      exact h.views b
  · by_cases hb : b = a
    · subst hb
      rw [members_setMember_self]
      exact hload
    · rw [members_setMember_of_ne s hb]
      exact h.snapshots b

theorem goto (h : s.Sound c) (i : Nat) {a : GoString} {bid : Bid}
    (hbid : Truthful c s.etcd ⟨a, bid⟩) : (s.goto i a bid).Sound c := by
  refine ⟨h.kept, h.views, h.snapshots, fun th hth => ?_⟩
  rcases eq_or_mem_of_mem_set hth with rfl | hj
  · exact hbid
  · exact h.candidates th hj

theorem watch (h : s.Sound c) {a : GoString} {event : WatchEvent} {m : Member}
    (hm : (s.members a).StepCase c (Etcd.source c s.etcd) event m) : (s.setMember a m).Sound c := by
  have hview := h.views a
  cases hm with
  | load =>
    refine h.setMember a hview fun snapshot hsnapshot => ?_
    cases hsnapshot
    exact Paired.load _
  | install hwatch => exact h.setMember a (h.snapshots a _ hwatch) nofun
  | connect | disconnect => exact h.setMember a hview nofun
  | deliver hwatch he =>
    obtain ⟨hw, rfl⟩ := Log.getElem?_feed.mp he
    exact h.setMember a (hview.handleEvent h.kept _ hw) nofun

theorem step (h : s.Sound c) {label : Label} (hstep : s.step c label = some t) : t.Sound c := by
  cases step_cases hstep with
  | environment hw => exact h.grow fun heq => hw (congrArg Write.key heq)
  | watch hm => exact h.watch hm
  | campaign =>
    refine ⟨h.kept, h.views, h.snapshots, fun th hth => ?_⟩
    rcases mem_concat_cases hth with hth | rfl
    · exact h.candidates th hth
    · exact ⟨nofun, nofun⟩
  | read hi =>
    rename_i i a
    refine h.goto i ⟨fun decided hd => ?_, fun decided rev hbid => ?_⟩
    · obtain ⟨rfl, heligible⟩ := tryBecomeLeader_decided hd
      exact ⟨h.views a, heligible⟩
    · dsimp only at hbid
      unfold tryBecomeLeader at hbid
      split_ifs at hbid
  | refuse hi => exact h.goto _ (truthful_returned _ _)
  | commit hi hmod hbid =>
    have htruth := (h.candidates _ (List.mem_of_getElem? hi)).concat
    refine (h.grow (by simp)).goto _ ?_
    rcases hbid with rfl | rfl
    · refine ⟨fun decided hd => (htruth _).decided decided hd, fun decided rev hbid => ?_⟩
      cases hbid
      exact Log.version_concat s.etcd _ _
    · exact truthful_returned _ _
  | apply hi =>
    have hversion := (h.candidates _ (List.mem_of_getElem? hi)).applied _ _ rfl
    refine (h.setMember _ ?_ ?_).goto _ (truthful_returned _ _)
    · exact (h.views _).applyLeader hversion
    · exact h.snapshots _

end Sound

theorem sound_start {etcd : Etcd} (hkept : ⟨c.leaderKey, none⟩ ∉ etcd) : (start etcd).Sound c :=
  ⟨hkept, fun _ => .inl ⟨rfl, rfl⟩, nofun, nofun⟩

/-! ### Committed writes of the leader's key -/

section Writes

variable {s t : Election}

/-- The node whose transaction a label may commit, and the view it decided on. -/
def bidder (s : Election) : Label → Option (GoString × ClusterState)
  | .txn i _ =>
    match s.candidates[i]? with
    | some ⟨a, .txn decided⟩ => some (a, decided)
    | _ => none
  | _ => none

/-- The step commits the transaction of `a`. -/
structure Takes (c : Config) (s t : Election) (a : GoString) (decided : ClusterState) :
    Prop where
  candidate : ⟨a, .txn decided⟩ ∈ s.candidates
  modRevision : s.etcd.modRevision c.leaderKey = decided.leaderModRevision
  etcd : t.etcd = s.etcd ++ [⟨c.leaderKey, some a⟩]

theorem leader_cases {label : Label} (hstep : s.step c label = some t) :
    t.etcd.get c.leaderKey = s.etcd.get c.leaderKey ∨
      ∃ a decided, s.bidder label = some (a, decided) ∧ Takes c s t a decided := by
  cases step_cases hstep with
  | environment hw =>
    refine .inl ?_
    rw [Log.get_concat, if_neg hw]
  | watch | campaign | read | refuse | apply => exact .inl rfl
  | commit hi hmod =>
    refine .inr ⟨_, _, ?_, List.mem_of_getElem? hi, hmod, rfl⟩
    rw [bidder, hi]

theorem Takes.storedLeader_eq {a : GoString} {decided : ClusterState}
    (h : Takes c s t a decided) : storedLeader c t.etcd = (a, t.etcd.length) := by
  rw [storedLeader, h.etcd, Log.get_concat, if_pos rfl, List.length_append]
  rfl

theorem Takes.version {a : GoString} {decided : ClusterState} (h : Takes c s t a decided) :
    t.etcd.Version c.leaderKey (s.etcd.length + 1) a := by
  rw [h.etcd]
  exact Log.version_concat s.etcd _ _

theorem version_step {label : Label} (hstep : s.step c label = some t) {rev : Nat}
    {leader : GoString} (h : s.etcd.Version c.leaderKey rev leader) :
    t.etcd.Version c.leaderKey rev leader := by
  cases step_cases hstep with
  | environment | commit => exact h.concat _
  | watch | campaign | read | refuse | apply => exact h

theorem Sound.version_le (h : s.Sound c) {rev : Nat} {leader : GoString}
    (hversion : s.etcd.Version c.leaderKey rev leader) :
    rev ≤ s.etcd.modRevision c.leaderKey := by
  obtain ⟨value, rev', hget⟩ := hversion.get_of_not_deleted h.kept
  rw [Log.modRevision, hget]
  exact hversion.le_of_get hget

theorem step_decided {label : Label} (hstep : s.step c label = some t) {th : Candidate}
    (hth : th ∈ t.candidates) {decided : ClusterState} (hd : th.bid.decided = some decided) :
    (∃ old ∈ s.candidates, old.node = th.node ∧ old.bid.decided = some decided) ∨
      ∃ i, label = .read i ∧ s.candidates[i]? = some ⟨th.node, .read⟩ ∧
        (s.members th.node).view = decided := by
  have hset : ∀ {i : Nat} {a : GoString} {bid : Bid}, th ∈ s.candidates.set i ⟨a, bid⟩ →
      th = ⟨a, bid⟩ ∨ th ∈ s.candidates := by
    intro i a bid hmem
    rcases eq_or_mem_of_mem_set hmem with heq | hj
    · exact .inl heq
    · exact .inr hj
  have hold : th ∈ s.candidates →
      ∃ old ∈ s.candidates, old.node = th.node ∧ old.bid.decided = some decided :=
    fun hmem => ⟨th, hmem, rfl, hd⟩
  cases step_cases hstep with
  | environment | watch => exact .inl (hold hth)
  | campaign =>
    rcases mem_concat_cases hth with hmem | rfl
    · exact .inl (hold hmem)
    · contradiction
  | read hi =>
    rcases hset hth with rfl | hmem
    · exact .inr ⟨_, rfl, hi, (tryBecomeLeader_decided hd).1.symm⟩
    · exact .inl (hold hmem)
  | refuse hi =>
    rcases hset hth with rfl | hmem
    · contradiction
    · exact .inl (hold hmem)
  | commit hi hmod hbid =>
    rcases hset hth with rfl | hmem
    · rcases hbid with rfl | rfl
      · cases hd
        exact .inl ⟨_, List.mem_of_getElem? hi, rfl, rfl⟩
      · contradiction
    · exact .inl (hold hmem)
  | apply hi =>
    rcases hset hth with rfl | hmem
    · contradiction
    · exact .inl (hold hmem)

private theorem held_of_steps {etcd : Etcd} {labels : List Label}
    (hrun : (machine c).Steps Machine.Any (start etcd) labels s) {th : Candidate}
    (hth : th ∈ s.candidates) {decided : ClusterState} (hd : th.bid.decided = some decided) :
    ∃ before after u, labels = before ++ after ∧
      (machine c).Steps Machine.Any (start etcd) before u ∧
      (u.members th.node).view = decided := by
  generalize hstart : start etcd = s₀ at hrun
  induction hrun generalizing th with
  | nil =>
    subst hstart
    contradiction
  | @snoc t _ ls label hprev _ hstep ih =>
    rcases step_decided hstep hth hd with ⟨old, hmem, hnode, hold⟩ | ⟨-, -, -, hview⟩
    · obtain ⟨before, after, u, rfl, hu, hview⟩ := ih hmem hold
      exact ⟨before, after ++ [label], u, List.append_assoc .., hu, hnode ▸ hview⟩
    · exact ⟨ls, [label], t, rfl, hprev, hview⟩

/-- A node that reads the record of `rev` has `leader` in its view. -/
def SeesAlive (leader : GoString) (rev : Nat) (s : Election) : Label → Prop
  | .read i => ∀ th ∈ s.candidates[i]?, (s.members th.node).view.leaderModRevision = rev →
      (s.members th.node).view.hasNode leader = true
  | _ => True

instance (leader : GoString) (rev : Nat) (s : Election) (label : Label) :
    Decidable (SeesAlive leader rev s label) := by
  unfold SeesAlive
  split <;> infer_instance

/-- Everyone who has decided on the record of `rev` had `leader` in its view. -/
def AllSawAlive (leader : GoString) (rev : Nat) (s : Election) : Prop :=
  ∀ th ∈ s.candidates, ∀ decided, th.bid.decided = some decided →
    decided.leaderModRevision = rev → decided.hasNode leader = true

theorem AllSawAlive.step {leader : GoString} {rev : Nat} (h : AllSawAlive leader rev s)
    {label : Label} (hok : SeesAlive leader rev s label) (hstep : s.step c label = some t) :
    AllSawAlive leader rev t := by
  intro th hth decided hd hrev
  rcases step_decided hstep hth hd with ⟨old, hmem, -, hold⟩ | ⟨i, rfl, hi, hview⟩
  · exact h old hmem decided hold hrev
  · subst hview
    exact hok ⟨th.node, .read⟩ hi hrev

theorem storedLeader_step {leader : GoString} {rev : Nat} (hleader : leader ≠ [])
    (h : s.Sound c) (hseen : AllSawAlive leader rev s)
    (hstored : storedLeader c s.etcd = (leader, rev)) {label : Label}
    (hstep : s.step c label = some t) : storedLeader c t.etcd = (leader, rev) := by
  rcases leader_cases hstep with hsame | ⟨a, decided, -, htakes⟩
  · rw [storedLeader, hsame]
    exact hstored
  · obtain ⟨hpaired, heligible⟩ := (h.candidates _ htakes.candidate).decided decided rfl
    rw [hpaired.storedLeader_eq htakes.modRevision] at hstored
    cases hstored
    have hseen := hseen _ htakes.candidate decided rfl rfl
    rcases heligible.vacant with hempty | hdead
    · contradiction
    · rw [hseen] at hdead
      contradiction

/-- Leadership leaves dead leaders only. A write of the leader's key replaces the record that
its writer had read, with a leader that the writer did not have in its view; two such writes
never replace the same record; and the record of a leader stays while every node that reads it
has the leader in its view. -/
theorem leadership_leaves_dead_leaders_only (c : Config) (etcd : Etcd)
    (hkept : ⟨c.leaderKey, none⟩ ∉ etcd) (labels : List Label) (s : Election)
    (hrun : (machine c).Steps Machine.Any (start etcd) labels s) :
    (∀ label t, s.step c label = some t →
      t.etcd.modRevision c.leaderKey ≠ s.etcd.modRevision c.leaderKey →
      ∃ w decided, s.bidder label = some (w, decided) ∧
        (∃ before after u, labels = before ++ after ∧
          (machine c).Steps Machine.Any (start etcd) before u ∧
          (u.members w).view = decided) ∧
        storedLeader c s.etcd = (decided.leader, decided.leaderModRevision) ∧
        storedLeader c t.etcd = (w, t.etcd.length) ∧
        (decided.leader = [] ∨ decided.hasNode decided.leader = false) ∧
        decided.hasNode w = true ∧
        ∀ later u label' v, (machine c).Steps Machine.Any t later u → u.step c label' = some v →
          v.etcd.modRevision c.leaderKey ≠ u.etcd.modRevision c.leaderKey →
          ∀ w' decided', u.bidder label' = some (w', decided') →
            (decided'.leader, decided'.leaderModRevision) ≠
              (decided.leader, decided.leaderModRevision)) ∧
    (∀ leader rev, leader ≠ [] →
      (machine c).Steps (SeesAlive leader rev) (start etcd) labels s →
      storedLeader c s.etcd = (leader, rev) →
      ∀ later t, (machine c).Steps (SeesAlive leader rev) s later t →
        storedLeader c t.etcd = (leader, rev)) := by
  have hsound : s.Sound c := hrun.preserves (fun h _ hst => h.step hst) (sound_start hkept)
  have hwrites : ∀ {s t : Election} {label}, s.step c label = some t →
      t.etcd.modRevision c.leaderKey ≠ s.etcd.modRevision c.leaderKey →
      ∃ a decided, s.bidder label = some (a, decided) ∧ Takes c s t a decided := by
    intro s t label hstep hne
    rcases leader_cases hstep with hsame | htakes
    · rw [Log.modRevision, Log.modRevision, hsame] at hne
      contradiction
    · exact htakes
  constructor
  · intro label t hstep hne
    obtain ⟨w, decided, hbidder, htakes⟩ := hwrites hstep hne
    obtain ⟨hpaired, heligible⟩ := (hsound.candidates _ htakes.candidate).decided decided rfl
    refine ⟨w, decided, hbidder, held_of_steps hrun htakes.candidate rfl,
      hpaired.storedLeader_eq htakes.modRevision, htakes.storedLeader_eq, heligible.vacant,
      heligible.member, ?_⟩
    intro later u label' v hlater hstep' hne' w' decided' hbidder' heq
    obtain ⟨a, d, hbid, htakes'⟩ := hwrites hstep' hne'
    cases hbid.symm.trans hbidder'
    -- The record of `w` is newer than the one it decided on, and still there.
    have hsound' : u.Sound c := hlater.preserves (fun h _ hst => h.step hst) (hsound.step hstep)
    have hversion := hlater.preserves
      (I := fun u => u.etcd.Version c.leaderKey (s.etcd.length + 1) w)
      (fun h _ hst => version_step hst h) htakes.version
    have hle := hsound'.version_le hversion
    have hold := hpaired.le_revision
    have hrev := congrArg Prod.snd heq
    rw [htakes'.modRevision] at hle
    dsimp only at hrev
    omega
  · intro leader rev hleader hseen hstored later t hlater
    have hsaw : AllSawAlive leader rev s :=
      hseen.preserves (fun h hok hst => h.step hok hst) (by simp [AllSawAlive, start])
    have hkeeps := hlater.preserves (I := fun u => u.Sound c ∧ AllSawAlive leader rev u ∧
      storedLeader c u.etcd = (leader, rev)) ?_ ⟨hsound, hsaw, hstored⟩
    · exact hkeeps.2.2
    · rintro u label v ⟨hu, hsawu, hstoredu⟩ hok hstep
      exact ⟨hu.step hstep, hsawu.step hok hstep, storedLeader_step hleader hu hsawu hstoredu hstep⟩

end Writes

section Examples

/-- `a` and `b` are registered, and `b` is the leader. -/
def ledByB : Etcd :=
  [World.registered World.nodeA, ⟨twoShards.nodesPrefix ++ lit "b", some (lit "b")⟩,
    ⟨twoShards.leaderKey, some (lit "b")⟩]

/-- `b` leaves before `a` loads its view, so that `a` runs for leader. -/
def takeOver : List Label :=
  [.environment ⟨twoShards.nodesPrefix ++ lit "b", none⟩, .watch World.nodeA (.load 0),
    .watch World.nodeA .install, .campaign World.nodeA, .read 0]

theorem leadership_leaves_dead_leaders_only_takeOver :
    ∃ s t : Election, (machine twoShards).Steps Machine.Any (start ledByB) takeOver s ∧
      s.step twoShards (.txn 0 .lost) = some t ∧ ∃ w decided,
        s.bidder (.txn 0 .lost) = some (w, decided) ∧
        storedLeader twoShards s.etcd = (decided.leader, decided.leaderModRevision) ∧
        storedLeader twoShards t.etcd = (w, 5) ∧
        (decided.leader = [] ∨ decided.hasNode decided.leader = false) := by
  have hexec : ((machine twoShards).exec Machine.Any (start ledByB) takeOver).any (fun s =>
      (s.step twoShards (.txn 0 .lost)).any fun t => decide
        (t.etcd.modRevision twoShards.leaderKey ≠ s.etcd.modRevision twoShards.leaderKey ∧
          t.etcd.length = 5)) = true := by decide
  obtain ⟨s, hrun, hs⟩ := Machine.exec_any hexec
  obtain ⟨t, ht, htest⟩ := (Option.any_eq_true _ _).mp hs
  obtain ⟨hne, hlength⟩ := of_decide_eq_true htest
  have h := (leadership_leaves_dead_leaders_only twoShards ledByB (by decide) _ s hrun).1
  obtain ⟨w, decided, hbidder, -, hold, hnew, hvacant, -⟩ := h _ t ht hne
  exact ⟨s, t, hrun, ht, w, decided, hbidder, hold, hlength ▸ hnew, hvacant⟩

end Examples
end Election
end Goverse.Consensus
