import Goverse.Consensus.Registers

/-! One consensus manager in an etcd where anyone may also delete the leader's key and the keys of
the shards. What the view knows of a key is dropped with its revision when the key is deleted, so
a local update that comes after the deletion was handled brings the record back. -/
namespace Goverse.Consensus

open GoString Lib ClusterState

variable {c : Config} {view : ClusterState}

/-! ### A view and the writes it was told -/

/-- Everything in the view was written. -/
structure Genuine (c : Config) (etcd : Timeline GoString GoString) (view : ClusterState) :
    Prop where
  range : ∀ shardID ∈ view.shards, c.ValidShard shardID
  shards : ∀ shardID, shardRegister.Backed (Timeline.feed 0 etcd) (c.shardKey shardID)
    (view.shards.lookup shardID)
  leader : leaderRegister.Backed (Timeline.feed 0 etcd) c.leaderKey view.leaderCell
  unled : view.leaderModRevision = 0 → view.leader = []

/-- The view of a manager whose session has handled the first `cursor` writes. -/
structure Trails (c : Config) (etcd : Timeline GoString GoString) (view : ClusterState)
    (cursor : Nat) : Prop extends Positioned etcd view cursor where
  shards : ∀ shardID, c.ValidShard shardID → (Timeline.feed 0 etcd).Tracks cursor
    (c.shardKey shardID) shardRegister.decode (view.shards.lookup shardID)
  leader : (Timeline.feed 0 etcd).Tracks cursor c.leaderKey leaderRegister.decode view.leaderCell

/-- A view as it was loaded at its revision. -/
structure Snapped (c : Config) (etcd : Timeline GoString GoString) (view : ClusterState) :
    Prop where
  revision : view.revision ≤ etcd.length
  shows : Shows c (loadedWrites etcd view).get view

section Views

variable {etcd : Timeline GoString GoString} {cursor rev : Nat} {w : Write GoString GoString}

theorem Genuine.grow (h : Genuine c etcd view) (txn : Transaction GoString GoString) :
    Genuine c (etcd ++ [txn]) view where
  range := h.range
  shards shardID := by
    rw [Timeline.feed_concat]
    exact (h.shards shardID).append _
  leader := by
    rw [Timeline.feed_concat]
    exact h.leader.append _
  unled := h.unled

theorem Trails.grow (h : Trails c etcd view cursor) (txn : Transaction GoString GoString) :
    Trails c (etcd ++ [txn]) view cursor where
  toPositioned := h.toPositioned.grow txn
  shards shardID hvalid := by
    rw [Timeline.feed_concat]
    exact (h.shards shardID hvalid).append h.bound _
  leader := by
    rw [Timeline.feed_concat]
    exact h.leader.append h.bound _

theorem Snapped.grow (h : Snapped c etcd view) (txn : Transaction GoString GoString) :
    Snapped c (etcd ++ [txn]) view where
  revision := by
    rw [List.length_append]
    exact Nat.le_add_right_of_le h.revision
  shows := by
    rw [loadedWrites_grow h.revision]
    exact h.shows

theorem snapped_loadAt (hkeys : ∀ txn ∈ etcd, ∀ w ∈ txn.writes, Canonical c w) (now : Int) :
    Snapped c etcd (loadAt c etcd etcd.length now) where
  revision := by rw [loadAt_revision]
  shows := by
    rw [loadedWrites, loadAt_revision]
    refine shows_loadAnswer (Timeline.feed_ordered 0 _) (fun e he => ?_) _ now
    obtain ⟨txn, htxn, hw⟩ := Timeline.mem_of_mem_feed he
    exact hkeys txn (List.mem_of_mem_take htxn) e.1 hw

theorem Snapped.genuine (h : Snapped c etcd view) : Genuine c etcd view := by
  have hfeed := Timeline.feed_eq_append_take etcd view.revision
  refine ⟨h.shows.range, fun shardID => ?_, ?_, h.shows.unled⟩
  · by_cases hvalid : c.ValidShard shardID
    · rw [hfeed]
      exact (Register.backed_decode (h.shows.shards shardID hvalid)).append _
    · rw [AList.lookup_eq_none.mpr fun hmem => hvalid (h.shows.range shardID hmem)]
      exact fun _ => nofun
  · rw [hfeed]
    exact (Register.backed_decode h.shows.leader).append _

theorem Snapped.trails (h : Snapped c etcd view) :
    Trails c etcd view (loadedWrites etcd view).length where
  toPositioned := .loaded h.revision
  shards shardID hvalid := .inl (by rw [loadedWrites_eq_take]; exact h.shows.shards shardID hvalid)
  leader := .inl (by rw [loadedWrites_eq_take]; exact h.shows.leader)

theorem Trails.rewind (h : Trails c etcd view cursor) :
    Trails c etcd view (loadedWrites etcd view).length where
  toPositioned := .loaded h.revision
  shards shardID hvalid := (h.shards shardID hvalid).rewind h.start
  leader := h.leader.rewind h.start

theorem Genuine.handleEvent (h : Genuine c etcd view) (hw : Canonical c w) (now : Int)
    (hmem : (w, rev) ∈ Timeline.feed 0 etcd) : Genuine c etcd (view.handleEvent c now w rev) := by
  have hpos := (Timeline.feed_ordered 0 etcd).pos _ hmem
  have hrange := valid_handleEvent w rev now h.range
  refine ⟨hrange, fun shardID => ?_, ?_, unled_handleEvent now h.unled hpos⟩
  · by_cases hvalid : c.ValidShard shardID
    · rw [lookup_handleEvent hw now hvalid]
      split
      · rename_i hkey
        refine (h.shards shardID).observe ?_
        rw [← hkey]
        exact hmem
      · exact h.shards shardID
    · rw [AList.lookup_eq_none.mpr fun hmem => hvalid (hrange shardID hmem)]
      exact fun _ => nofun
  · rw [leaderCell_handleEvent now hpos]
    split
    · rename_i hkey
      refine h.leader.observe ?_
      rw [← hkey]
      exact hmem
    · exact h.leader

theorem Trails.deliver (h : Trails c etcd view cursor) (hgenuine : Genuine c etcd view)
    (he : (Timeline.feed 0 etcd)[cursor]? = some (w, rev)) (hw : Canonical c w) (now : Int) :
    Trails c etcd (view.handleEvent c now w rev) (cursor + 1) := by
  have hordered := Timeline.feed_ordered 0 etcd
  refine ⟨(h.next he).congr (handleEvent_revision now w rev), fun shardID hvalid => ?_, ?_⟩
  · rw [lookup_handleEvent hw now hvalid]
    split
    · rename_i hkey
      refine Register.tracks_observe hordered (hgenuine.shards shardID) ?_
      rw [← hkey]
      exact he
    · rename_i hkey
      exact (h.shards shardID hvalid).next_of_ne he hkey
  · rw [leaderCell_handleEvent now (hordered.pos _ (List.mem_of_getElem? he))]
    split
    · rename_i hkey
      refine Register.tracks_observe hordered hgenuine.leader ?_
      rw [← hkey]
      exact he
    · rename_i hkey
      exact h.leader.next_of_ne he hkey

theorem Trails.shows (h : Trails c etcd view (Timeline.feed 0 etcd).length)
    (hgenuine : Genuine c etcd view) : Shows c (Feed.get (Timeline.feed 0 etcd)) view where
  range := hgenuine.range
  shards shardID hvalid := (h.shards shardID hvalid).finish
  leader := h.leader.finish
  unled := hgenuine.unled

theorem Genuine.applyStored (h : Genuine c etcd view) {txn : Committed}
    (hvalid : c.ValidShard txn.shardID)
    (hstored : IsStored c etcd txn.shardID { txn.info with modRevision := txn.rev }) :
    Genuine c etcd (view.applyStored txn.shardID txn.info txn.rev) := by
  refine ⟨valid_applyStored hvalid _ _ h.range, fun shardID => ?_, ?_, ?_⟩
  · rw [lookup_applyStored]
    split
    · rename_i hsame
      obtain ⟨value, hmem, hinfo⟩ := hstored
      rw [hsame, hinfo]
      exact Register.Backed.amend (R := shardRegister) (h.shards txn.shardID) hmem
    · exact h.shards shardID
  · rw [leaderCell_applyStored]
    exact h.leader
  · unfold ClusterState.applyStored
    split <;> exact h.unled

theorem Trails.applyStored (h : Trails c etcd view cursor) {txn : Committed}
    (hstored : IsStored c etcd txn.shardID { txn.info with modRevision := txn.rev })
    (hkept : ∀ value, (⟨c.shardKey txn.shardID, some value⟩, txn.rev) ∈
      (Timeline.feed 0 etcd).take cursor →
        Feed.get ((Timeline.feed 0 etcd).take cursor) (c.shardKey txn.shardID) ≠ none) :
    Trails c etcd (view.applyStored txn.shardID txn.info txn.rev) cursor := by
  refine ⟨h.congr (applyStored_revision _ _ _), fun shardID hvalid => ?_, ?_⟩
  · rw [lookup_applyStored]
    split
    · rename_i hsame
      obtain ⟨value, hmem, hinfo⟩ := hstored
      subst hsame
      rw [hinfo]
      exact Register.tracks_amend (R := shardRegister) (Timeline.feed_ordered 0 etcd) hmem
        (hkept value) (h.shards _ hvalid)
    · exact h.shards shardID hvalid
  · rw [leaderCell_applyStored]
    exact h.leader

@[simp] theorem applyLeader_shards (self : GoString) (rev : Nat) :
    (view.applyLeader self rev).shards = view.shards := by
  unfold applyLeader
  split <;> rfl

@[simp] theorem applyLeader_revision (self : GoString) (rev : Nat) :
    (view.applyLeader self rev).revision = view.revision := by
  unfold applyLeader
  split <;> rfl

theorem Genuine.applyLeader (h : Genuine c etcd view) {self : GoString}
    (hmem : (⟨c.leaderKey, some self⟩, rev) ∈ Timeline.feed 0 etcd) :
    Genuine c etcd (view.applyLeader self rev) := by
  have hpos := (Timeline.feed_ordered 0 etcd).pos _ hmem
  refine ⟨?_, ?_, ?_, ?_⟩
  · rw [applyLeader_shards]
    exact h.range
  · rw [applyLeader_shards]
    exact h.shards
  · rw [leaderCell_applyLeader self hpos]
    exact Register.Backed.amend (R := leaderRegister) h.leader hmem
  · unfold ClusterState.applyLeader
    split
    · exact fun hzero => absurd hzero (Nat.ne_of_gt hpos)
    · exact h.unled

theorem Trails.applyLeader (h : Trails c etcd view cursor) {self : GoString}
    (hmem : (⟨c.leaderKey, some self⟩, rev) ∈ Timeline.feed 0 etcd)
    (hkept : (⟨c.leaderKey, some self⟩, rev) ∈ (Timeline.feed 0 etcd).take cursor →
      Feed.get ((Timeline.feed 0 etcd).take cursor) c.leaderKey ≠ none) :
    Trails c etcd (view.applyLeader self rev) cursor := by
  have hordered := Timeline.feed_ordered 0 etcd
  refine ⟨h.congr (applyLeader_revision _ _), ?_, ?_⟩
  · rw [applyLeader_shards]
    exact h.shards
  · rw [leaderCell_applyLeader self (hordered.pos _ hmem)]
    exact Register.tracks_amend (R := leaderRegister) hordered hmem hkept h.leader

end Views

/-! ### Runs -/

/-- A manager with its calls of `TryBecomeLeader`. -/
structure Watcher extends Manager where
  bids : List Bid

inductive WatcherLabel where
  | manager (label : ManagerLabel)
  /-- Any puts and deletions, by anyone. -/
  | anyone (txn : Transaction GoString GoString)
  | campaign
  | read (i : Nat)
  | txn (i : Nat) (outcome : TxnOutcome)
  | apply (i : Nat)

def Bid.waits : Bid → Bool
  | .apply _ _ => true
  | _ => false

def putLeader (c : Config) (self : GoString) : Transaction GoString GoString :=
  ⟨[⟨c.leaderKey, some self⟩], by simp⟩

namespace Watcher

def goto (s : Watcher) (i : Nat) (bid : Bid) : Watcher := { s with bids := s.bids.set i bid }

def commit (c : Config) (self : GoString) (s : Watcher) : Watcher :=
  { s with etcd := s.etcd ++ [putLeader c self] }

def txnStep (c : Config) (self : GoString) (s : Watcher) (i : Nat) (decided : ClusterState) :
    TxnOutcome → Watcher
  | .noClient => s.goto i (.returned .noClient)
  | .fail => s.goto i (.returned .failed)
  | .answered =>
    if ((s.feed.get c.leaderKey).map Prod.snd).getD 0 = decided.leaderModRevision then
      (s.commit c self).goto i (.apply decided (s.etcd.length + 1))
    else s.goto i (.returned .ok)
  | .lost =>
    if ((s.feed.get c.leaderKey).map Prod.snd).getD 0 = decided.leaderModRevision then
      (s.commit c self).goto i (.returned .failed)
    else s.goto i (.returned .failed)

def step (c : Config) (self : GoString) (s : Watcher) : WatcherLabel → Option Watcher
  | .manager label => (s.toManager.step c label).map fun m => { s with toManager := m }
  | .anyone txn =>
    if ∀ w ∈ txn.writes, Canonical c w then some { s with etcd := s.etcd ++ [txn] } else none
  | .campaign => some { s with bids := s.bids ++ [.read] }
  | .read i =>
    match s.bids[i]? with
    | some .read => some (s.goto i (tryBecomeLeader s.view self))
    | _ => none
  | .txn i outcome =>
    match s.bids[i]? with
    | some (.txn decided) => some (s.txnStep c self i decided outcome)
    | _ => none
  | .apply i =>
    match s.bids[i]? with
    | some (.apply _ rev) =>
      some ({ s with view := s.view.applyLeader self rev }.goto i (.returned .ok))
    | _ => none

def start : Watcher := ⟨Manager.start, []⟩

def machine (c : Config) (self : GoString) : Machine Watcher WatcherLabel where
  Init s := s = start
  step := step c self

/-- How many writes the session has handled, or the next one will not see. A view that is about to
be replaced by a loaded one need not follow anything. -/
def handled (s : Watcher) : Option Nat :=
  match s.watch with
  | .unloaded | .loading _ => none
  | .idle => some (loadedWrites s.etcd s.view).length
  | .watching cursor => some cursor

/-- The session has handled the write of `key` at revision `rev`, and the key is deleted since. -/
def Gone (s : Watcher) (key : GoString) (rev : Nat) : Prop :=
  ∃ cursor ∈ s.handled, (∃ e ∈ s.feed.take cursor, e.1.key = key ∧ e.2 = rev) ∧
    Feed.get (s.feed.take cursor) key = none

instance (s : Watcher) (key : GoString) (rev : Nat) : Decidable (s.Gone key rev) := by
  unfold Gone
  infer_instance

/-- A local update does not come after the deletion of its key was handled, and the records this
manager stores are of clean addresses and flags. -/
def Timely (c : Config) (s : Watcher) : WatcherLabel → Prop
  | .manager (.store _ info) => info.WellFormed
  | .manager (.applyLocal j) =>
    ∀ txn ∈ s.committed[j]?, ¬ s.Gone (c.shardKey txn.shardID) txn.rev
  | .apply i =>
    match s.bids[i]? with
    | some (.apply _ rev) => ¬ s.Gone c.leaderKey rev
    | _ => True
  | _ => True

/-- All events have been delivered, and no transaction of this manager waits for its local
update. -/
structure Quiescent (s : Watcher) : Prop where
  delivered : s.watch.cursor = some s.feed.length
  stored : s.committed = []
  elected : ∀ bid ∈ s.bids, bid.waits = false

variable {self : GoString} {s t : Watcher}

inductive StepCase (c : Config) (self : GoString) (s : Watcher) : WatcherLabel → Watcher → Prop
  | manager {label : ManagerLabel} {m : Manager} (hcase : Manager.StepCase c s.toManager label m) :
      StepCase c self s (.manager label) { s with toManager := m }
  | anyone {txn : Transaction GoString GoString} (hkeys : ∀ w ∈ txn.writes, Canonical c w) :
      StepCase c self s (.anyone txn) { s with etcd := s.etcd ++ [txn] }
  | campaign : StepCase c self s .campaign { s with bids := s.bids ++ [.read] }
  | bid {label : WatcherLabel} {i : Nat} {bid : Bid}
      (hbid : ∀ decided rev, bid ≠ .apply decided rev) :
      StepCase c self s label (s.goto i bid)
  | commit {label : WatcherLabel} {i : Nat} {bid : Bid}
      (hbid : ∀ decided rev, bid = .apply decided rev → rev = s.etcd.length + 1) :
      StepCase c self s label ((s.commit c self).goto i bid)
  | apply {i : Nat} {decided : ClusterState} {rev : Nat}
      (hi : s.bids[i]? = some (.apply decided rev)) : StepCase c self s (.apply i)
        ({ s with view := s.view.applyLeader self rev }.goto i (.returned .ok))

theorem txnStep_cases (s : Watcher) (i : Nat) (decided : ClusterState) (outcome : TxnOutcome) :
    StepCase c self s (.txn i outcome) (s.txnStep c self i decided outcome) := by
  unfold txnStep
  cases outcome with
  | noClient | fail => exact .bid (by simp)
  | answered =>
    dsimp only
    split
    · refine .commit fun decided' rev heq => ?_
      cases heq
      rfl
    · exact .bid (by simp)
  | lost =>
    dsimp only
    split
    · exact .commit (by simp)
    · exact .bid (by simp)

theorem step_cases {label : WatcherLabel} (h : s.step c self label = some t) :
    StepCase c self s label t := by
  cases label with
  | manager label =>
    obtain ⟨m, hm, rfl⟩ := Option.map_eq_some_iff.mp h
    exact .manager (Manager.step_cases hm)
  | anyone txn =>
    simp only [step] at h
    split at h
    · rename_i hkeys
      cases h
      exact .anyone hkeys
    · contradiction
  | campaign =>
    cases h
    exact .campaign
  | read i =>
    simp only [step] at h
    split at h
    · cases h
      refine .bid fun decided rev => ?_
      unfold tryBecomeLeader
      split
      · simp
      · split
        · simp
        · split <;> simp
    · contradiction
  | txn i outcome =>
    simp only [step] at h
    split at h
    · cases h
      exact txnStep_cases s i _ outcome
    · contradiction
  | apply i =>
    simp only [step] at h
    split at h
    · rename_i decided rev hi
      cases h
      exact .apply hi
    · contradiction

def Watched (c : Config) (etcd : Timeline GoString GoString) (view : ClusterState) : Watch → Prop
  | .unloaded => True
  | .loading snapshot => Snapped c etcd snapshot
  | .idle => Trails c etcd view (loadedWrites etcd view).length
  | .watching cursor => Trails c etcd view cursor

structure Sound (c : Config) (a : GoString) (s : Watcher) : Prop where
  canonical : ∀ txn ∈ s.etcd, ∀ w ∈ txn.writes, Canonical c w
  genuine : Genuine c s.etcd s.view
  committed : ∀ txn ∈ s.committed, c.ValidShard txn.shardID ∧
    IsStored c s.etcd txn.shardID { txn.info with modRevision := txn.rev }
  bids : ∀ bid ∈ s.bids, ∀ decided rev, bid = .apply decided rev →
    (⟨c.leaderKey, some a⟩, rev) ∈ s.feed
  watch : Watched c s.etcd s.view s.watch

theorem sound_start (c : Config) (self : GoString) : start.Sound c self where
  canonical := by simp [start, Manager.start]
  genuine := ⟨fun shardID h => absurd h (AList.notMem_empty shardID), fun _ _ => nofun,
    fun _ => nofun, fun _ => rfl⟩
  committed := by simp [start, Manager.start]
  bids := by simp [start]
  watch := trivial

theorem Watched.grow {etcd : Timeline GoString GoString} {watch : Watch}
    (h : Watched c etcd view watch) (txn : Transaction GoString GoString) :
    Watched c (etcd ++ [txn]) view watch := by
  cases watch with
  | unloaded => trivial
  | loading snapshot => exact Snapped.grow h txn
  | idle =>
    have htrails := Trails.grow h txn
    rwa [← loadedWrites_grow (Trails.toPositioned h).revision txn] at htrails
  | watching cursor => exact Trails.grow h txn

theorem Sound.grow (h : s.Sound c self) {txn : Transaction GoString GoString}
    (htxn : ∀ w ∈ txn.writes, Canonical c w) :
    Sound c self { s with etcd := s.etcd ++ [txn] } where
  canonical other hother := by
    rcases mem_concat_cases hother with hother | rfl
    · exact h.canonical other hother
    · exact htxn
  genuine := h.genuine.grow txn
  committed other hother :=
    ⟨(h.committed other hother).1, (h.committed other hother).2.grow txn⟩
  bids bid hbid decided rev heq := by
    rw [Manager.feed, Timeline.feed_concat]
    exact List.mem_append_left _ (h.bids bid hbid decided rev heq)
  watch := h.watch.grow txn

theorem Sound.goto (h : s.Sound c self) (i : Nat) {bid : Bid}
    (hbid : ∀ decided rev, bid = .apply decided rev → (⟨c.leaderKey, some self⟩, rev) ∈ s.feed) :
    (s.goto i bid).Sound c self where
  canonical := h.canonical
  genuine := h.genuine
  committed := h.committed
  bids other hother := by
    rcases List.mem_or_eq_of_mem_set hother with hother | rfl
    · exact h.bids other hother
    · exact hbid
  watch := h.watch

private theorem canonical_putShard {shardID : Int} (hvalid : c.ValidShard shardID)
    (record : ShardRecord) : ∀ w ∈ (putShard c shardID record).writes, Canonical c w := by
  intro w hw
  rw [List.mem_singleton.mp hw]
  intro _ id hid
  cases (shardOfKey_shardKey hvalid).symm.trans hid
  rfl

private theorem canonical_putLeader (c : Config) (self : GoString) :
    ∀ w ∈ (putLeader c self).writes, Canonical c w := by
  intro w hw
  rw [List.mem_singleton.mp hw]
  intro hbelow
  have heq := eq_append_of_hasPrefix hbelow
  rw [Config.leaderKey, Config.shardsPrefix, List.append_assoc] at heq
  simp [lit] at heq

theorem Watched.update (h : Watched c s.etcd s.view s.watch) {view : ClusterState}
    (hview : ∀ cursor ∈ s.handled, Trails c s.etcd s.view cursor → Trails c s.etcd view cursor) :
    Watched c s.etcd view s.watch := by
  rw [handled] at hview
  cases hwatch : s.watch with
  | unloaded => trivial
  | loading snapshot =>
    rw [hwatch] at h
    exact h
  | idle =>
    rw [hwatch] at h hview
    exact (hview _ rfl h).rewind
  | watching cursor =>
    rw [hwatch] at h hview
    exact hview cursor rfl h

theorem Watched.applyStored {txn : Committed}
    (hstored : IsStored c s.etcd txn.shardID { txn.info with modRevision := txn.rev })
    (htimely : ¬ s.Gone (c.shardKey txn.shardID) txn.rev) (h : Watched c s.etcd s.view s.watch) :
    Watched c s.etcd (s.view.applyStored txn.shardID txn.info txn.rev) s.watch :=
  h.update fun cursor hcursor htrails => htrails.applyStored hstored fun _ hmem hnone =>
    htimely ⟨cursor, hcursor, ⟨_, hmem, rfl, rfl⟩, hnone⟩

theorem Watched.applyLeader {rev : Nat}
    (hmem : (⟨c.leaderKey, some self⟩, rev) ∈ s.feed) (htimely : ¬ s.Gone c.leaderKey rev)
    (h : Watched c s.etcd s.view s.watch) :
    Watched c s.etcd (s.view.applyLeader self rev) s.watch :=
  h.update fun cursor hcursor htrails => htrails.applyLeader hmem fun hmem hnone =>
    htimely ⟨cursor, hcursor, ⟨_, hmem, rfl, rfl⟩, hnone⟩

theorem Sound.manager (h : s.Sound c self) {label : ManagerLabel} {m : Manager}
    (htimely : s.Timely c (.manager label)) (hcase : Manager.StepCase c s.toManager label m) :
    Sound c self { s with toManager := m } := by
  have hwatch := h.watch
  cases hcase with
  | environment hwrites =>
    refine h.grow fun w hw hbelow => ?_
    rw [(hwrites w hw).1] at hbelow
    contradiction
  | @peer shardID record hvalid => exact h.grow (canonical_putShard hvalid record)
  | @store shardID info hvalid =>
    have hgrow := h.grow (canonical_putShard hvalid info.toShardRecord)
    refine ⟨hgrow.canonical, hgrow.genuine, fun txn htxn => ?_, hgrow.bids, hgrow.watch⟩
    rcases mem_concat_cases htxn with htxn | rfl
    · exact hgrow.committed txn htxn
    · exact ⟨hvalid, Manager.isStored_putShard htimely⟩
  | applyLocal htxn =>
    obtain ⟨hvalid, hstored⟩ := h.committed _ (List.mem_of_getElem? htxn)
    exact ⟨h.canonical, h.genuine.applyStored hvalid hstored,
      fun other hother => h.committed other (List.mem_of_mem_eraseIdx hother), h.bids,
      Watched.applyStored hstored (htimely _ htxn) hwatch⟩
  | watch hcase =>
    cases hcase with
    | load => exact ⟨h.canonical, h.genuine, h.committed, h.bids, snapped_loadAt h.canonical _⟩
    | @install snapshot hloading =>
      rw [hloading] at hwatch
      have hsnapped : Snapped c s.etcd snapshot := hwatch
      exact ⟨h.canonical, hsnapped.genuine, h.committed, h.bids, hsnapped.trails⟩
    | connect hidle =>
      rw [hidle] at hwatch
      exact ⟨h.canonical, h.genuine, h.committed, h.bids, hwatch⟩
    | disconnect hwatching =>
      rw [hwatching] at hwatch
      exact ⟨h.canonical, h.genuine, h.committed, h.bids, Trails.rewind hwatch⟩
    | @deliver now cursor w rev hwatching he =>
      rw [hwatching] at hwatch
      have hmem := List.mem_of_getElem? he
      obtain ⟨txn, htxn, hw⟩ := Timeline.mem_of_mem_feed hmem
      have hcanonical := h.canonical txn htxn w hw
      exact ⟨h.canonical, h.genuine.handleEvent hcanonical now hmem, h.committed, h.bids,
        Trails.deliver hwatch h.genuine he hcanonical now⟩

theorem Sound.step (h : s.Sound c self) {label : WatcherLabel} (htimely : s.Timely c label)
    (hstep : s.step c self label = some t) : t.Sound c self := by
  cases step_cases hstep with
  | manager hcase => exact h.manager htimely hcase
  | anyone hkeys => exact h.grow hkeys
  | campaign =>
    refine ⟨h.canonical, h.genuine, h.committed, fun bid hbid => ?_, h.watch⟩
    rcases mem_concat_cases hbid with hbid | rfl
    · exact h.bids bid hbid
    · simp
  | bid hbid => exact h.goto _ fun decided rev heq => absurd heq (hbid decided rev)
  | commit hbid =>
    refine Sound.goto (h.grow (canonical_putLeader c self)) _ fun decided rev heq => ?_
    rw [hbid decided rev heq]
    change _ ∈ Timeline.feed 0 (s.etcd ++ [putLeader c self])
    rw [Timeline.feed_concat]
    exact List.mem_append_right _ (List.mem_singleton.mpr rfl)
  | apply hi =>
    have hmem := h.bids _ (List.mem_of_getElem? hi) _ _ rfl
    simp only [Timely, hi] at htimely
    refine Sound.goto (s := { s with view := s.view.applyLeader self _ }) ?_ _ (by simp)
    exact ⟨h.canonical, h.genuine.applyLeader hmem, h.committed, h.bids,
      Watched.applyLeader hmem htimely h.watch⟩

theorem sound_of_reachable (h : (machine c self).Reachable (Timely c) s) : s.Sound c self := by
  refine h.invariant (fun hinit => ?_) fun hs hok hst => hs.step hok hst
  rw [show _ = start from hinit]
  exact sound_start c self

theorem view_converges_despite_deletions (c : Config) (self : GoString) (s : Watcher)
    (hreach : (machine c self).Reachable (Timely c) s) (hquiescent : s.Quiescent) (now : Int) :
    s.view.leader = (loadAt c s.etcd s.etcd.length now).leader ∧
      s.view.leaderModRevision = (loadAt c s.etcd s.etcd.length now).leaderModRevision ∧
      ∀ shardID, s.view.shards.lookup shardID =
        (loadAt c s.etcd s.etcd.length now).shards.lookup shardID := by
  have hsound := sound_of_reachable hreach
  have hfresh := (snapped_loadAt hsound.canonical now).shows
  rw [loadedWrites, loadAt_revision, List.take_length] at hfresh
  have hwatch := hsound.watch
  have hdelivered := hquiescent.delivered
  cases hwatching : s.watch with
  | watching cursor =>
    rw [hwatching] at hwatch hdelivered
    cases hdelivered
    exact (Trails.shows hwatch hsound.genuine).same hfresh
  | unloaded | loading | idle =>
    rw [hwatching] at hdelivered
    contradiction

section Examples

instance (c : Config) (s : Watcher) : (label : WatcherLabel) → Decidable (s.Timely c label)
  | .manager (.store _ info) => inferInstanceAs (Decidable info.toShardRecord.WellFormed)
  | .manager (.applyLocal j) => inferInstanceAs (Decidable
      (∀ txn ∈ s.committed[j]?, ¬ s.Gone (c.shardKey txn.shardID) txn.rev))
  | .apply i => by
    dsimp only [Timely]
    split <;> infer_instance
  | .manager (.environment _) | .manager (.peer _ _) | .manager (.watch _) | .anyone _
  | .campaign | .read _ | .txn _ _ => isTrue trivial

instance (s : Watcher) : Decidable s.Quiescent :=
  decidable_of_iff (_ ∧ _ = 0 ∧ _) ⟨fun h => ⟨h.1, List.length_eq_zero_iff.mp h.2.1, h.2.2⟩,
    fun h => ⟨h.delivered, List.length_eq_zero_iff.mpr h.stored, h.elected⟩⟩

def deletes (key : GoString) : WatcherLabel := .anyone ⟨[⟨key, none⟩], by simp⟩

/-- The manager of `a` watches. -/
def watches : List WatcherLabel :=
  [.manager (Manager.registers (lit "a")), .manager (.watch (.load 0)), .manager (.watch .install),
    .manager (.watch .connect)]

/-- It is elected, and someone deletes the leader's key. -/
def elected : List WatcherLabel :=
  watches ++ [.campaign, .read 0, .txn 0 .answered, deletes twoShards.leaderKey,
    .manager (.watch (.deliver 0))]

/-- It stores a shard, and someone deletes the shard's key. -/
def stored : List WatcherLabel :=
  watches ++ [.manager (.store 0 ⟨⟨lit "a", [], []⟩, 0⟩), deletes (twoShards.shardKey 0),
    .manager (.watch (.deliver 0))]

theorem view_converges_despite_deletions_elected :
    ∃ s : Watcher, (machine twoShards (lit "a")).Reachable (Timely twoShards) s ∧ s.Quiescent ∧
      s.etcd.length = 3 ∧ s.view.leader = [] ∧
      s.view.leader = (loadAt twoShards s.etcd s.etcd.length 0).leader := by
  have hrun : ((machine twoShards (lit "a")).exec (Timely twoShards) start
      (elected ++ [.apply 0, .manager (.watch (.deliver 0))])).any (fun s => decide
        (s.Quiescent ∧ s.etcd.length = 3 ∧ s.view.leader = [])) = true := by decide
  obtain ⟨s, hreach, hs⟩ := Machine.exec_reachable hrun rfl
  obtain ⟨hquiescent, hlength, hleader⟩ := of_decide_eq_true hs
  exact ⟨s, hreach, hquiescent, hlength, hleader,
    (view_converges_despite_deletions twoShards (lit "a") s hreach hquiescent 0).1⟩

/-- If the event of the deletion is handled before the local update, the deleted leader and the
deleted record come back, and stay. -/
theorem late_update_revives_deleted_record :
    (∃ s : Watcher, (machine twoShards (lit "a")).Reachable Machine.Any s ∧ s.Quiescent ∧
      s.view.leader = lit "a" ∧ (loadAt twoShards s.etcd s.etcd.length 0).leader = []) ∧
    ∃ s : Watcher, (machine twoShards (lit "a")).Reachable Machine.Any s ∧ s.Quiescent ∧
      s.view.shards.lookup 0 = some ⟨⟨lit "a", [], []⟩, 2⟩ ∧
      (loadAt twoShards s.etcd s.etcd.length 0).shards.lookup 0 = none := by
  constructor
  · have hrun : ((machine twoShards (lit "a")).exec Machine.Any start
        (elected ++ [.manager (.watch (.deliver 0)), .apply 0])).any (fun s => decide
          (s.Quiescent ∧ s.view.leader = lit "a" ∧
            (loadAt twoShards s.etcd s.etcd.length 0).leader = [])) = true := by decide
    obtain ⟨s, hreach, hs⟩ := Machine.exec_reachable hrun rfl
    exact ⟨s, hreach, of_decide_eq_true hs⟩
  · have hrun : ((machine twoShards (lit "a")).exec Machine.Any start
        (stored ++ [.manager (.watch (.deliver 0)), .manager (.applyLocal 0)])).any (fun s => decide
          (s.Quiescent ∧ s.view.shards.lookup 0 = some ⟨⟨lit "a", [], []⟩, 2⟩ ∧
            (loadAt twoShards s.etcd s.etcd.length 0).shards.lookup 0 = none)) = true := by decide
    obtain ⟨s, hreach, hs⟩ := Machine.exec_reachable hrun rfl
    exact ⟨s, hreach, of_decide_eq_true hs⟩

end Examples

end Watcher
end Goverse.Consensus
