import Goverse.Consensus.Planner
import Goverse.Util.PoolRule

/-! `storeShardMapping` on its worker pool: one task for every entry of `updateShards`, and the
count of what they report. Etcd may refuse a transaction, find that the record has changed, or
commit and report that or an error. -/
namespace Goverse.Consensus

open GoString Lib ClusterState

/-- The errors of a task: `failed to store shard %d: %w` and
`failed to store shard %d: ModRevision mismatch (expected %d, got %d)`. -/
inductive StoreError where
  | failed (shardID : Int)
  | mismatch (shardID : Int) (expected got : Nat)
  deriving DecidableEq, Repr

/-- Where a task is: before its transaction, before the read that follows a conflict, before the
local update. -/
inductive StorePC where
  | commit
  | diagnose
  | update (rev : Nat)
  deriving DecidableEq, Repr

inductive StoreChoice where
  | refuse
  | commit (reported : Bool)
  | get (ok : Bool)
  | update
  deriving DecidableEq, Repr

/-- `attempted` and `committed` are the shards whose transactions were sent and took effect. -/
structure StoreWorld where
  etcd : Etcd
  view : ClusterState
  attempted : List Int
  committed : List Int

/-- What others do meanwhile: a write to etcd, or any change of this node's view. -/
inductive StoreEvent where
  | write (w : Write GoString GoString)
  | view (view : ClusterState)

abbrev Updates := AList fun _ : Int => ShardInfo

/-- The task function of the entry. -/
def storeShard (c : Config) (w : StoreWorld) (shardID : Int) (info : ShardInfo) :
    StorePC → StoreChoice → Option (StoreWorld × (StorePC ⊕ Option StoreError))
  | .commit, .refuse =>
    some ({ w with attempted := w.attempted ++ [shardID] }, .inr (some (.failed shardID)))
  | .commit, .commit reported =>
    match w.etcd.txn (c.shardKey shardID) info.modRevision
        (formatShardInfo info.toShardRecord) with
    | some etcd =>
      some ({ w with
          etcd := etcd, attempted := w.attempted ++ [shardID]
          committed := w.committed ++ [shardID] },
        if reported then .inl (.update etcd.length) else .inr (some (.failed shardID)))
    | none =>
      some ({ w with attempted := w.attempted ++ [shardID] },
        if reported then .inl .diagnose else .inr (some (.failed shardID)))
  | .diagnose, .get ok =>
    some (w, .inr (some (.mismatch shardID info.modRevision
      (if ok then w.etcd.modRevision (c.shardKey shardID) else 0))))
  | .update rev, .update =>
    some ({ w with view := w.view.applyStored shardID info rev }, .inr none)
  | _, _ => none

def storeTasks (c : Config) (updateShards : Updates) :
    Util.Tasks StoreWorld StorePC StoreChoice StoreEvent StoreError where
  start := .commit
  step i _ w pc choice :=
    updateShards.entries[i]?.bind fun entry => storeShard c w entry.1 entry.2 pc choice
  env w
    | .write write => some { w with etcd := w.etcd ++ [write] }
    | .view view => some { w with view := view }

/-- `poolSize` of the source. -/
def storePoolSize (c : Config) : Int := if c.numShards / 512 < 1 then 1 else c.numShards / 512

/-- The loop over the results. -/
def countStored (results : List (Util.Result StoreError)) :
    Nat × Option (Util.TaskError StoreError) :=
  results.foldl (fun (successCount, firstError) err =>
    match err, firstError with
    | some err, none => (successCount, some err)
    | some _, some first => (successCount, some first)
    | none, _ => (successCount + 1, firstError)) (0, none)

inductive StoreMappingError where
  | managerNotSet
  | clientNotConnected
  | task (error : Util.TaskError StoreError)
  deriving DecidableEq, Repr

/-- The record of the entry was written by its transaction. -/
def StoreWorld.Wrote (c : Config) (w : StoreWorld) (entry : (_ : Int) × ShardInfo) : Prop :=
  entry.1 ∈ w.committed ∧
    ∃ rev, w.etcd.Version (c.shardKey entry.1) rev (formatShardInfo entry.2.toShardRecord)

/-- A call that is refused before it starts a pool, or has one. -/
inductive StoreCall where
  | refused (error : StoreMappingError)
  | pooled (pool : Util.WorkerPool StoreWorld StorePC StoreError)

namespace StoreCall

/-- The values it returns, after the deferred `Stop`. -/
def returned : StoreCall → Option (Nat × Option StoreMappingError)
  | .refused error => some (0, some error)
  | .pooled pool =>
    match pool.caller with
    | .returned =>
      let (successCount, firstError) := countStored pool.results
      some (successCount, firstError.map .task)
    | _ => none

def attempted : StoreCall → List Int
  | .refused _ => []
  | .pooled pool => pool.world.attempted

/-- The transaction of the entry took effect. -/
def Committed (c : Config) (entry : (_ : Int) × ShardInfo) : StoreCall → Prop
  | .refused _ => False
  | .pooled pool => pool.world.Wrote c entry

def machine (c : Config) (updateShards : Updates) (etcd : Etcd) (view : ClusterState) :
    Machine StoreCall (Util.WorkerPool.Label StoreChoice StoreEvent) where
  Init call := call = .refused .managerNotSet ∨ call = .refused .clientNotConnected ∨
    ∃ ctxDone, call = .pooled (.start (storePoolSize c) updateShards.entries.length
      ⟨etcd, view, [], []⟩ ctxDone)
  step
    | .refused _, _ => none
    | .pooled pool, l => (pool.step (storeTasks c updateShards) l).map .pooled

end StoreCall

section Tasks

variable {c : Config} {updateShards : Updates} {w next : StoreWorld}

/-- What was written stays so. -/
def StoreWorld.Grows (c : Config) (w next : StoreWorld) : Prop :=
  ∀ entry, w.Wrote c entry → next.Wrote c entry

theorem StoreWorld.grows_write {w : StoreWorld} (write : Write GoString GoString)
    (view : ClusterState) (attempted more : List Int) :
    w.Grows c ⟨w.etcd ++ [write], view, attempted, w.committed ++ more⟩ := by
  intro entry ⟨hmem, rev, hversion⟩
  exact ⟨List.mem_append_left more hmem, rev, hversion.concat write⟩

/-- How often a transaction was sent at most, and whether it took effect. -/
def sent : Util.TaskStage StorePC StoreError → Nat
  | .fresh | .running .commit => 0
  | _ => 1

def stored : Util.TaskStage StorePC StoreError → Bool
  | .running (.update _) | .ended none => true
  | _ => false

/-- What a step of a task does: it sends its transaction, or goes on after that. -/
inductive StoreCase (c : Config) (w : StoreWorld) (entry : (_ : Int) × ShardInfo) :
    StorePC → StoreWorld → StorePC ⊕ Option StoreError → Prop
  | failed (next : StoreWorld) (hgrows : w.Grows c next)
      (hsent : next.attempted = w.attempted ++ [entry.1]) (error : StoreError) :
      StoreCase c w entry .commit next (.inr (some error))
  | conflict (next : StoreWorld) (hgrows : w.Grows c next)
      (hsent : next.attempted = w.attempted ++ [entry.1]) :
      StoreCase c w entry .commit next (.inl .diagnose)
  | committed (next : StoreWorld) (hgrows : w.Grows c next)
      (hsent : next.attempted = w.attempted ++ [entry.1]) (hwrote : next.Wrote c entry)
      (rev : Nat) : StoreCase c w entry .commit next (.inl (.update rev))
  | mismatch (error : StoreError) : StoreCase c w entry .diagnose w (.inr (some error))
  | updated (rev : Nat) (view : ClusterState) :
      StoreCase c w entry (.update rev) { w with view := view } (.inr none)

theorem storeShard_cases {entry : (_ : Int) × ShardInfo} {pc : StorePC} {choice : StoreChoice}
    {result : StorePC ⊕ Option StoreError}
    (h : storeShard c w entry.1 entry.2 pc choice = some (next, result)) :
    StoreCase c w entry pc next result := by
  cases pc <;> cases choice <;> simp only [storeShard] at h
  case commit.refuse =>
    cases h
    refine .failed _ ?_ rfl _
    exact fun _ hwrote => hwrote
  case commit.commit reported =>
    split at h
    · rename_i etcd htxn
      obtain ⟨-, rfl⟩ := Log.txn_eq_some htxn
      cases h
      have hwrote : StoreWorld.Wrote c ⟨_, w.view, w.attempted ++ [entry.1],
          w.committed ++ [entry.1]⟩ entry :=
        ⟨by simp, w.etcd.length + 1, Log.version_concat ..⟩
      have hgrows := StoreWorld.grows_write (c := c) (w := w)
        ⟨c.shardKey entry.1, some (formatShardInfo entry.2.toShardRecord)⟩ w.view
        (w.attempted ++ [entry.1]) [entry.1]
      cases reported with
      | true => exact .committed _ hgrows rfl hwrote _
      | false => exact .failed _ hgrows rfl _
    · cases h
      cases reported with
      | true =>
        refine .conflict _ ?_ rfl
        exact fun _ hwrote => hwrote
      | false =>
        refine .failed _ ?_ rfl _
        exact fun _ hwrote => hwrote
  case diagnose.get =>
    cases h
    exact .mismatch _
  case update.update rev =>
    cases h
    exact .updated rev _
  all_goals contradiction

/-- The transaction of the task was sent as often as its stage says, and took effect if it
says so. -/
def StoredAt (c : Config) (updateShards : Updates) (i : Nat)
    (stage : Util.TaskStage StorePC StoreError) (w : StoreWorld) : Prop :=
  ∀ entry, updateShards.entries[i]? = some entry →
    w.attempted.count entry.1 ≤ sent stage ∧ (stored stage = true → w.Wrote c entry)

theorem StoreCase.grows {entry : (_ : Int) × ShardInfo} {pc : StorePC}
    {result : StorePC ⊕ Option StoreError} (h : StoreCase c w entry pc next result) :
    w.Grows c next := by
  cases h with
  | failed _ hgrows | conflict _ hgrows | committed _ hgrows => exact hgrows
  | mismatch | updated => exact fun _ hwrote => hwrote

theorem StoreCase.attempted {entry : (_ : Int) × ShardInfo} {pc : StorePC}
    {result : StorePC ⊕ Option StoreError} (h : StoreCase c w entry pc next result) :
    next.attempted = w.attempted ∨ next.attempted = w.attempted ++ [entry.1] := by
  cases h with
  | failed _ _ hsent | conflict _ _ hsent | committed _ _ hsent => exact .inr hsent
  | mismatch | updated => exact .inl rfl

/-- The stage a step leads to. -/
def stageOf : StorePC ⊕ Option StoreError → Util.TaskStage StorePC StoreError
  | .inl pc => .running pc
  | .inr error => .ended error

theorem StoreCase.storedAt {entry : (_ : Int) × ShardInfo} {pc : StorePC}
    {result : StorePC ⊕ Option StoreError} (h : StoreCase c w entry pc next result)
    (hcount : w.attempted.count entry.1 ≤ sent (.running pc))
    (hwrote : stored (.running pc) = true → w.Wrote c entry) :
    next.attempted.count entry.1 ≤ sent (stageOf result) ∧
      (stored (stageOf result) = true → next.Wrote c entry) := by
  have honce : next.attempted = w.attempted ++ [entry.1] →
      sent (.running pc) = 0 → next.attempted.count entry.1 ≤ 1 := by
    intro hsent hzero
    rw [hsent, List.count_append, List.count_singleton_self]
    omega
  cases h with
  | failed _ _ hsent | conflict _ _ hsent => exact ⟨honce hsent rfl, by simp [stageOf, stored]⟩
  | committed _ _ hsent hwrote => exact ⟨honce hsent rfl, fun _ => hwrote⟩
  | mismatch => exact ⟨hcount, by simp [stageOf, stored]⟩
  | updated => exact ⟨hcount, fun _ => hwrote rfl⟩

theorem storeTasks_cases {i : Nat} {done : Bool} {pc : StorePC} {choice : StoreChoice}
    {result : StorePC ⊕ Option StoreError}
    (h : (storeTasks c updateShards).step i done w pc choice = some (next, result)) :
    ∃ entry, updateShards.entries[i]? = some entry ∧ StoreCase c w entry pc next result := by
  obtain ⟨entry, hentry, h⟩ := Option.bind_eq_some_iff.mp h
  exact ⟨entry, hentry, storeShard_cases h⟩

theorem storedAt_step {i : Nat} {done : Bool} {pc : StorePC} {choice : StoreChoice}
    {result : StorePC ⊕ Option StoreError}
    (h : (storeTasks c updateShards).step i done w pc choice = some (next, result))
    (hstage : StoredAt c updateShards i (.running pc) w) :
    StoredAt c updateShards i (stageOf result) next := by
  intro entry hentry
  obtain ⟨entry', hentry', hcase⟩ := storeTasks_cases h
  rw [hentry] at hentry'
  cases hentry'
  exact hcase.storedAt (hstage entry hentry).1 (hstage entry hentry).2

private theorem entries_key_ne {i j : Nat} {entry entry' : (_ : Int) × ShardInfo}
    (hi : updateShards.entries[i]? = some entry) (hj : updateShards.entries[j]? = some entry')
    (hne : j ≠ i) : entry'.1 ≠ entry.1 := by
  have hkeys : (updateShards.entries.map Sigma.fst).Nodup := updateShards.nodupKeys
  intro heq
  have hlt : j < (updateShards.entries.map Sigma.fst).length := by
    rw [List.length_map]
    exact (List.getElem?_eq_some_iff.mp hj).1
  apply hne
  apply (List.getElem?_inj hlt hkeys).mp
  rw [List.getElem?_map, List.getElem?_map, hi, hj, Option.map_some, Option.map_some, heq]

private theorem storeTasks_rule (c : Config) (updateShards : Updates) :
    (storeTasks c updateShards).Rule (StoredAt c updateShards) where
  begin h entry hentry := ⟨(h entry hentry).1, by simp [stored, storeTasks]⟩
  resume hstep h := storedAt_step hstep h
  finish hstep h := storedAt_step hstep h
  other hstep _ hne h entry hentry := by
    obtain ⟨entry', hentry', hcase⟩ := storeTasks_cases hstep
    refine ⟨?_, fun hstored => hcase.grows entry ((h entry hentry).2 hstored)⟩
    have hkey := entries_key_ne hentry' hentry hne
    rcases hcase.attempted with hsame | hsent
    · rw [hsame]
      exact (h entry hentry).1
    · rw [hsent, List.count_append, List.count_singleton, if_neg (by simpa using hkey.symm)]
      exact (h entry hentry).1
  env {i world next event stage} henv h entry hentry := by
    cases event with
    | write write =>
      cases henv
      refine ⟨(h entry hentry).1, fun hstored => ?_⟩
      obtain ⟨hmem, rev, hversion⟩ := (h entry hentry).2 hstored
      exact ⟨hmem, rev, hversion.concat write⟩
    | view view =>
      cases henv
      exact h entry hentry

end Tasks

private theorem countStored_foldl (results : List (Util.Result StoreError)) (count : Nat)
    (first : Option (Util.TaskError StoreError)) :
    results.foldl (fun (successCount, firstError) err =>
      match err, firstError with
      | some err, none => (successCount, some err)
      | some _, some first => (successCount, some first)
      | none, _ => (successCount + 1, firstError)) (count, first) =
      (count + results.countP Option.isNone,
        first.or (results.find? Option.isSome).join) := by
  induction results generalizing count first with
  | nil => simp
  | cons err results ih =>
    rw [List.foldl_cons]
    cases err with
    | none =>
      rw [ih, List.countP_cons_of_pos rfl, List.find?_cons_of_neg (by simp)]
      congr 1
      omega
    | some err =>
      rw [List.countP_cons_of_neg (by simp), List.find?_cons_of_pos rfl]
      cases first with
      | none => exact ih count (some err)
      | some first => exact ih count (some first)

private theorem countStored_eq (results : List (Util.Result StoreError)) :
    countStored results =
      (results.countP Option.isNone, (results.find? Option.isSome).join) := by
  have h := countStored_foldl results 0 none
  rw [Nat.zero_add, Option.none_or] at h
  exact h

namespace StoreCall

variable {c : Config} {updateShards : Updates} {etcd : Etcd} {view : ClusterState}

/-- What every reachable pool satisfies. -/
structure Accounted (c : Config) (updateShards : Updates)
    (pool : Util.WorkerPool StoreWorld StorePC StoreError) : Prop where
  ledger : pool.Ledger
  phased : pool.Phased
  follows : pool.Follows (StoredAt c updateShards)
  counted : pool.Counted
  length : pool.submitters.length = updateShards.entries.length

theorem accounted {pool : Util.WorkerPool StoreWorld StorePC StoreError}
    (hreach : (machine c updateShards etcd view).Reachable Machine.Any (.pooled pool)) :
    Accounted c updateShards pool := by
  refine hreach.invariant (I := fun call => ∀ pool, call = .pooled pool →
    Accounted c updateShards pool) ?_ ?_ pool rfl
  · rintro call hinit pool rfl
    rcases hinit with hinit | hinit | ⟨ctxDone, hinit⟩
    · contradiction
    · contradiction
    · cases hinit
      refine ⟨.start .., .start .., .start (fun i entry _ => ?_) ctxDone, ?_,
        List.length_replicate⟩
      · exact ⟨Nat.le_refl 0, by simp [stored]⟩
      · intro q
        exact (List.countP_eq_zero.mpr fun pc hpc => by
          rw [List.eq_of_mem_replicate hpc]
          simp [Util.Submitter.reported]).symm
  · rintro call l next hinv - hstep pool rfl
    cases call with
    | refused => contradiction
    | pooled old =>
      obtain ⟨pool', hpool, hnext⟩ := Option.map_eq_some_iff.mp hstep
      cases hnext
      have h := hinv old rfl
      have hcase := Util.WorkerPool.step_cases hpool
      exact ⟨h.ledger.step hcase, h.phased.step hcase,
        h.follows.step (storeTasks_rule c updateShards) h.ledger hcase, h.counted.step hcase,
        (Util.WorkerPool.step_submitters_length hcase).trans h.length⟩

namespace Accounted

variable {pool : Util.WorkerPool StoreWorld StorePC StoreError}

/-- Whether the submitter has appended `nil`. -/
def isStored : Util.Submitter StoreError → Bool := Util.Submitter.reported Option.isNone

private theorem wrote_of_isStored (h : Accounted c updateShards pool) {i : Nat}
    {pc : Util.Submitter StoreError} {entry : (_ : Int) × ShardInfo}
    (hpc : pool.submitters[i]? = some pc) (hstored : isStored pc = true)
    (hentry : updateShards.entries[i]? = some entry) : pool.world.Wrote c entry := by
  cases pc with
  | done result =>
    cases result with
    | none => exact (h.follows.reported i hpc entry hentry).2 rfl
    | some error => contradiction
  | check | trySend | blocked | awaiting => contradiction

private theorem stored_sublist (h : Accounted c updateShards pool) :
    ∃ stored : List ((_ : Int) × ShardInfo), stored.Sublist updateShards.entries ∧
      stored.length = pool.results.countP Option.isNone ∧
      ∀ entry ∈ stored, pool.world.Wrote c entry := by
  let pairs := pool.submitters.zip updateShards.entries
  refine ⟨(pairs.filter fun pair => isStored pair.1).map Prod.snd, ?_, ?_, ?_⟩
  · have hsnd : pairs.map Prod.snd = updateShards.entries :=
      List.map_snd_zip (Nat.le_of_eq h.length.symm)
    rw [← hsnd]
    exact (List.filter_sublist).map Prod.snd
  · have hfst : pairs.map Prod.fst = pool.submitters := List.map_fst_zip (Nat.le_of_eq h.length)
    rw [List.length_map, ← List.countP_eq_length_filter, h.counted, ← hfst, List.countP_map]
    rfl
  · intro entry hentry
    obtain ⟨pair, hpair, rfl⟩ := List.mem_map.mp hentry
    obtain ⟨hmem, hstored⟩ := List.mem_filter.mp hpair
    obtain ⟨i, hi⟩ := List.mem_iff_getElem?.mp hmem
    obtain ⟨hpc, hentry⟩ := List.getElem?_zip_eq_some.mp hi
    exact h.wrote_of_isStored hpc hstored hentry

private theorem length_results (h : Accounted c updateShards pool) (hend : pool.caller ≠ .wait) :
    pool.results.length = updateShards.entries.length := by
  have hall := h.counted fun _ => true
  rw [List.countP_true] at hall
  rw [hall, ← h.length]
  apply List.countP_eq_length.mpr
  intro pc hpc
  obtain ⟨result, rfl⟩ := Util.Submitter.eq_done_of_isDone (h.phased.left hend pc hpc)
  rfl

private theorem attempted_once (h : Accounted c updateShards pool) :
    ∀ entry ∈ updateShards.entries, pool.world.attempted.count entry.1 ≤ 1 := by
  intro entry hentry
  obtain ⟨i, hi⟩ := List.mem_iff_getElem?.mp hentry
  obtain ⟨stage, hstage⟩ := h.follows.staged i
  have hle : sent stage ≤ 1 := by
    unfold sent
    split <;> omega
  exact Nat.le_trans (hstage entry hi).1 hle

end Accounted

private theorem returned_pooled {pool : Util.WorkerPool StoreWorld StorePC StoreError} {n : Nat}
    {error : Option StoreMappingError} (h : (StoreCall.pooled pool).returned = some (n, error)) :
    pool.caller ≠ .wait ∧ n = pool.results.countP Option.isNone ∧
      (error = none → ∀ result ∈ pool.results, result = none) := by
  simp only [returned] at h
  split at h
  · rename_i hcaller
    rw [countStored_eq] at h
    cases h
    refine ⟨by simp [hcaller], rfl, fun hnone result hresult => ?_⟩
    rw [Option.map_eq_none_iff, Option.join_eq_none_iff] at hnone
    rcases hnone with hnone | hnone
    · simpa using List.find?_eq_none.mp hnone result hresult
    · simpa using List.find?_some hnone
  · contradiction

/-- `storeShardMapping` reports honestly: it sends no transaction twice; it returns no error
only if it stored everything, with the number of entries; and with an error it returns at most
the number of entries it stored. -/
theorem store_reports_honestly (c : Config) (updateShards : Updates) (etcd : Etcd)
    (view : ClusterState) (call : StoreCall)
    (hreach : (machine c updateShards etcd view).Reachable Machine.Any call) :
    (∀ entry ∈ updateShards.entries, call.attempted.count entry.1 ≤ 1) ∧
    (∀ n, call.returned = some (n, none) → n = updateShards.entries.length ∧
      ∀ entry ∈ updateShards.entries, call.Committed c entry) ∧
    ∀ n error, call.returned = some (n, some error) →
      ∃ stored : List ((_ : Int) × ShardInfo), stored.Sublist updateShards.entries ∧
        stored.length = n ∧ ∀ entry ∈ stored, call.Committed c entry := by
  cases call with
  | refused error =>
    refine ⟨fun entry _ => Nat.zero_le 1, fun n hreturned => ?_, fun n error' hreturned => ?_⟩
    · simp [returned] at hreturned
    · refine ⟨[], List.nil_sublist _, ?_, fun entry hentry => by cases hentry⟩
      simp only [returned, Option.some.injEq, Prod.mk.injEq] at hreturned
      exact hreturned.1
  | pooled pool =>
    have h := accounted hreach
    obtain ⟨stored, hsub, hlength, hwrote⟩ := h.stored_sublist
    refine ⟨h.attempted_once, fun n hreturned => ?_, fun n error hreturned => ?_⟩
    · obtain ⟨hend, hn, hnil⟩ := returned_pooled hreturned
      have hall : pool.results.countP Option.isNone = pool.results.length :=
        List.countP_eq_length.mpr fun result hresult => by simp [hnil rfl result hresult]
      have hn' : n = updateShards.entries.length := by rw [hn, hall, h.length_results hend]
      have hstored : stored = updateShards.entries := hsub.eq_of_length (by omega)
      exact ⟨hn', fun entry hentry => hwrote entry (hstored ▸ hentry)⟩
    · obtain ⟨-, hn, -⟩ := returned_pooled hreturned
      exact ⟨stored, hsub, by omega, hwrote⟩

/-- Shard 0 is new; shard 1 is thought to have been written at revision 7. -/
def twoUpdates : Updates :=
  (AList.singleton 1 ⟨⟨lit "b", [], []⟩, 7⟩).insert 0 ⟨⟨lit "a", [], []⟩, 0⟩

/-- Shard 0 is stored and shard 1 is not. -/
theorem store_reports_honestly_conflict :
    ∃ call, (machine twoShards twoUpdates [] .empty).Reachable Machine.Any call ∧
      call.returned = some (1, some (.task (.task (.mismatch 1 7 0)))) ∧
      ∃ stored : List ((_ : Int) × ShardInfo), stored.Sublist twoUpdates.entries ∧
        stored.length = 1 ∧ ∀ entry ∈ stored, call.Committed twoShards entry := by
  have hrun : ((machine twoShards twoUpdates [] .empty).exec Machine.Any
      (.pooled (.start (storePoolSize twoShards) twoUpdates.entries.length ⟨[], .empty, [], []⟩
        false))
      [.submitter 0 .fallback, .submitter 0 .chan, .submitter 1 .fallback, .submitter 1 .chan,
        .worker 0 .chan, .task 0 (.commit true), .task 0 .update, .worker 0 .chan,
        .worker 0 .chan, .task 0 (.commit true), .task 0 (.get true), .worker 0 .chan,
        .submitter 1 .chan, .submitter 0 .chan, .caller, .caller, .caller, .worker 0 .ctx,
        .caller]).any (fun call => decide
      (call.returned = some (1, some (.task (.task (.mismatch 1 7 0)))))) = true := by decide
  obtain ⟨call, hreach, hcall⟩ := Machine.exec_reachable hrun (.inr (.inr ⟨false, rfl⟩))
  have hreturned := of_decide_eq_true hcall
  exact ⟨call, hreach, hreturned,
    (store_reports_honestly twoShards twoUpdates [] .empty call hreach).2.2 1 _ hreturned⟩

end StoreCall
end Goverse.Consensus
