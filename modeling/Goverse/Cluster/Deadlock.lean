import Goverse.Cluster.ShardLock
import Goverse.Lib.WaitFor

/-! Goroutines that take shard locks cannot deadlock. One that has locks and waits for another wants
a shard after all those it has, and an announced writer of an entry waits for its readers only, so
that the shards wanted along a chain of waiting goroutines never go down. -/
namespace Goverse.Cluster

open GoString Lib Sharding Util

namespace ShardLock

variable {s t : ShardLock} {i : Nat}

section Waiting

variable (h : s.Tidy)
include h

theorem Tidy.user {c : Nat} {call : Call} (hc : s.keyLock.calls[c]? = some call)
    (hpc : call.pc ≠ .done) : ∃ i th shardID, s.owners[c]? = some i ∧ s.threads[i]? = some th ∧
      (shardID, c) ∈ th.inUse ∧ call.key = shardLockKey shardID ∧ th.Allows c call.pc := by
  obtain ⟨i, th, shardID, howner, hi, hmem⟩ := h.used c call hc hpc
  obtain ⟨_, hc', -, hkey, -, hallows⟩ := h.linked i th hi shardID c hmem
  cases hc.symm.trans hc'
  exact ⟨i, th, shardID, howner, hi, hmem, hkey, hallows⟩

theorem Tidy.shard_eq {c c' : Nat} {call call' : Call} {e : Nat} {shardID shardID' : Int}
    (hc : s.keyLock.calls[c]? = some call) (hc' : s.keyLock.calls[c']? = some call')
    (he : call.entry = some e) (he' : call'.entry = some e)
    (hkey : call.key = shardLockKey shardID) (hkey' : call'.key = shardLockKey shardID') :
    shardID = shardID' := by
  have hlookup := h.sound.entry call (List.mem_of_getElem? hc) e he
  have hlookup' := h.sound.entry call' (List.mem_of_getElem? hc') e he'
  have hkeys := h.sound.apart _ _ e hlookup hlookup'
  exact itoa_injective (hkey.symm.trans (hkeys.trans hkey'))

theorem Tidy.writer_announced {e writer : Nat}
    (hwriter : (s.keyLock.entries e).mu.writer = some writer) :
    s.announced e = some writer ∧ ∃ call, s.keyLock.calls[writer]? = some call ∧
      call.pc = .hold e := by
  obtain ⟨call, hcall, hholds⟩ := h.named.named e writer .exclusive hwriter
  obtain ⟨hpc, hmode⟩ := KeyLock.holds_eq_some.mp hholds
  exact ⟨h.announced.holder writer call e hcall hmode hpc, call, hcall, hpc⟩

theorem Tidy.blocker {j : Nat} (hij : s.WaitsFor i j) :
    ∃ th shardID c call e, s.threads[i]? = some th ∧ th.phase = .locking shardID c ∧
      s.keyLock.calls[c]? = some call ∧ call.pc = .wait e ∧
      ∃ th' c' call', s.threads[j]? = some th' ∧ (shardID, c') ∈ th'.inUse ∧
        s.keyLock.calls[c']? = some call' ∧ th'.Allows c' call'.pc ∧
        (call'.pc = .hold e ∨
          call'.pc = .wait e ∧ s.announced e = some c' ∧ s.announced e ≠ some c) := by
  obtain ⟨th, shardID, c, call, e, writer, hi, hphase, hc, hpc, hannounced, hwhy⟩ := hij
  refine ⟨th, shardID, c, call, e, hi, hphase, hc, hpc, ?_⟩
  obtain ⟨_, hc', -, hkey, -⟩ := h.linked i th hi shardID c (ShardThread.mem_inUse_locking hphase)
  cases hc.symm.trans hc'
  have hentry : call.entry = some e := by simp [Call.entry, hpc]
  -- The goroutine of a call at the entry is `j`, and the shard is the one `i` wants.
  have huser : ∀ {c' call'}, s.keyLock.calls[c']? = some call' → call'.entry = some e →
      s.owners[c']? = some j → ∃ th', s.threads[j]? = some th' ∧ (shardID, c') ∈ th'.inUse ∧
        th'.Allows c' call'.pc := by
    intro c' call' hcall' hentry' howner
    have hdone : call'.pc ≠ .done := by
      intro hdone
      simp [Call.entry, hdone] at hentry'
    obtain ⟨j', th', shardID', howner', hj, hmem, hkey', hallows⟩ := h.user hcall' hdone
    cases howner.symm.trans howner'
    cases h.shard_eq hc hcall' hentry hentry' hkey hkey'
    exact ⟨th', hj, hmem, hallows⟩
  rcases hwhy with ⟨hne, howner⟩ | ⟨rfl, reader, hreader, howner⟩
  · obtain ⟨call', hcall', -, hpc'⟩ := h.announced.writer e writer hannounced
    have hentry' : call'.entry = some e := by
      rcases hpc' with hpc' | hpc' <;> simp [Call.entry, hpc']
    obtain ⟨th', hj, hmem, hallows⟩ := huser hcall' hentry' howner
    refine ⟨th', writer, call', hj, hmem, hcall', hallows, ?_⟩
    rcases hpc' with hpc' | hpc'
    · refine .inr ⟨hpc', hannounced, fun heq => hne ?_⟩
      exact Option.some.inj (hannounced.symm.trans heq)
    · exact .inl hpc'
  · obtain ⟨call', hcall', hholds⟩ := h.named.named e reader .shared hreader
    have hpc' := (KeyLock.holds_eq_some.mp hholds).1
    have hentry' : call'.entry = some e := by simp [Call.entry, hpc']
    obtain ⟨th', hj, hmem, hallows⟩ := huser hcall' hentry' howner
    exact ⟨th', reader, call', hj, hmem, hcall', hallows, .inl hpc'⟩

omit h in
theorem WaitsFor.stuck {j : Nat} (hij : s.WaitsFor i j) : s.Stuck i := by
  obtain ⟨th, shardID, c, call, e, writer, hi, hphase, hc, hpc, hannounced, hwhy⟩ := hij
  refine ⟨th, hi, ?_, ?_⟩
  · simp [ShardThread.finished, hphase]
  · have hstep : s.step (.go i) = s.lockStep i th shardID c call := by
      simp only [ShardLock.step, hi, Option.bind_some, threadStep, hphase, hc]
    rw [hstep, lockStep, hpc]
    cases hmode : call.mode with
    | shared => simp [hannounced]
    | exclusive =>
      rcases hwhy with ⟨hne, -⟩ | ⟨rfl, reader, hreader, -⟩
      · simp [hannounced, hne]
      · have hlock : KeyLock.acquire call.mode (s.keyLock.entries e).mu writer = none := by
          simp [KeyLock.acquire, hmode, RWLock.lock, List.ne_nil_of_mem hreader]
        have hadvance : s.advance writer = none := by
          simp [advance, KeyLock.step, hc, KeyLock.callStep, hpc, hlock]
        simp [hannounced, acquire, hadvance]

omit h in
theorem advance_isSome {c : Nat} {call : Call} (hc : s.keyLock.calls[c]? = some call)
    (hpc : ∀ e, call.pc ≠ .wait e) (hdone : call.pc ≠ .done) : (s.advance c).isSome := by
  rw [advance, Option.isSome_map, KeyLock.step, hc, Option.bind_some, KeyLock.callStep]
  split
  · rfl
  · rename_i e hwait
    exact absurd hwait (hpc e)
  · rfl
  · rfl
  · rename_i heq
    exact absurd heq hdone

theorem Tidy.exists_owner {c : Nat} {call : Call} (hc : s.keyLock.calls[c]? = some call) :
    ∃ j, s.owners[c]? = some j := by
  have hlt := (List.getElem?_eq_some_iff.mp hc).1
  rw [← h.owned] at hlt
  exact ⟨_, List.getElem?_eq_getElem hlt⟩

section Mutex

variable {th : ShardThread} {shardID : Int} {c e : Nat} {call : Call}
  (hi : s.threads[i]? = some th) (hphase : th.phase = .locking shardID c)
  (hc : s.keyLock.calls[c]? = some call) (hpc : call.pc = .wait e)
include hi hphase hc hpc

theorem Tidy.waitsFor_writer {writer : Nat} (hannounced : s.announced e = some writer)
    (hne : writer ≠ c) : ∃ j, s.WaitsFor i j := by
  obtain ⟨call', hcall', -⟩ := h.announced.writer e writer hannounced
  obtain ⟨j, hj⟩ := h.exists_owner hcall'
  exact ⟨j, th, shardID, c, call, e, writer, hi, hphase, hc, hpc, hannounced, .inl ⟨hne, hj⟩⟩

theorem Tidy.waitsFor_reader (hannounced : s.announced e = some c)
    (hlock : (s.keyLock.entries e).mu.lock c = none) : ∃ j, s.WaitsFor i j := by
  cases hwriter : (s.keyLock.entries e).mu.writer with
  | some writer =>
    obtain ⟨hannounced', call', hcall', hhold⟩ := h.writer_announced hwriter
    cases hannounced.symm.trans hannounced'
    cases hc.symm.trans hcall'
    rw [hpc] at hhold
    contradiction
  | none =>
    have hreaders : (s.keyLock.entries e).mu.readers ≠ [] := by
      intro hnil
      simp [RWLock.lock, hwriter, hnil] at hlock
    obtain ⟨reader, hmem⟩ := List.exists_mem_of_ne_nil _ hreaders
    obtain ⟨call', hcall', -⟩ := h.named.named e reader .shared hmem
    obtain ⟨j, hj⟩ := h.exists_owner hcall'
    exact ⟨j, th, shardID, c, call, e, c, hi, hphase, hc, hpc, hannounced,
      .inr ⟨rfl, reader, hmem, hj⟩⟩

end Mutex

theorem Tidy.rlock_ne_none {e : Nat} (hfree : s.announced e = none) (c : Nat) :
    (s.keyLock.entries e).mu.rlock c ≠ none := by
  intro hlock
  cases hwriter : (s.keyLock.entries e).mu.writer with
  | none => simp [RWLock.rlock, hwriter] at hlock
  | some writer =>
    have hannounced := (h.writer_announced hwriter).1
    rw [hfree] at hannounced
    contradiction

omit h in
private theorem acquire_eq_none {th : ShardThread} {shardID : Int} {c e : Nat} {call : Call}
    (hc : s.keyLock.calls[c]? = some call) (hpc : call.pc = .wait e)
    (hnone : s.acquire i th shardID c = none) :
    KeyLock.acquire call.mode (s.keyLock.entries e).mu c = none := by
  have hadvance := Option.map_eq_none_iff.mp (Option.map_eq_none_iff.mp hnone)
  simpa [KeyLock.step, hc, KeyLock.callStep, hpc] using hadvance

theorem Tidy.lockStep_eq_none {th : ShardThread} {shardID : Int} {c : Nat} {call : Call}
    (hi : s.threads[i]? = some th) (hphase : th.phase = .locking shardID c)
    (hc : s.keyLock.calls[c]? = some call) (hallows : th.Allows c call.pc)
    (hnone : s.lockStep i th shardID c call = none) : ∃ j, s.WaitsFor i j := by
  rcases hallows.locking hphase with hpc | ⟨e, hpc⟩
  · have hsome := advance_isSome hc (fun e => hpc ▸ nofun) (hpc ▸ nofun)
    simp only [lockStep, hpc] at hnone
    rw [hnone] at hsome
    contradiction
  · simp only [lockStep, hpc] at hnone
    split at hnone
    · rename_i hmode hfree
      have hlock := acquire_eq_none hc hpc hnone
      rw [hmode] at hlock
      exact absurd hlock (h.rlock_ne_none hfree c)
    · rename_i writer hmode hannounced
      apply h.waitsFor_writer hi hphase hc hpc hannounced
      rintro rfl
      refine h.announced.not_some hc (fun hexclusive => ?_) hannounced
      rw [hmode] at hexclusive
      contradiction
    · contradiction
    · rename_i writer hmode hannounced
      split at hnone
      · rename_i hwriter
        subst hwriter
        have hlock := acquire_eq_none hc hpc hnone
        rw [hmode] at hlock
        exact h.waitsFor_reader hi hphase hc hpc hannounced hlock
      · rename_i hne
        exact h.waitsFor_writer hi hphase hc hpc hannounced hne

omit h in
private theorem unlockStep_isSome {th : ShardThread} {shardID : Int} {c : Nat} {call : Call}
    (hphase : th.phase = .unlocking shardID c) (hc : s.keyLock.calls[c]? = some call)
    (hallows : th.Allows c call.pc) : (s.unlockStep i th c call).isSome := by
  rcases hallows.unlocking hphase with ⟨e, hpc⟩ | hpc
  · simp only [unlockStep, hpc, Option.isSome_map]
    exact advance_isSome hc (fun e => hpc ▸ nofun) (hpc ▸ nofun)
  · simp only [unlockStep, hpc, Option.isSome_map]
    exact advance_isSome hc (fun e => hpc ▸ nofun) (hpc ▸ nofun)

theorem Tidy.stuck_iff : s.Stuck i ↔ ∃ j, s.WaitsFor i j := by
  refine ⟨?_, fun ⟨j, hij⟩ => hij.stuck⟩
  rintro ⟨th, hi, hfinished, hnone⟩
  simp only [ShardLock.step, hi, Option.bind_some] at hnone
  unfold threadStep at hnone
  split at hnone
  · split at hnone
    · contradiction
    · simp [KeyLock.step] at hnone
  · rename_i shardID c hphase
    obtain ⟨call, hc, -, -, -, hallows⟩ :=
      h.linked i th hi shardID c (ShardThread.mem_inUse_locking hphase)
    rw [hc, Option.bind_some] at hnone
    exact h.lockStep_eq_none hi hphase hc hallows hnone
  · rename_i hphase
    split at hnone
    · rename_i hheld
      simp [ShardThread.finished, hphase, hheld] at hfinished
    · contradiction
  · rename_i shardID c hphase
    obtain ⟨call, hc, -, -, -, hallows⟩ :=
      h.linked i th hi shardID c (ShardThread.mem_inUse_unlocking hphase)
    have hsome := unlockStep_isSome (i := i) hphase hc hallows
    rw [hc, Option.bind_some] at hnone
    rw [hnone] at hsome
    contradiction

end Waiting

/-- A call that is the announced writer of the entry it waits for. -/
def announcer (s : ShardLock) (c : Nat) : Bool :=
  match s.keyLock.calls[c]?.bind Call.entry with
  | some e => decide (s.announced e = some c)
  | none => false

/-- The shard a goroutine waits for. Of those who wait for one shard, the announced writer is the
highest. -/
def height (s : ShardLock) (i : Nat) : Int :=
  match s.threads[i]?.map ShardThread.phase with
  | some (.locking shardID c) => 2 * shardID + if s.announcer c then 1 else 0
  | _ => 0

private theorem height_locking {th : ShardThread} {shardID : Int} {c : Nat}
    (hi : s.threads[i]? = some th) (hphase : th.phase = .locking shardID c) :
    s.height i = 2 * shardID + if s.announcer c then 1 else 0 := by
  rw [height, hi, Option.map_some, hphase]

private theorem announcer_wait {c e : Nat} {call : Call} (hc : s.keyLock.calls[c]? = some call)
    (hpc : call.pc = .wait e) : s.announcer c = decide (s.announced e = some c) := by
  simp [announcer, hc, Call.entry, hpc]

theorem Tidy.height_lt (h : s.Tidy) {j k : Nat} (hij : s.WaitsFor i j) (hjk : s.WaitsFor j k) :
    s.height i < s.height j := by
  obtain ⟨th, shardID, c, call, e, hi, hphase, hc, hpc, th', c', call', hj, hmem, hcall', hallows,
    hwhy⟩ := h.blocker hij
  obtain ⟨_, shardID', c'', _, _, hj', hphase', -⟩ := h.blocker hjk
  cases hj.symm.trans hj'
  rw [height_locking hi hphase, height_locking hj hphase']
  rcases hwhy with hhold | ⟨hwait, hannounced, hnot⟩
  · rw [hhold] at hallows
    rw [ShardThread.inUse_locking hphase'] at hmem
    have hheld : (shardID, c') ∈ th'.held := by
      rcases mem_concat_cases hmem with hmem | hmem
      · exact hmem
      · cases hmem
        exact absurd hphase' (hallows _)
    have hline := h.ascending j th' hj
    rw [ShardThread.line, ShardThread.inUse_locking hphase', List.map_append] at hline
    have hlt := (List.pairwise_append.mp (List.pairwise_append.mp hline).1).2.2 shardID
      (List.mem_map_of_mem hheld) shardID' (List.mem_singleton_self _)
    split <;> split <;> omega
  · have hself := hallows
    rw [hwait] at hself
    obtain ⟨_, hlocking⟩ := hself
    cases hphase'.symm.trans hlocking
    obtain ⟨_, hc₁, -, hkey₁, -⟩ := h.linked j th' hj shardID c' hmem
    obtain ⟨_, hc₂, -, hkey₂, -⟩ :=
      h.linked j th' hj shardID' c' (ShardThread.mem_inUse_locking hphase')
    cases hc₁.symm.trans hc₂
    cases itoa_injective (hkey₁.symm.trans hkey₂)
    rw [announcer_wait hc hpc, announcer_wait hcall' hwait, decide_eq_false hnot,
      decide_eq_true hannounced]
    simp

theorem Tidy.waited_for (h : s.Tidy) {j : Nat} (hij : s.WaitsFor i j) :
    ∃ th, s.threads[j]? = some th ∧ th.finished = false := by
  obtain ⟨_, _, _, _, _, -, -, -, -, th, c, _, hj, hmem, -⟩ := h.blocker hij
  refine ⟨th, hj, ?_⟩
  by_contra hfinished
  have hfinished := of_decide_eq_true (Bool.eq_true_of_not_eq_false hfinished)
  rw [ShardThread.inUse, hfinished.1, hfinished.2] at hmem
  contradiction

/-- A goroutine is stuck exactly when it waits for another. Those it waits for, and those they wait
for in turn, lead to one that can take a step, and nobody waits for themselves. -/
theorem shard_locks_are_deadlock_free {numShards : Nat}
    (hs : (machine numShards).Reachable Distinct s) :
    (∀ i, s.Stuck i ↔ ∃ j, s.WaitsFor i j) ∧
    (∀ i, s.Stuck i → ∃ j, Relation.TransGen s.WaitsFor i j ∧ (s.step (.go j)).isSome) ∧
    ∀ i, ¬ Relation.TransGen s.WaitsFor i i := by
  have h := tidy_of_reachable hs
  have hup : ∀ i j k, s.WaitsFor i j → s.WaitsFor j k → s.height i < s.height j :=
    fun _ _ _ hij hjk => h.height_lt hij hjk
  refine ⟨fun i => h.stuck_iff, fun i hstuck => ?_, acyclic_of_height hup⟩
  obtain ⟨j, hij⟩ := h.stuck_iff.mp hstuck
  have hbound : ∀ {i j}, s.WaitsFor i j → j < s.threads.length := by
    intro i j hij
    obtain ⟨th, hj, -⟩ := h.waited_for hij
    exact (List.getElem?_eq_some_iff.mp hj).1
  obtain ⟨k, hik, hend⟩ := exists_not_waiting hup hbound hij
  refine ⟨k, hik, ?_⟩
  obtain ⟨_, -, hlast⟩ := Relation.TransGen.tail'_iff.mp hik
  obtain ⟨th, hk, hfinished⟩ := h.waited_for hlast
  by_contra hnone
  obtain ⟨l, hkl⟩ := h.stuck_iff.mp ⟨th, hk, hfinished, Option.not_isSome_iff_eq_none.mp hnone⟩
  exact hend l hkl

/-- Goroutine 2 waits for goroutine 0, which has shard 1 and waits for goroutine 1. -/
theorem shard_locks_are_deadlock_free_chain : ∃ s : ShardLock, s.Stuck 2 ∧
    (∃ j, Relation.TransGen s.WaitsFor 2 j ∧ (s.step (.go j)).isSome) ∧
    ¬ Relation.TransGen s.WaitsFor 2 2 := by
  have hrun : ((machine 8).exec Distinct (new 8) [.acquireWriteMultiple [3, 1], .acquireWrite 3,
      .acquireWrite 1, .go 0, .go 0, .go 0, .go 0, .go 1, .go 1, .go 1, .go 1, .go 0, .go 0, .go 2,
      .go 2]).any (fun s => s.threads[2]?.any (fun th => !th.finished) &&
        (s.step (.go 2)).isNone) = true := by decide
  obtain ⟨s, hsteps, hs⟩ := Machine.exec_any hrun
  obtain ⟨hlive, hnone⟩ := Bool.and_eq_true_iff.mp hs
  obtain ⟨th, hth, hfinished⟩ := (Option.any_eq_true _ _).mp hlive
  have hstuck : s.Stuck 2 := ⟨th, hth, by simpa using hfinished, Option.isNone_iff_eq_none.mp hnone⟩
  obtain ⟨-, hprogress, hacyclic⟩ := shard_locks_are_deadlock_free ⟨new 8, _, rfl, hsteps⟩
  exact ⟨s, hstuck, hprogress 2 hstuck, hacyclic 2⟩

end ShardLock
end Goverse.Cluster
