import Mathlib.Logic.Function.Basic
import Goverse.Lib.Threads

/-! Readers-writer locks, one for each key, and the discipline of a pool of threads that
takes them: a thread that is at a place where it should hold a lock does hold it. A writer
then excludes every other holder of the same key. -/
namespace Goverse.Lib

/-- Holders are named by their index in the pool. A writer is alone. -/
structure RWLock where
  writer : Option Nat
  readers : List Nat
  alone : writer ≠ none → readers = []

namespace RWLock

def free : RWLock := ⟨none, [], fun _ => rfl⟩

def lock (l : RWLock) (self : Nat) : Option RWLock :=
  if l.writer = none ∧ l.readers = [] then some ⟨some self, [], fun _ => rfl⟩ else none

def rlock (l : RWLock) (self : Nat) : Option RWLock :=
  if l.writer = none then some ⟨none, self :: l.readers, fun h => absurd rfl h⟩ else none

def unlock (l : RWLock) : RWLock := ⟨none, l.readers, fun h => absurd rfl h⟩

def runlock (l : RWLock) (self : Nat) : RWLock :=
  ⟨l.writer, l.readers.erase self, fun h => by rw [l.alone h, List.erase_nil]⟩

end RWLock

inductive Mode where
  | shared | exclusive
  deriving DecidableEq, Repr

section Pool

variable {K θ : Type*}

def Disciplined (locks : K → RWLock) (holds : θ → K → Option Mode) (pool : List θ) : Prop :=
  ∀ (i : Nat) (th : θ) (k : K), pool[i]? = some th →
    (holds th k = some .exclusive → (locks k).writer = some i) ∧
    (holds th k = some .shared → i ∈ (locks k).readers)

namespace Disciplined

variable {locks : K → RWLock} {holds : θ → K → Option Mode} {pool : List θ}

/-- A writer is the only holder. -/
theorem excludes (h : Disciplined locks holds pool) {i j : Nat} {th other : θ} {k : K}
    (hi : pool[i]? = some th) (hth : holds th k = some .exclusive)
    (hj : pool[j]? = some other) (hother : holds other k ≠ none) : j = i := by
  have hwriter := (h i th k hi).1 hth
  cases hmode : holds other k with
  | none => exact absurd hmode hother
  | some mode =>
    cases mode with
    | exclusive =>
      have := (h j other k hj).1 hmode
      rw [hwriter] at this
      exact (Option.some.inj this).symm
    | shared =>
      have hmem := (h j other k hj).2 hmode
      rw [(locks k).alone (by rw [hwriter]; nofun)] at hmem
      contradiction

/-- A thread that moves without taking a lock. -/
theorem move (h : Disciplined locks holds pool) {i : Nat} {th next : θ}
    (hi : pool[i]? = some th) (hkeep : ∀ k mode, holds next k = some mode →
      holds th k = some mode) : Disciplined locks holds (pool.set i next) := by
  intro j other k hj
  rcases getElem?_set_cases hj with ⟨rfl, rfl⟩ | ⟨-, hj⟩
  · exact ⟨fun hx => (h j th k hi).1 (hkeep k _ hx), fun hs => (h j th k hi).2 (hkeep k _ hs)⟩
  · exact h j other k hj

theorem spawn (h : Disciplined locks holds pool) {next : θ} (hnone : ∀ k, holds next k = none) :
    Disciplined locks holds (pool ++ [next]) := by
  intro j other k hj
  rcases getElem?_concat_cases hj with ⟨-, rfl⟩ | hj
  · simp [hnone k]
  · exact h j other k hj

variable [DecidableEq K]

/-- A thread that moves while the lock of one key changes. -/
theorem relock (h : Disciplined locks holds pool) {i : Nat} {th next : θ} {k : K}
    (l : RWLock) (hi : pool[i]? = some th)
    (hothers : ∀ j other, j ≠ i → pool[j]? = some other →
      (holds other k = some .exclusive → l.writer = some j) ∧
      (holds other k = some .shared → j ∈ l.readers))
    (hself : (holds next k = some .exclusive → l.writer = some i) ∧
      (holds next k = some .shared → i ∈ l.readers))
    (hkeep : ∀ k' mode, k' ≠ k → holds next k' = some mode → holds th k' = some mode) :
    Disciplined (Function.update locks k l) holds (pool.set i next) := by
  intro j other k' hj
  by_cases hk : k' = k
  · subst hk
    rw [Function.update_self]
    rcases getElem?_set_cases hj with ⟨rfl, rfl⟩ | ⟨hne, hj⟩
    · exact hself
    · exact hothers j other hne hj
  · rw [Function.update_of_ne hk]
    rcases getElem?_set_cases hj with ⟨rfl, rfl⟩ | ⟨-, hj⟩
    · exact ⟨fun hx => (h j th k' hi).1 (hkeep k' _ hk hx),
        fun hs => (h j th k' hi).2 (hkeep k' _ hk hs)⟩
    · exact h j other k' hj

theorem lock (h : Disciplined locks holds pool) {i : Nat} {th next : θ} {k : K} {l : RWLock}
    (hi : pool[i]? = some th) (hl : (locks k).lock i = some l)
    (hmode : holds next k = some .exclusive)
    (hkeep : ∀ k' mode, k' ≠ k → holds next k' = some mode → holds th k' = some mode) :
    Disciplined (Function.update locks k l) holds (pool.set i next) := by
  unfold RWLock.lock at hl
  split at hl
  · rename_i hfree
    cases hl
    refine h.relock _ hi ?_ ⟨fun _ => rfl, fun hs => by simp [hmode] at hs⟩ hkeep
    intro j other _ hj
    refine ⟨fun hx => ?_, fun hs => ?_⟩
    · simpa [hfree.1] using (h j other k hj).1 hx
    · simpa [hfree.2] using (h j other k hj).2 hs
  · contradiction

theorem rlock (h : Disciplined locks holds pool) {i : Nat} {th next : θ} {k : K} {l : RWLock}
    (hi : pool[i]? = some th) (hl : (locks k).rlock i = some l)
    (hmode : holds next k = some .shared)
    (hkeep : ∀ k' mode, k' ≠ k → holds next k' = some mode → holds th k' = some mode) :
    Disciplined (Function.update locks k l) holds (pool.set i next) := by
  unfold RWLock.rlock at hl
  split at hl
  · rename_i hfree
    cases hl
    refine h.relock _ hi ?_ ⟨fun hx => by simp [hmode] at hx, fun _ => by simp⟩ hkeep
    intro j other _ hj
    refine ⟨fun hx => ?_, fun hs => List.mem_cons_of_mem _ ((h j other k hj).2 hs)⟩
    simpa [hfree] using (h j other k hj).1 hx
  · contradiction

theorem unlock (h : Disciplined locks holds pool) {i : Nat} {th next : θ} {k : K}
    (hi : pool[i]? = some th) (hth : holds th k = some .exclusive) (hmode : holds next k = none)
    (hkeep : ∀ k' mode, k' ≠ k → holds next k' = some mode → holds th k' = some mode) :
    Disciplined (Function.update locks k (locks k).unlock) holds (pool.set i next) := by
  refine h.relock _ hi ?_ (by simp [hmode]) hkeep
  intro j other hne hj
  have hnone : holds other k = none := by
    by_contra hholds
    exact hne (h.excludes hi hth hj hholds)
  simp [hnone]

theorem runlock (h : Disciplined locks holds pool) {i : Nat} {th next : θ} {k : K}
    (hi : pool[i]? = some th) (hmode : holds next k = none)
    (hkeep : ∀ k' mode, k' ≠ k → holds next k' = some mode → holds th k' = some mode) :
    Disciplined (Function.update locks k ((locks k).runlock i)) holds (pool.set i next) := by
  refine h.relock _ hi ?_ (by simp [hmode]) hkeep
  intro j other hne hj
  refine ⟨(h j other k hj).1, fun hs => ?_⟩
  exact (List.mem_erase_of_ne hne).mpr ((h j other k hj).2 hs)

end Disciplined

/-- Who a lock names as a holder. -/
def RWLock.Names (l : RWLock) (i : Nat) : Mode → Prop
  | .exclusive => l.writer = some i
  | .shared => i ∈ l.readers

theorem RWLock.not_names_free (i : Nat) (mode : Mode) : ¬ free.Names i mode := by
  cases mode with
  | exclusive => nofun
  | shared => exact List.not_mem_nil

/-- The converse of `Disciplined`: whoever a lock names is a thread that is at a place where it
holds the lock. -/
structure Recorded (locks : K → RWLock) (holds : θ → K → Option Mode) (pool : List θ) : Prop where
  nodup : ∀ k, (locks k).readers.Nodup
  named : ∀ (k : K) (i : Nat) (mode : Mode), (locks k).Names i mode →
    ∃ th, pool[i]? = some th ∧ holds th k = some mode

namespace Recorded

variable {locks : K → RWLock} {holds : θ → K → Option Mode} {pool : List θ}

theorem spawn (h : Recorded locks holds pool) (next : θ) :
    Recorded locks holds (pool ++ [next]) := by
  refine ⟨h.nodup, fun k i mode hi => ?_⟩
  obtain ⟨th, hth, hholds⟩ := h.named k i mode hi
  exact ⟨th, getElem?_grow hth, hholds⟩

/-- A thread that keeps what it holds stands for itself. -/
theorem exists_set {i j : Nat} {th next : θ} {k : K} {mode : Mode} (hi : pool[i]? = some th)
    (hkeep : holds th k = some mode → holds next k = some mode)
    (h : ∃ other, pool[j]? = some other ∧ holds other k = some mode) :
    ∃ other, (pool.set i next)[j]? = some other ∧ holds other k = some mode := by
  obtain ⟨other, hj, hholds⟩ := h
  by_cases hij : i = j
  · subst hij
    cases hi.symm.trans hj
    exact ⟨next, getElem?_set_same hi, hkeep hholds⟩
  · rw [List.getElem?_set_ne hij]
    exact ⟨other, hj, hholds⟩

/-- A thread that moves without giving back a lock. -/
theorem move (h : Recorded locks holds pool) {i : Nat} {th next : θ} (hi : pool[i]? = some th)
    (hkeep : ∀ k mode, holds th k = some mode → holds next k = some mode) :
    Recorded locks holds (pool.set i next) :=
  ⟨h.nodup, fun k j mode hj => exists_set hi (hkeep k mode) (h.named k j mode hj)⟩

/-- A lock does not name a thread that does not hold it. -/
theorem ne_of_names (h : Recorded locks holds pool) {i j : Nat} {th : θ} {k : K} {mode : Mode}
    (hi : pool[i]? = some th) (hth : holds th k ≠ some mode) (hj : (locks k).Names j mode) :
    j ≠ i := by
  rintro rfl
  obtain ⟨other, hother, hholds⟩ := h.named k j mode hj
  cases hi.symm.trans hother
  exact hth hholds

variable [DecidableEq K] {i : Nat} {th next : θ} {k : K} {l : RWLock}

/-- A thread that moves while the lock of one key changes. -/
theorem relock (h : Recorded locks holds pool) (hi : pool[i]? = some th)
    (hnodup : l.readers.Nodup) (hnamed : ∀ j mode, l.Names j mode →
      j = i ∧ holds next k = some mode ∨ j ≠ i ∧ (locks k).Names j mode)
    (hkeep : ∀ k' mode, k' ≠ k → holds th k' = some mode → holds next k' = some mode) :
    Recorded (Function.update locks k l) holds (pool.set i next) := by
  constructor
  case nodup =>
    intro k'
    by_cases hk : k' = k
    · subst hk
      rw [Function.update_self]
      exact hnodup
    · rw [Function.update_of_ne hk]
      exact h.nodup k'
  case named =>
    intro k' j mode hj
    by_cases hk : k' = k
    · subst hk
      rw [Function.update_self] at hj
      rcases hnamed j mode hj with ⟨rfl, hmode⟩ | ⟨hne, hold⟩
      · exact ⟨next, getElem?_set_same hi, hmode⟩
      · rw [List.getElem?_set_ne (Ne.symm hne)]
        exact h.named k' j mode hold
    · rw [Function.update_of_ne hk] at hj
      exact exists_set hi (hkeep k' mode hk) (h.named k' j mode hj)

theorem lock (h : Recorded locks holds pool) (hi : pool[i]? = some th)
    (hl : (locks k).lock i = some l) (hmode : holds next k = some .exclusive)
    (hkeep : ∀ k' mode, k' ≠ k → holds th k' = some mode → holds next k' = some mode) :
    Recorded (Function.update locks k l) holds (pool.set i next) := by
  unfold RWLock.lock at hl
  split at hl
  · cases hl
    refine h.relock hi List.nodup_nil (fun j mode hj => .inl ?_) hkeep
    cases mode with
    | exclusive => exact ⟨(Option.some.inj hj).symm, hmode⟩
    | shared => exact absurd hj List.not_mem_nil
  · contradiction

/-- A thread takes a read lock that it does not have. -/
theorem rlock (h : Recorded locks holds pool) (hi : pool[i]? = some th)
    (hl : (locks k).rlock i = some l) (hnot : holds th k = none)
    (hmode : holds next k = some .shared)
    (hkeep : ∀ k' mode, k' ≠ k → holds th k' = some mode → holds next k' = some mode) :
    Recorded (Function.update locks k l) holds (pool.set i next) := by
  have hne : ∀ j, (locks k).Names j .shared → j ≠ i := fun j =>
    h.ne_of_names hi (by rw [hnot]; nofun)
  unfold RWLock.rlock at hl
  split at hl
  · cases hl
    refine h.relock hi (List.nodup_cons.mpr ⟨fun hmem => hne i hmem rfl, h.nodup k⟩) ?_ hkeep
    intro j mode hj
    cases mode with
    | exclusive => contradiction
    | shared =>
      rcases List.mem_cons.mp hj with rfl | hj
      · exact .inl ⟨rfl, hmode⟩
      · exact .inr ⟨hne j hj, hj⟩
  · contradiction

theorem unlock (h : Recorded locks holds pool) (hi : pool[i]? = some th)
    (hth : holds th k = some .exclusive)
    (hkeep : ∀ k' mode, k' ≠ k → holds th k' = some mode → holds next k' = some mode) :
    Recorded (Function.update locks k (locks k).unlock) holds (pool.set i next) := by
  refine h.relock hi (h.nodup k) (fun j mode hj => .inr ?_) hkeep
  cases mode with
  | exclusive => contradiction
  | shared =>
    have hold : (locks k).Names j .shared := hj
    exact ⟨h.ne_of_names hi (by rw [hth]; nofun) hold, hold⟩

theorem runlock (h : Recorded locks holds pool) (hi : pool[i]? = some th)
    (hth : holds th k = some .shared)
    (hkeep : ∀ k' mode, k' ≠ k → holds th k' = some mode → holds next k' = some mode) :
    Recorded (Function.update locks k ((locks k).runlock i)) holds (pool.set i next) := by
  refine h.relock hi ((h.nodup k).erase i) (fun j mode hj => .inr ?_) hkeep
  cases mode with
  | exclusive =>
    have hold : (locks k).Names j .exclusive := hj
    exact ⟨h.ne_of_names hi (by rw [hth]; nofun) hold, hold⟩
  | shared => exact (h.nodup k).mem_erase_iff.mp hj

end Recorded

/-- A pool that has a single lock. -/
theorem disciplined_single {m l : RWLock} {holds : θ → Unit → Option Mode} {pool : List θ}
    (h : Disciplined (Function.update (fun _ : Unit => m) () l) holds pool) :
    Disciplined (fun _ : Unit => l) holds pool := by
  rw [Function.update_eq_const_of_subsingleton] at h
  exact h

end Pool
end Goverse.Lib
