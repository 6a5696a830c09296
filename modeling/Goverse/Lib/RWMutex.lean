import Mathlib.Data.Finset.Max
import Goverse.Lib.RWLock

/-! Readers-writer mutexes in which a waiting writer blocks new readers, and the wait-for
relation of a pool of threads that use them. A thread that asks for a mutex gets it at once or
waits; if every thread waits only for mutexes that come after all those it holds, no set of
threads waits for itself. -/
namespace Goverse.Lib

/-- `writer` has the mutex or has announced itself and waits for the readers to leave. A
thread is listed once for each of its read locks. -/
structure RWMutex where
  writer : Option Nat
  readers : List Nat
  deriving DecidableEq, Repr

/-- What a thread waits for: to read, to announce itself as the writer, or as the announced
writer for the last reader to leave. -/
inductive Wait (K : Type*) where
  | shared (k : K)
  | queued (k : K)
  | announced (k : K)
  deriving DecidableEq, Repr

def Wait.key {K : Type*} : Wait K → K
  | .shared k | .queued k | .announced k => k

/-- A thread with the locks it holds, the innermost first. -/
structure Holder (K : Type*) where
  held : List (K × Mode)
  waiting : Option (Wait K)

namespace RWMutex

variable {K : Type*}

def free : RWMutex := ⟨none, []⟩

/-- Thread `i`, which may be waiting already, tries to get the mutex. The second part is what
it waits for if it does not get it. -/
def attempt (l : RWMutex) (i : Nat) (k : K) : Mode → Option (Wait K) → RWMutex × Option (Wait K)
  | .shared, _ =>
    if l.writer = none then (⟨none, i :: l.readers⟩, none) else (l, some (.shared k))
  | .exclusive, some (.announced _) =>
    if l.readers = [] then (l, none) else (l, some (.announced k))
  | .exclusive, _ =>
    if l.writer = none then (⟨some i, l.readers⟩, some (.announced k)) else (l, some (.queued k))

def release (l : RWMutex) (i : Nat) : Mode → RWMutex
  | .shared => ⟨l.writer, l.readers.erase i⟩
  | .exclusive => ⟨none, l.readers⟩

variable {l : RWMutex} {i : Nat} {k : K} {mode : Mode} {w : Option (Wait K)}

theorem attempt_waits {wait : Wait K} (h : (l.attempt i k mode w).2 = some wait) :
    wait.key = k ∧ ((∃ k', wait = .announced k') → mode = .exclusive) ∧
      (mode = .shared → l.writer ≠ none) := by
  unfold attempt at h
  split at h
  · split at h
    · contradiction
    · rename_i hwriter
      cases h
      exact ⟨rfl, by simp, fun _ => hwriter⟩
  · split at h
    · contradiction
    · cases h
      exact ⟨rfl, fun _ => rfl, by simp⟩
  · split at h <;> cases h <;> exact ⟨rfl, fun _ => rfl, by simp⟩

/-- A writer that is not announced yet announces itself, or queues behind another. -/
private theorem attempt_exclusive (hw : ∀ k', w ≠ some (.announced k')) :
    l.attempt i k .exclusive w = if l.writer = none then
      (⟨some i, l.readers⟩, some (.announced k)) else (l, some (.queued k)) := by
  cases w with
  | none => rfl
  | some wait =>
    cases wait with
    | announced k' => exact absurd rfl (hw k')
    | _ => rfl

@[simp] theorem attempt_shared_writer : (l.attempt i k .shared w).1.writer = l.writer := by
  simp only [attempt]
  split
  · rename_i hwriter
    exact hwriter.symm
  · rfl

theorem release_writer (h : l.writer = none) : (l.release i mode).writer = none := by
  cases mode with
  | shared => exact h
  | exclusive => rfl

end RWMutex

section Pool

variable {K : Type*}

/-- Thread `j` is why a thread that waits for `w` has to wait. -/
def Blocks (locks : K → RWMutex) (j : Nat) : Wait K → Prop
  | .shared k | .queued k => (locks k).writer = some j
  | .announced k => j ∈ (locks k).readers

instance (locks : K → RWMutex) (j : Nat) : (w : Wait K) → Decidable (Blocks locks j w)
  | .shared k | .queued k => inferInstanceAs (Decidable ((locks k).writer = some j))
  | .announced k => inferInstanceAs (Decidable (j ∈ (locks k).readers))

def WaitsFor (locks : K → RWMutex) (pool : List (Holder K)) (i j : Nat) : Prop :=
  ∃ h ∈ pool[i]?, ∃ w ∈ h.waiting, Blocks locks j w

instance (locks : K → RWMutex) (pool : List (Holder K)) (i j : Nat) :
    Decidable (WaitsFor locks pool i j) :=
  inferInstanceAs (Decidable (∃ h ∈ pool[i]?, ∃ w ∈ h.waiting, Blocks locks j w))

/-- Every thread of the set waits for a thread of the set. -/
def Deadlocked (locks : K → RWMutex) (pool : List (Holder K)) (S : Finset Nat) : Prop :=
  S.Nonempty ∧ ∀ i ∈ S, ∃ j ∈ S, WaitsFor locks pool i j

instance (locks : K → RWMutex) (pool : List (Holder K)) (S : Finset Nat) :
    Decidable (Deadlocked locks pool S) :=
  inferInstanceAs (Decidable (S.Nonempty ∧ ∀ i ∈ S, ∃ j ∈ S, WaitsFor locks pool i j))

variable [DecidableEq K]

/-- A reader has the lock, and the writer has it or waits for it. -/
structure Consistent (locks : K → RWMutex) (pool : List (Holder K)) : Prop where
  readers : ∀ (j : Nat) (k : K), (locks k).readers.count j ≤
    ((pool[j]?).map fun h => h.held.count (k, .shared)).getD 0
  writer : ∀ (j : Nat) (k : K), (locks k).writer = some j → ∃ h, pool[j]? = some h ∧
    ((k, .exclusive) ∈ h.held ∨ h.waiting = some (.announced k))

/-- Everything a waiting thread holds comes before what it waits for. -/
def Ascending (rank : K → Nat) (pool : List (Holder K)) : Prop :=
  ∀ h ∈ pool, ∀ w ∈ h.waiting, ∀ held ∈ h.held, rank held.1 < rank w.key

variable {locks : K → RWMutex} {pool : List (Holder K)} {i : Nat}

/-- The announced writer of a mutex comes after those who wait for the writer. -/
def Wait.height (rank : K → Nat) (w : Wait K) : Nat :=
  2 * rank w.key + match w with
    | .announced _ => 1
    | _ => 0

namespace Consistent

private theorem exists_held (h : Consistent locks pool) {j : Nat} {k : K}
    (hj : j ∈ (locks k).readers) :
    ∃ holder, pool[j]? = some holder ∧ (k, .shared) ∈ holder.held := by
  have hcount := h.readers j k
  have hpos := List.count_pos_iff.mpr hj
  cases hpool : pool[j]? with
  | none =>
    rw [hpool, Option.map_none, Option.getD_none] at hcount
    omega
  | some holder =>
    rw [hpool, Option.map_some, Option.getD_some] at hcount
    exact ⟨holder, rfl, List.count_pos_iff.mp (by omega)⟩

/-- Whoever is waited for and waits itself waits higher up. -/
private theorem height_lt (h : Consistent locks pool) {rank : K → Nat} (hup : Ascending rank pool)
    {j : Nat} {w w' : Wait K} {holder : Holder K} (hblocks : Blocks locks j w)
    (hj : pool[j]? = some holder) (hw' : holder.waiting = some w') :
    w.height rank < w'.height rank := by
  have hclimb : ∀ {mode : Mode}, (w.key, mode) ∈ holder.held → w.height rank < w'.height rank := by
    intro mode hheld
    have hlt := hup holder (List.mem_of_getElem? hj) w' hw' _ hheld
    cases w <;> cases w' <;> simp only [Wait.height] at * <;> omega
  cases w with
  | announced k =>
    obtain ⟨other, hother, hheld⟩ := h.exists_held hblocks
    rw [hj] at hother
    cases hother
    exact hclimb hheld
  | shared k | queued k =>
    obtain ⟨other, hother, hheld | hannounced⟩ := h.writer j k hblocks
    · rw [hj] at hother
      cases hother
      exact hclimb hheld
    · rw [hj] at hother
      cases hother
      rw [hannounced] at hw'
      cases hw'
      simp [Wait.height, Wait.key]

/-- The highest waiting thread of a set waits for nobody in it. -/
theorem not_deadlocked (h : Consistent locks pool) (rank : K → Nat) (hup : Ascending rank pool)
    (S : Finset Nat) : ¬ Deadlocked locks pool S := by
  rintro ⟨hne, hall⟩
  let height (i : Nat) : Nat :=
    (((pool[i]?).bind fun holder => holder.waiting).map (Wait.height rank)).getD 0
  obtain ⟨i, hi, hmax⟩ := S.exists_max_image height hne
  obtain ⟨j, hj, holder, hpool, w, hw, hblocks⟩ := hall i hi
  obtain ⟨_, _, holder', hpool', w', hw', _⟩ := hall j hj
  have hlt := h.height_lt hup hblocks hpool' hw'
  have hle := hmax j hj
  have hi : height i = w.height rank := by
    simp [height, Option.mem_def.mp hpool, Option.mem_def.mp hw]
  have hj : height j = w'.height rank := by
    simp [height, Option.mem_def.mp hpool', Option.mem_def.mp hw']
  omega

/-- The writer is another thread, or thread `i` as the pool has it. -/
theorem writer_cases (h : Consistent locks pool) {k : K} {holder : Holder K} {j : Nat}
    (hi : pool[i]? = some holder) (hj : (locks k).writer = some j) :
    (j ≠ i ∧ (locks k).writer = some j) ∨
      (j = i ∧ ((k, .exclusive) ∈ holder.held ∨ holder.waiting = some (.announced k))) := by
  by_cases hji : j = i
  · subst hji
    obtain ⟨other, hpool, hold⟩ := h.writer j k hj
    rw [hi] at hpool
    cases hpool
    exact .inr ⟨rfl, hold⟩
  · exact .inl ⟨hji, hj⟩

/-- Thread `i` moves while mutex `k` changes. -/
theorem relock (h : Consistent locks pool) {k : K} {l : RWMutex} {old new : Holder K}
    (hi : pool[i]? = some old)
    (hreaders : ∀ j, j ≠ i → l.readers.count j ≤ (locks k).readers.count j)
    (hown : l.readers.count i ≤ new.held.count (k, .shared))
    (hwriter : ∀ j, l.writer = some j → (j ≠ i ∧ (locks k).writer = some j) ∨
      (j = i ∧ ((k, .exclusive) ∈ new.held ∨ new.waiting = some (.announced k))))
    (hcount : ∀ k', k' ≠ k → old.held.count (k', .shared) ≤ new.held.count (k', .shared))
    (hkeep : ∀ k', k' ≠ k → (k', .exclusive) ∈ old.held ∨ old.waiting = some (.announced k') →
      (k', .exclusive) ∈ new.held ∨ new.waiting = some (.announced k')) :
    Consistent (Function.update locks k l) (pool.set i new) := by
  have hnew : (pool.set i new)[i]? = some new :=
    getElem?_set_same hi
  refine ⟨fun j k' => ?_, fun j k' hj => ?_⟩
  · by_cases hji : j = i
    · subst hji
      rw [hnew, Option.map_some, Option.getD_some]
      by_cases hk : k' = k
      · subst hk
        rw [Function.update_self]
        exact hown
      · rw [Function.update_of_ne hk]
        have hold := h.readers j k'
        rw [hi, Option.map_some, Option.getD_some] at hold
        exact hold.trans (hcount k' hk)
    · rw [List.getElem?_set_ne (Ne.symm hji)]
      refine le_trans ?_ (h.readers j k')
      by_cases hk : k' = k
      · subst hk
        rw [Function.update_self]
        exact hreaders j hji
      · rw [Function.update_of_ne hk]
  · by_cases hk : k' = k
    · subst hk
      rw [Function.update_self] at hj
      rcases hwriter j hj with ⟨hji, hold⟩ | ⟨rfl, hnow⟩
      · rw [List.getElem?_set_ne (Ne.symm hji)]
        exact h.writer j k' hold
      · exact ⟨new, hnew, hnow⟩
    · rw [Function.update_of_ne hk] at hj
      obtain ⟨holder, hpool, hold⟩ := h.writer j k' hj
      by_cases hji : j = i
      · subst hji
        rw [hi] at hpool
        cases hpool
        exact ⟨new, hnew, hkeep k' hk hold⟩
      · rw [List.getElem?_set_ne (Ne.symm hji)]
        exact ⟨holder, hpool, hold⟩

/-- A step that takes and releases nothing. -/
theorem move (h : Consistent locks pool) {holder : Holder K} (hi : pool[i]? = some holder) :
    Consistent locks (pool.set i holder) := by
  rw [set_same hi]
  exact h

theorem spawn (h : Consistent locks pool) (new : Holder K) : Consistent locks (pool ++ [new]) := by
  have hold : ∀ {j : Nat} {holder : Holder K}, pool[j]? = some holder →
      (pool ++ [new])[j]? = some holder := by
    intro j holder hj
    exact getElem?_grow hj
  refine ⟨fun j k => ?_, fun j k hj => ?_⟩
  · have hcount := h.readers j k
    cases hj : pool[j]? with
    | none =>
      rw [hj, Option.map_none, Option.getD_none] at hcount
      omega
    | some holder =>
      rw [hj] at hcount
      rw [hold hj]
      exact hcount
  · obtain ⟨holder, hpool, hnow⟩ := h.writer j k hj
    exact ⟨holder, hold hpool, hnow⟩

/-- Thread `i` reads. -/
theorem grant (h : Consistent locks pool) {k : K} {held : List (K × Mode)} {w : Option (Wait K)}
    (hi : pool[i]? = some ⟨held, w⟩) (hw : ∀ k', w ≠ some (.announced k')) :
    Consistent (Function.update locks k ⟨none, i :: (locks k).readers⟩)
      (pool.set i ⟨(k, .shared) :: held, none⟩) := by
  have hown := h.readers i k
  rw [hi, Option.map_some, Option.getD_some] at hown
  refine h.relock hi ?_ ?_ ?_ ?_ ?_
  · intro j hji
    rw [List.count_cons_of_ne (Ne.symm hji)]
  · rw [List.count_cons_self, List.count_cons_self]
    exact Nat.succ_le_succ hown
  · intro j hj
    contradiction
  · intro k' _
    exact List.count_le_count_cons
  · intro k' _ hold
    exact .inl (List.mem_cons_of_mem _ (hold.resolve_right (hw k')))

/-- Thread `i` waits, or gets the mutex as its writer. -/
theorem await (h : Consistent locks pool) {k : K} {l : RWMutex} {held held' : List (K × Mode)}
    {w w' : Option (Wait K)} (hi : pool[i]? = some ⟨held, w⟩)
    (hw : ∀ k', w = some (.announced k') → k' = k) (hreaders : l.readers = (locks k).readers)
    (hheld : held' = held ∨ held' = (k, .exclusive) :: held)
    (hwriter : ∀ j, l.writer = some j → (j ≠ i ∧ (locks k).writer = some j) ∨
      (j = i ∧ ((k, .exclusive) ∈ held' ∨ w' = some (.announced k)))) :
    Consistent (Function.update locks k l) (pool.set i ⟨held', w'⟩) := by
  have hown := h.readers i k
  rw [hi, Option.map_some, Option.getD_some] at hown
  have hcount : ∀ k', held'.count (k', .shared) = held.count (k', .shared) := by
    intro k'
    rcases hheld with rfl | rfl
    · rfl
    · exact List.count_cons_of_ne (by simp)
  refine h.relock hi ?_ ?_ hwriter ?_ ?_
  · intro j _
    rw [hreaders]
  · rw [hreaders, hcount]
    exact hown
  · intro k' _
    exact (hcount k').ge
  · intro k' hk hold
    have hmem := hold.resolve_right fun hannounced => hk (hw k' hannounced)
    rcases hheld with rfl | rfl
    · exact .inl hmem
    · exact .inl (List.mem_cons_of_mem _ hmem)

/-- Thread `i`, which has not announced itself, does not get the mutex. -/
theorem blocked (h : Consistent locks pool) {k : K} {held : List (K × Mode)}
    {w w' : Option (Wait K)} (hi : pool[i]? = some ⟨held, w⟩)
    (hw : ∀ k', w ≠ some (.announced k')) :
    Consistent (Function.update locks k (locks k)) (pool.set i ⟨held, w'⟩) := by
  refine h.await hi (fun k' hannounced => absurd hannounced (hw k')) rfl (.inl rfl) ?_
  intro j hj
  rcases h.writer_cases hi hj with hold | ⟨rfl, hheld | hannounced⟩
  · exact .inl hold
  · exact .inr ⟨rfl, .inl hheld⟩
  · exact absurd hannounced (hw k)

theorem attempt (h : Consistent locks pool) {k : K} {mode : Mode} {held : List (K × Mode)}
    {w : Option (Wait K)} (hi : pool[i]? = some ⟨held, w⟩)
    (hw : ∀ k', w = some (.announced k') → k' = k ∧ mode = .exclusive) :
    Consistent (Function.update locks k ((locks k).attempt i k mode w).1)
      (pool.set i ⟨if ((locks k).attempt i k mode w).2 = none then (k, mode) :: held else held,
        ((locks k).attempt i k mode w).2⟩) := by
  have hkey := fun k' hannounced => (hw k' hannounced).1
  cases mode with
  | shared =>
    have hnot : ∀ k', w ≠ some (.announced k') := by
      intro k' hannounced
      have := (hw k' hannounced).2
      contradiction
    by_cases hfree : (locks k).writer = none
    · simpa [RWMutex.attempt, hfree] using h.grant hi hnot
    · simp only [RWMutex.attempt, if_neg hfree, reduceCtorEq, if_false]
      exact h.blocked hi hnot
  | exclusive =>
    by_cases hann : w = some (.announced k)
    · subst hann
      by_cases hempty : (locks k).readers = []
      · simp only [RWMutex.attempt, if_pos hempty, if_true]
        refine h.await hi hkey rfl (.inr rfl) fun j hj => ?_
        rcases h.writer_cases hi hj with hold | ⟨rfl, -⟩
        · exact .inl hold
        · exact .inr ⟨rfl, .inl List.mem_cons_self⟩
      · simp only [RWMutex.attempt, if_neg hempty, reduceCtorEq, if_false]
        exact h.await hi hkey rfl (.inl rfl) fun j hj => h.writer_cases hi hj
    · have hnot : ∀ k', w ≠ some (.announced k') := by
        intro k' hannounced
        rw [hkey k' hannounced] at hannounced
        exact hann hannounced
      rw [RWMutex.attempt_exclusive hnot]
      by_cases hfree : (locks k).writer = none
      · simp only [if_pos hfree, reduceCtorEq, if_false]
        refine h.await hi hkey rfl (.inl rfl) fun j hj => ?_
        exact .inr ⟨(Option.some.inj hj).symm, .inr rfl⟩
      · simp only [if_neg hfree, reduceCtorEq, if_false]
        exact h.blocked hi hnot

theorem release (h : Consistent locks pool) {k : K} {mode : Mode} {held : List (K × Mode)}
    (hi : pool[i]? = some ⟨(k, mode) :: held, none⟩) :
    Consistent (Function.update locks k ((locks k).release i mode)) (pool.set i ⟨held, none⟩) := by
  have hown := h.readers i k
  rw [hi, Option.map_some, Option.getD_some] at hown
  cases mode with
  | shared =>
    refine h.relock hi ?_ ?_ ?_ ?_ ?_
    · intro j hji
      simp [RWMutex.release, List.count_erase_of_ne hji]
    · simp only [RWMutex.release, List.count_erase_self]
      rw [List.count_cons_self] at hown
      omega
    · intro j hj
      rcases h.writer_cases hi hj with hold | ⟨rfl, hold⟩
      · exact .inl hold
      · exact .inr ⟨rfl, by simpa using hold⟩
    · intro k' hk
      simp [Ne.symm hk]
    · intro k' hk hold
      simpa [Ne.symm hk] using hold
  | exclusive =>
    refine h.relock hi ?_ ?_ ?_ ?_ ?_
    · exact fun _ _ => le_rfl
    · rw [List.count_cons_of_ne (by simp)] at hown
      exact hown
    · simp [RWMutex.release]
    · intro k' hk
      simp
    · intro k' hk hold
      simpa [hk] using hold

end Consistent
end Pool
end Goverse.Lib
