import Goverse.Lib.Feed

/-! A store whose transactions write one key each, as the log of its writes. The write at index
`i` has revision `i + 1`, and the store's revision is the length of the log. A transaction
compares the revision at which a key was last written. -/
namespace Goverse.Lib

abbrev Log (K V : Type*) := List (Write K V)

namespace Log

variable {K V : Type*}

def feed (log : Log K V) : Feed K V := log.zipIdx 1

@[simp] theorem feed_concat (log : Log K V) (w : Write K V) :
    feed (log ++ [w]) = log.feed ++ [(w, log.length + 1)] := by
  rw [feed, List.zipIdx_append, List.zipIdx_singleton, Nat.add_comm 1]
  rfl

@[simp] theorem mem_feed {log : Log K V} {w : Write K V} {rev : Nat} :
    (w, rev) ∈ log.feed ↔ ∃ i, rev = i + 1 ∧ log[i]? = some w := by
  rw [feed, List.mem_zipIdx_iff_le_and_getElem?_sub]
  constructor
  · rintro ⟨hpos, hw⟩
    exact ⟨rev - 1, by omega, hw⟩
  · rintro ⟨i, rfl, hw⟩
    exact ⟨by omega, hw⟩

theorem getElem?_feed {log : Log K V} {i rev : Nat} {w : Write K V} :
    log.feed[i]? = some (w, rev) ↔ log[i]? = some w ∧ rev = i + 1 := by
  rw [feed, List.getElem?_zipIdx, Option.map_eq_some_iff]
  constructor
  · rintro ⟨w', hw, heq⟩
    cases heq
    exact ⟨hw, Nat.add_comm 1 i⟩
  · rintro ⟨hw, rfl⟩
    exact ⟨w, hw, by rw [Nat.add_comm]⟩

theorem feed_ordered (log : Log K V) : log.feed.Ordered := by
  refine ⟨fun e he => ?_, ?_⟩
  · obtain ⟨i, hrev, -⟩ := mem_feed.mp he
    omega
  · induction log using List.reverseRecOn with
    | nil => exact List.Pairwise.nil
    | append_singleton log w ih =>
      rw [feed_concat]
      refine List.pairwise_append.mpr ⟨ih, List.pairwise_singleton _ _, fun e he last hlast _ => ?_⟩
      obtain rfl := List.mem_singleton.mp hlast
      obtain ⟨i, hrev, hi⟩ := mem_feed.mp he
      have := (List.getElem?_eq_some_iff.mp hi).1
      dsimp only
      omega

variable [DecidableEq K]

/-- The value of a key and the revision it was written at. -/
def get (log : Log K V) (key : K) : Option (V × Nat) := log.feed.get key

/-- Zero for a key without a value. -/
def modRevision (log : Log K V) (key : K) : Nat := ((log.get key).map Prod.snd).getD 0

/-- Put `value` if the key was last written at `expected`. -/
def txn (log : Log K V) (key : K) (expected : Nat) (value : V) : Option (Log K V) :=
  if log.modRevision key = expected then some (log ++ [⟨key, some value⟩]) else none

/-- The keys with a value, in the order in which they were written. -/
def live (log : Log K V) : List (K × V × Nat) := log.feed.live

/-- The write at revision `rev` gave `key` the value `value`. -/
def Version (log : Log K V) (key : K) (rev : Nat) (value : V) : Prop :=
  ∃ i, rev = i + 1 ∧ log[i]? = some ⟨key, some value⟩

theorem get_concat (log : Log K V) (w : Write K V) (key : K) :
    get (log ++ [w]) key =
      if w.key = key then w.value.map (·, log.length + 1) else log.get key := by
  rw [get, feed_concat, Feed.get_concat]
  rfl

omit [DecidableEq K] in
theorem version_iff {log : Log K V} {key : K} {rev : Nat} {value : V} :
    log.Version key rev value ↔ (⟨key, some value⟩, rev) ∈ log.feed := mem_feed.symm

omit [DecidableEq K] in
theorem Version.concat {log : Log K V} {key : K} {rev : Nat} {value : V}
    (h : log.Version key rev value) (w : Write K V) : Version (log ++ [w]) key rev value := by
  obtain ⟨i, rfl, hi⟩ := h
  refine ⟨i, rfl, ?_⟩
  rw [List.getElem?_append_left (List.getElem?_eq_some_iff.mp hi).1]
  exact hi

omit [DecidableEq K] in
theorem version_concat (log : Log K V) (key : K) (value : V) :
    Version (log ++ [⟨key, some value⟩]) key (log.length + 1) value :=
  ⟨log.length, rfl, by simp⟩

omit [DecidableEq K] in
theorem version_concat_cases {log : Log K V} {w : Write K V} {key : K} {rev : Nat} {value : V}
    (h : Version (log ++ [w]) key rev value) :
    log.Version key rev value ∨ (rev = log.length + 1 ∧ w = ⟨key, some value⟩) := by
  obtain ⟨i, rfl, hi⟩ := h
  rcases Nat.lt_trichotomy i log.length with hlt | heq | hgt
  · rw [List.getElem?_append_left hlt] at hi
    exact .inl ⟨i, rfl, hi⟩
  · subst heq
    exact .inr ⟨rfl, by simpa using hi⟩
  · rw [List.getElem?_eq_none (by simp; omega)] at hi
    contradiction

omit [DecidableEq K] in
theorem Version.unique {log : Log K V} {key key' : K} {rev : Nat} {value value' : V}
    (h : log.Version key rev value) (h' : log.Version key' rev value') :
    key = key' ∧ value = value' := by
  obtain ⟨i, rfl, hi⟩ := h
  obtain ⟨j, hij, hj⟩ := h'
  obtain rfl : i = j := by omega
  rw [hi] at hj
  cases hj
  exact ⟨rfl, rfl⟩

omit [DecidableEq K] in
theorem Version.pos {log : Log K V} {key : K} {rev : Nat} {value : V}
    (h : log.Version key rev value) : 0 < rev := by
  obtain ⟨i, rfl, -⟩ := h
  omega

omit [DecidableEq K] in
theorem Version.le_revision {log : Log K V} {key : K} {rev : Nat} {value : V}
    (h : log.Version key rev value) : rev ≤ log.length := by
  obtain ⟨i, rfl, hi⟩ := h
  exact (List.getElem?_eq_some_iff.mp hi).1

omit [DecidableEq K] in
theorem Version.mem {log : Log K V} {key : K} {rev : Nat} {value : V}
    (h : log.Version key rev value) : ⟨key, some value⟩ ∈ log := by
  obtain ⟨i, -, hi⟩ := h
  exact List.mem_of_getElem? hi

theorem version_of_get {log : Log K V} {key : K} {value : V} {rev : Nat}
    (h : log.get key = some (value, rev)) : log.Version key rev value :=
  version_iff.mpr (Feed.mem_of_get h)

/-- The value of a key is its last version. -/
theorem Version.le_of_get {log : Log K V} {key : K} {value value' : V} {rev rev' : Nat}
    (h : log.Version key rev value) (hget : log.get key = some (value', rev')) : rev ≤ rev' :=
  log.feed_ordered.le_get (version_iff.mp h) hget

/-- A comparison with the revision of a known version finds that version in place. -/
theorem Version.get_of_modRevision {log : Log K V} {key : K} {value : V} {rev : Nat}
    (h : log.Version key rev value) (hmod : log.modRevision key = rev) :
    log.get key = some (value, rev) := by
  unfold modRevision at hmod
  cases hget : log.get key with
  | none =>
    have := h.pos
    simp [hget] at hmod
    omega
  | some entry =>
    obtain ⟨v, r⟩ := entry
    simp only [hget, Option.map_some, Option.getD_some] at hmod
    subst hmod
    rw [(version_of_get hget).unique h |>.2]

/-- A comparison with zero finds no value. -/
theorem get_eq_none_of_modRevision {log : Log K V} {key : K} (hmod : log.modRevision key = 0) :
    log.get key = none := by
  cases hget : log.get key with
  | none => rfl
  | some entry =>
    have := (version_of_get hget).pos
    simp only [modRevision, hget, Option.map_some, Option.getD_some] at hmod
    omega

theorem txn_eq_some {log next : Log K V} {key : K} {expected : Nat} {value : V}
    (h : log.txn key expected value = some next) :
    log.modRevision key = expected ∧ next = log ++ [⟨key, some value⟩] := by
  unfold txn at h
  split at h
  · rename_i hmod
    cases h
    exact ⟨hmod, rfl⟩
  · contradiction

/-- A key that has a version and is never deleted has a value. -/
theorem Version.get_of_not_deleted {log : Log K V} {key : K} {value : V} {rev : Nat}
    (h : log.Version key rev value) (hkept : ⟨key, none⟩ ∉ log) :
    ∃ value' rev', log.get key = some (value', rev') := by
  have hvalue : ∀ e ∈ log.feed, e.1.key = key → e.1.value ≠ none := by
    rintro ⟨⟨key', value'⟩, rev'⟩ he hkey hnone
    dsimp only at hkey hnone
    subst hkey hnone
    obtain ⟨i, -, hi⟩ := mem_feed.mp he
    exact hkept (List.mem_of_getElem? hi)
  obtain ⟨⟨value', rev'⟩, hget⟩ := Feed.exists_get_of_mem (version_iff.mp h) hvalue
  exact ⟨value', rev', hget⟩

end Log
end Goverse.Lib
