import Mathlib.Data.List.Induction

/-! A store whose transactions write any number of keys. All writes of a transaction have
its revision. A feed is the writes in order with their revisions: what a reader finds in
the store and what a watcher is told are both functions of it. -/
namespace Goverse.Lib

/-- A put, or a delete when `value` is none. -/
structure Write (K V : Type*) where
  key : K
  value : Option V
  deriving DecidableEq, Repr

/-- Writes made together, no key twice. -/
structure Transaction (K V : Type*) where
  writes : List (Write K V)
  distinct : (writes.map Write.key).Nodup

/-- The transaction at index `i` has revision `i + 1`. -/
abbrev Timeline (K V : Type*) := List (Transaction K V)

abbrev Feed (K V : Type*) := List (Write K V × Nat)

namespace Feed

variable {K V : Type*}

/-- Revisions are positive, and a later write of a key has a later one. -/
structure Ordered (feed : Feed K V) : Prop where
  pos : ∀ e ∈ feed, 0 < e.2
  later : feed.Pairwise fun a b => a.1.key = b.1.key → a.2 < b.2

theorem Ordered.take {feed : Feed K V} (h : feed.Ordered) (n : Nat) : Ordered (feed.take n) :=
  ⟨fun e he => h.pos e (List.mem_of_mem_take he), h.later.sublist (List.take_sublist n feed)⟩

/-- The last of an ordered feed is newer than every other write of its key. -/
theorem Ordered.lt_last {feed : Feed K V} {e e' : Write K V × Nat} (h : Ordered (feed ++ [e]))
    (he : e' ∈ feed) (hkey : e'.1.key = e.1.key) : e'.2 < e.2 :=
  (List.pairwise_append.mp h.later).2.2 e' he e (List.mem_singleton.mpr rfl) hkey

theorem Ordered.unique {feed : Feed K V} (h : feed.Ordered) {e e' : Write K V × Nat}
    (he : e ∈ feed) (he' : e' ∈ feed) (hkey : e.1.key = e'.1.key) (hrev : e.2 = e'.2) :
    e = e' := by
  induction feed using List.reverseRecOn with
  | nil => simp at he
  | append_singleton feed last ih =>
    rcases List.mem_append.mp he with hold | hnew <;>
      rcases List.mem_append.mp he' with hold' | hnew'
    · exact ih (by simpa using h.take feed.length) hold hold'
    · rw [List.mem_singleton.mp hnew'] at hkey hrev
      exact absurd hrev (Nat.ne_of_lt (h.lt_last hold hkey))
    · rw [List.mem_singleton.mp hnew] at hkey hrev
      exact absurd hrev.symm (Nat.ne_of_lt (h.lt_last hold' hkey.symm))
    · rw [List.mem_singleton.mp hnew, List.mem_singleton.mp hnew']

variable [DecidableEq K]

/-- The value of a key and the revision it was written at. -/
def get (feed : Feed K V) (key : K) : Option (V × Nat) :=
  feed.foldl (fun found e => if e.1.key = key then e.1.value.map (·, e.2) else found) none

/-- The keys with a value, as a range read answers. -/
def live (feed : Feed K V) : List (K × V × Nat) :=
  feed.filterMap fun e =>
    (feed.get e.1.key).bind fun found => if found.2 = e.2 then some (e.1.key, found) else none

@[simp] theorem get_concat (feed : Feed K V) (e : Write K V × Nat) (key : K) :
    get (feed ++ [e]) key = if e.1.key = key then e.1.value.map (·, e.2) else feed.get key := by
  simp only [get, List.foldl_append, List.foldl_cons, List.foldl_nil]

/-- Writes of other keys do not matter. -/
theorem get_append_of_forall_ne {feed more : Feed K V} {key : K}
    (h : ∀ e ∈ more, e.1.key ≠ key) : get (feed ++ more) key = feed.get key := by
  induction more using List.reverseRecOn with
  | nil => rw [List.append_nil]
  | append_singleton more e ih =>
    rw [← List.append_assoc, get_concat,
      if_neg (h e (List.mem_append_right _ (List.mem_singleton.mpr rfl)))]
    exact ih fun e' he' => h e' (List.mem_append_left _ he')

theorem mem_of_get {feed : Feed K V} {key : K} {value : V} {rev : Nat}
    (h : feed.get key = some (value, rev)) : (⟨key, some value⟩, rev) ∈ feed := by
  induction feed using List.reverseRecOn with
  | nil => simp [get] at h
  | append_singleton feed e ih =>
    rw [get_concat] at h
    split at h
    · rename_i hkey
      obtain ⟨v, hv, heq⟩ := Option.map_eq_some_iff.mp h
      cases heq
      refine List.mem_append_right _ (List.mem_singleton.mpr ?_)
      rw [← hkey, ← hv]
    · exact List.mem_append_left _ (ih h)

@[simp] theorem mem_live {feed : Feed K V} {key : K} {found : V × Nat} :
    (key, found) ∈ feed.live ↔ feed.get key = some found := by
  constructor
  · intro h
    obtain ⟨e, -, he⟩ := List.mem_filterMap.mp h
    obtain ⟨found', hget, heq⟩ := Option.bind_eq_some_iff.mp he
    split at heq
    · cases heq
      exact hget
    · contradiction
  · intro h
    exact List.mem_filterMap.mpr ⟨_, mem_of_get h, by simp [h]⟩

/-- A write of a key makes every revision found for it before an older one. -/
theorem Ordered.get_lt {feed : Feed K V} {e : Write K V × Nat} (h : Ordered (feed ++ [e]))
    {found : V × Nat} (hget : feed.get e.1.key = some found) : found.2 < e.2 :=
  h.lt_last (mem_of_get hget) rfl

/-- What a store holds is the last of what was written. -/
theorem Ordered.le_get {feed : Feed K V} (h : feed.Ordered) {e : Write K V × Nat} (he : e ∈ feed)
    {found : V × Nat} (hget : feed.get e.1.key = some found) : e.2 ≤ found.2 := by
  induction feed using List.reverseRecOn with
  | nil => simp at he
  | append_singleton feed last ih =>
    have hfeed : Ordered feed := by simpa using h.take feed.length
    rw [get_concat] at hget
    rcases List.mem_append.mp he with he | he
    · split at hget
      · rename_i hkey
        obtain ⟨v, -, heq⟩ := Option.map_eq_some_iff.mp hget
        cases heq
        exact Nat.le_of_lt (h.lt_last he hkey.symm)
      · exact ih hfeed he hget
    · obtain rfl := List.mem_singleton.mp he
      rw [if_pos rfl] at hget
      obtain ⟨v, -, heq⟩ := Option.map_eq_some_iff.mp hget
      cases heq
      exact Nat.le_refl _

/-- A key that was written and never deleted has a value. -/
theorem exists_get_of_mem {feed : Feed K V} {e : Write K V × Nat} (he : e ∈ feed)
    (hkept : ∀ e' ∈ feed, e'.1.key = e.1.key → e'.1.value ≠ none) :
    ∃ found, feed.get e.1.key = some found := by
  induction feed using List.reverseRecOn with
  | nil => simp at he
  | append_singleton feed last ih =>
    rw [get_concat]
    by_cases hkey : last.1.key = e.1.key
    · obtain ⟨v, hv⟩ := Option.ne_none_iff_exists'.mp
        (hkept last (List.mem_append_right _ (List.mem_singleton.mpr rfl)) hkey)
      exact ⟨(v, last.2), by rw [if_pos hkey, hv, Option.map_some]⟩
    · rw [if_neg hkey]
      rcases List.mem_append.mp he with he | he
      · exact ih he fun e' he' => hkept e' (List.mem_append_left _ he')
      · exact absurd (congrArg (·.1.key) (List.mem_singleton.mp he).symm) hkey

/-! ### Readers -/

/-- A reader of the feed that has handled its first `cursor` writes knows the value of a
key, or will be told it again. -/
def Tracks {B : Type*} (feed : Feed K V) (cursor : Nat) (key : K) (decode : Option (V × Nat) → B)
    (seen : B) : Prop :=
  seen = decode (get (feed.take cursor) key) ∨ ∃ e ∈ feed.drop cursor, e.1.key = key

section Tracks

variable {B : Type*} {feed : Feed K V} {cursor : Nat} {key : K} {decode : Option (V × Nat) → B}
  {seen : B}

theorem Tracks.append (h : feed.Tracks cursor key decode seen) (hle : cursor ≤ feed.length)
    (more : Feed K V) : Tracks (feed ++ more) cursor key decode seen := by
  rw [Tracks, List.take_append_of_le_length hle, List.drop_append_of_le_length hle]
  rcases h with hseen | ⟨e, he, hkey⟩
  · exact .inl hseen
  · exact .inr ⟨e, List.mem_append_left _ he, hkey⟩

/-- A reader may go back: the writes it has seen are told again. -/
theorem Tracks.rewind (h : feed.Tracks cursor key decode seen) {first : Nat}
    (hle : first ≤ cursor) : feed.Tracks first key decode seen := by
  have hdrop : feed.drop first = (feed.take cursor).drop first ++ feed.drop cursor := by
    conv_lhs => rw [← List.take_append_drop cursor feed]
    rw [List.drop_append]
    rcases Nat.le_total cursor feed.length with hin | hout
    · rw [List.length_take, Nat.min_eq_left hin, Nat.sub_eq_zero_of_le hle, List.drop_zero]
    · rw [List.drop_eq_nil_of_le hout, List.drop_nil]
  by_cases hagain : ∃ e ∈ (feed.take cursor).drop first, e.1.key = key
  · obtain ⟨e, he, hkey⟩ := hagain
    exact .inr ⟨e, hdrop ▸ List.mem_append_left _ he, hkey⟩
  · rcases h with hseen | ⟨e, he, hkey⟩
    · left
      have htake : feed.take cursor = feed.take first ++ (feed.take cursor).drop first := by
        conv_lhs => rw [← List.take_append_drop first (feed.take cursor)]
        rw [List.take_take, Nat.min_eq_left hle]
      rw [hseen, htake, get_append_of_forall_ne fun e he hkey => hagain ⟨e, he, hkey⟩]
    · exact .inr ⟨e, hdrop ▸ List.mem_append_right _ he, hkey⟩

omit [DecidableEq K] in
theorem take_succ_of_getElem? {e : Write K V × Nat} (h : feed[cursor]? = some e) :
    feed.take (cursor + 1) = feed.take cursor ++ [e] := by
  rw [List.take_add_one, h, Option.toList_some]

theorem Tracks.next_self {e : Write K V × Nat} (h : feed[cursor]? = some e) (hkey : e.1.key = key)
    (hseen : seen = decode (e.1.value.map (·, e.2))) :
    feed.Tracks (cursor + 1) key decode seen := by
  left
  rw [hseen, take_succ_of_getElem? h, get_concat, if_pos hkey]

theorem Tracks.next_of_ne (ht : feed.Tracks cursor key decode seen) {e : Write K V × Nat}
    (h : feed[cursor]? = some e) (hkey : e.1.key ≠ key) :
    feed.Tracks (cursor + 1) key decode seen := by
  rcases ht with hseen | ⟨e', he', hkey'⟩
  · left
    rw [hseen, take_succ_of_getElem? h, get_concat, if_neg hkey]
  · right
    obtain ⟨hlt, heq⟩ := List.getElem?_eq_some_iff.mp h
    rw [List.drop_eq_getElem_cons hlt, heq] at he'
    rcases List.mem_cons.mp he' with rfl | hrest
    · exact absurd hkey' hkey
    · exact ⟨e', hrest, hkey'⟩

/-- A reader at the end of the feed knows what the store holds. -/
theorem Tracks.finish (h : feed.Tracks feed.length key decode seen) :
    seen = decode (feed.get key) := by
  rcases h with hseen | ⟨e, he, -⟩
  · rwa [List.take_length] at hseen
  · rw [List.drop_length] at he
    contradiction

end Tracks

end Feed

namespace Timeline

variable {K V : Type*}

/-- The feed of the transactions that follow revision `start`. -/
def feed (start : Nat) : Timeline K V → Feed K V
  | [] => []
  | txn :: later => txn.writes.map (·, start + 1) ++ feed (start + 1) later

theorem feed_append (start : Nat) (h later : Timeline K V) :
    feed start (h ++ later) = feed start h ++ feed (start + h.length) later := by
  induction h generalizing start with
  | nil => rfl
  | cons txn h ih =>
    rw [List.cons_append, feed, ih, feed, List.append_assoc, List.length_cons, Nat.add_assoc start,
      Nat.add_comm 1]

@[simp] theorem feed_singleton (start : Nat) (txn : Transaction K V) :
    feed start [txn] = txn.writes.map (·, start + 1) := by
  rw [feed, feed, List.append_nil]

theorem lt_of_mem_feed {start : Nat} {h : Timeline K V} {e : Write K V × Nat}
    (he : e ∈ feed start h) : start < e.2 := by
  induction h generalizing start with
  | nil => simp [feed] at he
  | cons txn h ih =>
    rw [feed] at he
    rcases List.mem_append.mp he with he | he
    · obtain ⟨w, -, rfl⟩ := List.mem_map.mp he
      exact Nat.lt_succ_self start
    · exact Nat.lt_of_succ_lt (ih he)

theorem mem_of_mem_feed {start : Nat} {h : Timeline K V} {e : Write K V × Nat}
    (he : e ∈ feed start h) : ∃ txn ∈ h, e.1 ∈ txn.writes := by
  induction h generalizing start with
  | nil => simp [feed] at he
  | cons txn h ih =>
    rw [feed] at he
    rcases List.mem_append.mp he with he | he
    · obtain ⟨w, hw, rfl⟩ := List.mem_map.mp he
      exact ⟨txn, List.mem_cons_self, hw⟩
    · obtain ⟨txn', htxn', hw⟩ := ih he
      exact ⟨txn', List.mem_cons_of_mem _ htxn', hw⟩

theorem feed_ordered (start : Nat) (h : Timeline K V) : (feed start h).Ordered := by
  refine ⟨fun e he => Nat.zero_lt_of_lt (lt_of_mem_feed he), ?_⟩
  induction h generalizing start with
  | nil => exact List.Pairwise.nil
  | cons txn h ih =>
    refine List.pairwise_append.mpr ⟨?_, ih (start + 1), ?_⟩
    · refine List.pairwise_map.mpr ((List.pairwise_map.mp txn.distinct).imp fun hne heq => ?_)
      exact absurd heq hne
    · intro a ha b hb _
      obtain ⟨w, -, rfl⟩ := List.mem_map.mp ha
      exact lt_of_mem_feed hb

theorem feed_concat (h : Timeline K V) (txn : Transaction K V) :
    feed 0 (h ++ [txn]) = feed 0 h ++ txn.writes.map (·, h.length + 1) := by
  rw [feed_append, feed_singleton, Nat.zero_add]

theorem feed_eq_append_take (h : Timeline K V) (n : Nat) :
    feed 0 h = feed 0 (h.take n) ++ feed (h.take n).length (h.drop n) := by
  conv_lhs => rw [← List.take_append_drop n h]
  rw [feed_append, Nat.zero_add]

/-- What was written up to a revision, and then up to a later one. -/
theorem feed_take_of_le {first last : Nat} (hle : first ≤ last) (h : Timeline K V) :
    feed 0 (h.take last) = feed 0 (h.take first) ++ feed first ((h.take last).drop first) := by
  have hsplit : h.take last = h.take first ++ (h.take last).drop first := by
    conv_lhs => rw [← List.take_append_drop first (h.take last)]
    rw [List.take_take, Nat.min_eq_left hle]
  conv_lhs => rw [hsplit]
  rw [feed_append, Nat.zero_add]
  rcases Nat.le_total first h.length with hin | hout
  · rw [List.length_take, Nat.min_eq_left hin]
  · rw [List.drop_eq_nil_of_le (by rw [List.length_take]; omega)]
    rfl

end Timeline
end Goverse.Lib
