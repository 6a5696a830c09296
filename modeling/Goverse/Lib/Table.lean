import Mathlib.Data.List.AList
import Mathlib.Logic.Function.Basic

/-! Tables whose rows contain their own key, and what is seen of a table when only one field of each
row is looked at. -/
namespace Goverse.Lib

structure Table (K V : Type*) [DecidableEq K] (key : V → K) where
  map : AList fun _ : K => V
  keyed : ∀ k v, map.lookup k = some v → key v = k

namespace Table

variable {K V : Type*} [DecidableEq K] {key : V → K}

def get (t : Table K V key) (k : K) : Option V := t.map.lookup k

def empty : Table K V key := ⟨∅, by simp⟩

/-- The row with the key of `v` is added or replaced. -/
def put (t : Table K V key) (v : V) : Table K V key where
  map := t.map.insert (key v) v
  keyed := by
    intro k v' h
    by_cases hk : k = key v
    · subst hk
      rw [AList.lookup_insert] at h
      rw [Option.some.inj h]
    · rw [AList.lookup_insert_ne hk] at h
      exact t.keyed k v' h

def remove (t : Table K V key) (k : K) : Table K V key where
  map := t.map.erase k
  keyed := by
    intro k' v h
    by_cases hk : k' = k
    · subst hk
      rw [AList.lookup_erase] at h
      contradiction
    · rw [AList.lookup_erase_ne hk] at h
      exact t.keyed k' v h

@[simp] theorem lookup_filter (m : AList fun _ : K => V) (p : V → Bool) (k : K) :
    AList.lookup k ⟨m.entries.filter fun row => p row.2,
      m.nodupKeys.sublist List.filter_sublist⟩ = (m.lookup k).filter p := by
  apply Option.ext
  intro v
  rw [← Option.mem_def, AList.mem_lookup_iff, List.mem_filter, ← AList.mem_lookup_iff,
    Option.filter_eq_some_iff, Option.mem_def]

/-- The rows that meet `p` stay. -/
def keepIf (t : Table K V key) (p : V → Bool) : Table K V key where
  map := ⟨t.map.entries.filter fun row => p row.2, t.map.nodupKeys.sublist List.filter_sublist⟩
  keyed := by
    intro k v h
    rw [lookup_filter, Option.filter_eq_some_iff] at h
    exact t.keyed k v h.1

def values (t : Table K V key) : List V := t.map.entries.map fun row => row.2

variable (t : Table K V key)

@[simp] theorem get_put (v : V) : (t.put v).get = Function.update t.get (key v) (some v) := by
  funext k
  by_cases hk : k = key v
  · subst hk
    rw [Function.update_self]
    exact AList.lookup_insert _
  · rw [Function.update_of_ne hk]
    exact AList.lookup_insert_ne hk

@[simp] theorem get_remove (k : K) : (t.remove k).get = Function.update t.get k none := by
  funext k'
  by_cases hk : k' = k
  · subst hk
    rw [Function.update_self]
    exact AList.lookup_erase _ _
  · rw [Function.update_of_ne hk]
    exact AList.lookup_erase_ne hk

@[simp] theorem get_keepIf (p : V → Bool) (k : K) : (t.keepIf p).get k = (t.get k).filter p :=
  lookup_filter t.map p k

variable {t}

theorem get_of_mem_values {v : V} (h : v ∈ t.values) : t.get (key v) = some v := by
  obtain ⟨⟨k, _⟩, hmem, rfl⟩ := List.mem_map.mp h
  have hlookup := AList.mem_lookup_iff.mpr hmem
  rw [t.keyed k _ hlookup]
  exact hlookup

section View

variable {O : Type*} (t) (field : V → O)

/-- What is seen of a table through one field of its rows. -/
def view (k : K) : Option O := (t.get k).map field

@[simp] theorem view_put (v : V) :
    (t.put v).view field = Function.update (t.view field) (key v) (some (field v)) := by
  funext k
  rw [view, get_put]
  by_cases hk : k = key v
  · subst hk
    rw [Function.update_self, Function.update_self, Option.map_some]
  · rw [Function.update_of_ne hk, Function.update_of_ne hk, view]

@[simp] theorem view_remove (k : K) :
    (t.remove k).view field = Function.update (t.view field) k none := by
  funext k'
  rw [view, get_remove]
  by_cases hk : k' = k
  · subst hk
    rw [Function.update_self, Function.update_self, Option.map_none]
  · rw [Function.update_of_ne hk, Function.update_of_ne hk, view]

/-- The rows that go are found by their key and the field. -/
theorem view_keepIf (p : V → Bool) (q : K → O → Bool) (hpq : ∀ v, p v = q (key v) (field v))
    (k : K) : (t.keepIf p).view field k = (t.view field k).filter (q k) := by
  rw [view, get_keepIf, view]
  cases hget : t.get k with
  | none => rfl
  | some v =>
    have hkey := t.keyed k v hget
    rw [Option.map_some, Option.filter_some, Option.filter_some, hpq, hkey]
    split <;> rfl

variable {t field}

theorem view_of_get {k : K} {v : V} (h : t.get k = some v) : t.view field k = some (field v) := by
  rw [view, h, Option.map_some]

@[simp] theorem view_isSome (k : K) : (t.view field k).isSome = (t.get k).isSome :=
  Option.isSome_map

@[simp] theorem view_eq_some {k : K} {o : O} :
    t.view field k = some o ↔ ∃ v, t.get k = some v ∧ field v = o :=
  Option.map_eq_some_iff

end View

end Table
end Goverse.Lib
