import Goverse.Lib.Feed

/-! A register for the last value of one key. A reader of the feed tells it the writes of the key
in order, and those who write the key may tell it their own writes at any time. It drops what is
not newer than what it holds. After a deletion it holds nothing, and so it drops nothing. -/
namespace Goverse.Lib

/-- What a register makes of a value and its revision. -/
structure Register (V C : Type*) where
  make : V → Nat → C
  rev : C → Nat
  rev_make : ∀ value r, rev (make value r) = r

namespace Register

variable {K V C : Type*} (R : Register V C)

def age (cell : Option C) : Nat := (cell.map R.rev).getD 0

/-- The reader tells it of a write at revision `r`. -/
def observe (cell : Option C) (value : Option V) (r : Nat) : Option C :=
  if r ≤ R.age cell then cell else value.map (R.make · r)

/-- A writer tells it of its own write. -/
def amend (cell : Option C) (item : C) : Option C :=
  if R.age cell < R.rev item then some item else cell

def decode (found : Option (V × Nat)) : Option C := found.map fun entry => R.make entry.1 entry.2

/-- What the register holds was written. -/
def Backed (feed : Feed K V) (key : K) (cell : Option C) : Prop :=
  ∀ item ∈ cell, ∃ value r, (⟨key, some value⟩, r) ∈ feed ∧ item = R.make value r

variable {R} {feed : Feed K V} {key : K} {cell : Option C} {value : Option V} {r cursor : Nat}

theorem Backed.append (h : R.Backed feed key cell) (more : Feed K V) :
    R.Backed (feed ++ more) key cell := by
  intro item hitem
  obtain ⟨value, r, hmem, heq⟩ := h item hitem
  exact ⟨value, r, List.mem_append_left _ hmem, heq⟩

theorem Backed.observe (h : R.Backed feed key cell) (he : (⟨key, value⟩, r) ∈ feed) :
    R.Backed feed key (R.observe cell value r) := by
  unfold Register.observe
  split
  · exact h
  · intro item hitem
    obtain ⟨v, rfl, heq⟩ := Option.map_eq_some_iff.mp hitem
    exact ⟨v, r, he, heq.symm⟩

theorem Backed.amend (h : R.Backed feed key cell) {v : V} (he : (⟨key, some v⟩, r) ∈ feed) :
    R.Backed feed key (R.amend cell (R.make v r)) := by
  unfold Register.amend
  split
  · intro item hitem
    cases hitem
    exact ⟨v, r, he, rfl⟩
  · exact h

variable [DecidableEq K]

theorem backed_decode (h : cell = R.decode (feed.get key)) : R.Backed feed key cell := by
  intro item hitem
  rw [h] at hitem
  obtain ⟨found, hfound, rfl⟩ := Option.map_eq_some_iff.mp hitem
  exact ⟨found.1, found.2, Feed.mem_of_get hfound, rfl⟩

/-- An event settles what the register holds, unless the key is written again. If the event is
dropped, what the register holds is the event's own write. -/
theorem tracks_observe (hordered : feed.Ordered) (hbacked : R.Backed feed key cell)
    (he : feed[cursor]? = some (⟨key, value⟩, r)) :
    feed.Tracks (cursor + 1) key R.decode (R.observe cell value r) := by
  by_cases hlater : ∃ e ∈ feed.drop (cursor + 1), e.1.key = key
  · exact .inr hlater
  refine .next_self he rfl ?_
  have hvalue : R.decode (value.map (·, r)) = value.map (R.make · r) := by
    rw [decode, Option.map_map]
    rfl
  unfold Register.observe
  split
  · rename_i hold
    have hpos : 0 < r := hordered.pos _ (List.mem_of_getElem? he)
    cases cell with
    | none => exact absurd hold (Nat.not_le_of_lt hpos)
    | some item =>
      obtain ⟨v, r', hmem, rfl⟩ := hbacked item rfl
      have hle : r ≤ r' := by simpa [age, R.rev_make] using hold
      have htake := Feed.take_succ_of_getElem? he
      have hhandled : (⟨key, some v⟩, r') ∈ feed.take cursor ++ [(⟨key, value⟩, r)] := by
        rw [← htake]
        rw [← List.take_append_drop (cursor + 1) feed] at hmem
        rcases List.mem_append.mp hmem with hmem | hmem
        · exact hmem
        · exact absurd ⟨_, hmem, rfl⟩ hlater
      have horder := hordered.take (cursor + 1)
      rw [htake] at horder
      rcases List.mem_append.mp hhandled with hbefore | hlast
      · exact absurd hle (Nat.not_le_of_lt (horder.lt_last hbefore rfl))
      · cases List.mem_singleton.mp hlast
        exact hvalue.symm
  · exact hvalue.symm

/-- A writer may tell its own write at any time but after the reader has handled both this write
and a later deletion of the key. -/
theorem tracks_amend (hordered : feed.Ordered) {v : V} (hmem : (⟨key, some v⟩, r) ∈ feed)
    (hkept : (⟨key, some v⟩, r) ∈ feed.take cursor → Feed.get (feed.take cursor) key ≠ none)
    (h : feed.Tracks cursor key R.decode cell) :
    feed.Tracks cursor key R.decode (R.amend cell (R.make v r)) := by
  rcases h with hcell | hlater
  · by_cases hhandled : (⟨key, some v⟩, r) ∈ feed.take cursor
    · left
      obtain ⟨found, hfound⟩ := Option.ne_none_iff_exists'.mp (hkept hhandled)
      have hle := (hordered.take cursor).le_get hhandled hfound
      rw [hcell, Register.amend, if_neg]
      rw [hfound]
      simpa [age, decode, R.rev_make] using hle
    · right
      rw [← List.take_append_drop cursor feed] at hmem
      rcases List.mem_append.mp hmem with hmem | hmem
      · exact absurd hmem hhandled
      · exact ⟨_, hmem, rfl⟩
  · exact .inr hlater

end Register
end Goverse.Lib
