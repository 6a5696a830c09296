import Mathlib.Data.Finset.Max
import Mathlib.Data.Finset.Range
import Mathlib.Logic.Relation

/-! Wait-for relations. If whoever is waited for and waits in turn does so at a greater height, then
nobody waits for themselves, however long the chain, and every chain ends at someone who does not
wait. -/
namespace Goverse.Lib

open Relation

section Height

variable {α β : Type*} {R : α → α → Prop} {height : α → β}

private theorem height_lt_of_transGen [Preorder β]
    (hup : ∀ i j k, R i j → R j k → height i < height j) {i j k : α} (hij : TransGen R i j)
    (hjk : R j k) : height i < height j := by
  induction hij generalizing k with
  | single hij => exact hup _ _ _ hij hjk
  | tail _ hstep ih => exact (ih hstep).trans (hup _ _ _ hstep hjk)

theorem acyclic_of_height [Preorder β]
    (hup : ∀ i j k, R i j → R j k → height i < height j) (i : α) : ¬ TransGen R i i := by
  intro hcycle
  obtain ⟨j, hij, -⟩ := TransGen.head'_iff.mp hcycle
  have hlt := height_lt_of_transGen hup hcycle hij
  exact lt_irrefl _ hlt

/-- The highest of those who can be reached leads on to someone who does not wait, or does not wait
itself. -/
theorem exists_not_waiting [LinearOrder β] {R : Nat → Nat → Prop} {height : Nat → β} {n : Nat}
    (hup : ∀ i j k, R i j → R j k → height i < height j) (hbound : ∀ {i j}, R i j → j < n)
    {i j : Nat} (hij : R i j) : ∃ k, TransGen R i k ∧ ∀ l, ¬ R k l := by
  classical
  have hbounded : ∀ {k}, TransGen R i k → k < n := by
    intro k hk
    obtain ⟨_, -, hlast⟩ := TransGen.tail'_iff.mp hk
    exact hbound hlast
  let S := (Finset.range n).filter (TransGen R i)
  have hmem : ∀ {k}, k ∈ S ↔ TransGen R i k := by
    intro k
    rw [Finset.mem_filter, Finset.mem_range]
    exact ⟨fun h => h.2, fun h => ⟨hbounded h, h⟩⟩
  obtain ⟨m, hm, hmax⟩ := S.exists_max_image height ⟨j, hmem.mpr (.single hij)⟩
  by_contra hnone
  have hleads : ∀ {k}, TransGen R i k → ∃ l, R k l := by
    intro k hk
    by_contra hend
    exact hnone ⟨k, hk, fun l hl => hend ⟨l, hl⟩⟩
  obtain ⟨l, hml⟩ := hleads (hmem.mp hm)
  have hl : TransGen R i l := (hmem.mp hm).tail hml
  obtain ⟨_, hlast⟩ := hleads hl
  exact absurd (hup _ _ _ hml hlast) (not_lt_of_ge (hmax l (hmem.mpr hl)))

end Height
end Goverse.Lib
