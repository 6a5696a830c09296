import Mathlib.Data.List.Basic
import Mathlib.Order.Lattice

/-! A consumer works through batches of numbers in increasing order while new numbers
become due. A batch covers what is due if no due number lies below its end without being
in it, so that taking the head of the batch never steps over one. -/
namespace Goverse.Lib

variable {α : Type*} [LinearOrder α]

def Covers (due : α → Prop) (batch : List α) : Prop :=
  ∀ q, due q → q ∈ batch ∨ ∀ b ∈ batch, b < q

namespace Covers

variable {due due' : α → Prop} {b : α} {batch : List α}

theorem nil (due : α → Prop) : Covers due [] := fun _ _ => .inr (by simp)

/-- A number that becomes due must lie beyond the batch. -/
theorem mono (h : Covers due batch) (hdue : ∀ q, due' q → due q ∨ ∀ b ∈ batch, b < q) :
    Covers due' batch := by
  intro q hq
  rcases hdue q hq with hq | hq
  · exact h q hq
  · exact .inr hq

/-- Nothing due is at or below the head, except the head. -/
theorem head (h : Covers due (b :: batch)) (hinc : (b :: batch).Pairwise (· < ·)) {q : α}
    (hq : due q) (hle : q ≤ b) : q = b := by
  rcases h q hq with hmem | hlt
  · rcases List.mem_cons.mp hmem with heq | hmem
    · exact heq
    · exact absurd ((List.pairwise_cons.mp hinc).1 q hmem) (not_lt_of_ge hle)
  · exact absurd (hlt b (List.mem_cons_self)) (not_lt_of_ge hle)

theorem tail (h : Covers due (b :: batch)) (hdue : ∀ q, due' q → due q ∧ q ≠ b) :
    Covers due' batch := by
  intro q hq
  obtain ⟨hold, hne⟩ := hdue q hq
  rcases h q hold with hmem | hlt
  · exact .inl ((List.mem_cons.mp hmem).resolve_left hne)
  · exact .inr fun c hc => hlt c (List.mem_cons_of_mem _ hc)

end Covers
end Goverse.Lib
