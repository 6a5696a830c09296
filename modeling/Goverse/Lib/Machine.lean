import Mathlib.Data.List.Basic

/-! Labelled machines. A label carries every choice the environment makes, so a
step is a partial function and a finite run can be executed. Runs are indexed by
a guard: `Steps ok` keeps only the runs each of whose labels meets `ok` in the
state it is taken in. -/
namespace Goverse.Lib

structure Machine (S L : Type*) where
  Init : S → Prop
  step : S → L → Option S

namespace Machine

variable {S L : Type*} (M : Machine S L)

/-- The guard that admits every step. -/
def Any : S → L → Prop := fun _ _ => True

instance (s : S) (l : L) : Decidable (Any s l) := isTrue trivial

/-- The run `ls` leads from `s` to `t` and meets `ok` at each of its steps. -/
inductive Steps (ok : S → L → Prop) : S → List L → S → Prop
  | nil (s : S) : Steps ok s [] s
  | snoc {s t u : S} {ls : List L} {l : L} :
      Steps ok s ls t → ok t l → M.step t l = some u → Steps ok s (ls ++ [l]) u

def Reachable (ok : S → L → Prop) (s : S) : Prop :=
  ∃ s₀ ls, M.Init s₀ ∧ M.Steps ok s₀ ls s

/-- Execute a run, stopping where a label is not enabled or not admitted. -/
def exec (ok : S → L → Prop) [∀ s l, Decidable (ok s l)] : S → List L → Option S
  | s, [] => some s
  | s, l :: ls => if ok s l then (M.step s l).bind fun t => exec ok t ls else none

variable {M} {ok ok' : S → L → Prop}

theorem Steps.append {s t u : S} {ls ms : List L}
    (first : M.Steps ok s ls t) (second : M.Steps ok t ms u) :
    M.Steps ok s (ls ++ ms) u := by
  induction second with
  | nil => simpa using first
  | snoc _ hok hstep ih =>
    rw [← List.append_assoc]
    exact ih.snoc hok hstep

theorem Steps.single {s t : S} {l : L} (hok : ok s l) (hstep : M.step s l = some t) :
    M.Steps ok s [l] t :=
  (Steps.nil s).snoc hok hstep

/-- A guard may be weakened. -/
theorem Steps.mono (hok : ∀ {s l}, ok s l → ok' s l) {s t : S} {ls : List L}
    (hrun : M.Steps ok s ls t) : M.Steps ok' s ls t := by
  induction hrun with
  | nil => exact Steps.nil _
  | snoc _ hl hstep ih => exact ih.snoc (hok hl) hstep

theorem exec_steps [∀ s l, Decidable (ok s l)] {s t : S} {ls : List L}
    (h : M.exec ok s ls = some t) : M.Steps ok s ls t := by
  induction ls generalizing s with
  | nil =>
    cases Option.some.inj h
    exact Steps.nil _
  | cons l ls ih =>
    rw [exec] at h
    split at h
    · rename_i hok
      obtain ⟨u, hu, hrest⟩ := Option.bind_eq_some_iff.mp h
      exact (Steps.single hok hu).append (ih hrest)
    · contradiction

/-- A run is exhibited by executing it and testing the state it ends in. -/
theorem exec_any [∀ s l, Decidable (ok s l)] {s : S} {ls : List L} {p : S → Bool}
    (h : (M.exec ok s ls).any p = true) : ∃ t, M.Steps ok s ls t ∧ p t = true := by
  cases ht : M.exec ok s ls with
  | none => simp [ht] at h
  | some t => exact ⟨t, exec_steps ht, by simpa [ht] using h⟩

theorem Reachable.init {s : S} (h : M.Init s) : M.Reachable ok s :=
  ⟨s, [], h, Steps.nil s⟩

/-- A reachable state is exhibited by executing a run from the start. -/
theorem exec_reachable [∀ s l, Decidable (ok s l)] {s : S} {ls : List L} {p : S → Bool}
    (h : (M.exec ok s ls).any p = true) (hinit : M.Init s) :
    ∃ t, M.Reachable ok t ∧ p t = true := by
  obtain ⟨t, hsteps, ht⟩ := exec_any h
  exact ⟨t, ⟨s, ls, hinit, hsteps⟩, ht⟩

theorem Reachable.steps {s t : S} {ls : List L} (hs : M.Reachable ok s)
    (hrun : M.Steps ok s ls t) : M.Reachable ok t := by
  obtain ⟨s₀, ms, hinit, hms⟩ := hs
  exact ⟨s₀, ms ++ ls, hinit, hms.append hrun⟩

/-- What a step preserves, a run preserves. -/
theorem Steps.preserves {I : S → Prop}
    (hstep : ∀ {s l t}, I s → ok s l → M.step s l = some t → I t)
    {s t : S} {ls : List L} (hrun : M.Steps ok s ls t) (hs : I s) : I t := by
  induction hrun with
  | nil => exact hs
  | snoc _ hok hst ih => exact hstep ih hok hst

/-- The invariant rule: true initially and preserved by every admitted step. -/
theorem Reachable.invariant {I : S → Prop} (hinit : ∀ {s}, M.Init s → I s)
    (hstep : ∀ {s l t}, I s → ok s l → M.step s l = some t → I t)
    {s : S} (h : M.Reachable ok s) : I s := by
  obtain ⟨s₀, ls, h₀, hrun⟩ := h
  exact hrun.preserves hstep (hinit h₀)

/-- A preorder that every step moves along, in states that meet an invariant,
is moved along by every run. -/
theorem Steps.relates {I : S → Prop} {R : S → S → Prop}
    (hrefl : ∀ s, R s s) (htrans : ∀ {a b c}, R a b → R b c → R a c)
    (hinv : ∀ {s l t}, I s → ok s l → M.step s l = some t → I t)
    (hrel : ∀ {s l t}, I s → ok s l → M.step s l = some t → R s t)
    {s t : S} {ls : List L} (hrun : M.Steps ok s ls t) (hs : I s) : R s t := by
  induction hrun with
  | nil => exact hrefl _
  | snoc hprev hok hst ih =>
    exact htrans ih (hrel (hprev.preserves hinv hs) hok hst)

end Machine
end Goverse.Lib
