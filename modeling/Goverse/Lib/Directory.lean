import Mathlib.Logic.Function.Basic
import Mathlib.Data.List.Basic

/-! Directories that are kept up to date by the reports of the owners of their entries, and that
someone refreshes: it reads the entries and writes them back one by one, later. If an owner's report
removes only what the directory has as its own, and no report removes or moves an entry that is
still to be written back, then the directory has every entry that its owner has reported last, and
writing back changes no owner. -/
namespace Goverse.Lib

/-- The owner of each entry, and what a refresh has read and has yet to write back. -/
structure Directory (K O : Type*) where
  entry : K → Option O
  pending : List (K × O)

namespace Directory

variable {K O : Type*}

/-- Owner `o` adds an entry, removes one, or starts over with the entries in `keep`. -/
inductive Report (K O : Type*) where
  | put (k : K) (o : O)
  | drop (k : K) (o : O)
  | purge (o : O) (keep : K → Bool)

section Reports

variable [DecidableEq K] [DecidableEq O]

/-- What a report does to the entries. It removes an entry without looking at its owner. -/
def Report.apply : Report K O → (K → Option O) → K → Option O
  | .put k o, entry => Function.update entry k (some o)
  | .drop k _, entry => Function.update entry k none
  | .purge o keep, entry => fun k => (entry k).filter fun o' => decide (o' ≠ o) || keep k

/-- What it means for the latest additions: one is over when its own owner removes the entry or
starts over. -/
def Report.record : Report K O → (K → Option O) → K → Option O
  | .put k o, latest => Function.update latest k (some o)
  | .drop k o, latest => Function.update latest k ((latest k).filter fun o' => decide (o' ≠ o))
  | .purge o _, latest => fun k => (latest k).filter fun o' => decide (o' ≠ o)

/-- The report removes no entry of another owner, and touches none that is still to be written
back. -/
def Fair (d : Directory K O) : Report K O → Prop
  | .put k o => ∀ e ∈ d.pending, e.1 = k → e.2 = o
  | .drop k o => (∀ o' ∈ d.entry k, o' = o) ∧ ∀ e ∈ d.pending, e.1 ≠ k
  | .purge o keep => ∀ e ∈ d.pending, e.2 = o → keep e.1 = true

instance (d : Directory K O) : (r : Report K O) → Decidable (d.Fair r)
  | .put k o => inferInstanceAs (Decidable (∀ e ∈ d.pending, e.1 = k → e.2 = o))
  | .drop k o =>
    inferInstanceAs (Decidable ((∀ o' ∈ d.entry k, o' = o) ∧ ∀ e ∈ d.pending, e.1 ≠ k))
  | .purge o keep => inferInstanceAs (Decidable (∀ e ∈ d.pending, e.2 = o → keep e.1 = true))

end Reports

/-- What is still to be written back is as it was read. -/
def Current (d : Directory K O) : Prop := ∀ e ∈ d.pending, d.entry e.1 = some e.2

/-- The entries that their owners have reported last are there. -/
def Truthful (d : Directory K O) (latest : K → Option O) : Prop :=
  ∀ k o, latest k = some o → d.entry k = some o

variable [DecidableEq K] [DecidableEq O]

/-- A step of a directory, with the report that it takes up. Without one, a refresh reads the
entries, passes over some, or writes one back. -/
inductive Step (d d' : Directory K O) : Option (Report K O) → Prop
  | report {r : Report K O} (hentry : d'.entry = r.apply d.entry)
      (hpending : d'.pending = d.pending) : Step d d' (some r)
  | read (hentry : d'.entry = d.entry) (hread : d'.Current) : Step d d' none
  | pass (hentry : d'.entry = d.entry) (hpending : d'.pending ⊆ d.pending) : Step d d' none
  | write {k : K} {o : O} (hmem : (k, o) ∈ d.pending)
      (hentry : d'.entry = Function.update d.entry k (some o)) (hpending : d'.pending ⊆ d.pending) :
      Step d d' none

variable {d d' : Directory K O} {r : Report K O} {latest : K → Option O}

theorem Step.stay (hentry : d'.entry = d.entry) (hpending : d'.pending = d.pending) :
    Step d d' none :=
  .pass hentry (hpending ▸ List.Subset.refl _)

theorem Step.of_elim {report : Option (Report K O)}
    (hentry : d'.entry = report.elim d.entry fun r => r.apply d.entry)
    (hpending : d'.pending = d.pending) : Step d d' report := by
  cases report with
  | none => exact .stay hentry hpending
  | some r => exact .report hentry hpending

theorem Current.apply (h : d.Current) (hfair : d.Fair r) {e : K × O} (he : e ∈ d.pending) :
    r.apply d.entry e.1 = some e.2 := by
  have hentry := h e he
  cases r with
  | put k o =>
    by_cases hk : e.1 = k
    · rw [hfair e he hk, hk]
      exact Function.update_self k _ d.entry
    · exact (Function.update_of_ne hk _ d.entry).trans hentry
  | drop k o => exact (Function.update_of_ne (hfair.2 e he) _ d.entry).trans hentry
  | purge o keep =>
    change (d.entry e.1).filter _ = some e.2
    rw [hentry, Option.filter_some, if_pos]
    by_cases ho : e.2 = o
    · rw [hfair e he ho, Bool.or_true]
    · rw [decide_eq_true ho, Bool.true_or]

omit [DecidableEq O] in
/-- Writing back an entry leaves the owners as they are. -/
theorem Current.update_eq (h : d.Current) {k : K} {o : O} (hmem : (k, o) ∈ d.pending) :
    Function.update d.entry k (some o) = d.entry := by
  rw [← show d.entry k = some o from h (k, o) hmem]
  exact Function.update_eq_self k d.entry

theorem Truthful.apply (h : d.Truthful latest) (hfair : d.Fair r) {k : K} {o : O}
    (hlatest : r.record latest k = some o) : r.apply d.entry k = some o := by
  cases r with
  | put k' o' =>
    by_cases hk : k = k'
    · subst hk
      rw [Report.record, Function.update_self] at hlatest
      rw [Report.apply, Function.update_self]
      exact hlatest
    · rw [Report.record, Function.update_of_ne hk] at hlatest
      rw [Report.apply, Function.update_of_ne hk]
      exact h k o hlatest
  | drop k' o' =>
    by_cases hk : k = k'
    · subst hk
      rw [Report.record, Function.update_self, Option.filter_eq_some_iff] at hlatest
      have howner := hfair.1 o (h k o hlatest.1)
      exact absurd howner (of_decide_eq_true hlatest.2)
    · rw [Report.record, Function.update_of_ne hk] at hlatest
      rw [Report.apply, Function.update_of_ne hk]
      exact h k o hlatest
  | purge o' keep =>
    obtain ⟨hlatest, hne⟩ := Option.filter_eq_some_iff.mp hlatest
    change (d.entry k).filter _ = some o
    rw [h k o hlatest, Option.filter_some, if_pos]
    rw [hne, Bool.true_or]

section Steps

variable {report : Option (Report K O)} (hstep : Step d d' report) (h : d.Current)
  (hfair : ∀ r ∈ report, d.Fair r)
include hstep h hfair

theorem Current.step : d'.Current := by
  cases hstep with
  | report hentry hpending =>
    intro e he
    rw [hentry]
    exact h.apply (hfair _ rfl) (hpending ▸ he)
  | read _ hread => exact hread
  | pass hentry hpending =>
    intro e he
    rw [hentry]
    exact h e (hpending he)
  | write hmem hentry hpending =>
    intro e he
    rw [hentry, h.update_eq hmem]
    exact h e (hpending he)

theorem Truthful.step (htrue : d.Truthful latest) :
    d'.Truthful (report.elim latest fun r => r.record latest) := by
  intro k o hlatest
  cases hstep with
  | report hentry _ =>
    rw [hentry]
    exact htrue.apply (hfair _ rfl) hlatest
  | read hentry | pass hentry =>
    rw [hentry]
    exact htrue k o hlatest
  | write hmem hentry =>
    rw [hentry, h.update_eq hmem]
    exact htrue k o hlatest

end Steps

/-- A step that takes up no report keeps all owners. -/
theorem Current.entry_eq (h : d.Current) (hstep : Step d d' none) : d'.entry = d.entry := by
  cases hstep with
  | read hentry | pass hentry => exact hentry
  | write hmem hentry => exact hentry.trans (h.update_eq hmem)

end Directory
end Goverse.Lib
