import Mathlib.Data.Finset.Card
import Mathlib.Logic.Function.Basic
import Goverse.Lib.Machine

/-! Sweeps over a store of records with revisions. Every agent plans once, on the records as they
are at that moment, and stores the entries of its plan one by one, each compared with the
revision it was planned on. If no record is of interest to two agents, and none to any agent
after it was stored, then no comparison fails, the sweep ends, and each record has become what
its agent makes of it, in whatever order the agents plan and store. -/
namespace Goverse.Lib

/-- `act a r` is what agent `a` wants to make of a record `r`. -/
structure Sweep (S K R A : Type*) where
  agents : Finset A
  get : S → K → Option R
  rev : R → ℕ
  stamp : R → ℕ → R
  act : A → R → Option R
  plan : S → A → List (K × R)
  store : S → K → R → ℕ → S

namespace Sweep

variable {S K R A : Type*}

/-- The revision a comparison finds. -/
def revision (W : Sweep S K R A) (s : S) (k : K) : ℕ := ((W.get s k).map W.rev).getD 0

structure Lawful [DecidableEq K] (W : Sweep S K R A) (Inv : S → Prop) : Prop where
  mem_plan : ∀ {s a k r'}, Inv s →
    ((k, r') ∈ W.plan s a ↔ ∃ r, W.get s k = some r ∧ W.act a r = some r')
  nodup_plan : ∀ {s} a, Inv s → ((W.plan s a).map Prod.fst).Nodup
  inv_store : ∀ {s k r n}, Inv s → Inv (W.store s k r n)
  get_store : ∀ {s k r n}, W.revision s k < n →
    W.get (W.store s k r n) = Function.update (W.get s) k (some (W.stamp r n))
  rev_stamp : ∀ r n, W.rev (W.stamp r n) = n
  rev_act : ∀ {a r x}, W.act a r = some x → W.rev x = W.rev r
  owner : ∀ {a b r x y}, a ∈ W.agents → b ∈ W.agents →
    W.act a r = some x → W.act b r = some y → a = b
  done : ∀ {s k a b r x n}, Inv s → W.get s k = some r → a ∈ W.agents → b ∈ W.agents →
    W.act a r = some x → W.act b (W.stamp x n) = none

/-- A sweep in progress. An agent that has not planned has no entries pending. -/
structure Round (S K R A : Type*) where
  data : S
  pending : A → Option (List (K × R))

inductive Move (K A : Type*) where
  | plan (a : A)
  | store (a : A) (k : K) (n : ℕ)

section Step

variable [DecidableEq K] [DecidableEq A] (W : Sweep S K R A)

def drop (s : Round S K R A) (a : A) (plan : List (K × R)) (k : K) :
    A → Option (List (K × R)) :=
  Function.update s.pending a (some (plan.filter fun entry => entry.1 ≠ k))

/-- An entry is stored at a revision newer than the one it replaces, or dropped because the
comparison fails. -/
def storeStep (s : Round S K R A) (a : A) (plan : List (K × R)) (k : K) (x : R) (n : ℕ) :
    Option (Round S K R A) :=
  if W.revision s.data k = W.rev x then
    if W.revision s.data k < n then some ⟨W.store s.data k x n, drop s a plan k⟩ else none
  else some ⟨s.data, drop s a plan k⟩

def step (s : Round S K R A) : Move K A → Option (Round S K R A)
  | .plan a =>
    if a ∈ W.agents ∧ (s.pending a).isNone then
      some { s with pending := Function.update s.pending a (some (W.plan s.data a)) }
    else none
  | .store a k n =>
    (s.pending a).bind fun plan =>
      (plan.find? fun entry => entry.1 = k).bind fun entry =>
        storeStep W s a plan k entry.2 n

def start (s : S) : Round S K R A := ⟨s, fun _ => none⟩

def machine : Machine (Round S K R A) (Move K A) where
  Init r := ∃ s, r = start s
  step := W.step

/-- A sweep from `s` that cannot go on has ended in `t`. -/
def Ends (s t : S) : Prop :=
  ∃ moves r, W.machine.Steps Machine.Any (start s) moves r ∧ (∀ move, W.step r move = none) ∧
    r.data = t

end Step

section Invariant

variable {W : Sweep S K R A} {Inv : S → Prop} {s₀ : S} {r : Round S K R A}

/-- A record that no one has stored yet: what is pending of it was planned on it as it is. -/
structure Untouched (W : Sweep S K R A) (s₀ : S) (r : Round S K R A) (k : K) : Prop where
  get : W.get r.data k = W.get s₀ k
  pending : ∀ {a plan}, r.pending a = some plan →
    ∀ x, (k, x) ∈ plan ↔ ∃ r₀, W.get s₀ k = some r₀ ∧ W.act a r₀ = some x

/-- A record that its agent has stored, and that nobody wants any more. -/
structure Touched (W : Sweep S K R A) (s₀ : S) (r : Round S K R A) (k : K) : Prop where
  get : ∃ a ∈ W.agents, ∃ r₀ x n, W.get s₀ k = some r₀ ∧ W.act a r₀ = some x ∧ W.rev r₀ < n ∧
    W.get r.data k = some (W.stamp x n)
  pending : ∀ {a plan}, r.pending a = some plan → k ∉ plan.map Prod.fst

structure Underway (W : Sweep S K R A) (Inv : S → Prop) (s₀ : S) (r : Round S K R A) : Prop where
  origin : Inv s₀
  inv : Inv r.data
  agents : ∀ {a plan}, r.pending a = some plan → a ∈ W.agents
  nodup : ∀ {a plan}, r.pending a = some plan → (plan.map Prod.fst).Nodup
  records : ∀ k, Untouched W s₀ r k ∨ Touched W s₀ r k

theorem underway_start (h : Inv s₀) : Underway W Inv s₀ (start s₀) :=
  ⟨h, h, nofun, nofun, fun _ => .inl ⟨rfl, nofun⟩⟩

/-- What is pending was planned on the record that is there, so the comparison succeeds. -/
theorem Underway.pending [DecidableEq K] (hW : W.Lawful Inv) (h : Underway W Inv s₀ r) {a : A}
    {plan : List (K × R)} (ha : r.pending a = some plan) {k : K} {x : R} (hx : (k, x) ∈ plan) :
    Untouched W s₀ r k ∧ W.revision r.data k = W.rev x ∧
      ∃ r₀, W.get s₀ k = some r₀ ∧ W.act a r₀ = some x := by
  rcases h.records k with hk | hk
  · obtain ⟨r₀, hr₀, hact⟩ := (hk.pending ha x).mp hx
    refine ⟨hk, ?_, r₀, hr₀, hact⟩
    rw [revision, hk.get, hr₀, hW.rev_act hact]
    rfl
  · exact absurd (List.mem_map_of_mem hx) (hk.pending ha)

end Invariant

section Run

variable [DecidableEq A] {W : Sweep S K R A} {Inv : S → Prop} {s₀ : S} {r r' : Round S K R A}

theorem update_eq_some {f : A → Option (List (K × R))} {a b : A} {plan plan' : List (K × R)}
    (h : Function.update f a (some plan) b = some plan') :
    (b = a ∧ plan' = plan) ∨ (b ≠ a ∧ f b = some plan') := by
  by_cases hb : b = a
  · subst hb
    rw [Function.update_self] at h
    exact .inl ⟨rfl, (Option.some.inj h).symm⟩
  · rw [Function.update_of_ne hb] at h
    exact .inr ⟨hb, h⟩

private theorem isNone_of_update {f : A → Option (List (K × R))} {a b : A} {plan : List (K × R)}
    (h : (Function.update f a (some plan) b).isNone = true) : (f b).isNone = true := by
  rw [Function.update_apply] at h
  split at h
  · contradiction
  · exact h

variable [DecidableEq K]

theorem Underway.plan (hW : W.Lawful Inv) (h : Underway W Inv s₀ r) {a : A} (ha : a ∈ W.agents) :
    Underway W Inv s₀
      { r with pending := Function.update r.pending a (some (W.plan r.data a)) } := by
  refine ⟨h.origin, h.inv, fun hb => ?_, fun hb => ?_, fun k => ?_⟩
  · rcases update_eq_some hb with ⟨rfl, -⟩ | ⟨-, hb⟩
    · exact ha
    · exact h.agents hb
  · rcases update_eq_some hb with ⟨-, rfl⟩ | ⟨-, hb⟩
    · exact hW.nodup_plan a h.inv
    · exact h.nodup hb
  · rcases h.records k with hk | hk
    · refine .inl ⟨hk.get, fun hb x => ?_⟩
      rcases update_eq_some hb with ⟨rfl, rfl⟩ | ⟨-, hb⟩
      · rw [hW.mem_plan h.inv, hk.get]
      · exact hk.pending hb x
    · refine .inr ⟨hk.get, fun hb hmem => ?_⟩
      rcases update_eq_some hb with ⟨rfl, rfl⟩ | ⟨-, hb⟩
      · obtain ⟨⟨_, x⟩, hx, rfl⟩ := List.mem_map.mp hmem
        obtain ⟨c, hc, r₀, y, n, hr₀, hact, -, hget⟩ := hk.get
        obtain ⟨r₁, hr₁, hwants⟩ := (hW.mem_plan h.inv).mp hx
        cases hget.symm.trans hr₁
        rw [hW.done h.origin hr₀ hc ha hact] at hwants
        contradiction
      · exact hk.pending hb hmem

theorem Underway.store (hW : W.Lawful Inv) (h : Underway W Inv s₀ r) {a : A}
    {plan : List (K × R)} (ha : r.pending a = some plan) {k : K} {x : R} (hx : (k, x) ∈ plan)
    {n : ℕ} (hn : W.revision r.data k < n) :
    Underway W Inv s₀ ⟨W.store r.data k x n, drop r a plan k⟩ := by
  obtain ⟨huntouched, hrev, r₀, hr₀, hact⟩ := h.pending hW ha hx
  have hget := hW.get_store (r := x) hn
  refine ⟨h.origin, hW.inv_store h.inv, fun hb => ?_, fun hb => ?_, fun k' => ?_⟩
  · rcases update_eq_some hb with ⟨rfl, -⟩ | ⟨-, hb⟩
    · exact h.agents ha
    · exact h.agents hb
  · rcases update_eq_some hb with ⟨-, rfl⟩ | ⟨-, hb⟩
    · exact (h.nodup ha).sublist (List.filter_sublist.map Prod.fst)
    · exact h.nodup hb
  by_cases hk : k' = k
  · subst hk
    refine .inr ⟨⟨a, h.agents ha, r₀, x, n, hr₀, hact, ?_, ?_⟩, fun hb hmem => ?_⟩
    · rw [← hW.rev_act hact, ← hrev]
      exact hn
    · rw [hget, Function.update_self]
    · obtain ⟨⟨_, y⟩, hy, rfl⟩ := List.mem_map.mp hmem
      rcases update_eq_some hb with ⟨-, rfl⟩ | ⟨hne, hb⟩
      · simp at hy
      · -- Another agent would want the same record.
        obtain ⟨r₁, hr₁, hwants⟩ := (huntouched.pending hb y).mp hy
        cases hr₀.symm.trans hr₁
        exact hne (hW.owner (h.agents hb) (h.agents ha) hwants hact)
  · have hsame : W.get (W.store r.data k x n) k' = W.get r.data k' := by
      rw [hget, Function.update_of_ne hk]
    rcases h.records k' with hk' | hk'
    · refine .inl ⟨hsame.trans hk'.get, fun hb y => ?_⟩
      rcases update_eq_some hb with ⟨rfl, rfl⟩ | ⟨-, hb⟩
      · rw [← hk'.pending ha y, List.mem_filter]
        simp [hk]
      · exact hk'.pending hb y
    · refine .inr ⟨?_, fun hb hmem => ?_⟩
      · rw [hsame]
        exact hk'.get
      · rcases update_eq_some hb with ⟨rfl, rfl⟩ | ⟨-, hb⟩
        · exact hk'.pending ha ((List.filter_sublist.map Prod.fst).subset hmem)
        · exact hk'.pending hb hmem

/-- Everything a move can do in a sweep that obeys the laws. -/
inductive MoveCase (W : Sweep S K R A) (r : Round S K R A) : Move K A → Round S K R A → Prop
  | plan {a : A} (ha : a ∈ W.agents) (hnone : r.pending a = none) : MoveCase W r (.plan a)
      { r with pending := Function.update r.pending a (some (W.plan r.data a)) }
  | store {a : A} {k : K} {n : ℕ} {plan : List (K × R)} {x : R} (ha : r.pending a = some plan)
      (hx : (k, x) ∈ plan) (hn : W.revision r.data k < n) :
      MoveCase W r (.store a k n) ⟨W.store r.data k x n, drop r a plan k⟩

theorem Underway.cases (hW : W.Lawful Inv) (h : Underway W Inv s₀ r) {move : Move K A}
    (hstep : W.step r move = some r') : MoveCase W r move r' := by
  cases move with
  | plan a =>
    rw [step] at hstep
    split at hstep
    · rename_i hplan
      cases hstep
      exact .plan hplan.1 (Option.isNone_iff_eq_none.mp hplan.2)
    · contradiction
  | store a k n =>
    obtain ⟨plan, ha, hrest⟩ := Option.bind_eq_some_iff.mp hstep
    obtain ⟨⟨k', x⟩, hfind, hstore⟩ := Option.bind_eq_some_iff.mp hrest
    have hx := List.mem_of_find?_eq_some hfind
    have hk : k' = k := by simpa using List.find?_some hfind
    subst hk
    rw [storeStep, if_pos (h.pending hW ha hx).2.1] at hstore
    split at hstore
    · rename_i hn
      cases hstore
      exact .store ha hx hn
    · contradiction

theorem Underway.step (hW : W.Lawful Inv) (h : Underway W Inv s₀ r) {move : Move K A}
    (hstep : W.step r move = some r') : Underway W Inv s₀ r' := by
  cases h.cases hW hstep with
  | plan ha => exact h.plan hW ha
  | store ha hx hn => exact h.store hW ha hx hn

private theorem underway_of_steps (hW : W.Lawful Inv) (h : Inv s₀) {moves : List (Move K A)}
    (hrun : W.machine.Steps Machine.Any (start s₀) moves r) : Underway W Inv s₀ r :=
  hrun.preserves (fun h _ hstep => h.step hW hstep) (underway_start h)

/-- A sweep that cannot go on has stored everything. -/
private theorem pending_of_stuck (hstuck : ∀ move, W.step r move = none) {a : A}
    (ha : a ∈ W.agents) : r.pending a = some [] := by
  cases hpending : r.pending a with
  | none =>
    have := hstuck (.plan a)
    rw [Sweep.step, if_pos ⟨ha, by rw [hpending]; rfl⟩] at this
    contradiction
  | some plan =>
    cases plan with
    | nil => rfl
    | cons entry rest =>
      have := hstuck (.store a entry.1 (W.revision r.data entry.1 + 1))
      rw [Sweep.step, hpending, Option.bind_some, List.find?_cons_of_pos (by simp),
        Option.bind_some, storeStep, if_pos (Nat.lt_succ_self _)] at this
      split at this <;> contradiction

/-- What a sweep does to a record. -/
theorem Ends.outcome (hW : W.Lawful Inv) (h : Inv s₀) {t : S} (hends : W.Ends s₀ t) :
    Inv t ∧ ∀ k,
      (W.get t k = W.get s₀ k ∧ ∀ a ∈ W.agents, ∀ r₀, W.get s₀ k = some r₀ → W.act a r₀ = none) ∨
      ∃ a ∈ W.agents, ∃ r₀ x n, W.get s₀ k = some r₀ ∧ W.act a r₀ = some x ∧
        W.get t k = some (W.stamp x n) := by
  obtain ⟨moves, r, hrun, hstuck, rfl⟩ := hends
  have hunder := underway_of_steps hW h hrun
  refine ⟨hunder.inv, fun k => ?_⟩
  rcases hunder.records k with hk | hk
  · refine .inl ⟨hk.get, fun a ha r₀ hr₀ => ?_⟩
    cases hact : W.act a r₀ with
    | none => rfl
    | some x =>
      have := (hk.pending (pending_of_stuck hstuck ha) x).mpr ⟨r₀, hr₀, hact⟩
      contradiction
  · obtain ⟨a, ha, r₀, x, n, hr₀, hact, -, hget⟩ := hk.get
    exact .inr ⟨a, ha, r₀, x, n, hr₀, hact, hget⟩

/-! ### A sweep ends -/

/-- What is left to do at most: the agents that have not planned and the records that are as
they were. -/
def potential (W : Sweep S K R A) (keys : Finset K) (s₀ : S) (r : Round S K R A) : ℕ :=
  (W.agents.filter fun a => (r.pending a).isNone).card +
    (keys.filter fun k => W.revision r.data k = W.revision s₀ k).card

private theorem card_filter_lt {α : Type*} {s : Finset α} {p q : α → Prop} [DecidablePred p]
    [DecidablePred q] (hle : ∀ a ∈ s, q a → p a) {a : α} (ha : a ∈ s) (hp : p a) (hq : ¬ q a) :
    (s.filter q).card < (s.filter p).card := by
  apply Finset.card_lt_card
  refine (Finset.ssubset_iff_of_subset fun b hb => ?_).mpr
    ⟨a, Finset.mem_filter.mpr ⟨ha, hp⟩, fun h => hq (Finset.mem_filter.mp h).2⟩
  obtain ⟨hb, hqb⟩ := Finset.mem_filter.mp hb
  exact Finset.mem_filter.mpr ⟨hb, hle b hb hqb⟩

theorem Underway.potential_lt (hW : W.Lawful Inv) (h : Underway W Inv s₀ r) {keys : Finset K}
    (hkeys : ∀ k, (W.get s₀ k).isSome → k ∈ keys) {move : Move K A}
    (hstep : W.step r move = some r') : W.potential keys s₀ r' < W.potential keys s₀ r := by
  cases h.cases hW hstep with
  | plan ha hnone =>
    apply Nat.add_lt_add_right
    exact card_filter_lt (fun b _ hb => isNone_of_update hb) ha (by rw [hnone]; rfl) (by simp)
  | @store a k n plan x ha hx hn =>
    obtain ⟨huntouched, -, r₀, hr₀, -⟩ := h.pending hW ha hx
    have hold : W.revision r.data k = W.revision s₀ k := by
      rw [revision, huntouched.get, revision]
    have hget := hW.get_store (r := x) hn
    refine Nat.add_lt_add_of_le_of_lt (Finset.card_le_card fun b hb => ?_)
      (card_filter_lt (fun k' _ hk' => ?_) (hkeys k (by rw [hr₀]; rfl)) hold ?_)
    · obtain ⟨hb, hnone⟩ := Finset.mem_filter.mp hb
      exact Finset.mem_filter.mpr ⟨hb, isNone_of_update hnone⟩
    · rw [revision, hget] at hk'
      by_cases hsame : k' = k
      · rw [hsame]
        exact hold
      · rw [Function.update_of_ne hsame] at hk'
        exact hk'
    · rw [revision, hget, Function.update_self, Option.map_some, Option.getD_some, hW.rev_stamp]
      omega

theorem Underway.exists_stuck (hW : W.Lawful Inv) (h : Underway W Inv s₀ r) {keys : Finset K}
    (hkeys : ∀ k, (W.get s₀ k).isSome → k ∈ keys) :
    ∃ moves r', W.machine.Steps Machine.Any r moves r' ∧ ∀ move, W.step r' move = none := by
  induction hp : W.potential keys s₀ r using Nat.strong_induction_on generalizing r with
  | _ p ih =>
    by_cases hstuck : ∀ move, W.step r move = none
    · exact ⟨[], r, .nil r, hstuck⟩
    · push Not at hstuck
      obtain ⟨move, hmove⟩ := hstuck
      obtain ⟨r₁, hr₁⟩ := Option.ne_none_iff_exists'.mp hmove
      obtain ⟨moves, r₂, hrun, hend⟩ :=
        ih _ (hp ▸ h.potential_lt hW hkeys hr₁) (h.step hW hr₁) rfl
      exact ⟨[move] ++ moves, r₂, (Machine.Steps.single trivial hr₁).append hrun, hend⟩

theorem exists_ends (hW : W.Lawful Inv) (h : Inv s₀) (keys : Finset K)
    (hkeys : ∀ k, (W.get s₀ k).isSome → k ∈ keys) : ∃ t, W.Ends s₀ t := by
  obtain ⟨moves, r, hrun, hstuck⟩ := (underway_start h).exists_stuck hW hkeys
  exact ⟨r.data, moves, r, hrun, hstuck, rfl⟩

/-- A sweep in which no agent finds anything to do. -/
theorem ends_of_idle {s : S} (h : ∀ a ∈ W.agents, W.plan s a = []) : W.Ends s s := by
  -- The agents of `done` have planned.
  have hrun : ∀ done ⊆ W.agents, ∃ moves, W.machine.Steps Machine.Any (start s) moves
      ⟨s, fun a => if a ∈ done then some [] else none⟩ := by
    intro done
    induction done using Finset.induction_on with
    | empty => exact fun _ => ⟨[], .nil _⟩
    | insert a done ha ih =>
      intro hsub
      rw [Finset.insert_subset_iff] at hsub
      obtain ⟨moves, hmoves⟩ := ih hsub.2
      have hpending : Function.update (fun b => if b ∈ done then some [] else none) a (some []) =
          fun b => if b ∈ insert a done then some ([] : List (K × R)) else none := by
        funext b
        by_cases hb : b = a
        · simp [hb]
        · simp [hb]
      have hstep : W.step ⟨s, fun b => if b ∈ done then some [] else none⟩ (.plan a) =
          some ⟨s, fun b => if b ∈ insert a done then some [] else none⟩ := by
        rw [Sweep.step, if_pos ⟨hsub.1, by simp [ha]⟩, h a hsub.1, hpending]
      exact ⟨moves ++ [Move.plan a], hmoves.snoc (l := Move.plan a) trivial hstep⟩
  obtain ⟨moves, hmoves⟩ := hrun W.agents (Finset.Subset.refl _)
  refine ⟨moves, _, hmoves, fun move => ?_, rfl⟩
  cases move with
  | plan a =>
    rw [Sweep.step, if_neg]
    rintro ⟨ha, hnone⟩
    simp [ha] at hnone
  | store a k n =>
    rw [Sweep.step]
    by_cases ha : a ∈ W.agents <;> simp [ha]

end Run
end Sweep
end Goverse.Lib
