import Mathlib.Algebra.BigOperators.Group.Finset.Basic
import Mathlib.Algebra.Order.BigOperators.Group.Finset
import Mathlib.Data.Finset.Lattice.Fold
import Mathlib.Data.Int.CardIntervalMod
import Mathlib.Data.List.Nodup
import Mathlib.Order.Lattice.Nat
import Mathlib.Tactic.Ring

/-! Loads of a finite set of places, levelled by moving one unit at a time from a fullest
place to an emptiest, or even from the start by dealing the units out in turn. -/
namespace Goverse.Lib

variable {α : Type*}

/-- The largest difference of two loads. -/
def spread (s : Finset α) (f : α → ℕ) : ℕ := s.sup fun a => s.sup fun b => f a - f b

def squares (s : Finset α) (f : α → ℕ) : ℕ := ∑ a ∈ s, f a ^ 2

def Fullest (s : Finset α) (f : α → ℕ) (hi : α) : Prop := hi ∈ s ∧ ∀ a ∈ s, f a ≤ f hi

def Emptiest (s : Finset α) (f : α → ℕ) (lo : α) : Prop := lo ∈ s ∧ ∀ a ∈ s, f lo ≤ f a

section Spread

variable {s : Finset α} {f : α → ℕ} {hi lo : α}

theorem sub_le_spread {a b : α} (ha : a ∈ s) (hb : b ∈ s) : f a - f b ≤ spread s f :=
  calc
    f a - f b ≤ s.sup fun b => f a - f b := Finset.le_sup (f := fun b => f a - f b) hb
    _ ≤ spread s f := Finset.le_sup (f := fun a => s.sup fun b => f a - f b) ha

theorem spread_le {d : ℕ} (h : ∀ a ∈ s, ∀ b ∈ s, f a ≤ f b + d) : spread s f ≤ d := by
  apply Finset.sup_le
  intro a ha
  apply Finset.sup_le
  intro b hb
  have := h a ha b hb
  omega

theorem spread_eq (hhi : Fullest s f hi) (hlo : Emptiest s f lo) : spread s f = f hi - f lo := by
  apply Nat.le_antisymm
  · apply spread_le
    intro a ha b hb
    have := hhi.2 a ha
    have := hlo.2 b hb
    omega
  · exact sub_le_spread hhi.1 hlo.1

end Spread

section Move

variable [DecidableEq α] {s : Finset α} {f : α → ℕ} {hi lo : α}

/-- One unit goes from `hi` to `lo`. -/
def move (f : α → ℕ) (hi lo : α) : α → ℕ :=
  Function.update (Function.update f hi (f hi - 1)) lo (f lo + 1)

@[simp] theorem move_lo : move f hi lo lo = f lo + 1 := by
  rw [move, Function.update_self]

@[simp] theorem move_hi (h : hi ≠ lo) : move f hi lo hi = f hi - 1 := by
  rw [move, Function.update_of_ne h, Function.update_self]

theorem move_of_ne {a : α} (hhi : a ≠ hi) (hlo : a ≠ lo) : move f hi lo a = f a := by
  rw [move, Function.update_of_ne hlo, Function.update_of_ne hhi]

/-- Loads stay between the smallest and the largest. -/
private theorem move_mem_Icc (hhi : Fullest s f hi) (hlo : Emptiest s f lo) (hgap : f lo + 2 ≤ f hi)
    {a : α} (ha : a ∈ s) : f lo ≤ move f hi lo a ∧ move f hi lo a ≤ f hi := by
  by_cases halo : a = lo
  · subst halo
    rw [move_lo]
    omega
  · by_cases hahi : a = hi
    · subst hahi
      rw [move_hi halo]
      omega
    · rw [move_of_ne hahi halo]
      exact ⟨hlo.2 a ha, hhi.2 a ha⟩

theorem spread_move_le (hhi : Fullest s f hi) (hlo : Emptiest s f lo) (hgap : f lo + 2 ≤ f hi) :
    spread s (move f hi lo) ≤ spread s f := by
  rw [spread_eq hhi hlo]
  apply spread_le
  intro a ha b hb
  have hle := (move_mem_Icc hhi hlo hgap ha).2
  have hge := (move_mem_Icc hhi hlo hgap hb).1
  omega

theorem squares_move_lt (hhi : hi ∈ s) (hlo : lo ∈ s) (hgap : f lo + 2 ≤ f hi) :
    squares s (move f hi lo) < squares s f := by
  have hne : hi ≠ lo := by
    rintro rfl
    omega
  have hmem : lo ∈ s.erase hi := Finset.mem_erase.mpr ⟨hne.symm, hlo⟩
  have hsplit : ∀ g : α → ℕ, squares s g =
      g hi ^ 2 + (g lo ^ 2 + squares ((s.erase hi).erase lo) g) := by
    intro g
    rw [squares, squares, Finset.add_sum_erase _ (fun a => g a ^ 2) hmem,
      Finset.add_sum_erase _ (fun a => g a ^ 2) hhi]
  have hrest : squares ((s.erase hi).erase lo) (move f hi lo) =
      squares ((s.erase hi).erase lo) f := by
    apply Finset.sum_congr rfl
    intro a ha
    rw [Finset.mem_erase, Finset.mem_erase] at ha
    rw [move_of_ne ha.2.1 ha.1]
  rw [hsplit, hsplit f, hrest, move_hi hne, move_lo]
  obtain ⟨k, hk⟩ := Nat.exists_eq_add_of_le hgap
  have hpred : f hi - 1 = f lo + 1 + k := by omega
  rw [hpred, hk]
  ring_nf
  omega

/-- Keys are sorted by `g`. If one key changes its class, a unit moves between the counts. -/
theorem countP_move {κ : Type*} [DecidableEq κ] {keys : List κ} {g g' : κ → α} {key : κ}
    (hnodup : keys.Nodup) (hkey : key ∈ keys) (hhi : g key = hi) (hlo : g' key = lo)
    (hne : hi ≠ lo) (hsame : ∀ k ≠ key, g' k = g k) :
    (fun a => keys.countP fun k => g' k = a) =
      move (fun a => keys.countP fun k => g k = a) hi lo := by
  have hsplit : ∀ (h : κ → α) (a : α), keys.countP (fun k => h k = a) =
      (keys.erase key).countP (fun k => h k = a) + if h key = a then 1 else 0 := by
    intro h a
    rw [(List.perm_cons_erase hkey).countP_eq, List.countP_cons]
    simp
  have hrest : ∀ a, (keys.erase key).countP (fun k => g' k = a) =
      (keys.erase key).countP fun k => g k = a := by
    intro a
    apply List.countP_congr
    intro k hk
    rw [hsame k (hnodup.mem_erase_iff.mp hk).1]
  funext a
  rw [hsplit, hrest, hlo]
  by_cases halo : a = lo
  · subst halo
    rw [move_lo, hsplit g, hhi, if_pos rfl, if_neg hne]
  · by_cases hahi : a = hi
    · subst hahi
      rw [move_hi halo, hsplit g, hhi, if_pos rfl, if_neg (Ne.symm halo)]
      rfl
    · rw [move_of_ne hahi halo, hsplit g, hhi, if_neg (Ne.symm halo), if_neg (Ne.symm hahi)]

end Move

section Deal

/-- How many of `m` units `a` gets if they are dealt in turn, the first to the place at
`offset`. -/
def dealt [DecidableEq α] (places : List α) (offset m : ℕ) (a : α) : ℕ :=
  Nat.count (fun i => places[(offset + i) % places.length]? = some a) m

@[simp] theorem countP_zipIdx {β : Type*} (units : List β) (p : ℕ → Prop) [DecidablePred p] :
    units.zipIdx.countP (fun unit => p unit.2) = Nat.count p units.length := by
  induction units using List.reverseRecOn with
  | nil => rfl
  | append_singleton units unit ih =>
    rw [List.zipIdx_append, List.countP_append, ih, List.length_append, List.length_singleton,
      Nat.count_succ]
    simp [List.countP_cons]

/-- Everybody gets `m / places.length` units or one more. -/
theorem dealt_bounds [DecidableEq α] {places : List α} (hnodup : places.Nodup) {a : α}
    (ha : a ∈ places) (offset m : ℕ) : m / places.length ≤ dealt places offset m a ∧
      dealt places offset m a ≤ m / places.length + 1 := by
  obtain ⟨r, hr, rfl⟩ := List.getElem_of_mem ha
  have hpos : 0 < places.length := Nat.zero_lt_of_lt hr
  let k := places.length - offset % places.length
  have hcycle : offset + k ≡ 0 [MOD places.length] := by
    have hmod := Nat.mod_lt offset hpos
    have hdiv := Nat.div_add_mod offset places.length
    have hround : offset + k = places.length * (offset / places.length + 1) := by
      rw [Nat.mul_succ]
      omega
    rw [hround]
    exact Nat.modEq_zero_iff_dvd.mpr (Nat.dvd_mul_right _ _)
  -- the turns of the place at `r` are a residue class
  have hturn : ∀ i, places[(offset + i) % places.length]? = some places[r] ↔
      i ≡ r + k [MOD places.length] := by
    intro i
    rw [List.getElem?_eq_getElem (Nat.mod_lt _ hpos), Option.some_inj, hnodup.getElem_inj_iff]
    constructor
    · intro hi
      calc
        i ≡ i + (offset + k) [MOD places.length] := (hcycle.add_left i).symm
        _ = offset + i + k := by omega
        _ ≡ r + k [MOD places.length] := Nat.ModEq.add_right k (hi ▸ (Nat.mod_modEq _ _).symm)
    · intro hi
      have hsum : offset + i ≡ r [MOD places.length] :=
        calc
          offset + i ≡ offset + (r + k) [MOD places.length] := hi.add_left offset
          _ = r + (offset + k) := by omega
          _ ≡ r [MOD places.length] := hcycle.add_left r
      rw [hsum, Nat.mod_eq_of_lt hr]
  have hcount : dealt places offset m places[r] =
      Nat.count (· ≡ r + k [MOD places.length]) m := by
    simp only [dealt, hturn]
  rw [hcount, Nat.count_modEq_card _ hpos]
  split <;> omega

end Deal
end Goverse.Lib
