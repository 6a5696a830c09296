import Mathlib.Algebra.GroupWithZero.Nat
import Mathlib.Data.List.Basic
import Mathlib.Data.List.Forall2

/-! A pool of threads is a list that only grows at its end, so that a thread's index is
its name. A step replaces one member. -/
namespace Goverse.Lib

variable {α : Type*}

/-- At most one thread of the pool meets `p`. -/
def AtMostOne (p : α → Bool) (pool : List α) : Prop :=
  ∀ (i j : Nat) (a b : α), pool[i]? = some a → pool[j]? = some b →
    p a = true → p b = true → i = j

theorem getElem?_set_cases {pool : List α} {i j : Nat} {a b : α}
    (h : (pool.set i a)[j]? = some b) : (j = i ∧ b = a) ∨ (j ≠ i ∧ pool[j]? = some b) := by
  by_cases hij : j = i
  · subst hij
    by_cases hlt : j < pool.length
    · rw [List.getElem?_set_self hlt] at h
      exact .inl ⟨rfl, (Option.some.inj h).symm⟩
    · rw [List.getElem?_eq_none (by simpa using hlt)] at h
      contradiction
  · rw [List.getElem?_set_ne (Ne.symm hij)] at h
    exact .inr ⟨hij, h⟩

/-- The thread that moves. -/
theorem getElem?_set_same {pool : List α} {i : Nat} {a b : α} (h : pool[i]? = some a) :
    (pool.set i b)[i]? = some b :=
  List.getElem?_set_self (List.getElem?_eq_some_iff.mp h).1

/-- A thread that stays as it is. -/
theorem set_same {pool : List α} {i : Nat} {a : α} (h : pool[i]? = some a) :
    pool.set i a = pool := by
  obtain ⟨hlt, rfl⟩ := List.getElem?_eq_some_iff.mp h
  exact List.set_getElem_self hlt

/-- A thread keeps its place when the pool grows. -/
theorem getElem?_grow {pool more : List α} {i : Nat} {a : α} (h : pool[i]? = some a) :
    (pool ++ more)[i]? = some a := by
  rw [List.getElem?_append_left (List.getElem?_eq_some_iff.mp h).1]
  exact h

theorem mem_set_cases {pool : List α} {i : Nat} {a b : α} (h : b ∈ pool.set i a) :
    b = a ∨ ∃ j, j ≠ i ∧ pool[j]? = some b := by
  obtain ⟨j, hj⟩ := List.mem_iff_getElem?.mp h
  rcases getElem?_set_cases hj with ⟨-, hb⟩ | hj
  · exact .inl hb
  · exact .inr ⟨j, hj⟩

theorem eq_or_mem_of_mem_set {pool : List α} {i : Nat} {a b : α} (h : b ∈ pool.set i a) :
    b = a ∨ b ∈ pool :=
  (List.mem_or_eq_of_mem_set h).symm

/-- A thread other than the one that moves stays in the pool. -/
theorem mem_set_of_ne {pool : List α} {i j : Nat} {a b : α} (hj : pool[j]? = some b)
    (hne : j ≠ i) : b ∈ pool.set i a := by
  apply List.mem_of_getElem? (i := j)
  rw [List.getElem?_set_ne (Ne.symm hne)]
  exact hj

theorem mem_set_self {pool : List α} {i : Nat} {a b : α} (hi : pool[i]? = some a) :
    b ∈ pool.set i b := by
  apply List.mem_of_getElem? (i := i)
  exact getElem?_set_same hi

theorem eq_or_mem_set {pool : List α} {i : Nat} {a b c : α} (hi : pool[i]? = some a)
    (hb : b ∈ pool) : b = a ∨ b ∈ pool.set i c := by
  obtain ⟨j, hj⟩ := List.mem_iff_getElem?.mp hb
  by_cases hij : j = i
  · subst hij
    rw [hi] at hj
    exact .inl (Option.some.inj hj).symm
  · exact .inr (mem_set_of_ne hj hij)

theorem mem_concat_cases {pool : List α} {a b : α} (h : b ∈ pool ++ [a]) : b ∈ pool ∨ b = a :=
  (List.mem_append.mp h).imp_right List.mem_singleton.mp

theorem getElem?_concat_cases {pool : List α} {j : Nat} {a b : α}
    (h : (pool ++ [a])[j]? = some b) : (j = pool.length ∧ b = a) ∨ pool[j]? = some b := by
  rcases Nat.lt_or_ge j pool.length with hlt | hge
  · rw [List.getElem?_append_left hlt] at h
    exact .inr h
  · rw [List.getElem?_append_right hge, List.getElem?_singleton] at h
    split at h
    · exact .inl ⟨by omega, (Option.some.inj h).symm⟩
    · contradiction

/-- A count loses the thread that moves and gains what it becomes. -/
theorem countP_set_add {p : α → Bool} {pool : List α} {i : Nat} {a b : α}
    (h : pool[i]? = some a) :
    (pool.set i b).countP p + (p a).toNat = pool.countP p + (p b).toNat := by
  induction pool generalizing i with
  | nil => contradiction
  | cons c pool ih =>
    cases i with
    | zero =>
      cases h
      simp only [List.set_cons_zero, List.countP_cons]
      cases p a <;> cases p b <;> simp
    | succ i =>
      have := ih h
      simp only [List.set_cons_succ, List.countP_cons]
      omega

/-- So does a sum. -/
theorem sum_map_set_add {f : α → Nat} {pool : List α} {i : Nat} {a b : α}
    (h : pool[i]? = some a) :
    ((pool.set i b).map f).sum + f a = (pool.map f).sum + f b := by
  induction pool generalizing i with
  | nil => contradiction
  | cons c pool ih =>
    cases i with
    | zero =>
      cases h
      simp only [List.set_cons_zero, List.map_cons, List.sum_cons]
      omega
    | succ i =>
      have := ih h
      simp only [List.set_cons_succ, List.map_cons, List.sum_cons]
      omega

/-- The first `k` of a pool of `n` equal threads have moved, and now the next one does. -/
theorem set_replicate_append {k n : Nat} (a b : α) (h : k < n) :
    (List.replicate k a ++ List.replicate (n - k) b).set k a =
      List.replicate (k + 1) a ++ List.replicate (n - (k + 1)) b := by
  obtain ⟨m, hm⟩ : ∃ m, n - k = m + 1 := ⟨n - (k + 1), by omega⟩
  rw [List.set_append_right _ _ (by simp), List.length_replicate, Nat.sub_self, hm,
    List.replicate_succ, List.set_cons_zero, List.replicate_succ',
    show n - (k + 1) = m by omega, List.append_assoc]
  rfl

theorem getElem?_replicate_append {k n : Nat} (a b : α) (h : k < n) :
    (List.replicate k a ++ List.replicate (n - k) b)[k]? = some b := by
  rw [List.getElem?_append_right (by simp), List.length_replicate, Nat.sub_self,
    List.getElem?_replicate, if_pos (by omega)]

theorem map_eraseIdx_subset {β : Type*} {f : α → β} {xs : List α} {k : Nat} {x y : α}
    (hk : xs[k]? = some x) (hxy : f y = f x) : (xs.eraseIdx k ++ [y]).map f ⊆ xs.map f := by
  intro b hb
  rw [List.map_append] at hb
  rcases List.mem_append.mp hb with hb | hb
  · exact List.map_subset f (List.eraseIdx_sublist xs k).subset hb
  · rw [List.map_cons, List.map_nil, List.mem_singleton] at hb
    rw [hb, hxy]
    exact List.mem_map_of_mem (List.mem_of_getElem? hk)

theorem flatMap_range_single {f : Nat → List α} {k n : Nat} (hk : k < n)
    (hothers : ∀ j, j ≠ k → f j = []) : (List.range n).flatMap f = f k := by
  induction n with
  | zero => omega
  | succ n ih =>
    rw [List.range_succ, List.flatMap_append, List.flatMap_singleton]
    by_cases heq : k = n
    · have hnil : (List.range n).flatMap f = [] := by
        rw [List.flatMap_eq_nil_iff]
        intro j hj
        exact hothers j (by have := List.mem_range.mp hj; omega)
      rw [hnil, List.nil_append, heq]
    · rw [ih (by omega), hothers n (Ne.symm heq), List.append_nil]

theorem exists_of_mem_left {β : Type*} {R : α → β → Prop} {l₁ : List α} {l₂ : List β}
    (h : List.Forall₂ R l₁ l₂) {a : α} (ha : a ∈ l₁) : ∃ b ∈ l₂, R a b := by
  induction h with
  | nil => contradiction
  | cons hab _ ih =>
    rcases List.mem_cons.mp ha with rfl | ha
    · exact ⟨_, List.mem_cons_self, hab⟩
    · obtain ⟨b, hb, hr⟩ := ih ha
      exact ⟨b, List.mem_cons_of_mem _ hb, hr⟩

namespace AtMostOne

variable {p : α → Bool} {pool : List α}

theorem nil : AtMostOne p ([] : List α) := by
  intro i j a b hi
  simp at hi

theorem set (h : AtMostOne p pool) {i : Nat} {a b : α} (hi : pool[i]? = some a)
    (hp : p b = true → p a = true) : AtMostOne p (pool.set i b) := by
  have hold : ∀ {j : Nat} {c : α}, (pool.set i b)[j]? = some c → p c = true →
      ∃ d, pool[j]? = some d ∧ p d = true := by
    intro j c hj hc
    rcases getElem?_set_cases hj with ⟨rfl, rfl⟩ | ⟨-, hj⟩
    · exact ⟨a, hi, hp hc⟩
    · exact ⟨c, hj, hc⟩
  intro j k c d hj hk hc hd
  obtain ⟨c', hj', hc'⟩ := hold hj hc
  obtain ⟨d', hk', hd'⟩ := hold hk hd
  exact h j k c' d' hj' hk' hc' hd'

theorem concat (h : ∀ a ∈ pool, p a = false) (b : α) : AtMostOne p (pool ++ [b]) := by
  have hlast : ∀ {j : Nat} {c : α}, (pool ++ [b])[j]? = some c → p c = true →
      j = pool.length := by
    intro j c hj hc
    rcases getElem?_concat_cases hj with ⟨hj, -⟩ | hj
    · exact hj
    · simp [h c (List.mem_of_getElem? hj)] at hc
  intro i j a c hi hj ha hc
  rw [hlast hi ha, hlast hj hc]

theorem spawn (h : AtMostOne p pool) {b : α} (hb : p b = false) : AtMostOne p (pool ++ [b]) := by
  have hold : ∀ {j : Nat} {c : α}, (pool ++ [b])[j]? = some c → p c = true → pool[j]? = some c := by
    intro j c hj hc
    rcases getElem?_concat_cases hj with ⟨-, rfl⟩ | hj
    · simp [hb] at hc
    · exact hj
  intro i j a c hi hj ha hc
  exact h i j a c (hold hi ha) (hold hj hc) ha hc

theorem set_of_forall (h : ∀ a ∈ pool, p a = false) (i : Nat) (b : α) :
    AtMostOne p (pool.set i b) := by
  have hmoved : ∀ {j : Nat} {c : α}, (pool.set i b)[j]? = some c → p c = true → j = i := by
    intro j c hj hc
    rcases getElem?_set_cases hj with ⟨hj, -⟩ | ⟨-, hj⟩
    · exact hj
    · simp [h c (List.mem_of_getElem? hj)] at hc
  intro j k a c hj hk ha hc
  rw [hmoved hj ha, hmoved hk hc]

theorem map (h : AtMostOne p pool) {f : α → α} (hf : ∀ a, p (f a) = p a) :
    AtMostOne p (pool.map f) := by
  intro i j a b hi hj ha hb
  rw [List.getElem?_map, Option.map_eq_some_iff] at hi hj
  obtain ⟨a', hi, rfl⟩ := hi
  obtain ⟨b', hj, rfl⟩ := hj
  rw [hf] at ha hb
  exact h i j a' b' hi hj ha hb

theorem others (h : AtMostOne p pool) {i : Nat} {a : α} (hi : pool[i]? = some a)
    (ha : p a = true) {j : Nat} {b : α} (hj : pool[j]? = some b) (hne : j ≠ i) :
    p b = false := by
  by_contra hb
  exact hne (h j i b a hj hi (by simpa using hb) ha)

theorem countP_le_one : ∀ {pool : List α}, AtMostOne p pool → pool.countP p ≤ 1
  | [], _ => by simp
  | a :: pool, h => by
    by_cases ha : p a = true
    · have hnone : pool.countP p = 0 := by
        refine List.countP_eq_zero.mpr fun b hb hpb => ?_
        obtain ⟨j, hj⟩ := List.mem_iff_getElem?.mp hb
        have := h 0 (j + 1) a b (by simp) (by simpa using hj) ha hpb
        omega
      rw [List.countP_cons_of_pos ha]
      omega
    · rw [List.countP_cons_of_neg ha]
      refine countP_le_one fun i j b c hi hj hb hc => ?_
      have := h (i + 1) (j + 1) b c (by simpa using hi) (by simpa using hj) hb hc
      omega

end AtMostOne
end Goverse.Lib
