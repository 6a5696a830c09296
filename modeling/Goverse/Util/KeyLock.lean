import Mathlib.Data.List.AList
import Goverse.GoString
import Goverse.Lib.Machine
import Goverse.Lib.RWLock

/-! `keylock.KeyLock` with any number of goroutines. The sections under `kl.mu` are one step
each; the entry they look up is locked and unlocked outside them, so a goroutine that waits for
an entry relies on its own count to keep the entry in the map. -/
namespace Goverse.Util

open Lib

structure KeyLockEntry where
  mu : RWLock
  refCount : Int

/-- Where a goroutine is in `Lock` or `RLock` and the function they return: before the first
section, at the entry's mutex, with the lock, in `release`, and after it. -/
inductive CallPC where
  | count
  | wait (entry : Nat)
  | hold (entry : Nat)
  | release
  | done
  deriving DecidableEq, Repr

structure Call where
  key : GoString
  mode : Mode
  pc : CallPC
  deriving DecidableEq, Repr

namespace Call

/-- Between the increment and the release. -/
def counted (call : Call) : Bool :=
  match call.pc with
  | .count | .done => false
  | .wait _ | .hold _ | .release => true

/-- The entry a goroutine holds or waits for. -/
def entry (call : Call) : Option Nat :=
  match call.pc with
  | .wait e | .hold e => some e
  | .count | .release | .done => none

def holding (call : Call) : Bool :=
  match call.pc with
  | .hold _ => true
  | _ => false

def holds (call : Call) (entry : Nat) : Option Mode :=
  if call.pc = .hold entry then some call.mode else none

end Call

/-- `entries` are all that were ever made, of which the first `made` are in use or have been;
the map points into them. -/
structure KeyLock where
  locks : AList fun _ : GoString => Nat
  entries : Nat → KeyLockEntry
  made : Nat
  calls : List Call

namespace KeyLock

inductive Label where
  | call (key : GoString) (mode : Mode)
  | go (self : Nat)
  deriving DecidableEq, Repr

def goto (s : KeyLock) (self : Nat) (call : Call) (pc : CallPC) : KeyLock :=
  { s with calls := s.calls.set self { call with pc := pc } }

def setEntry (s : KeyLock) (e : Nat) (entry : KeyLockEntry) : KeyLock :=
  { s with entries := Function.update s.entries e entry }

/-- The section of `Lock` and `RLock` under `kl.mu`; the entry is the one they go on with. -/
def lookup (s : KeyLock) (key : GoString) : Nat × KeyLock :=
  match s.locks.lookup key with
  | some e => (e, s.setEntry e { s.entries e with refCount := (s.entries e).refCount + 1 })
  | none =>
    (s.made, { s with locks := s.locks.insert key s.made, made := s.made + 1 }.setEntry s.made
      ⟨.free, 0 + 1⟩)

def release (s : KeyLock) (key : GoString) : KeyLock :=
  match s.locks.lookup key with
  | none => s
  | some e =>
    let counted := s.setEntry e { s.entries e with refCount := (s.entries e).refCount - 1 }
    if (s.entries e).refCount - 1 = 0 then { counted with locks := s.locks.erase key } else counted

def acquire (mode : Mode) (mu : RWLock) (self : Nat) : Option RWLock :=
  match mode with
  | .exclusive => mu.lock self
  | .shared => mu.rlock self

def unlock (mode : Mode) (mu : RWLock) (self : Nat) : RWLock :=
  match mode with
  | .exclusive => mu.unlock
  | .shared => mu.runlock self

def callStep (s : KeyLock) (self : Nat) (call : Call) : Option KeyLock :=
  match call.pc with
  | .count =>
    let found := s.lookup call.key
    some (found.2.goto self call (.wait found.1))
  | .wait e =>
    (acquire call.mode (s.entries e).mu self).map fun mu =>
      (s.setEntry e { s.entries e with mu := mu }).goto self call (.hold e)
  | .hold e =>
    some ((s.setEntry e { s.entries e with
      mu := unlock call.mode (s.entries e).mu self }).goto self call .release)
  | .release => some ((s.release call.key).goto self call .done)
  | .done => none

def step (s : KeyLock) : Label → Option KeyLock
  | .call key mode => some { s with calls := s.calls ++ [⟨key, mode, .count⟩] }
  | .go self => s.calls[self]?.bind (s.callStep self)

/-- `NewKeyLock`. -/
def new : KeyLock := ⟨∅, fun _ => ⟨.free, 0⟩, 0, []⟩

def machine : Machine KeyLock Label where
  Init s := s = new
  step := step

/-- The number of goroutines between their increment and their release for the key. -/
def users (s : KeyLock) (key : GoString) : Nat :=
  s.calls.countP fun call => call.counted && decide (call.key = key)

/-- What the map, the counts and the entries' mutexes say about the goroutines. -/
structure Sound (s : KeyLock) : Prop where
  entry : ∀ call ∈ s.calls, ∀ e, call.entry = some e → s.locks.lookup call.key = some e
  refCount : ∀ key e, s.locks.lookup key = some e → (s.entries e).refCount = s.users key
  used : ∀ key, s.locks.lookup key = none ↔ s.users key = 0
  made : ∀ key e, s.locks.lookup key = some e → e < s.made
  apart : ∀ key key' e, s.locks.lookup key = some e → s.locks.lookup key' = some e → key = key'
  disciplined : Disciplined (fun e => (s.entries e).mu) Call.holds s.calls

theorem sound_new : new.Sound := by
  refine ⟨nofun, ?_, ?_, ?_, ?_, ?_⟩ <;> simp [new, users, Disciplined]

section Steps

variable {s : KeyLock} {self : Nat} {call : Call}

theorem users_goto (hself : s.calls[self]? = some call) (pc : CallPC) (key : GoString) :
    (s.goto self call pc).users key + (call.counted && decide (call.key = key)).toNat =
      s.users key + (({ call with pc := pc } : Call).counted && decide (call.key = key)).toNat :=
  countP_set_add hself

theorem users_goto_of_ne (hself : s.calls[self]? = some call) (pc : CallPC) {key : GoString}
    (hne : key ≠ call.key) : (s.goto self call pc).users key = s.users key := by
  have h := users_goto hself pc key
  simpa [Ne.symm hne] using h

private theorem users_goto_of_counted (hself : s.calls[self]? = some call) (pc : CallPC)
    (hcounted : ({ call with pc := pc } : Call).counted = call.counted) (key : GoString) :
    (s.goto self call pc).users key = s.users key := by
  have h := users_goto hself pc key
  rw [hcounted] at h
  omega

theorem users_enter (hself : s.calls[self]? = some call) {pc : CallPC}
    (hold : call.counted = false) (hnew : ({ call with pc := pc } : Call).counted = true) :
    (s.goto self call pc).users call.key = s.users call.key + 1 := by
  have h := users_goto hself pc call.key
  simpa [hold, hnew] using h

private theorem users_leave (hself : s.calls[self]? = some call) {pc : CallPC}
    (hold : call.counted = true) (hnew : ({ call with pc := pc } : Call).counted = false) :
    (s.goto self call pc).users call.key + 1 = s.users call.key := by
  have h := users_goto hself pc call.key
  simpa [hold, hnew] using h

@[simp] theorem users_setEntry (e : Nat) (entry : KeyLockEntry) (key : GoString) :
    (s.setEntry e entry).users key = s.users key := rfl

private theorem mem_goto {other : Call} {pc : CallPC} (h : other ∈ (s.goto self call pc).calls) :
    other = { call with pc := pc } ∨ other ∈ s.calls := by
  rcases eq_or_mem_of_mem_set h with rfl | hj
  · exact .inl rfl
  · exact .inr hj

theorem mu_setEntry (e : Nat) (entry : KeyLockEntry) :
    (fun x => ((s.setEntry e entry).entries x).mu) =
      Function.update (fun x => (s.entries x).mu) e entry.mu := by
  funext x
  by_cases hx : x = e
  · subst hx
    simp [setEntry]
  · simp [setEntry, hx]

theorem mu_recount (e : Nat) (n : Int) :
    (fun x => ((s.setEntry e { s.entries e with refCount := n }).entries x).mu) =
      fun x => (s.entries x).mu := by
  rw [mu_setEntry]
  exact Function.update_eq_self _ _

theorem Sound.enter (h : s.Sound) (key : GoString) (mode : Mode) :
    Sound { s with calls := s.calls ++ [⟨key, mode, .count⟩] } := by
  have husers : ∀ k, users { s with calls := s.calls ++ [⟨key, mode, .count⟩] } k = s.users k := by
    intro k
    simp [users, Call.counted]
  refine ⟨fun other hother e he => ?_, fun k e he => ?_, fun k => ?_, h.made, h.apart, ?_⟩
  · rcases mem_concat_cases hother with hold | rfl
    · exact h.entry other hold e he
    · contradiction
  · rw [husers]
    exact h.refCount k e he
  · rw [husers]
    exact h.used k
  · exact h.disciplined.spawn fun e => by simp [Call.holds]

section Moves

variable (h : s.Sound) (hself : s.calls[self]? = some call)
include h hself

theorem Sound.move {pc : CallPC} {e : Nat} {mu : RWLock} (hentry : call.entry = some e)
    (hpc : ({ call with pc := pc } : Call).entry = some e ∨
      ({ call with pc := pc } : Call).entry = none)
    (hcounted : ({ call with pc := pc } : Call).counted = true)
    (hdisciplined : Disciplined (Function.update (fun x => (s.entries x).mu) e mu) Call.holds
      (s.calls.set self { call with pc := pc })) :
    ((s.setEntry e { s.entries e with mu := mu }).goto self call pc).Sound := by
  have hself' : (s.setEntry e { s.entries e with mu := mu }).calls[self]? = some call := hself
  have hold : call.counted = true := by
    cases hcall : call.pc <;> simp_all [Call.entry, Call.counted]
  have husers := users_goto_of_counted hself' pc (hcounted.trans hold.symm)
  refine ⟨fun other hother x hx => ?_, fun k x hx => ?_, fun k => ?_, h.made, h.apart, ?_⟩
  · rcases mem_goto hother with rfl | hother
    · have hsome := h.entry call (List.mem_of_getElem? hself) e hentry
      rcases hpc with hpc | hpc
      · rw [hpc] at hx
        cases hx
        exact hsome
      · rw [hpc] at hx
        contradiction
    · exact h.entry other hother x hx
  · rw [husers, users_setEntry]
    have hcount := h.refCount k x hx
    by_cases hxe : x = e
    · subst hxe
      simpa [goto, setEntry] using hcount
    · simpa [goto, setEntry, hxe] using hcount
  · rw [husers]
    exact h.used k
  · rw [show (fun x => (((s.setEntry e { s.entries e with mu := mu }).goto self call pc).entries
      x).mu) = Function.update (fun x => (s.entries x).mu) e mu from mu_setEntry e _]
    exact hdisciplined

theorem Sound.acquire {e : Nat} {mu : RWLock} (hpc : call.pc = .wait e)
    (hmu : KeyLock.acquire call.mode (s.entries e).mu self = some mu) :
    ((s.setEntry e { s.entries e with mu := mu }).goto self call (.hold e)).Sound := by
  refine h.move hself (by simp [Call.entry, hpc]) (.inl rfl) rfl ?_
  have hkeep : ∀ k mode, k ≠ e → ({ call with pc := .hold e } : Call).holds k = some mode →
      call.holds k = some mode := by
    intro k mode hk hholds
    simp [Call.holds, Ne.symm hk] at hholds
  have hholds : ({ call with pc := .hold e } : Call).holds e = some call.mode := by
    simp [Call.holds]
  unfold KeyLock.acquire at hmu
  split at hmu
  · rename_i hmode
    exact h.disciplined.lock hself hmu (hmode ▸ hholds) hkeep
  · rename_i hmode
    exact h.disciplined.rlock hself hmu (hmode ▸ hholds) hkeep

theorem Sound.unlock {e : Nat} (hpc : call.pc = .hold e) :
    ((s.setEntry e { s.entries e with
      mu := KeyLock.unlock call.mode (s.entries e).mu self }).goto self call .release).Sound := by
  refine h.move hself (by simp [Call.entry, hpc]) (.inr rfl) rfl ?_
  have hkeep : ∀ k mode, k ≠ e → ({ call with pc := .release } : Call).holds k = some mode →
      call.holds k = some mode := by
    intro k mode _ hholds
    simp [Call.holds] at hholds
  have hnone : ({ call with pc := .release } : Call).holds e = none := by simp [Call.holds]
  unfold KeyLock.unlock
  split
  · rename_i hmode
    exact h.disciplined.unlock hself (by simp [Call.holds, hpc, hmode]) hnone hkeep
  · exact h.disciplined.runlock hself hnone hkeep

/-- A section under `kl.mu`: one key is counted up or down, and the others are left alone. -/
theorem Sound.section {t : KeyLock} {pc : CallPC} {n : Nat} {mus : Nat → RWLock}
    (hcalls : t.calls = s.calls.set self { call with pc := pc }) (hmade : s.made ≤ t.made)
    (hn : (s.goto self call pc).users call.key = n)
    (hothers : ∀ key e, key ≠ call.key → t.locks.lookup key = s.locks.lookup key ∧
      (s.locks.lookup key = some e → (t.entries e).refCount = (s.entries e).refCount))
    (hkey : ∀ e, t.locks.lookup call.key = some e → (t.entries e).refCount = n ∧
      e < t.made ∧ ∀ key, s.locks.lookup key = some e → key = call.key)
    (hused : t.locks.lookup call.key = none ↔ n = 0)
    (hkept : ∀ e, s.locks.lookup call.key = some e → n ≠ 0 → t.locks.lookup call.key = some e)
    (hentry : ∀ e, ({ call with pc := pc } : Call).entry = some e →
      t.locks.lookup call.key = some e)
    (hmus : (fun e => (t.entries e).mu) = mus)
    (hdisciplined : Disciplined mus Call.holds (s.calls.set self { call with pc := pc })) :
    t.Sound := by
  have hself' : t.users call.key = n := by rw [← hn, users, hcalls]; rfl
  have husers : ∀ key, key ≠ call.key → t.users key = s.users key := by
    intro key hne
    rw [users, hcalls]
    exact users_goto_of_ne hself pc hne
  refine ⟨fun other hother e he => ?_, fun key e he => ?_, fun key => ?_, fun key e he => ?_,
    fun key key' e he he' => ?_, hmus ▸ hcalls ▸ hdisciplined⟩
  · have hmem := hother
    rw [hcalls] at hmem
    rcases eq_or_mem_of_mem_set hmem with rfl | hj
    · exact hentry e he
    · have hold := h.entry other hj e he
      by_cases hkeys : other.key = call.key
      · have hcounted : other.counted = true := by
          cases hpc : other.pc <;> simp_all [Call.entry, Call.counted]
        have hpos : 0 < t.users other.key :=
          List.countP_pos_iff.mpr ⟨other, hother, by simp [hcounted]⟩
        rw [hkeys] at hold hpos ⊢
        exact hkept e hold (by omega)
      · rw [(hothers other.key e hkeys).1]
        exact hold
  · by_cases hkeys : key = call.key
    · subst hkeys
      rw [hself']
      exact (hkey e he).1
    · obtain ⟨hsame, hcount⟩ := hothers key e hkeys
      rw [hsame] at he
      rw [husers key hkeys, hcount he]
      exact h.refCount key e he
  · by_cases hkeys : key = call.key
    · subst hkeys
      rw [hself']
      exact hused
    · rw [husers key hkeys, (hothers key 0 hkeys).1]
      exact h.used key
  · by_cases hkeys : key = call.key
    · subst hkeys
      exact (hkey e he).2.1
    · rw [(hothers key e hkeys).1] at he
      exact Nat.lt_of_lt_of_le (h.made key e he) hmade
  · by_cases hkeys : key = call.key
    · subst hkeys
      by_cases hkeys' : key' = call.key
      · exact hkeys'.symm
      · rw [(hothers key' e hkeys').1] at he'
        exact ((hkey e he).2.2 key' he').symm
    · rw [(hothers key e hkeys).1] at he
      by_cases hkeys' : key' = call.key
      · subst hkeys'
        exact (hkey e he').2.2 key he
      · rw [(hothers key' e hkeys').1] at he'
        exact h.apart key key' e he he'

omit hself in
theorem Sound.not_holds {other : Call} (hother : other ∈ s.calls) : other.holds s.made = none := by
  unfold Call.holds
  split
  · rename_i hpc
    have hlookup := h.entry other hother s.made (by simp [Call.entry, hpc])
    exact absurd (h.made _ _ hlookup) (Nat.lt_irrefl _)
  · rfl

theorem Sound.count_known (hpc : call.pc = .count) {e : Nat}
    (he : s.locks.lookup call.key = some e) :
    ((s.setEntry e { s.entries e with refCount := (s.entries e).refCount + 1 }).goto self call
      (.wait e)).Sound := by
  have hcount := h.refCount _ _ he
  refine h.section hself rfl le_rfl (users_enter hself (by simp [Call.counted, hpc]) rfl)
    (fun key x hne => ⟨rfl, fun hx => ?_⟩) (fun x hx => ?_) ?_ (fun x hx _ => hx)
    (fun x hx => ?_) (mu_recount e _) ?_
  · have hxe : x ≠ e := fun heq => hne (h.apart key call.key x hx (heq ▸ he))
    simp [goto, setEntry, hxe]
  · obtain rfl : e = x := Option.some.inj (he.symm.trans hx)
    refine ⟨?_, h.made _ _ he, fun key hkey => h.apart key call.key e hkey he⟩
    simp [goto, setEntry, hcount]
  · simp [goto, setEntry, he]
  · cases hx
    exact he
  · exact h.disciplined.move hself fun k mode hholds => by simp [Call.holds] at hholds

theorem Sound.count_new (hpc : call.pc = .count) (hnone : s.locks.lookup call.key = none) :
    (({ s with locks := s.locks.insert call.key s.made, made := s.made + 1 }.setEntry s.made
      ⟨.free, 0 + 1⟩).goto self call (.wait s.made)).Sound := by
  have hzero : s.users call.key = 0 := (h.used call.key).mp hnone
  refine h.section hself rfl (Nat.le_succ _) (users_enter hself (by simp [Call.counted, hpc]) rfl)
    (fun key x hne => ⟨AList.lookup_insert_ne hne, fun hx => ?_⟩) (fun x hx => ?_) ?_
    (fun x hx => ?_) (fun x hx => ?_) (mu_setEntry s.made ⟨.free, 0 + 1⟩) ?_
  · have hxe : x ≠ s.made := Nat.ne_of_lt (h.made key x hx)
    simp [goto, setEntry, hxe]
  · have hx' : s.made = x := by simpa [goto, setEntry] using hx
    subst hx'
    refine ⟨?_, Nat.lt_succ_self _, fun key hkey => ?_⟩
    · simp [goto, setEntry, hzero]
    · exact absurd (h.made key _ hkey) (Nat.lt_irrefl _)
  · simp [goto, setEntry]
  · rw [hnone] at hx
    contradiction
  · cases hx
    simp [goto, setEntry]
  · refine h.disciplined.relock _ hself (fun j other _ hj => ?_) (by simp [Call.holds])
      fun k mode _ hholds => by simp [Call.holds] at hholds
    simp [h.not_holds (List.mem_of_getElem? hj)]

theorem Sound.release (hpc : call.pc = .release) :
    ((s.release call.key).goto self call .done).Sound := by
  have hcounted : call.counted = true := by simp [Call.counted, hpc]
  have husers := users_leave hself hcounted
    (show ({ call with pc := .done } : Call).counted = false from rfl)
  have hdisciplined : Disciplined (fun x => (s.entries x).mu) Call.holds
      (s.calls.set self { call with pc := .done }) :=
    h.disciplined.move hself fun k mode hholds => by simp [Call.holds] at hholds
  unfold KeyLock.release
  split
  · rename_i hnone
    have := (h.used call.key).mp hnone
    omega
  · rename_i e he
    have hcount := h.refCount _ _ he
    have hapart : ∀ key x, key ≠ call.key → s.locks.lookup key = some x → x ≠ e :=
      fun key x hne hx heq => hne (h.apart key call.key x hx (heq ▸ he))
    dsimp only
    split
    · rename_i hlast
      refine h.section hself rfl le_rfl rfl
        (fun key x hne => ⟨AList.lookup_erase_ne hne, fun hx => ?_⟩) (fun x hx => ?_) ?_
        (fun x _ hne => ?_) (fun x hx => ?_) (mu_recount e _) hdisciplined
      · simp [goto, setEntry, hapart key x hne hx]
      · simp [goto] at hx
      · exact ⟨fun _ => by omega, fun _ => by simp [goto]⟩
      · omega
      · contradiction
    · rename_i hlast
      refine h.section hself rfl le_rfl rfl (fun key x hne => ⟨rfl, fun hx => ?_⟩)
        (fun x hx => ?_) ?_ (fun x hx _ => hx) (fun x hx => ?_) (mu_recount e _) hdisciplined
      · simp [goto, setEntry, hapart key x hne hx]
      · obtain rfl : e = x := Option.some.inj (he.symm.trans hx)
        refine ⟨?_, h.made _ _ he, fun key hkey => h.apart key call.key e hkey he⟩
        simp only [goto, setEntry, Function.update_self]
        change _ = ((s.goto self call .done).users call.key : Int)
        omega
      · have hsome : s.locks.lookup call.key ≠ none := by simp [he]
        exact ⟨fun hnone => absurd hnone hsome, fun hzero => by omega⟩
      · contradiction

end Moves

theorem Sound.step {t : KeyLock} {label : Label} (h : s.Sound) (hstep : s.step label = some t) :
    t.Sound := by
  cases label with
  | call key mode =>
    cases hstep
    exact h.enter key mode
  | go self =>
    obtain ⟨call, hself, hcall⟩ := Option.bind_eq_some_iff.mp hstep
    unfold callStep at hcall
    split at hcall
    · rename_i hpc
      cases hcall
      unfold lookup
      split
      · rename_i e he
        exact h.count_known hself hpc he
      · rename_i hnone
        exact h.count_new hself hpc hnone
    · rename_i e hpc
      obtain ⟨mu, hmu, rfl⟩ := Option.map_eq_some_iff.mp hcall
      exact h.acquire hself hpc hmu
    · rename_i e hpc
      cases hcall
      exact h.unlock hself hpc
    · rename_i hpc
      cases hcall
      exact h.release hself hpc
    · contradiction

theorem sound_of_reachable (hs : machine.Reachable Machine.Any s) : s.Sound :=
  hs.invariant (fun hinit => by rw [hinit]; exact sound_new) fun h _ hstep => h.step hstep

/-- The entries' mutexes name nobody but the goroutines that hold them. -/
def Named (s : KeyLock) : Prop := Recorded (fun e => (s.entries e).mu) Call.holds s.calls

theorem named_new : new.Named :=
  ⟨fun _ => List.nodup_nil, fun _ i mode hi => absurd hi (RWLock.not_names_free i mode)⟩

@[simp] theorem holds_eq_some {e : Nat} {mode : Mode} :
    call.holds e = some mode ↔ call.pc = .hold e ∧ call.mode = mode := by
  unfold Call.holds
  split
  · rename_i hpc
    simp [hpc]
  · rename_i hpc
    simp [hpc]

theorem not_holds (h : ∀ e, call.pc ≠ .hold e) (e : Nat) : call.holds e = none :=
  if_neg (h e)

section Names

variable (h : s.Named) (hself : s.calls[self]? = some call)
include h hself

theorem Named.section {t : KeyLock} {pc : CallPC} (hpc : ∀ e, call.pc ≠ .hold e)
    (hcalls : t.calls = s.calls.set self { call with pc := pc })
    (hmus : (fun e => (t.entries e).mu) = fun e => (s.entries e).mu) : t.Named := by
  rw [Named, hcalls, hmus]
  apply h.move hself
  intro e mode hholds
  rw [not_holds hpc] at hholds
  contradiction

theorem Named.lookup (hpc : call.pc = .count) :
    ((s.lookup call.key).2.goto self call (.wait (s.lookup call.key).1)).Named := by
  have hnot : ∀ e, call.pc ≠ .hold e := by
    intro e
    rw [hpc]
    nofun
  unfold KeyLock.lookup
  split
  · exact h.section hself hnot rfl (mu_recount _ _)
  · rw [Named]
    change Recorded (fun x => (((({ s with
      locks := s.locks.insert call.key s.made, made := s.made + 1 } : KeyLock).setEntry s.made
      ⟨.free, 0 + 1⟩)).entries x).mu) Call.holds _
    rw [mu_setEntry]
    refine Recorded.relock h hself List.nodup_nil
      (fun j mode hj => absurd hj (RWLock.not_names_free j mode)) ?_
    intro e mode _ hholds
    rw [not_holds hnot] at hholds
    contradiction

theorem Named.acquire {e : Nat} {mu : RWLock} (hpc : call.pc = .wait e)
    (hmu : KeyLock.acquire call.mode (s.entries e).mu self = some mu) :
    ((s.setEntry e { s.entries e with mu := mu }).goto self call (.hold e)).Named := by
  have hnot : ∀ e', call.holds e' = none := by
    apply not_holds
    rw [hpc]
    nofun
  have hkeep : ∀ e' mode, e' ≠ e → call.holds e' = some mode →
      ({ call with pc := .hold e } : Call).holds e' = some mode := by
    intro e' mode _ hholds
    rw [hnot] at hholds
    contradiction
  have hholds : ({ call with pc := .hold e } : Call).holds e = some call.mode :=
    holds_eq_some.mpr ⟨rfl, rfl⟩
  rw [Named]
  change Recorded (fun x => ((s.setEntry e _).entries x).mu) Call.holds _
  rw [mu_setEntry]
  unfold KeyLock.acquire at hmu
  split at hmu
  · rename_i hmode
    exact Recorded.lock h hself hmu (hmode ▸ hholds) hkeep
  · rename_i hmode
    exact Recorded.rlock h hself hmu (hnot e) (hmode ▸ hholds) hkeep

theorem Named.unlock {e : Nat} (hpc : call.pc = .hold e) :
    ((s.setEntry e { s.entries e with
      mu := KeyLock.unlock call.mode (s.entries e).mu self }).goto self call .release).Named := by
  have hkeep : ∀ e' mode, e' ≠ e → call.holds e' = some mode →
      ({ call with pc := .release } : Call).holds e' = some mode := by
    intro e' mode hne hholds
    have hpc' := (holds_eq_some.mp hholds).1
    rw [hpc] at hpc'
    exact absurd (CallPC.hold.inj hpc').symm hne
  rw [Named]
  change Recorded (fun x => ((s.setEntry e _).entries x).mu) Call.holds _
  rw [mu_setEntry]
  unfold KeyLock.unlock
  split
  · rename_i hmode
    exact Recorded.unlock h hself (holds_eq_some.mpr ⟨hpc, hmode⟩) hkeep
  · rename_i hmode
    exact Recorded.runlock h hself (holds_eq_some.mpr ⟨hpc, hmode⟩) hkeep

theorem Named.release (hpc : call.pc = .release) :
    ((s.release call.key).goto self call .done).Named := by
  have hnot : ∀ e, call.pc ≠ .hold e := by
    intro e
    rw [hpc]
    nofun
  unfold KeyLock.release
  split
  · exact h.section hself hnot rfl rfl
  · dsimp only
    split
    · exact h.section hself hnot rfl (mu_recount _ _)
    · exact h.section hself hnot rfl (mu_recount _ _)

end Names

/-- Where a goroutine goes from where it is. -/
inductive Goes : CallPC → CallPC → Prop
  | count (e : Nat) : Goes .count (.wait e)
  | wait (e : Nat) : Goes (.wait e) (.hold e)
  | hold (e : Nat) : Goes (.hold e) .release
  | release : Goes .release .done

theorem Named.go {t : KeyLock} (h : s.Named) (hself : s.calls[self]? = some call)
    (hstep : s.step (.go self) = some t) : t.Named ∧ ∃ pc, Goes call.pc pc ∧
      t.calls = s.calls.set self { call with pc := pc } := by
  obtain ⟨call', hself', hcall⟩ := Option.bind_eq_some_iff.mp hstep
  cases hself.symm.trans hself'
  unfold callStep at hcall
  split at hcall
  · rename_i hpc
    cases hcall
    refine ⟨h.lookup hself hpc, .wait (s.lookup call.key).1, ?_, ?_⟩
    · rw [hpc]
      exact .count _
    · unfold KeyLock.lookup
      split <;> rfl
  · rename_i e hpc
    obtain ⟨mu, hmu, rfl⟩ := Option.map_eq_some_iff.mp hcall
    exact ⟨h.acquire hself hpc hmu, _, hpc ▸ .wait e, rfl⟩
  · rename_i e hpc
    cases hcall
    exact ⟨h.unlock hself hpc, _, hpc ▸ .hold e, rfl⟩
  · rename_i hpc
    cases hcall
    refine ⟨h.release hself hpc, .done, ?_, ?_⟩
    · rw [hpc]
      exact .release
    · unfold KeyLock.release
      split
      · rfl
      · dsimp only
        split <;> rfl
  · contradiction

/-- What `KeyLock` promises, in one state. -/
structure Correct (s : KeyLock) : Prop where
  /-- Two goroutines that hold or wait for one key use one entry. -/
  shared : ∀ call ∈ s.calls, ∀ other ∈ s.calls, call.key = other.key →
    ∀ e e', call.entry = some e → other.entry = some e' → e = e'
  /-- An exclusive holder of a key is its only holder. -/
  exclusive : ∀ (i j : Nat) (call other : Call), s.calls[i]? = some call →
    s.calls[j]? = some other → call.key = other.key → call.holding = true →
    call.mode = .exclusive → other.holding = true → i = j
  refCount : ∀ key e, s.locks.lookup key = some e → (s.entries e).refCount = s.users key
  tracked : ∀ key, key ∈ s.locks ↔ 0 < s.users key
  idle : (∀ call ∈ s.calls, call.counted = false) → s.locks = ∅

theorem Sound.exclusive (h : s.Sound) {i j : Nat} {call other : Call}
    (hi : s.calls[i]? = some call) (hj : s.calls[j]? = some other) (hkey : call.key = other.key)
    (hholding : call.holding = true) (hmode : call.mode = .exclusive)
    (hother : other.holding = true) : i = j := by
  obtain ⟨e, hpc⟩ : ∃ e, call.pc = .hold e := by
    cases hpc : call.pc <;> simp_all [Call.holding]
  obtain ⟨e', hpc'⟩ : ∃ e, other.pc = .hold e := by
    cases hpc' : other.pc <;> simp_all [Call.holding]
  have he := h.entry call (List.mem_of_getElem? hi) e (by simp [Call.entry, hpc])
  have he' := h.entry other (List.mem_of_getElem? hj) e' (by simp [Call.entry, hpc'])
  obtain rfl : e = e' := Option.some.inj (he.symm.trans (hkey ▸ he'))
  refine (h.disciplined.excludes (k := e) hi ?_ hj ?_).symm
  · simp [Call.holds, hpc, hmode]
  · simp [Call.holds, hpc']

theorem keyLock_correct (hs : machine.Reachable Machine.Any s) : s.Correct := by
  have h := sound_of_reachable hs
  have htracked : ∀ key, key ∈ s.locks ↔ 0 < s.users key := by
    intro key
    rw [← AList.lookup_isSome, Nat.pos_iff_ne_zero, Option.isSome_iff_ne_none]
    exact not_congr (h.used key)
  refine ⟨fun call hcall other hother hkey e e' he he' => ?_, fun i j call other hi hj hkey =>
    h.exclusive hi hj hkey, h.refCount, htracked, fun hidle => ?_⟩
  · have hlookup := h.entry call hcall e he
    rw [hkey, h.entry other hother e' he'] at hlookup
    exact (Option.some.inj hlookup).symm
  · apply AList.ext
    refine List.eq_nil_iff_forall_not_mem.mpr fun entry hentry => ?_
    have hmem : entry.1 ∈ s.locks := List.mem_map_of_mem hentry
    obtain ⟨call, hcall, hcounted⟩ := List.countP_pos_iff.mp ((htracked entry.1).mp hmem)
    simp [hidle call hcall] at hcounted

/-- A writer holds the key and a reader waits for it. -/
theorem keyLock_correct_contended : ∃ s : KeyLock, s.users (lit "k") = 2 ∧ s.Correct := by
  have hrun : (machine.exec Machine.Any new [.call (lit "k") .exclusive, .call (lit "k") .shared,
      .go 0, .go 1, .go 0]).any (fun s => decide (s.users (lit "k") = 2)) = true := by decide
  obtain ⟨s, hreach, hs⟩ := Machine.exec_reachable hrun rfl
  exact ⟨s, of_decide_eq_true hs, keyLock_correct hreach⟩

end Steps
end KeyLock
end Goverse.Util
