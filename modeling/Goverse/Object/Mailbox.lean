import Mathlib.Algebra.Order.BigOperators.Group.List
import Goverse.Object.Delivery

/-! The waiters of an object and their channels, one channel operation at a time. A waiter is
taken off `seqWaiters` under the lock and its channel is closed after that, so between the two
the goroutine that took it owns the channel. -/
namespace Goverse.Object

open Postgres Lib

variable {σ μ : Type}

section Waiters

/-- Sorted by `seq`. -/
def Sorted (waiters : List SeqWaiter) : Prop := waiters.Pairwise fun a b => a.seq ≤ b.seq

variable {waiters : List SeqWaiter} {waiter : SeqWaiter}

theorem bubbleUp_perm (waiter : SeqWaiter) (ws : List SeqWaiter) :
    (bubbleUp waiter ws).Perm (waiter :: ws) := by
  induction ws with
  | nil => exact .refl _
  | cons last front ih =>
    rw [bubbleUp]
    split
    · exact (ih.cons last).trans (.swap waiter last front)
    · exact .refl _

private theorem bubbleUp_sorted {ws : List SeqWaiter} (h : ws.Pairwise fun a b => b.seq ≤ a.seq) :
    (bubbleUp waiter ws).Pairwise fun a b => b.seq ≤ a.seq := by
  induction ws with
  | nil => exact List.pairwise_singleton _ _
  | cons last front ih =>
    obtain ⟨hlast, hfront⟩ := List.pairwise_cons.mp h
    rw [bubbleUp]
    split
    · rename_i hlt
      refine List.pairwise_cons.mpr ⟨fun w hw => ?_, ih hfront⟩
      rcases List.mem_cons.mp ((bubbleUp_perm waiter front).mem_iff.mp hw) with rfl | hw
      · exact le_of_lt hlt
      · exact hlast w hw
    · rename_i hle
      refine List.pairwise_cons.mpr ⟨fun w hw => ?_, h⟩
      rcases List.mem_cons.mp hw with rfl | hw
      · omega
      · have := hlast w hw
        omega

private theorem insertWaiterSorted_perm (waiters : List SeqWaiter) (waiter : SeqWaiter) :
    (insertWaiterSorted waiters waiter).Perm (waiter :: waiters) :=
  (List.reverse_perm _).trans
    ((bubbleUp_perm waiter _).trans ((List.reverse_perm waiters).cons waiter))

theorem Sorted.insert (h : Sorted waiters) (waiter : SeqWaiter) :
    Sorted (insertWaiterSorted waiters waiter) :=
  List.pairwise_reverse.mpr (bubbleUp_sorted (List.pairwise_reverse.mpr h))

theorem popWaiters_eq (h : Sorted waiters) (seq : Int) :
    popWaiters seq waiters =
      ⟨(waiters.filter (·.seq < seq)).map (·.ch), (waiters.filter (·.seq = seq)).map (·.ch),
        waiters.filter (seq < ·.seq)⟩ := by
  induction waiters with
  | nil => rfl
  | cons first rest ih =>
    obtain ⟨hfirst, hrest⟩ := List.pairwise_cons.mp h
    rw [popWaiters]
    split
    · rename_i hle
      rw [ih hrest]
      rcases Int.lt_or_eq_of_le hle with hlt | heq
      · have hne : first.seq ≠ seq := by omega
        have hnot : ¬ seq < first.seq := by omega
        simp [hne, hlt, hnot]
      · simp [heq]
    · rename_i hgt
      have hlow : ∀ w ∈ first :: rest, seq < w.seq := by
        intro w hw
        rcases List.mem_cons.mp hw with rfl | hw
        · omega
        · have := hfirst w hw
          omega
      have hnone : ∀ p : SeqWaiter → Bool, (∀ w, p w = true → w.seq ≤ seq) →
          (first :: rest).filter p = [] := by
        intro p hp
        refine List.filter_eq_nil_iff.mpr fun w hw hpw => ?_
        have := hlow w hw
        have := hp w hpw
        omega
      rw [hnone _ fun w hw => by simp at hw; omega, hnone _ fun w hw => by simp at hw; omega,
        List.filter_eq_self.mpr fun w hw => by simpa using hlow w hw]
      rfl

theorem Sorted.pop (h : Sorted waiters) (seq : Int) : Sorted (popWaiters seq waiters).waiters := by
  rw [popWaiters_eq h]
  exact h.filter _

private theorem popWaiters_count (seq : Int) (waiters : List SeqWaiter) (ch : Nat) :
    (popWaiters seq waiters).toClose.count ch + (popWaiters seq waiters).toNotify.count ch +
      ((popWaiters seq waiters).waiters.map (·.ch)).count ch = (waiters.map (·.ch)).count ch := by
  induction waiters with
  | nil => rfl
  | cons first rest ih =>
    rw [popWaiters]
    split
    · dsimp only
      split
      all_goals
        simp only [List.map_cons, List.count_cons]
        omega
    · simp

end Waiters

/-- A loop goroutine, from the moment its start is decided under the lock: `started` says whether
the `go` statement was executed. In `notifyWaiters`, `sent` says that the first channel that is to
be notified has got the call and is to be closed next. -/
structure Goroutine (μ : Type) where
  pc : LoopPC μ
  started : Bool
  sent : Bool

namespace Goroutine

def new : Goroutine μ := ⟨.checkCtx, false, false⟩

/-- The channels that the goroutine has taken off `seqWaiters` and not closed yet. -/
def holds (g : Goroutine μ) : List Nat :=
  match g.pc with
  | .deliver toClose toNotify _ _ => toClose ++ toNotify
  | _ => []

/-- `runProcessingLoop`, with the two loops of `notifyWaiters` unrolled. -/
def step (T : ObjectType σ μ) (self : Nat) (ok : Bool) (db : DB) (o : BaseObject σ)
    (g : Goroutine μ) : Option (DB × BaseObject σ × Goroutine μ) :=
  match g.pc with
  | .deliver (ch :: toClose) toNotify call rest =>
    some (db, { o with chans := o.chans.modify ch Chan.close },
      { g with pc := .deliver toClose toNotify call rest })
  | .deliver [] (ch :: toNotify) call rest =>
    match call, g.sent with
    | some call, false =>
      some (db, { o with chans := o.chans.modify ch (Chan.send · call) }, { g with sent := true })
    | _, _ =>
      some (db, { o with chans := o.chans.modify ch Chan.close },
        { g with pc := .deliver [] toNotify call rest, sent := false })
  | pc => (loopStep T self ok db o pc).map fun mv => (mv.db, mv.obj, { g with pc := mv.pc })

end Goroutine

/-- `callers` are between the first test of `ProcessPendingReliableCalls` and its critical
section. `asked` are the numbers for which the channels were made. -/
structure Mailbox (σ μ : Type) where
  db : DB
  obj : BaseObject σ
  loops : List (Goroutine μ)
  callers : List Int
  asked : List Int

namespace Mailbox

/-- `store` is whatever others do to the database. -/
inductive Label where
  | store (db : DB)
  | call (seq : Int)
  | register (caller : Nat)
  | ensure
  | go (self : Nat)
  | loop (self : Nat) (ok : Bool)
  | destroy

def spawn (s : Mailbox σ μ) (started : BaseObject σ × Bool) : Mailbox σ μ :=
  { s with
    obj := started.1
    loops := if started.2 then s.loops ++ [.new] else s.loops }

def step (T : ObjectType σ μ) (s : Mailbox σ μ) : Label → Option (Mailbox σ μ)
  | .store db => some { s with db := db }
  | .call seq =>
    if seq < s.obj.nextRcseq then
      some { s with
        obj := { s.obj with chans := s.obj.chans ++ [Chan.new.close] }
        asked := s.asked ++ [seq] }
    else some { s with callers := s.callers ++ [seq] }
  | .register caller =>
    s.callers[caller]?.map fun seq =>
      { s with callers := s.callers.eraseIdx caller, asked := s.asked ++ [seq] }.spawn
        (s.obj.registerWaiter seq)
  | .ensure => some (s.spawn s.obj.ensureProcessingLoopRunning)
  | .go self =>
    s.loops[self]?.map fun g => { s with loops := s.loops.set self { g with started := true } }
  | .loop self ok =>
    s.loops[self]?.bind fun g =>
      if g.started then
        (g.step T self ok s.db s.obj).map fun (db, obj, next) =>
          { s with db := db, obj := obj, loops := s.loops.set self next }
      else none
  | .destroy => some { s with obj := s.obj.destroy }

def machine (T : ObjectType σ μ) : Machine (Mailbox σ μ) Label where
  Init s := ∃ db id data nextRcseq, s = ⟨db, .onInit id data nextRcseq, [], [], []⟩
  step := step T

end Mailbox

/-- What a goroutine does to the waiters and their channels. -/
inductive PostCase (o : BaseObject σ) (g : Goroutine μ) (o' : BaseObject σ) (g' : Goroutine μ) :
    Prop
  | other (hwaiters : o'.seqWaiters = o.seqWaiters) (hchans : o'.chans = o.chans)
      (hholds : g.holds = []) (hholds' : g'.holds = []) (hlive : g'.pc ≠ .done)
      (hquiet : ∀ toClose toNotify call rest, g'.pc ≠ .deliver toClose toNotify call rest)
  | pop (seq : Int) (call : Option ReliableCall) (rest : Option (List ReliableCall))
      (hcall : ∀ c ∈ call, c.seq = seq)
      (hwaiters : o'.seqWaiters = (popWaiters seq o.seqWaiters).waiters)
      (hchans : o'.chans = o.chans) (hholds : g.holds = [])
      (hpc : g'.pc = .deliver (popWaiters seq o.seqWaiters).toClose
        (popWaiters seq o.seqWaiters).toNotify call rest)
  | close (ch : Nat) (toClose toNotify : List Nat) (call : Option ReliableCall)
      (rest : Option (List ReliableCall)) (hwaiters : o'.seqWaiters = o.seqWaiters)
      (hchans : o'.chans = o.chans.modify ch Chan.close)
      (hpc : g.pc = .deliver (ch :: toClose) toNotify call rest)
      (hpc' : g'.pc = .deliver toClose toNotify call rest)
  | send (ch : Nat) (toNotify : List Nat) (call : ReliableCall)
      (rest : Option (List ReliableCall)) (hwaiters : o'.seqWaiters = o.seqWaiters)
      (hchans : o'.chans = o.chans.modify ch (Chan.send · call))
      (hpc : g.pc = .deliver [] (ch :: toNotify) (some call) rest) (hpc' : g'.pc = g.pc)
  | finish (ch : Nat) (toNotify : List Nat) (call : Option ReliableCall)
      (rest : Option (List ReliableCall)) (hwaiters : o'.seqWaiters = o.seqWaiters)
      (hchans : o'.chans = o.chans.modify ch Chan.close)
      (hpc : g.pc = .deliver [] (ch :: toNotify) call rest)
      (hpc' : g'.pc = .deliver [] toNotify call rest)
  | cleanup (hobj : o' = o.cleanupProcessingLoop) (hholds : g.holds = []) (hpc' : g'.pc = .done)

private theorem loopStep_post {T : ObjectType σ μ} {self : Nat} {ok : Bool} {db : DB}
    {o : BaseObject σ} {g : Goroutine μ} {mv : Move σ μ} (hholds : g.holds = [])
    (h : loopStep T self ok db o g.pc = some mv) :
    PostCase o g mv.obj { g with pc := mv.pc } := by
  obtain ⟨pc, started, sent⟩ := g
  cases loopStep_cases h with
  | closeProcessed => exact .pop _ none none (by simp) rfl rfl rfl rfl
  | notify => exact .pop _ (some _) (some _) (by simp) rfl rfl rfl rfl
  | closed | delivered =>
    obtain ⟨rfl, rfl⟩ := List.append_eq_nil_iff.mp hholds
    exact .other rfl rfl rfl rfl (by simp) (by simp)
  | cleanup => exact .cleanup rfl rfl rfl
  | _ => exact .other rfl rfl rfl rfl (by simp) (by simp)

theorem Goroutine.step_cases {T : ObjectType σ μ} {self : Nat} {ok : Bool} {db db' : DB}
    {o o' : BaseObject σ} {g g' : Goroutine μ}
    (h : g.step T self ok db o = some (db', o', g')) : PostCase o g o' g' := by
  obtain ⟨pc, started, sent⟩ := g
  unfold step at h
  split at h
  case h_1 ch toClose toNotify call rest hpc =>
    cases h
    exact .close ch toClose toNotify call rest rfl rfl hpc rfl
  case h_2 ch toNotify call rest hpc =>
    split at h
    · cases h
      exact .send ch toNotify _ rest rfl rfl hpc rfl
    · cases h
      exact .finish ch toNotify _ rest rfl rfl hpc rfl
  case h_3 hclose hnotify =>
    obtain ⟨mv, hmv, heq⟩ := Option.map_eq_some_iff.mp h
    cases heq
    apply loopStep_post _ hmv
    cases pc with
    | deliver toClose toNotify call rest =>
      cases toClose with
      | cons ch toClose => exact absurd rfl (hclose ch toClose toNotify call rest)
      | nil =>
        cases toNotify with
        | cons ch toNotify => exact absurd rfl (hnotify ch toNotify call rest)
        | nil => rfl
    | _ => rfl

section Chans

/-- How often the channel was closed. -/
def closesOf (chans : List Chan) (ch : Nat) : Nat := (chans[ch]?.map Chan.closes).getD 0

theorem closesOf_of_getElem? {chans : List Chan} {ch : Nat} {c : Chan} (h : chans[ch]? = some c) :
    closesOf chans ch = c.closes := by
  rw [closesOf, h, Option.map_some, Option.getD_some]

theorem closesOf_modify_close (chans : List Chan) (i ch : Nat) :
    closesOf (chans.modify i Chan.close) ch ≤ closesOf chans ch + [i].count ch := by
  rw [closesOf, closesOf, List.getElem?_modify]
  by_cases hi : i = ch
  · subst hi
    cases chans[i]? <;> simp [Chan.close]
  · rw [List.count_singleton, if_neg (by simpa using hi)]
    cases chans[ch]? <;> simp [hi]

@[simp] theorem closesOf_modify_send (chans : List Chan) (i ch : Nat) (call : ReliableCall) :
    closesOf (chans.modify i (Chan.send · call)) ch = closesOf chans ch := by
  rw [closesOf, closesOf, List.getElem?_modify]
  cases chans[ch]? with
  | none => rfl
  | some c =>
    by_cases hi : i = ch <;> simp [hi, Chan.send]

private theorem closesOf_foldl_close (is : List Nat) (chans : List Chan) (ch : Nat) :
    closesOf (is.foldl (fun chans i => chans.modify i Chan.close) chans) ch ≤
      closesOf chans ch + is.count ch := by
  induction is generalizing chans with
  | nil => exact Nat.le_refl _
  | cons i is ih =>
    have hrest := ih (chans.modify i Chan.close)
    have hfirst := closesOf_modify_close chans i ch
    rw [List.count_singleton] at hfirst
    rw [List.foldl_cons, List.count_cons]
    omega

private theorem closesOf_concat (chans : List Chan) (c : Chan) (ch : Nat) :
    closesOf (chans ++ [c]) ch =
      if ch = chans.length then c.closes else closesOf chans ch := by
  rw [closesOf, closesOf]
  rcases Nat.lt_trichotomy ch chans.length with hlt | rfl | hgt
  · rw [List.getElem?_append_left hlt, if_neg (by omega)]
  · simp
  · rw [List.getElem?_eq_none (by simp; omega), List.getElem?_eq_none (by omega),
      if_neg (by omega)]

theorem getElem?_modify_cases {chans : List Chan} {f : Chan → Chan} {i ch : Nat} {c : Chan}
    (h : (chans.modify i f)[ch]? = some c) :
    ∃ old, chans[ch]? = some old ∧ (c = old ∨ (ch = i ∧ c = f old)) := by
  rw [List.getElem?_modify] at h
  obtain ⟨old, hold, rfl⟩ := Option.map_eq_some_iff.mp h
  refine ⟨old, hold, ?_⟩
  by_cases hi : i = ch
  · exact .inr ⟨hi.symm, by simp [hi]⟩
  · exact .inl (by simp [hi])

@[simp] theorem Chan.iterate_close_lateSend (n : Nat) (ch : Chan) :
    (Chan.close^[n] ch).lateSend = ch.lateSend := by
  induction n generalizing ch with
  | zero => rfl
  | succ n ih => exact ih ch.close

/-- What a step leaves in a channel: what was there, or a call that was sent in time. -/
structure Kept (old c : Chan) : Prop where
  value : c.value = old.value
  lateSend : c.lateSend = old.lateSend

theorem PostCase.kept {o o' : BaseObject σ} {g g' : Goroutine μ} (h : PostCase o g o' g')
    {ch : Nat} {c : Chan} (hc : o'.chans[ch]? = some c) :
    ∃ old, o.chans[ch]? = some old ∧ (Kept old c ∨
      ∃ toNotify call rest, g.pc = .deliver [] (ch :: toNotify) (some call) rest ∧
        c = old.send call) := by
  have hclose : ∀ {i}, o'.chans = o.chans.modify i Chan.close →
      ∃ old, o.chans[ch]? = some old ∧ Kept old c := by
    intro i hchans
    rw [hchans] at hc
    obtain ⟨old, hold, rfl | ⟨-, rfl⟩⟩ := getElem?_modify_cases hc
    · exact ⟨_, hold, rfl, rfl⟩
    · exact ⟨old, hold, rfl, rfl⟩
  cases h with
  | other hwaiters hchans | pop _ _ _ _ hwaiters hchans =>
    rw [hchans] at hc
    exact ⟨c, hc, .inl ⟨rfl, rfl⟩⟩
  | close _ _ _ _ _ _ hchans | finish _ _ _ _ _ hchans =>
    obtain ⟨old, hold, hkept⟩ := hclose hchans
    exact ⟨old, hold, .inl hkept⟩
  | send i toNotify call rest hwaiters hchans hpc =>
    rw [hchans] at hc
    obtain ⟨old, hold, rfl | ⟨rfl, rfl⟩⟩ := getElem?_modify_cases hc
    · exact ⟨_, hold, .inl ⟨rfl, rfl⟩⟩
    · exact ⟨old, hold, .inr ⟨toNotify, call, rest, hpc, rfl⟩⟩
  | cleanup hobj =>
    rw [hobj, BaseObject.cleanup_chans] at hc
    obtain ⟨n, old, hold, rfl, -⟩ := getElem?_foldl_modify hc
    exact ⟨old, hold, .inl ⟨Chan.iterate_close_value n old, Chan.iterate_close_lateSend n old⟩⟩

theorem PostCase.length_chans {o o' : BaseObject σ} {g g' : Goroutine μ}
    (h : PostCase o g o' g') : o'.chans.length = o.chans.length := by
  cases h with
  | other _ hchans | pop _ _ _ _ _ hchans => rw [hchans]
  | close _ _ _ _ _ _ hchans | send _ _ _ _ _ hchans | finish _ _ _ _ _ hchans =>
    rw [hchans, List.length_modify]
  | cleanup hobj => rw [hobj, BaseObject.length_cleanup]

theorem PostCase.waiters_sub {o o' : BaseObject σ} {g g' : Goroutine μ} (h : PostCase o g o' g') :
    ∀ w ∈ o'.seqWaiters, w ∈ o.seqWaiters := by
  intro w hw
  cases h with
  | other hwaiters | close _ _ _ _ _ hwaiters | send _ _ _ _ hwaiters
  | finish _ _ _ _ hwaiters => exact hwaiters ▸ hw
  | pop seq _ _ _ hwaiters =>
    rw [hwaiters] at hw
    exact mem_popWaiters hw
  | cleanup hobj =>
    rw [hobj] at hw
    cases hw

theorem PostCase.sorted {o o' : BaseObject σ} {g g' : Goroutine μ} (h : PostCase o g o' g')
    (hsorted : Sorted o.seqWaiters) : Sorted o'.seqWaiters := by
  cases h with
  | other hwaiters | close _ _ _ _ _ hwaiters | send _ _ _ _ hwaiters
  | finish _ _ _ _ hwaiters => exact hwaiters ▸ hsorted
  | pop seq _ _ _ hwaiters =>
    rw [hwaiters]
    exact hsorted.pop seq
  | cleanup hobj =>
    rw [hobj]
    exact List.Pairwise.nil

theorem PostCase.notice {o o' : BaseObject σ} {g g' : Goroutine μ} (h : PostCase o g o' g')
    {toClose toNotify : List Nat} {call : ReliableCall} {rest : Option (List ReliableCall)}
    (hpc : g'.pc = .deliver toClose toNotify (some call) rest) {ch : Nat} (hch : ch ∈ toNotify) :
    (∃ w ∈ o.seqWaiters, w.ch = ch ∧ w.seq = call.seq) ∨
      ∃ toClose' toNotify', g.pc = .deliver toClose' toNotify' (some call) rest ∧
        ch ∈ toNotify' := by
  cases h with
  | other _ _ _ _ _ hquiet => exact absurd hpc (hquiet _ _ _ _)
  | pop seq call' rest' hcall hwaiters hchans hholds hpc' =>
    rw [hpc'] at hpc
    cases hpc
    obtain ⟨w, hw, hwch, hwseq⟩ := mem_toNotify hch
    exact .inl ⟨w, hw, hwch, hwseq.trans (hcall call rfl).symm⟩
  | close i toClose' toNotify' call' rest' hwaiters hchans hold hnew =>
    rw [hnew] at hpc
    cases hpc
    exact .inr ⟨_, _, hold, hch⟩
  | send i toNotify' call' rest' hwaiters hchans hold hnew =>
    exact .inr ⟨_, _, hnew ▸ hpc, hch⟩
  | finish i toNotify' call' rest' hwaiters hchans hold hnew =>
    rw [hnew] at hpc
    cases hpc
    exact .inr ⟨_, _, hold, List.mem_cons_of_mem i hch⟩
  | cleanup hobj hholds hnew =>
    rw [hnew] at hpc
    contradiction

end Chans

namespace Mailbox

variable {T : ObjectType σ μ} {s t : Mailbox σ μ}

/-- The owners of a channel: waiters that are registered, and goroutines that are to close it. -/
def owners (s : Mailbox σ μ) (ch : Nat) : Nat :=
  (s.obj.seqWaiters.map (·.ch)).count ch + (s.loops.map fun g => g.holds.count ch).sum

/-- Every channel that is not closed has one owner at most, a closed one has none, and what
is or will be sent on it is the call it was made for. -/
structure Owned (s : Mailbox σ μ) : Prop where
  length : s.asked.length = s.obj.chans.length
  sorted : Sorted s.obj.seqWaiters
  once : ∀ ch, s.owners ch + closesOf s.obj.chans ch ≤ 1
  bound : ∀ ch, s.obj.chans.length ≤ ch → s.owners ch = 0
  prompt : ∀ (ch : Nat) (c : Chan), s.obj.chans[ch]? = some c → c.lateSend = false
  waiters : ∀ w ∈ s.obj.seqWaiters, s.asked[w.ch]? = some w.seq
  notices : ∀ g ∈ s.loops, ∀ toClose toNotify call rest,
    g.pc = .deliver toClose toNotify (some call) rest →
    ∀ ch ∈ toNotify, s.asked[ch]? = some call.seq
  values : ∀ (ch : Nat) (c : Chan) (call : ReliableCall), s.obj.chans[ch]? = some c →
    c.value = some call → s.asked[ch]? = some call.seq

/-- Whoever has raised the flag, or a waiter that is registered, has a goroutine to rely on. -/
def Attended (s : Mailbox σ μ) : Prop :=
  s.obj.processingCalls = true ∨ s.obj.seqWaiters ≠ [] → ∃ g ∈ s.loops, g.pc ≠ .done

private theorem owners_set {self : Nat} {g g' : Goroutine μ} (hg : s.loops[self]? = some g)
    (obj : BaseObject σ) (db : DB) (ch : Nat) :
    ({ s with db := db, obj := obj, loops := s.loops.set self g' } : Mailbox σ μ).owners ch +
        (s.obj.seqWaiters.map (·.ch)).count ch + g.holds.count ch =
      s.owners ch + (obj.seqWaiters.map (·.ch)).count ch + g'.holds.count ch := by
  have hsum := sum_map_set_add (b := g') (f := fun g => g.holds.count ch) hg
  simp only [owners]
  omega

theorem PostCase.owners_le {self : Nat} {g g' : Goroutine μ} (hg : s.loops[self]? = some g)
    {obj : BaseObject σ} (db : DB) (h : PostCase s.obj g obj g') (ch : Nat) :
    ({ s with db := db, obj := obj, loops := s.loops.set self g' } : Mailbox σ μ).owners ch +
      closesOf obj.chans ch ≤ s.owners ch + closesOf s.obj.chans ch := by
  have hset : _ + _ + g.holds.count ch = _ + _ + g'.holds.count ch := owners_set hg obj db ch
  cases h with
  | other hwaiters hchans hholds hholds' =>
    rw [hwaiters, hholds, hholds'] at hset
    rw [hchans]
    omega
  | pop seq call rest hcall hwaiters hchans hholds hpc =>
    have hcount := popWaiters_count seq s.obj.seqWaiters ch
    have hnew : g'.holds = (popWaiters seq s.obj.seqWaiters).toClose ++
        (popWaiters seq s.obj.seqWaiters).toNotify := by
      rw [Goroutine.holds, hpc]
    rw [hwaiters, hholds, hnew, List.count_append, List.count_nil] at hset
    rw [hchans]
    omega
  | close i toClose toNotify call rest hwaiters hchans hpc hpc' =>
    have hclose := closesOf_modify_close s.obj.chans i ch
    have hold : g.holds = [i] ++ g'.holds := by
      rw [Goroutine.holds, Goroutine.holds, hpc, hpc']
      rfl
    rw [hwaiters, hold, List.count_append] at hset
    rw [hchans]
    omega
  | send i toNotify call rest hwaiters hchans hpc hpc' =>
    have hsame : g'.holds = g.holds := by rw [Goroutine.holds, Goroutine.holds, hpc']
    rw [hwaiters, hsame] at hset
    rw [hchans, closesOf_modify_send]
    omega
  | finish i toNotify call rest hwaiters hchans hpc hpc' =>
    have hclose := closesOf_modify_close s.obj.chans i ch
    have hold : g.holds = [i] ++ g'.holds := by
      rw [Goroutine.holds, Goroutine.holds, hpc, hpc']
      rfl
    rw [hwaiters, hold, List.count_append] at hset
    rw [hchans]
    omega
  | cleanup hobj hholds hpc' =>
    have hclose := closesOf_foldl_close (s.obj.seqWaiters.map (·.ch)) s.obj.chans ch
    have hnew : g'.holds = [] := by rw [Goroutine.holds, hpc']
    have hnone : obj.seqWaiters = [] := by rw [hobj]; rfl
    rw [hnone, hholds, hnew, List.map_nil, List.count_nil] at hset
    rw [hobj, BaseObject.cleanup_chans]
    rw [hobj] at hset
    omega

private theorem owners_made (s : Mailbox σ μ) {seq : Int} {obj : BaseObject σ}
    {loops : List (Goroutine μ)} (callers : List Int) (c : Chan)
    (hchans : obj.chans = s.obj.chans ++ [c])
    (hloops : loops = s.loops ∨ loops = s.loops ++ [.new])
    (hwaiters : (obj.seqWaiters = s.obj.seqWaiters ∧ c.closes = 1) ∨
      (obj.seqWaiters = insertWaiterSorted s.obj.seqWaiters ⟨seq, s.obj.chans.length⟩ ∧
        c.closes = 0)) (ch : Nat) :
    ({ s with obj := obj, loops := loops, callers := callers, asked := s.asked ++ [seq] } :
        Mailbox σ μ).owners ch + closesOf obj.chans ch =
      s.owners ch + closesOf s.obj.chans ch + if ch = s.obj.chans.length then 1 else 0 := by
  have hsum : (loops.map fun g => g.holds.count ch).sum =
      (s.loops.map fun g => g.holds.count ch).sum := by
    rcases hloops with rfl | rfl
    · rfl
    · simp [Goroutine.new, Goroutine.holds]
  have hcount : (obj.seqWaiters.map (·.ch)).count ch +
      (if ch = s.obj.chans.length then c.closes else 0) =
        (s.obj.seqWaiters.map (·.ch)).count ch + (if ch = s.obj.chans.length then 1 else 0) := by
    rcases hwaiters with ⟨heq, hcloses⟩ | ⟨heq, hcloses⟩
    · rw [heq, hcloses]
    · rw [heq, hcloses, ((insertWaiterSorted_perm _ _).map _).count_eq, List.map_cons,
        List.count_cons]
      by_cases hch : ch = s.obj.chans.length
      · simp [hch]
      · simp [hch, Ne.symm hch]
  simp only [owners]
  rw [hsum, hchans, closesOf_concat]
  by_cases hch : ch = s.obj.chans.length
  · have hnone : closesOf s.obj.chans ch = 0 := by simp [closesOf, hch]
    rw [if_pos hch, if_pos hch] at hcount
    rw [if_pos hch, if_pos hch]
    omega
  · rw [if_neg hch, if_neg hch] at hcount
    rw [if_neg hch, if_neg hch]
    omega

namespace Owned

theorem start (db : DB) (id : GoString) (data : σ) (nextRcseq : Int) :
    (⟨db, .onInit id data nextRcseq, [], [], []⟩ : Mailbox σ μ).Owned where
  length := rfl
  sorted := List.Pairwise.nil
  once ch := by simp [owners, closesOf, BaseObject.onInit]
  bound ch _ := by simp [owners, BaseObject.onInit]
  prompt ch c hc := by simp [BaseObject.onInit] at hc
  waiters w hw := by cases hw
  notices g hg := by cases hg
  values ch c call hc := by simp [BaseObject.onInit] at hc

private theorem not_closed (h : s.Owned) {self : Nat} {g : Goroutine μ}
    (hg : s.loops[self]? = some g) {ch : Nat} (hch : ch ∈ g.holds) :
    closesOf s.obj.chans ch = 0 := by
  have hle : g.holds.count ch ≤ (s.loops.map fun g => g.holds.count ch).sum :=
    List.le_sum_of_mem (List.mem_map_of_mem (List.mem_of_getElem? hg))
  have hpos : 0 < g.holds.count ch := List.count_pos_iff.mpr hch
  have honce := h.once ch
  simp only [owners] at honce
  omega

theorem loop (h : s.Owned) {self : Nat} {g g' : Goroutine μ} (hg : s.loops[self]? = some g)
    {obj : BaseObject σ} (db : DB) (hpost : PostCase s.obj g obj g') :
    ({ s with db := db, obj := obj, loops := s.loops.set self g' } : Mailbox σ μ).Owned := by
  have hle := PostCase.owners_le hg db hpost
  have hlen := hpost.length_chans
  constructor
  case length => exact h.length.trans hlen.symm
  case sorted => exact hpost.sorted h.sorted
  case once => exact fun ch => Nat.le_trans (hle ch) (h.once ch)
  case bound =>
    intro ch hch
    have hch' : s.obj.chans.length ≤ ch := hlen ▸ hch
    have hnone : closesOf s.obj.chans ch = 0 := by
      rw [closesOf, List.getElem?_eq_none hch']
      rfl
    have := hle ch
    rw [h.bound ch hch', hnone] at this
    omega
  case prompt =>
    intro ch c hc
    obtain ⟨old, hold, hkept | ⟨toNotify, call, rest, hpc, rfl⟩⟩ := hpost.kept hc
    · exact hkept.lateSend.trans (h.prompt ch old hold)
    · have hholds : ch ∈ g.holds := by
        rw [Goroutine.holds, hpc]
        exact List.mem_cons_self
      have hclosed := h.not_closed hg hholds
      rw [closesOf_of_getElem? hold] at hclosed
      simp [Chan.send, h.prompt ch old hold, hclosed]
  case waiters => exact fun w hw => h.waiters w (hpost.waiters_sub w hw)
  case notices =>
    intro p hp toClose toNotify call rest hpc ch hch
    rcases eq_or_mem_of_mem_set hp with rfl | hj
    · rcases hpost.notice hpc hch with ⟨w, hw, rfl, hseq⟩ | ⟨_, _, hold, hmem⟩
      · rw [← hseq]
        exact h.waiters w hw
      · exact h.notices g (List.mem_of_getElem? hg) _ _ call rest hold ch hmem
    · exact h.notices p hj toClose toNotify call rest hpc ch hch
  case values =>
    intro ch c call hc hvalue
    obtain ⟨old, hold, hkept | ⟨toNotify, call', rest, hpc, rfl⟩⟩ := hpost.kept hc
    · exact h.values ch old call hold (hkept.value.symm.trans hvalue)
    · cases hvalue
      exact h.notices g (List.mem_of_getElem? hg) _ _ call rest hpc ch List.mem_cons_self

theorem made (h : s.Owned) {seq : Int} {obj : BaseObject σ} {loops : List (Goroutine μ)}
    {callers : List Int} (c : Chan) (hvalue : c.value = none) (hlate : c.lateSend = false)
    (hchans : obj.chans = s.obj.chans ++ [c])
    (hloops : loops = s.loops ∨ loops = s.loops ++ [.new])
    (hwaiters : (obj.seqWaiters = s.obj.seqWaiters ∧ c.closes = 1) ∨
      (obj.seqWaiters = insertWaiterSorted s.obj.seqWaiters ⟨seq, s.obj.chans.length⟩ ∧
        c.closes = 0)) :
    ({ s with obj := obj, loops := loops, callers := callers, asked := s.asked ++ [seq] } :
      Mailbox σ μ).Owned := by
  have hold : ∀ {ch : Nat} {q : Int}, s.asked[ch]? = some q →
      (s.asked ++ [seq])[ch]? = some q := by
    intro ch q hq
    exact getElem?_grow hq
  have howners := s.owners_made callers c hchans hloops hwaiters
  have hmem : ∀ w ∈ obj.seqWaiters, w ∈ s.obj.seqWaiters ∨ w = ⟨seq, s.obj.chans.length⟩ := by
    intro w hw
    rcases hwaiters with ⟨heq, -⟩ | ⟨heq, -⟩
    · exact .inl (heq ▸ hw)
    · rw [heq] at hw
      exact (mem_insertWaiterSorted.mp hw).symm
  constructor
  case length => simp [hchans, h.length]
  case sorted =>
    rcases hwaiters with ⟨heq, -⟩ | ⟨heq, -⟩
    · exact heq ▸ h.sorted
    · rw [heq]
      exact h.sorted.insert _
  case once =>
    intro ch
    have honce := h.once ch
    have hbound := h.bound ch
    have hmade := howners ch
    dsimp only
    by_cases hch : ch = s.obj.chans.length
    · have hnone : closesOf s.obj.chans ch = 0 := by simp [closesOf, hch]
      have hfree := hbound (Nat.le_of_eq hch.symm)
      rw [if_pos hch] at hmade
      omega
    · rw [if_neg hch] at hmade
      omega
  case bound =>
    intro ch hch
    rw [hchans, List.length_append, List.length_singleton] at hch
    have hmade := howners ch
    have hnone : closesOf s.obj.chans ch = 0 := by
      rw [closesOf, List.getElem?_eq_none (by omega)]
      rfl
    have hfree := h.bound ch (by omega)
    rw [if_neg (by omega)] at hmade
    omega
  case prompt =>
    intro ch c' hc'
    rw [hchans] at hc'
    rcases getElem?_concat_cases hc' with ⟨-, rfl⟩ | hc'
    · exact hlate
    · exact h.prompt ch c' hc'
  case waiters =>
    intro w hw
    rcases hmem w hw with hw | rfl
    · exact hold (h.waiters w hw)
    · simp [← h.length]
  case notices =>
    intro g hg toClose toNotify call rest hpc ch hch
    have hg' : g ∈ s.loops := by
      rcases hloops with rfl | rfl
      · exact hg
      · rcases List.mem_append.mp hg with hg | hg
        · exact hg
        · rw [List.mem_singleton.mp hg] at hpc
          contradiction
    exact hold (h.notices g hg' toClose toNotify call rest hpc ch hch)
  case values =>
    intro ch c' call hc' hcall
    rw [hchans] at hc'
    rcases getElem?_concat_cases hc' with ⟨-, rfl⟩ | hc'
    · rw [hvalue] at hcall
      contradiction
    · exact hold (h.values ch c' call hc' hcall)

theorem congr (h : s.Owned) (hwaiters : t.obj.seqWaiters = s.obj.seqWaiters)
    (hchans : t.obj.chans = s.obj.chans) (hasked : t.asked = s.asked)
    (hholds : ∀ ch, (t.loops.map fun g => g.holds.count ch).sum =
      (s.loops.map fun g => g.holds.count ch).sum)
    (hpcs : ∀ g ∈ t.loops, (∃ old ∈ s.loops, old.pc = g.pc) ∨ g = .new) : t.Owned := by
  have howners : ∀ ch, t.owners ch = s.owners ch := by
    intro ch
    rw [owners, owners, hwaiters, hholds]
  constructor
  case length => rw [hasked, hchans, h.length]
  case sorted => exact hwaiters ▸ h.sorted
  case once =>
    intro ch
    rw [howners, hchans]
    exact h.once ch
  case bound =>
    intro ch hch
    rw [howners]
    exact h.bound ch (hchans ▸ hch)
  case prompt => exact hchans ▸ h.prompt
  case waiters => rw [hwaiters, hasked]; exact h.waiters
  case notices =>
    intro g hg toClose toNotify call rest hpc ch hch
    rw [hasked]
    rcases hpcs g hg with ⟨old, hold, heq⟩ | rfl
    · exact h.notices old hold toClose toNotify call rest (heq.trans hpc) ch hch
    · contradiction
  case values => rw [hchans, hasked]; exact h.values

theorem step (h : s.Owned) {l : Label} (hstep : s.step T l = some t) : t.Owned := by
  have hkeep : ∀ g ∈ s.loops, (∃ old ∈ s.loops, old.pc = g.pc) ∨ g = .new :=
    fun g hg => .inl ⟨g, hg, rfl⟩
  cases l with
  | store db =>
    cases hstep
    exact h.congr rfl rfl rfl (fun _ => rfl) hkeep
  | destroy =>
    cases hstep
    exact h.congr rfl rfl rfl (fun _ => rfl) hkeep
  | call seq =>
    simp only [Mailbox.step] at hstep
    split at hstep
    · cases hstep
      exact h.made Chan.new.close rfl rfl rfl (.inl rfl) (.inl ⟨rfl, rfl⟩)
    · cases hstep
      exact h.congr rfl rfl rfl (fun _ => rfl) hkeep
  | register caller =>
    obtain ⟨seq, -, rfl⟩ := Option.map_eq_some_iff.mp hstep
    refine h.made Chan.new rfl rfl rfl ?_ (.inr ⟨rfl, rfl⟩)
    cases hflag : s.obj.processingCalls with
    | true => exact .inl (by simp [BaseObject.registerWaiter, hflag])
    | false => exact .inr (by simp [BaseObject.registerWaiter, hflag])
  | ensure =>
    cases hstep
    cases hflag : s.obj.processingCalls with
    | true =>
      refine h.congr rfl rfl rfl (fun _ => ?_) ?_ <;>
        simp only [spawn, BaseObject.ensureProcessingLoopRunning, hflag, Bool.not_true,
          Bool.false_eq_true, ↓reduceIte]
      exact hkeep
    | false =>
      refine h.congr rfl rfl rfl (fun _ => ?_) ?_ <;>
        simp only [spawn, BaseObject.ensureProcessingLoopRunning, hflag, Bool.not_false,
          ↓reduceIte]
      · simp [Goroutine.new, Goroutine.holds]
      · intro g hg
        rcases List.mem_append.mp hg with hg | hg
        · exact hkeep g hg
        · exact .inr (List.mem_singleton.mp hg)
  | go self =>
    obtain ⟨g, hg, rfl⟩ := Option.map_eq_some_iff.mp hstep
    refine h.congr rfl rfl rfl (fun ch => ?_) ?_
    · have hsum := sum_map_set_add (b := { g with started := true })
        (f := fun g => g.holds.count ch) hg
      exact Nat.add_right_cancel hsum
    · intro p hp
      rcases eq_or_mem_of_mem_set hp with rfl | hj
      · exact .inl ⟨g, List.mem_of_getElem? hg, rfl⟩
      · exact hkeep p hj
  | loop self ok =>
    obtain ⟨g, hg, hstep⟩ := Option.bind_eq_some_iff.mp hstep
    split at hstep
    · obtain ⟨⟨db, obj, next⟩, hmove, rfl⟩ := Option.map_eq_some_iff.mp hstep
      exact h.loop hg db (Goroutine.step_cases hmove)
    · contradiction

end Owned

theorem PostCase.live {o o' : BaseObject σ} {g g' : Goroutine μ} (h : PostCase o g o' g') :
    g'.pc ≠ .done ∨ (o'.processingCalls = false ∧ o'.seqWaiters = []) := by
  cases h with
  | other _ _ _ _ hlive => exact .inl hlive
  | pop _ _ _ _ _ _ _ hpc | close _ _ _ _ _ _ _ _ hpc | finish _ _ _ _ _ _ _ hpc =>
    exact .inl (by simp [hpc])
  | send _ _ _ _ _ _ hpc hpc' => exact .inl (by simp [hpc', hpc])
  | cleanup hobj =>
    subst hobj
    exact .inr ⟨rfl, rfl⟩

theorem Attended.spawn (h : s.Attended) {started : BaseObject σ × Bool}
    (hstarted : started.2 = !s.obj.processingCalls) : (s.spawn started).Attended := by
  intro _
  cases hflag : s.obj.processingCalls with
  | true =>
    obtain ⟨g, hg, hlive⟩ := h (.inl hflag)
    refine ⟨g, ?_, hlive⟩
    simpa [Mailbox.spawn, hstarted, hflag] using hg
  | false =>
    refine ⟨.new, ?_, by simp [Goroutine.new]⟩
    simp [Mailbox.spawn, hstarted, hflag]

theorem Attended.step (h : s.Attended) {l : Label} (hstep : s.step T l = some t) :
    t.Attended := by
  cases l with
  | store db =>
    cases hstep
    exact h
  | destroy =>
    cases hstep
    exact h
  | call seq =>
    simp only [Mailbox.step] at hstep
    split at hstep <;> cases hstep <;> exact h
  | register caller =>
    obtain ⟨seq, -, rfl⟩ := Option.map_eq_some_iff.mp hstep
    have h' : ({ s with callers := s.callers.eraseIdx caller, asked := s.asked ++ [seq] } :
      Mailbox σ μ).Attended := h
    exact h'.spawn rfl
  | ensure =>
    cases hstep
    exact h.spawn rfl
  | go self =>
    obtain ⟨g, hg, rfl⟩ := Option.map_eq_some_iff.mp hstep
    intro hneeded
    obtain ⟨p, hp, hlive⟩ := h hneeded
    rcases eq_or_mem_set hg hp with rfl | hp
    · exact ⟨_, mem_set_self hg, hlive⟩
    · exact ⟨p, hp, hlive⟩
  | loop self ok =>
    obtain ⟨g, hg, hstep⟩ := Option.bind_eq_some_iff.mp hstep
    split at hstep
    · obtain ⟨⟨db, obj, next⟩, hmove, rfl⟩ := Option.map_eq_some_iff.mp hstep
      intro hneeded
      rcases PostCase.live (Goroutine.step_cases hmove) with hlive | ⟨hflag, hnone⟩
      · exact ⟨next, mem_set_self hg, hlive⟩
      · rcases hneeded with hneeded | hneeded
        · rw [hflag] at hneeded
          contradiction
        · exact absurd hnone hneeded
    · contradiction

/-- Waiters are served once and never stranded: they stay sorted; no channel is closed twice or
sent to after it was closed; a call that is received is the one that was asked for;
`notifyWaiters` takes exactly the waiters it covers; and while there are waiters, some loop
goroutine is before its cleanup. -/
theorem waiters_are_served_once (T : ObjectType σ μ) (s : Mailbox σ μ)
    (hreach : (machine T).Reachable Machine.Any s) :
    Sorted s.obj.seqWaiters ∧
    (∀ c ∈ s.obj.chans, c.closes ≤ 1 ∧ c.lateSend = false) ∧
    (∀ (ch : Nat) (c : Chan) (call : ReliableCall), s.obj.chans[ch]? = some c →
      c.value = some call → s.asked[ch]? = some call.seq) ∧
    (∀ seq, popWaiters seq s.obj.seqWaiters =
      ⟨(s.obj.seqWaiters.filter (·.seq < seq)).map (·.ch),
        (s.obj.seqWaiters.filter (·.seq = seq)).map (·.ch),
        s.obj.seqWaiters.filter (seq < ·.seq)⟩) ∧
    (s.obj.seqWaiters ≠ [] → ∃ g ∈ s.loops, g.pc ≠ .done) := by
  obtain ⟨howned, hattended⟩ : s.Owned ∧ s.Attended := by
    refine hreach.invariant (I := fun s => s.Owned ∧ s.Attended) ?_ ?_
    · rintro s ⟨db, id, data, nextRcseq, rfl⟩
      refine ⟨.start db id data nextRcseq, fun hneeded => ?_⟩
      rcases hneeded with hneeded | hneeded <;> simp [BaseObject.onInit] at hneeded
    · exact fun h _ hstep => ⟨h.1.step hstep, h.2.step hstep⟩
  refine ⟨howned.sorted, fun c hc => ?_, howned.values, popWaiters_eq howned.sorted,
    fun hwaiters => hattended (.inr hwaiters)⟩
  obtain ⟨ch, hch⟩ := List.mem_iff_getElem?.mp hc
  have honce := howned.once ch
  rw [closesOf_of_getElem? hch] at honce
  exact ⟨by omega, howned.prompt ch c hch⟩

/-- Three callers register out of order while call 1 has a row, and the goroutine that the first
of them has started serves it. -/
def outOfOrder : List Label :=
  [.store ((DB.empty.insertCall (tallyCall 1 1)).toOption.elim DB.empty Prod.snd), .call 3,
    .call 1, .call 2, .register 0, .register 0, .register 0, .go 0] ++
    List.replicate 18 (.loop 0 true)

theorem waiters_are_served_once_outOfOrder :
    ∃ s, (machine tally).Reachable Machine.Any s ∧ s.obj.seqWaiters = [⟨2, 2⟩, ⟨3, 0⟩] ∧
      s.obj.chans[1]?.map (fun c => (c.closes, c.value.map (·.seq))) = some (1, some 1) ∧
      Sorted s.obj.seqWaiters ∧ ∃ g ∈ s.loops, g.pc ≠ .done := by
  have hrun : ((machine tally).exec Machine.Any ⟨DB.empty, .onInit (lit "o") [] 0, [], [], []⟩
      outOfOrder).any (fun s => decide (s.obj.seqWaiters = [⟨2, 2⟩, ⟨3, 0⟩] ∧
        s.obj.chans[1]?.map (fun c => (c.closes, c.value.map (·.seq))) = some (1, some 1))) =
      true := by decide
  obtain ⟨s, hreach, hs⟩ := Machine.exec_reachable hrun ⟨DB.empty, lit "o", [], 0, rfl⟩
  obtain ⟨hwaiters, hserved⟩ := of_decide_eq_true hs
  obtain ⟨hsorted, -, -, -, hlive⟩ := waiters_are_served_once tally s hreach
  exact ⟨s, hreach, hwaiters, hserved, hsorted, hlive (by simp [hwaiters])⟩

end Mailbox

end Goverse.Object
