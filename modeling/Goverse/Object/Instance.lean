import Goverse.Lib.Machine
import Goverse.Lib.Threads
import Goverse.Object.Loop

/-! One live `BaseObject` with any number of callers and of loop goroutines. The
deferred `cleanupProcessingLoop` runs after `tryExitIfNoWaiters` has already let go of
`processingCalls`, so it can take the flag away from a loop that was started in
between; `CleanupAlone` names the steps that do not. -/
namespace Goverse.Object

open Postgres Lib

variable {σ μ : Type}

/-- `loops` are the loop goroutines in the order of their start, and `callers` the
`ProcessPendingReliableCalls` calls that have found their `seq` not yet processed and
have not yet registered. -/
structure Instance (σ μ : Type) where
  obj : BaseObject σ
  loops : List (LoopPC μ)
  callers : List Int

def Instance.start (id : GoString) (data : σ) (nextRcseq : Int) : Instance σ μ :=
  ⟨.onInit id data nextRcseq, [], []⟩

inductive Action where
  | call (seq : Int)
  | register (caller : Nat)
  | ensure
  | loop (self : Nat) (ok : Bool)
  | save (ok : Bool)
  | destroy
  deriving DecidableEq, Repr

structure Outcome (σ μ : Type) where
  db : DB
  inst : Instance σ μ
  event : Option Event

namespace Instance

/-- `if shouldStart { go base.runProcessingLoop(provider) }`. -/
def spawn (inst : Instance σ μ) (started : BaseObject σ × Bool) : Instance σ μ :=
  { inst with
    obj := started.1
    loops := if started.2 then inst.loops ++ [.checkCtx] else inst.loops }

def step (T : ObjectType σ μ) (db : DB) (inst : Instance σ μ) :
    Action → Option (Outcome σ μ)
  | .call seq =>
    if seq < inst.obj.nextRcseq then some ⟨db, inst, none⟩
    else some ⟨db, { inst with callers := inst.callers ++ [seq] }, none⟩
  | .register caller =>
    match inst.callers[caller]? with
    | none => none
    | some seq =>
      some ⟨db, { inst with callers := inst.callers.eraseIdx caller }.spawn
        (inst.obj.registerWaiter seq), none⟩
  | .ensure => some ⟨db, inst.spawn inst.obj.ensureProcessingLoopRunning, none⟩
  | .loop self ok =>
    match inst.loops[self]? with
    | none => none
    | some pc =>
      match loopStep T self ok db inst.obj pc with
      | none => none
      | some mv => some ⟨mv.db, { inst with obj := mv.obj, loops := inst.loops.set self mv.pc },
          mv.event⟩
  | .save ok =>
    match inst.obj.stateMu with
    | some _ => none
    | none =>
      match if ok then (inst.obj.saveLocked T db).toOption else none with
      | none => some ⟨db, inst, none⟩
      | some saved => some ⟨saved, inst, some .save⟩
  | .destroy => some ⟨db, { inst with obj := inst.obj.destroy }, none⟩

/-- The action starts a loop goroutine. -/
def Starts (inst : Instance σ μ) : Action → Prop
  | .register _ | .ensure => inst.obj.processingCalls = false
  | _ => False

/-- One processing loop: none is started while another may still reach the provider. -/
def OneLoop (inst : Instance σ μ) (action : Action) : Prop :=
  inst.Starts action → ∀ pc ∈ inst.loops, pc.active = false

instance (inst : Instance σ μ) (action : Action) : Decidable (inst.OneLoop action) := by
  cases action <;> simp only [OneLoop, Starts] <;> infer_instance

/-- A deferred `cleanupProcessingLoop` finds no loop that may still reach the
provider. -/
def CleanupAlone (inst : Instance σ μ) : Action → Prop
  | .loop self _ => inst.loops[self]?.map LoopPC.isCleanup = some true →
      ∀ pc ∈ inst.loops, pc.active = false
  | _ => True

instance (inst : Instance σ μ) (action : Action) : Decidable (inst.CleanupAlone action) := by
  cases action <;> simp only [CleanupAlone] <;> infer_instance

/-- What an action can do: move one goroutine, save the object, or touch nothing but the
waiters, the flags and the list of goroutines. -/
inductive StepCase (T : ObjectType σ μ) (db : DB) (inst : Instance σ μ) (action : Action)
    (out : Outcome σ μ) : Prop
  | loop (self : Nat) (ok : Bool) (pc : LoopPC μ) (mv : Move σ μ)
      (haction : action = .loop self ok) (hpc : inst.loops[self]? = some pc)
      (hmv : loopStep T self ok db inst.obj pc = some mv)
      (hout : out = ⟨mv.db, { inst with obj := mv.obj, loops := inst.loops.set self mv.pc },
        mv.event⟩)
  | save (saved : DB) (haction : action = .save true) (hfree : inst.obj.stateMu = none)
      (hsaved : inst.obj.saveLocked T db = .ok saved) (hout : out = ⟨saved, inst, some .save⟩)
  | quiet (hdb : out.db = db) (hevent : out.event = none)
      (hid : out.inst.obj.id = inst.obj.id) (hdata : out.inst.obj.data = inst.obj.data)
      (hseq : out.inst.obj.nextRcseq = inst.obj.nextRcseq)
      (hmu : out.inst.obj.stateMu = inst.obj.stateMu)
      (hcancelled : inst.obj.cancelled = true → out.inst.obj.cancelled = true)
      (hloops : (out.inst.loops = inst.loops ∧
          (out.inst.obj.processingCalls = inst.obj.processingCalls ∨
            out.inst.obj.processingCalls = true)) ∨
        (inst.Starts action ∧ out.inst.loops = inst.loops ++ [.checkCtx] ∧
          out.inst.obj.processingCalls = true))
      (hwaiters : (out.inst.obj.seqWaiters = inst.obj.seqWaiters ∧
          out.inst.obj.chans = inst.obj.chans) ∨
        ∃ seq, out.inst.obj.seqWaiters =
            insertWaiterSorted inst.obj.seqWaiters ⟨seq, inst.obj.chans.length⟩ ∧
          out.inst.obj.chans = inst.obj.chans ++ [Chan.new])

theorem step_cases {T : ObjectType σ μ} {db : DB} {inst : Instance σ μ} {action : Action}
    {out : Outcome σ μ} (h : inst.step T db action = some out) :
    StepCase T db inst action out := by
  cases action with
  | call seq =>
    simp only [step] at h
    split at h <;> cases h <;>
      exact .quiet rfl rfl rfl rfl rfl rfl id (.inl ⟨rfl, .inl rfl⟩) (.inl ⟨rfl, rfl⟩)
  | register caller =>
    simp only [step] at h
    split at h
    · contradiction
    · rename_i seq hcaller
      cases h
      refine .quiet rfl rfl rfl rfl rfl rfl id ?_ (.inr ⟨seq, rfl, rfl⟩)
      cases hflag : inst.obj.processingCalls with
      | true => exact .inl ⟨by simp [spawn, BaseObject.registerWaiter, hflag], .inr rfl⟩
      | false => exact .inr ⟨hflag, by simp [spawn, BaseObject.registerWaiter, hflag], rfl⟩
  | ensure =>
    cases h
    refine .quiet rfl rfl rfl rfl rfl rfl id ?_ (.inl ⟨rfl, rfl⟩)
    cases hflag : inst.obj.processingCalls with
    | true => exact .inl ⟨by simp [spawn, BaseObject.ensureProcessingLoopRunning, hflag], .inr rfl⟩
    | false =>
      exact .inr ⟨hflag, by simp [spawn, BaseObject.ensureProcessingLoopRunning, hflag], rfl⟩
  | loop self ok =>
    simp only [step] at h
    split at h
    · contradiction
    · rename_i pc hpc
      split at h
      · contradiction
      · rename_i mv hmv
        cases h
        exact .loop self ok pc mv rfl hpc hmv rfl
  | save ok =>
    simp only [step] at h
    split at h
    · contradiction
    · rename_i hfree
      split at h
      · cases h
        exact .quiet rfl rfl rfl rfl rfl rfl id (.inl ⟨rfl, .inl rfl⟩) (.inl ⟨rfl, rfl⟩)
      · rename_i saved hsaved
        cases h
        obtain ⟨rfl, hwritten⟩ := toOption_eq_some hsaved
        exact .save saved rfl hfree hwritten rfl
  | destroy =>
    cases h
    exact .quiet rfl rfl rfl rfl rfl rfl (fun _ => rfl) (.inl ⟨rfl, .inl rfl⟩) (.inl ⟨rfl, rfl⟩)

/-- `saveLocked` is called by `Save`, which has found `stateMu` free, and by a goroutine
that is inside `finalize`. -/
def MaySave (inst : Instance σ μ) : Prop :=
  inst.obj.stateMu = none ∨
    ∃ (self : Nat) (call : ReliableCall) (rest : List ReliableCall) (final : Final),
      inst.loops[self]? = some (.save call rest final)

/-- What an action does to the database and to the object's state, whoever takes it. -/
inductive Effect (T : ObjectType σ μ) (db : DB) (inst : Instance σ μ) (action : Action)
    (out : Outcome σ μ) : Prop
  | quiet (hdb : out.db = db) (hdata : out.inst.obj.data = inst.obj.data)
      (hevent : out.event = none ∨ ∃ call, out.event = some (.process call))
  | invoke (self : Nat) (call : ReliableCall) (rest : List ReliableCall)
      (hpc : inst.loops[self]? = some (.decode call rest)) (hdb : out.db = db)
      (hobj : out.inst.obj = inst.obj) (hevent : out.event = some (.invoke call))
  | finish (self : Nat) (call : ReliableCall) (rest : List ReliableCall) (msg : μ)
      (hpc : inst.loops[self]? = some (.running call rest msg)) (hdb : out.db = db)
      (hobj : out.inst.obj =
        { inst.obj with data := (T.invokeMethod inst.obj.data call.methodName msg).1 })
      (hnew : ∃ final, out.inst.loops = inst.loops.set self (.finalize call rest final))
      (hevent : out.event = some (.finish call))
  | save (hmay : inst.MaySave)
      (hsaved : inst.obj.saveLocked T db = .ok out.db) (hobj : out.inst.obj = inst.obj)
      (hevent : out.event = some .save)
  | update (self : Nat) (call : ReliableCall) (rest : List ReliableCall) (final : Final)
      (haction : action = .loop self true)
      (hpc : inst.loops[self]? = some (.update call rest final))
      (hupdated : db.updateReliableCallStatus call.seq final.status final.resultData
        final.error = .ok out.db)
      (hobj : out.inst.obj = { inst.obj with stateMu := none })
      (hevent : out.event = some (.update call.seq final.status))

theorem step_effect {T : ObjectType σ μ} {db : DB} {inst : Instance σ μ} {action : Action}
    {out : Outcome σ μ} (h : inst.step T db action = some out) :
    Effect T db inst action out := by
  cases step_cases h with
  | loop self ok pc mv haction hpc hmv hout =>
    subst hout
    cases loopStep_effect hmv with
    | quiet hdb hdata hevent => exact .quiet hdb hdata hevent
    | invoke call rest msg heq hmsg heqmv =>
      subst heq heqmv
      exact .invoke self call rest hpc rfl rfl rfl
    | finish call rest msg heq heqmv =>
      subst heq heqmv
      exact .finish self call rest msg hpc rfl rfl ⟨_, rfl⟩ rfl
    | save call rest final saved heq hsaved heqmv =>
      subst heq heqmv
      exact .save (.inr ⟨self, call, rest, final, hpc⟩) hsaved rfl rfl
    | update call rest final updated heq hok hupdated heqmv =>
      subst heq heqmv hok
      exact .update self call rest final haction hpc hupdated rfl rfl
  | save saved haction hfree hsaved hout =>
    subst hout
    exact .save (.inl hfree) hsaved rfl rfl
  | quiet hdb hevent hid hdata hseq hmu hcancelled hloops => exact .quiet hdb hdata (.inl hevent)

theorem mem_loops_cases {inst : Instance σ μ} {loops : List (LoopPC μ)} {kept starts started : Prop}
    (h : (loops = inst.loops ∧ kept) ∨
      (starts ∧ loops = inst.loops ++ [.checkCtx] ∧ started))
    {pc : LoopPC μ} (hpc : pc ∈ loops) : pc ∈ inst.loops ∨ pc = .checkCtx := by
  rcases h with ⟨rfl, -⟩ | ⟨-, rfl, -⟩
  · exact .inl hpc
  · simpa using hpc

theorem mem_spawn_loops {inst : Instance σ μ} {started : BaseObject σ × Bool} {pc : LoopPC μ}
    (h : pc ∈ (inst.spawn started).loops) : pc ∈ inst.loops ∨ pc = .checkCtx := by
  simp only [spawn] at h
  split at h
  · simpa using h
  · exact .inl h

/-- `stateMu` names the goroutine that is inside `processReliableCall`. -/
def Locked (inst : Instance σ μ) : Prop :=
  ∀ (i : Nat) (pc : LoopPC μ), inst.loops[i]? = some pc → pc.holdsState = true →
    inst.obj.stateMu = some i

theorem Locked.step {T : ObjectType σ μ} {db : DB} {inst : Instance σ μ} (h : inst.Locked)
    {action : Action} {out : Outcome σ μ} (hstep : inst.step T db action = some out) :
    out.inst.Locked := by
  cases step_cases hstep with
  | loop self ok pc mv haction hpc hmv hout =>
    subst hout
    obtain ⟨hself, hmu⟩ := loopStep_holdsState hmv (h self pc hpc)
    intro j other hj hother
    rcases getElem?_set_cases hj with ⟨rfl, rfl⟩ | ⟨hne, hj⟩
    · exact hself hother
    · have hheld := h j other hj hother
      rcases hmu with hmu | hfree | hpcs
      · exact hmu.trans hheld
      · rw [hfree] at hheld
        contradiction
      · rw [h self pc hpc hpcs] at hheld
        exact absurd (Option.some.inj hheld).symm hne
  | save saved haction hfree hsaved hout => subst hout; exact h
  | quiet hdb hevent hid hdata hseq hmu hcancelled hloops =>
    intro i pc hi hpc
    rw [hmu]
    rcases hloops with ⟨hsame, -⟩ | ⟨-, hnew, -⟩
    · rw [hsame] at hi
      exact h i pc hi hpc
    · rw [hnew] at hi
      rcases getElem?_concat_cases hi with ⟨-, rfl⟩ | hi
      · contradiction
      · exact h i pc hi hpc

theorem Locked.free {inst : Instance σ μ} (h : inst.Locked) (hfree : inst.obj.stateMu = none)
    {pc : LoopPC μ} (hpc : pc ∈ inst.loops) : pc.holdsState = false := by
  obtain ⟨i, hi⟩ := List.mem_iff_getElem?.mp hpc
  by_contra hholds
  have := h i pc hi (by simpa using hholds)
  rw [hfree] at this
  contradiction

theorem step_id {T : ObjectType σ μ} {db : DB} {inst : Instance σ μ} {action : Action}
    {out : Outcome σ μ} (hstep : inst.step T db action = some out) :
    out.inst.obj.id = inst.obj.id := by
  cases step_cases hstep with
  | loop self ok pc mv haction hpc hmv hout => subst hout; exact (loopStep_fixed hmv).1
  | save saved haction hfree hsaved hout => subst hout; rfl
  | quiet hdb hevent hid hdata hseq hmu hcancelled hloops => exact hid

theorem step_cancelled {T : ObjectType σ μ} {db : DB} {inst : Instance σ μ} {action : Action}
    {out : Outcome σ μ} (hstep : inst.step T db action = some out) (haction : action ≠ .destroy) :
    out.inst.obj.cancelled = inst.obj.cancelled := by
  cases action with
  | call seq =>
    simp only [step] at hstep
    split at hstep <;> cases hstep <;> rfl
  | register caller =>
    simp only [step] at hstep
    split at hstep
    · contradiction
    · cases hstep
      rfl
  | ensure => cases hstep; rfl
  | save ok =>
    simp only [step] at hstep
    split at hstep
    · contradiction
    · split at hstep <;> cases hstep <;> rfl
  | destroy => contradiction
  | loop self ok =>
    simp only [step] at hstep
    split at hstep
    · contradiction
    · split at hstep
      · contradiction
      · rename_i mv hmv
        cases hstep
        exact (loopStep_fixed hmv).2

theorem step_lastSeq {T : ObjectType σ μ} {db : DB} {inst : Instance σ μ} {action : Action}
    {out : Outcome σ μ} (hstep : inst.step T db action = some out) :
    out.db.lastSeq = db.lastSeq := by
  cases step_effect hstep with
  | quiet hdb | invoke _ _ _ _ hdb | finish _ _ _ _ _ hdb => rw [hdb]
  | save hmay hsaved hobj hevent =>
    obtain ⟨data, -, -, hlast, -⟩ := BaseObject.saveLocked_ok hsaved
    exact hlast
  | update self call rest final haction hpc hupdated hobj hevent =>
    exact (DB.updateReliableCallStatus_ok hupdated).2.1

theorem step_rows {T : ObjectType σ μ} {db : DB} {inst : Instance σ μ} {action : Action}
    {out : Outcome σ μ} (hstep : inst.step T db action = some out) {row : ReliableCall}
    (hrow : row ∈ out.db.calls.rows) :
    ∃ old ∈ db.calls.rows, old.seq = row.seq ∧ old.objectID = row.objectID ∧
      old.callID = row.callID := by
  cases step_effect hstep with
  | quiet hdb | invoke _ _ _ _ hdb | finish _ _ _ _ _ hdb =>
    rw [hdb] at hrow
    exact ⟨row, hrow, rfl, rfl, rfl⟩
  | save hmay hsaved hobj hevent =>
    obtain ⟨data, -, hcalls, -, -⟩ := BaseObject.saveLocked_ok hsaved
    rw [hcalls] at hrow
    exact ⟨row, hrow, rfl, rfl, rfl⟩
  | update self call rest final haction hpc hupdated hobj hevent =>
    rw [(DB.updateReliableCallStatus_ok hupdated).2.2] at hrow
    obtain ⟨old, hold, rfl⟩ := List.mem_map.mp hrow
    exact ⟨old, hold, by simp, by simp, by simp⟩

/-- At most one goroutine may reach the provider, and the calls it holds continue the
processed ones. -/
structure Exclusive (inst : Instance σ μ) (processed : List Int) : Prop where
  single : AtMostOne LoopPC.active inst.loops
  ordered : ∀ pc ∈ inst.loops, pc.Ordered inst.obj.nextRcseq
  increasing : processed.Pairwise (· < ·)
  below : ∀ seq ∈ processed, seq < inst.obj.nextRcseq ∨
    ∃ pc ∈ inst.loops, ∃ call, pc.current = some call ∧ seq = call.seq

theorem exclusive_start (id : GoString) (data : σ) (nextRcseq : Int) :
    (start id data nextRcseq : Instance σ μ).Exclusive [] where
  single := AtMostOne.nil
  ordered := by simp [start]
  increasing := List.Pairwise.nil
  below := by simp

theorem active_or_isCleanup {T : ObjectType σ μ} {self : Nat} {ok : Bool} {db : DB}
    {o : BaseObject σ} {pc : LoopPC μ} {mv : Move σ μ}
    (h : loopStep T self ok db o pc = some mv) : pc.active = true ∨ pc = .cleanup := by
  cases pc <;> simp_all [LoopPC.active, loopStep]

theorem Exclusive.logged {inst : Instance σ μ} {processed : List Int}
    (h : inst.Exclusive processed) {i : Nat} {pc : LoopPC μ} (hi : inst.loops[i]? = some pc)
    (hactive : pc.active = true) : pc.Logged inst.obj.nextRcseq processed := by
  refine ⟨h.increasing, fun seq hseq => ?_⟩
  rcases h.below seq hseq with hbelow | ⟨other, hother, call, hcur, heq⟩
  · exact .inl hbelow
  · obtain ⟨j, hj⟩ := List.mem_iff_getElem?.mp hother
    by_cases hij : j = i
    · subst hij
      rw [hi] at hj
      cases hj
      exact .inr ⟨call, hcur, heq⟩
    · rw [LoopPC.current_of_inactive (h.single.others hi hactive hj hij)] at hcur
      contradiction

theorem Exclusive.loop {T : ObjectType σ μ} {db : DB} {inst : Instance σ μ}
    {processed : List Int} (h : inst.Exclusive processed) {i : Nat} {ok : Bool}
    {pc : LoopPC μ} {mv : Move σ μ} (hi : inst.loops[i]? = some pc)
    (hmv : loopStep T i ok db inst.obj pc = some mv) :
    ({ inst with obj := mv.obj, loops := inst.loops.set i mv.pc } : Instance σ μ).Exclusive
      (processed ++ (mv.event.bind Event.processed).toList) := by
  have hlt : i < inst.loops.length := (List.getElem?_eq_some_iff.mp hi).1
  rcases active_or_isCleanup hmv with hactive | rfl
  · have hlog' := loopStep_logged (h.ordered pc (List.mem_of_getElem? hi))
      (h.logged hi hactive) hmv
    constructor
    · exact h.single.set hi fun _ => hactive
    · intro p hp
      rcases mem_set_cases hp with rfl | ⟨j, hne, hj⟩
      · exact loopStep_ordered (h.ordered pc (List.mem_of_getElem? hi)) hmv
      · exact .of_inactive (h.single.others hi hactive hj hne)
    · exact hlog'.increasing
    · intro seq hseq
      rcases hlog'.below seq hseq with hbelow | ⟨call, hcur, heq⟩
      · exact .inl hbelow
      · exact .inr ⟨mv.pc, List.mem_set hlt _, call, hcur, heq⟩
  · cases hmv
    simp only [Option.bind_none, Option.toList_none, List.append_nil]
    constructor
    · exact h.single.set hi nofun
    · intro p hp
      rcases eq_or_mem_of_mem_set hp with rfl | hj
      · exact .of_inactive rfl
      · exact h.ordered p hj
    · exact h.increasing
    · intro seq hseq
      rcases h.below seq hseq with hbelow | ⟨other, hother, call, hcur, heq⟩
      · exact .inl hbelow
      · rcases eq_or_mem_set hi hother with rfl | hother
        · contradiction
        · exact .inr ⟨other, hother, call, hcur, heq⟩

theorem Exclusive.step {T : ObjectType σ μ} {db : DB} {inst : Instance σ μ}
    {processed : List Int} (h : inst.Exclusive processed) {action : Action}
    {out : Outcome σ μ} (hone : inst.OneLoop action)
    (hstep : inst.step T db action = some out) :
    out.inst.Exclusive (processed ++ (out.event.bind Event.processed).toList) := by
  cases step_cases hstep with
  | loop self ok pc mv haction hpc hmv hout =>
    subst hout
    exact h.loop hpc hmv
  | save saved haction hfree hsaved hout =>
    subst hout
    simpa [Event.processed] using h
  | quiet hdb hevent hid hdata hseq hmu hcancelled hloops =>
    have hsub : ∀ pc ∈ out.inst.loops, pc ∈ inst.loops ∨ pc = .checkCtx := fun pc hpc =>
      mem_loops_cases hloops hpc
    simp only [hevent, Option.bind_none, Option.toList_none, List.append_nil]
    constructor
    · rcases hloops with ⟨hsame, -⟩ | ⟨hstarts, hnew, -⟩
      · rw [hsame]
        exact h.single
      · rw [hnew]
        exact AtMostOne.concat (hone hstarts) _
    · intro pc hpc
      rw [hseq]
      rcases hsub pc hpc with hpc | rfl
      · exact h.ordered pc hpc
      · exact .of_remaining_nil rfl (by simp)
    · exact h.increasing
    · intro seq hmem
      rw [hseq]
      rcases h.below seq hmem with hlt | ⟨pc, hpc, call, hcur, heq⟩
      · exact .inl hlt
      · refine .inr ⟨pc, ?_, call, hcur, heq⟩
        rcases hloops with ⟨hsame, -⟩ | ⟨-, hnew, -⟩
        · rwa [hsame]
        · rw [hnew]
          exact List.mem_append_left _ hpc

/-- `nextRcseq` moves only forward: the call in progress is not below it. -/
theorem Exclusive.nextRcseq_le {T : ObjectType σ μ} {db : DB} {inst : Instance σ μ}
    {processed : List Int} (h : inst.Exclusive processed) {action : Action}
    {out : Outcome σ μ} (hstep : inst.step T db action = some out) :
    inst.obj.nextRcseq ≤ out.inst.obj.nextRcseq := by
  cases step_cases hstep with
  | loop self ok pc mv haction hpc hmv hout =>
    subst hout
    rcases loopStep_progress hmv with ⟨hn, -, -⟩ | ⟨call, rest, -, rfl⟩ |
      ⟨call, rest, final, rfl, rfl⟩
    · exact le_of_eq hn.symm
    · exact le_refl _
    · have := (h.ordered _ (List.mem_of_getElem? hpc)).bounded call (by simp [LoopPC.remaining])
      dsimp only
      omega
  | save saved haction hfree hsaved hout => subst hout; exact le_refl _
  | quiet hdb hevent hid hdata hseq hmu hcancelled hloops => exact le_of_eq hseq.symm

/-- The flag is up while a goroutine may reach the provider. -/
def Flagged (inst : Instance σ μ) : Prop :=
  ∀ pc ∈ inst.loops, pc.active = true → inst.obj.processingCalls = true

theorem Flagged.oneLoop {inst : Instance σ μ} (h : inst.Flagged) (action : Action) :
    inst.OneLoop action := by
  intro hstarts pc hpc
  have hdown : inst.obj.processingCalls = false := by
    cases action <;> simp_all [Starts]
  by_contra hactive
  have := h pc hpc (by simpa using hactive)
  rw [hdown] at this
  contradiction

theorem Flagged.step {T : ObjectType σ μ} {db : DB} {inst : Instance σ μ}
    {processed : List Int} (hexcl : inst.Exclusive processed) (h : inst.Flagged)
    {action : Action} {out : Outcome σ μ} (halone : inst.CleanupAlone action)
    (hstep : inst.step T db action = some out) : out.inst.Flagged := by
  cases step_cases hstep with
  | loop self ok pc mv haction hpc hmv hout =>
    subst haction hout
    intro p hp hactive
    rcases mem_set_cases hp with rfl | ⟨j, hne, hj⟩
    · obtain ⟨hact, hflag⟩ := loopStep_processingCalls hmv hactive
      rw [hflag]
      exact h pc (List.mem_of_getElem? hpc) hact
    · rcases active_or_isCleanup hmv with hact | rfl
      · simp [hexcl.single.others hpc hact hj hne] at hactive
      · have hidle := halone (by simp [hpc, LoopPC.isCleanup]) p (List.mem_of_getElem? hj)
        simp [hidle] at hactive
  | save saved haction hfree hsaved hout => subst hout; exact h
  | quiet hdb hevent hid hdata hseq hmu hcancelled hloops =>
    intro pc hpc hactive
    rcases hloops with ⟨hsame, hflag | hflag⟩ | ⟨-, -, hflag⟩
    · rw [hflag]
      exact h pc (hsame ▸ hpc) hactive
    · exact hflag
    · exact hflag

end Instance

/-- One activation, the database it uses and everything that has been observed. -/
structure Activation (σ μ : Type) where
  db : DB
  inst : Instance σ μ
  trace : List Event

inductive Label where
  | act (action : Action)
  | insert (row : ReliableCall)
  deriving DecidableEq, Repr

namespace Activation

def processed (s : Activation σ μ) : List Int := s.trace.filterMap Event.processed

/-- Rows of this and of other objects arrive at any time, with any unused `seq`. -/
def step (T : ObjectType σ μ) (s : Activation σ μ) : Label → Option (Activation σ μ)
  | .act action =>
    (s.inst.step T s.db action).map fun out =>
      ⟨out.db, out.inst, s.trace ++ out.event.toList⟩
  | .insert row =>
    (s.db.insertCall row).toOption.map fun result => { s with db := result.2 }

def machine (T : ObjectType σ μ) : Machine (Activation σ μ) Label where
  Init s := (∃ id data nextRcseq, s.inst = Instance.start id data nextRcseq) ∧ s.trace = []
  step := step T

def CleanupAlone (s : Activation σ μ) : Label → Prop
  | .act action => s.inst.CleanupAlone action
  | .insert _ => True

instance (s : Activation σ μ) (label : Label) : Decidable (s.CleanupAlone label) := by
  cases label <;> simp only [CleanupAlone] <;> infer_instance

/-- At most one loop goroutine is between its start and its last access to the
provider. -/
def SingleLoop (s : Activation σ μ) : Prop := s.inst.loops.countP LoopPC.active ≤ 1

instance (s : Activation σ μ) : Decidable s.SingleLoop := by
  unfold SingleLoop
  infer_instance

@[simp] theorem processed_concat (db : DB) (inst : Instance σ μ) (trace : List Event)
    (event : Option Event) :
    processed ⟨db, inst, trace ++ event.toList⟩ =
      trace.filterMap Event.processed ++ (event.bind Event.processed).toList := by
  cases event with
  | none => simp [processed]
  | some event => cases event <;> simp [processed, Event.processed]

/-- One loop goroutine at a time, and the flag says so. -/
def Guarded (s : Activation σ μ) : Prop :=
  s.inst.Exclusive s.processed ∧ s.inst.Flagged

theorem Guarded.step {T : ObjectType σ μ} {s t : Activation σ μ} {label : Label}
    (h : s.Guarded) (halone : s.CleanupAlone label)
    (hstep : (machine T).step s label = some t) : t.Guarded := by
  cases label with
  | act action =>
    obtain ⟨out, hout, rfl⟩ := Option.map_eq_some_iff.mp hstep
    refine ⟨?_, h.2.step h.1 halone hout⟩
    rw [processed_concat]
    exact h.1.step (h.2.oneLoop action) hout
  | insert row =>
    obtain ⟨result, -, rfl⟩ := Option.map_eq_some_iff.mp hstep
    exact h

theorem guarded_of_reachable {T : ObjectType σ μ} {s : Activation σ μ}
    (h : (machine T).Reachable CleanupAlone s) : s.Guarded := by
  refine h.invariant ?_ Guarded.step
  rintro s ⟨⟨id, data, nextRcseq, hinst⟩, htrace⟩
  rw [Guarded, hinst, processed, htrace]
  exact ⟨Instance.exclusive_start id data nextRcseq, by simp [Instance.Flagged, Instance.start]⟩

theorem nextRcseq_step {T : ObjectType σ μ} {s t : Activation σ μ} {label : Label}
    (h : s.Guarded) (hstep : (machine T).step s label = some t) :
    s.inst.obj.nextRcseq ≤ t.inst.obj.nextRcseq := by
  cases label with
  | act action =>
    obtain ⟨out, hout, rfl⟩ := Option.map_eq_some_iff.mp hstep
    exact h.1.nextRcseq_le hout
  | insert row =>
    obtain ⟨result, -, rfl⟩ := Option.map_eq_some_iff.mp hstep
    exact le_refl _

/-- In a run whose cleanups run alone, one loop goroutine at a time reaches the
provider, no call is processed twice and `nextRcseq` never decreases. -/
theorem reliable_calls_run_at_most_once (T : ObjectType σ μ) {s t : Activation σ μ}
    {ls : List Label} (hs : (machine T).Reachable CleanupAlone s)
    (hrun : (machine T).Steps CleanupAlone s ls t) :
    t.SingleLoop ∧ t.processed.Nodup ∧ s.inst.obj.nextRcseq ≤ t.inst.obj.nextRcseq := by
  have hexcl := (guarded_of_reachable (hs.steps hrun)).1
  refine ⟨hexcl.single.countP_le_one, ?_, ?_⟩
  · exact hexcl.increasing.imp fun h => ne_of_lt h
  · exact hrun.relates (I := Guarded)
      (R := fun s t => s.inst.obj.nextRcseq ≤ t.inst.obj.nextRcseq) (fun _ => le_refl _)
      (fun h₁ h₂ => le_trans h₁ h₂) Guarded.step
      (fun h _ hst => nextRcseq_step h hst) (guarded_of_reachable hs)

def loopSteps (self : Nat) (ok : Bool) (n : Nat) : List Label :=
  List.replicate n (.act (.loop self ok))

def tallyStart : Activation Bytes Bytes := ⟨DB.empty, Instance.start (lit "o") [] 0, []⟩

/-- Loop 0 has decided to exit; loop 1 is started, loop 0 cleans up and loop 2 is
started. Loops 1 and 2 fetch the same two calls, and loop 1 processes both. -/
def overtaken : List Label :=
  [.insert (tallyCall 1 1), .insert (tallyCall 2 2), .act .ensure] ++ loopSteps 0 false 7 ++
    [.act .ensure] ++ loopSteps 0 true 1 ++ [.act .ensure] ++ loopSteps 1 true 6 ++
    loopSteps 2 true 6 ++ loopSteps 1 true 18

theorem overtaken_loop_runs_twice :
    ∃ s t, (machine tally).Reachable Machine.Any s ∧
      (machine tally).Steps Machine.Any s (loopSteps 2 true 5) t ∧
      ¬ t.SingleLoop ∧ ¬ t.processed.Nodup ∧ t.inst.obj.nextRcseq < s.inst.obj.nextRcseq := by
  have hrun : ((machine tally).exec Machine.Any tallyStart overtaken).any (fun s =>
      ((machine tally).exec Machine.Any s (loopSteps 2 true 5)).any fun t =>
        decide (¬ t.SingleLoop ∧ ¬ t.processed.Nodup ∧
          t.inst.obj.nextRcseq < s.inst.obj.nextRcseq)) = true := by
    decide
  obtain ⟨s, hs, hrest⟩ := Machine.exec_any hrun
  obtain ⟨t, ht, hbad⟩ := Machine.exec_any hrest
  exact ⟨s, t, ⟨tallyStart, overtaken, ⟨⟨lit "o", [], 0, rfl⟩, rfl⟩, hs⟩, ht,
    of_decide_eq_true hbad⟩

/-- Here loop 0 cleans up before loop 1 is started. -/
def handedOver : List Label :=
  [.insert (tallyCall 1 1), .act .ensure] ++ loopSteps 0 true 24 ++
    [.insert (tallyCall 2 2), .act (.call 2), .act (.register 0)] ++ loopSteps 1 true 15

theorem reliable_calls_run_at_most_once_handedOver :
    ∃ t, (machine tally).Steps CleanupAlone tallyStart handedOver t ∧
      t.processed = [1, 2] ∧ t.SingleLoop ∧ t.processed.Nodup ∧
      tallyStart.inst.obj.nextRcseq ≤ t.inst.obj.nextRcseq := by
  have hrun : ((machine tally).exec CleanupAlone tallyStart handedOver).any (fun t =>
      decide (t.processed = [1, 2])) = true := by
    decide
  obtain ⟨t, ht, hprocessed⟩ := Machine.exec_any hrun
  have hstart : (machine tally).Reachable CleanupAlone tallyStart :=
    .init ⟨⟨lit "o", [], 0, rfl⟩, rfl⟩
  exact ⟨t, ht, of_decide_eq_true hprocessed, reliable_calls_run_at_most_once tally hstart ht⟩

end Activation
end Goverse.Object
