import Goverse.Node.Host

/-! The object map of a node over every interleaving. Whoever reads or writes the entry of an
id beyond the first test of `createObject` holds the lifecycle lock of that id, and whoever
holds a lifecycle lock holds `stopMu`; so what a thread has learned about its id stays true
while the other threads move. -/
namespace Goverse.Node

open Postgres Lib Object

variable {σ μ : Type}

namespace TaskPC

/-- The thread has found the node running and has not yet left it. -/
def working : TaskPC μ → Bool
  | .checkStopped _ | .leave => false
  | pc => pc.stopMode = some .shared

/-- The thread is a `Stop` that has set `stopped`. -/
def stopping : TaskPC μ → Bool
  | .stopPersistence | .lockStop | .stopDone => true
  | pc => pc.stopMode = some .exclusive

/-- `Stop` has emptied the map. -/
def cleared : TaskPC μ → Bool
  | .destroyAll _ | .unlockStop | .stopDone => true
  | _ => false

/-- The thread is inside `Destroy` of instance `k`, or is going to call it. -/
def destroys (k : Nat) : TaskPC μ → Bool
  | .destroy _ k' => k' = k
  | .destroyAll ks => k ∈ ks
  | _ => false

/-- The thread is inside a method of instance `k`. -/
def invokes (k : Nat) : TaskPC μ → Bool
  | .invoke _ k' => k' = k
  | _ => false

/-- The thread is a `CallObject` on `id`, between its `RLock` and its `RUnlock`. -/
def calls (id : GoString) : TaskPC μ → Bool
  | .find cr | .checkType cr _ | .invoke cr _ => cr.id = id
  | .runlockKey id' => id' = id
  | _ => false

variable {pc : TaskPC μ}

theorem holds_lifecycle {id : GoString} {mode : Mode} (h : pc.keyMode = some (id, mode)) :
    pc.holds (.lifecycle id) = some mode := by
  simp [holds, h]

private theorem stopMode_of_keyMode (h : pc.keyMode ≠ none) : pc.stopMode ≠ none := by
  cases pc <;> simp_all [keyMode, stopMode]

theorem stopMode_of_working (h : pc.working = true) : pc.stopMode = some .shared := by
  cases pc <;> simp_all [working, stopMode]

private theorem working_of_cleared (h : pc.cleared = true) : pc.working = false := by
  cases pc <;> simp_all [working, cleared, stopMode]

theorem stopMode_of_cleared (h : pc.cleared = true) :
    pc = .stopDone ∨ pc.stopMode = some .exclusive := by
  cases pc <;> simp_all [cleared, stopMode]

private theorem stopDone_of_cleared (h : (pc.cleared && pc.stopMode.isNone) = true) :
    pc = .stopDone := by
  obtain ⟨hcleared, hnone⟩ := (Bool.and_eq_true _ _).mp h
  refine (stopMode_of_cleared hcleared).resolve_right fun hexclusive => ?_
  rw [hexclusive] at hnone
  contradiction

theorem invoke_of_invokes {k : Nat} (h : pc.invokes k = true) : ∃ cr, pc = .invoke cr k := by
  cases pc <;> simp_all [invokes]

end TaskPC

@[simp] theorem Creation.next_outside (cr : Creation μ) (ok : Bool) :
    (cr.next ok).stopping = false ∧ (cr.next ok).cleared = false := by
  unfold Creation.next
  split <;> exact ⟨rfl, rfl⟩

@[simp] theorem Creation.next_calls (cr : Creation μ) (ok : Bool) (id : GoString) :
    (cr.next ok).calls id = false := by
  unfold Creation.next
  split <;> rfl

@[simp] theorem Creation.next_ne_stopDone (cr : Creation μ) (ok : Bool) :
    cr.next ok ≠ .stopDone := by
  unfold Creation.next
  split <;> simp

/-- The parts of an instance that a thread relies on. -/
structure Slot.Same (old new : Slot σ μ) : Prop where
  type : new.type = old.type
  id : new.inst.obj.id = old.inst.obj.id
  restored : new.restored = old.restored
  created : new.created = old.created
  cancelled : new.inst.obj.cancelled = old.inst.obj.cancelled

namespace Host

variable {s t : Host σ μ} {self : Nat} {pc pc' : TaskPC μ}

/-! ### `stopMu` -/

theorem Walks.holds (h : Walks s pc pc') {lock : Lock} {mode : Mode}
    (hmode : pc'.holds lock = some mode) : pc.holds lock = some mode := by
  cases h with
  | enter hrunning =>
    rename_i task
    cases task <;> cases lock <;>
      simp_all [firstPC, TaskPC.holds, TaskPC.stopMode, TaskPC.keyMode]
  | there =>
    unfold Creation.next at hmode
    split at hmode <;> cases lock <;> simp_all [TaskPC.holds, TaskPC.stopMode, TaskPC.keyMode]
  | _ => cases lock <;> simp_all [TaskPC.holds, TaskPC.stopMode, TaskPC.keyMode]

theorem Takes.holds {lock : Lock} {mode : Mode} (h : Takes pc lock mode pc') :
    pc'.holds lock = some mode := by
  cases h <;> simp [TaskPC.holds, TaskPC.stopMode, TaskPC.keyMode]

theorem Takes.holds_other {lock other : Lock} {mode mode' : Mode} (h : Takes pc lock mode pc')
    (hne : other ≠ lock) (hmode : pc'.holds other = some mode') : pc.holds other = some mode' := by
  cases h <;> cases other <;> simp_all [TaskPC.holds, TaskPC.stopMode, TaskPC.keyMode]

theorem Releases.holds {lock : Lock} {mode : Mode} (h : Releases pc lock mode pc') :
    pc.holds lock = some mode ∧ pc'.holds lock = none := by
  cases h with
  | create =>
    unfold Creation.next
    split <;> simp [TaskPC.holds, TaskPC.keyMode]
  | _ => simp [TaskPC.holds, TaskPC.stopMode, TaskPC.keyMode]

theorem Releases.holds_other {lock other : Lock} {mode mode' : Mode}
    (h : Releases pc lock mode pc') (hne : other ≠ lock)
    (hmode : pc'.holds other = some mode') : pc.holds other = some mode' := by
  cases h with
  | create =>
    unfold Creation.next at hmode
    split at hmode <;> cases other <;>
      simp_all [TaskPC.holds, TaskPC.stopMode, TaskPC.keyMode]
  | _ => cases other <;> simp_all [TaskPC.holds, TaskPC.stopMode, TaskPC.keyMode]

theorem Stores.holds (h : Stores pc pc') {lock : Lock} {mode : Mode}
    (hmode : pc'.holds lock = some mode) : pc.holds lock = some mode := by
  cases h <;> cases lock <;> simp_all [TaskPC.holds, TaskPC.stopMode, TaskPC.keyMode]

/-- A step of a thread as `Stop` and the callers of an object see it. -/
structure Moves (s t : Host σ μ) (i : Nat) (pc pc' : TaskPC μ) : Prop where
  threads : t.threads = s.threads.set i pc'
  types : t.objectTypes = s.objectTypes
  stopped : s.stopped = true → t.stopped = true
  working : pc'.working = true → pc.working = true ∨ s.stopped = false
  stopping : pc'.stopping = true → pc.stopping = true ∨ t.stopped = true
  cleared : pc'.cleared = true → pc.cleared = true ∨ t.objects = ∅
  objects : s.objects = ∅ → pc.working = true ∨ t.objects = ∅
  done : pc ≠ .stopDone
  finish : pc' = .stopDone → pc.stopMode = some .exclusive
  calls : ∀ id, pc'.calls id = true → pc.calls id = true ∨ ∃ cr, pc = .rlockKey cr ∧ cr.id = id

theorem Walks.moves (h : Walks s pc pc') : s.Moves (s.goto self pc') self pc pc' := by
  cases h with
  | enter hrunning =>
    rename_i task
    refine ⟨rfl, rfl, id, fun _ => .inr hrunning, ?_, ?_, .inr, by simp, ?_, ?_⟩ <;>
      cases task <;>
      simp [firstPC, TaskPC.stopping, TaskPC.cleared, TaskPC.stopMode, TaskPC.calls]
  | there =>
    exact ⟨rfl, rfl, id, fun _ => .inl rfl, by simp, by simp, .inr, by simp, by simp, by simp⟩
  | _ =>
    refine ⟨rfl, rfl, id, ?_, ?_, ?_, .inr, by simp, ?_, ?_⟩ <;>
      simp_all [TaskPC.working, TaskPC.stopping, TaskPC.cleared, TaskPC.stopMode, TaskPC.calls]

theorem Takes.moves {lock : Lock} {l : RWLock} {mode : Mode} (h : Takes pc lock mode pc') :
    s.Moves ((s.relock lock l).goto self pc') self pc pc' := by
  cases h <;> refine ⟨rfl, rfl, id, ?_, ?_, ?_, .inr, by simp, by simp, ?_⟩ <;>
    simp_all [TaskPC.working, TaskPC.stopping, TaskPC.cleared, TaskPC.stopMode, TaskPC.calls]

theorem Releases.moves {lock : Lock} {l : RWLock} {mode : Mode} (h : Releases pc lock mode pc') :
    s.Moves ((s.relock lock l).goto self pc') self pc pc' := by
  cases h with
  | create =>
    exact ⟨rfl, rfl, id, fun _ => .inl rfl, by simp, by simp, .inr, by simp, by simp, by simp⟩
  | _ =>
    refine ⟨rfl, rfl, id, ?_, ?_, ?_, .inr, by simp, ?_, ?_⟩ <;>
      simp_all [TaskPC.working, TaskPC.stopping, TaskPC.cleared, TaskPC.stopMode, TaskPC.calls]

theorem Stores.moves {db : DB} (h : Stores pc pc') :
    s.Moves ({ s with db := db }.goto self pc') self pc pc' := by
  cases h <;> refine ⟨rfl, rfl, id, ?_, ?_, ?_, .inr, by simp, by simp, ?_⟩ <;>
    simp_all [TaskPC.working, TaskPC.stopping, TaskPC.cleared, TaskPC.stopMode, TaskPC.calls]

private theorem moves_inside (hthreads : t.threads = s.threads.set self pc')
    (htypes : t.objectTypes = s.objectTypes) (hstopped : t.stopped = s.stopped)
    (hpc : pc.working = true) (hpc' : pc'.working = true)
    (hcalls : ∀ id, pc'.calls id = true → pc.calls id = true) : s.Moves t self pc pc' := by
  have hshared := TaskPC.stopMode_of_working hpc'
  refine ⟨hthreads, htypes, fun h => hstopped.trans h, fun _ => .inl hpc, ?_, ?_,
    fun _ => .inl hpc, ?_, ?_, fun id h => .inl (hcalls id h)⟩
  · intro hstopping
    cases pc' <;> simp_all [TaskPC.stopping, TaskPC.stopMode]
  · intro hcleared
    rw [TaskPC.working_of_cleared hcleared] at hpc'
    contradiction
  · rintro rfl
    contradiction
  · rintro rfl
    contradiction

theorem TaskCase.moves (h : TaskCase s self pc t) : ∃ pc', s.Moves t self pc pc' := by
  cases h with
  | walk hwalk => exact ⟨_, hwalk.moves⟩
  | setStopped =>
    refine ⟨_, rfl, rfl, fun _ => rfl, ?_, fun _ => .inr rfl, ?_, .inr, by simp, by simp, ?_⟩ <;>
      simp [TaskPC.working, TaskPC.cleared, TaskPC.stopMode, TaskPC.calls]
  | rlock htakes | lock htakes => exact ⟨_, htakes.moves⟩
  | runlock hreleases | unlock hreleases => exact ⟨_, hreleases.moves⟩
  | store hstores => exact ⟨_, hstores.moves⟩
  | onCreated hk hpc' =>
    refine ⟨_, moves_inside rfl rfl rfl rfl ?_ ?_⟩
    · rcases hpc' with rfl | rfl <;> rfl
    · rcases hpc' with rfl | rfl <;> simp [TaskPC.calls]
  | clear =>
    refine ⟨_, rfl, rfl, id, ?_, ?_, fun _ => .inr rfl, fun _ => .inr rfl, by simp, by simp, ?_⟩ <;>
      simp [TaskPC.working, TaskPC.stopping, TaskPC.stopMode, TaskPC.calls]
  | destroyNext hk =>
    refine ⟨_, rfl, rfl, id, ?_, fun _ => .inl rfl, fun _ => .inl rfl, .inr, by simp, by simp,
      ?_⟩ <;> simp [TaskPC.working, TaskPC.stopMode, TaskPC.calls]
  | _ => exact ⟨_, moves_inside rfl rfl rfl rfl rfl (by simp [TaskPC.calls])⟩

theorem TaskCase.disciplined (h : TaskCase s self pc t) (hpc : s.threads[self]? = some pc)
    (hs : Disciplined s.locks TaskPC.holds s.threads) :
    Disciplined t.locks TaskPC.holds t.threads := by
  cases h with
  | walk hwalk => exact hs.move hpc fun _ _ => hwalk.holds
  | rlock htakes hl => exact hs.rlock hpc hl htakes.holds fun _ _ => htakes.holds_other
  | lock htakes hl => exact hs.lock hpc hl htakes.holds fun _ _ => htakes.holds_other
  | runlock hreleases =>
    exact hs.runlock hpc hreleases.holds.2 fun _ _ => hreleases.holds_other
  | unlock hreleases =>
    exact hs.unlock hpc hreleases.holds.1 hreleases.holds.2 fun _ _ => hreleases.holds_other
  | store hstores => exact hs.move hpc fun _ _ => hstores.holds
  | onCreated hk hpc' =>
    refine hs.move hpc fun lock mode hmode => ?_
    rcases hpc' with rfl | rfl <;> exact hmode
  | setStopped =>
    refine hs.move hpc fun lock mode hmode => ?_
    cases lock <;> simp [TaskPC.holds, TaskPC.stopMode, TaskPC.keyMode] at hmode
  | _ => exact hs.move hpc fun lock mode hmode => hmode

/-- What a `Stop` may rely on. -/
structure Orderly (s : Host σ μ) : Prop where
  disciplined : Disciplined s.locks TaskPC.holds s.threads
  stopped : ∀ pc ∈ s.threads, pc.stopping = true → s.stopped = true
  ended : .stopDone ∈ s.threads → ∀ pc ∈ s.threads, pc.working = false
  cleared : ∀ pc ∈ s.threads, pc.cleared = true → s.objects = ∅

theorem Orderly.not_working (h : s.Orderly) (hpc : pc ∈ s.threads)
    (hexclusive : pc.stopMode = some .exclusive) {other : TaskPC μ} (hother : other ∈ s.threads) :
    other.working = false := by
  by_contra hworking
  have hshared := TaskPC.stopMode_of_working (by simpa using hworking)
  obtain ⟨i, hi⟩ := List.mem_iff_getElem?.mp hpc
  obtain ⟨j, hj⟩ := List.mem_iff_getElem?.mp hother
  obtain rfl := h.disciplined.excludes (k := .stopMu) hi hexclusive hj
    (by simp [TaskPC.holds, hshared])
  rw [hi] at hj
  cases hj
  rw [hshared] at hexclusive
  contradiction

theorem Orderly.not_cleared (h : s.Orderly) (hpc : pc ∈ s.threads) (hworking : pc.working = true)
    {other : TaskPC μ} (hother : other ∈ s.threads) : other.cleared = false := by
  by_contra hcleared
  have hidle : pc.working = false := by
    rcases TaskPC.stopMode_of_cleared (by simpa using hcleared) with rfl | hexclusive
    · exact h.ended hother pc hpc
    · exact h.not_working hother hexclusive hpc
  rw [hidle] at hworking
  contradiction

theorem Orderly.ended_thread (h : s.Orderly) (hpc : s.threads[self]? = some pc)
    (hm : s.Moves t self pc pc') (hdone : .stopDone ∈ t.threads) {other : TaskPC μ}
    (hother : other ∈ t.threads) : other.working = false := by
  have hmem := List.mem_of_getElem? hpc
  rw [hm.threads] at hdone hother
  have hold : ∀ old ∈ s.threads, old.working = false := by
    rcases mem_set_cases hdone with hpc' | ⟨i, -, hi⟩
    · exact fun old => h.not_working hmem (hm.finish hpc'.symm)
    · exact h.ended (List.mem_of_getElem? hi)
  rcases eq_or_mem_of_mem_set hother with rfl | hj
  · by_contra hworking
    rcases hm.working (by simpa using hworking) with hpcw | hrunning
    · rw [hold pc hmem] at hpcw
      contradiction
    · rcases eq_or_mem_of_mem_set hdone with rfl | hi
      · contradiction
      · rw [h.stopped _ hi rfl] at hrunning
        contradiction
  · exact hold other hj

theorem Orderly.thread (h : s.Orderly) (hpc : s.threads[self]? = some pc)
    (hcase : TaskCase s self pc t) : t.Orderly := by
  obtain ⟨pc', hm⟩ := hcase.moves
  have hmem := List.mem_of_getElem? hpc
  have hempty : ∀ other ∈ s.threads, other.cleared = true → t.objects = ∅ := by
    intro other hother hcleared
    rcases hm.objects (h.cleared other hother hcleared) with hworking | hobjects
    · rw [h.not_cleared hmem hworking hother] at hcleared
      contradiction
    · exact hobjects
  refine ⟨hcase.disciplined hpc h.disciplined, ?_, ?_, ?_⟩
  · intro other hother hstopping
    rw [hm.threads] at hother
    rcases eq_or_mem_of_mem_set hother with rfl | hj
    · rcases hm.stopping hstopping with hold | hstopped
      · exact hm.stopped (h.stopped pc hmem hold)
      · exact hstopped
    · exact hm.stopped (h.stopped other hj hstopping)
  · exact fun hdone other hother => h.ended_thread hpc hm hdone hother
  · intro other hother hcleared
    rw [hm.threads] at hother
    rcases eq_or_mem_of_mem_set hother with rfl | hj
    · rcases hm.cleared hcleared with hold | hobjects
      · exact hempty pc hmem hold
      · exact hobjects
    · exact hempty other hj hcleared

theorem Orderly.of_eq (h : s.Orderly) (hlocks : t.locks = s.locks)
    (hthreads : t.threads = s.threads) (hstopped : t.stopped = s.stopped)
    (hobjects : t.objects = s.objects) : t.Orderly := by
  refine ⟨?_, ?_, ?_, ?_⟩
  · rw [hlocks, hthreads]
    exact h.disciplined
  · rw [hthreads, hstopped]
    exact h.stopped
  · rw [hthreads]
    exact h.ended
  · rw [hthreads, hobjects]
    exact h.cleared

theorem Orderly.spawn (h : s.Orderly) (task : Task μ) :
    Orderly { s with threads := s.threads ++ [.start task] } := by
  refine ⟨h.disciplined.spawn fun lock => by cases lock <;> rfl, ?_, ?_, ?_⟩
  · intro pc hpc hstopping
    rcases List.mem_append.mp hpc with hpc | hpc
    · exact h.stopped pc hpc hstopping
    · rw [List.mem_singleton.mp hpc] at hstopping
      contradiction
  · intro hdone pc hpc
    rcases mem_concat_cases hpc with hpc | rfl
    · refine h.ended ?_ pc hpc
      simpa using hdone
    · rfl
  · intro pc hpc hcleared
    rcases List.mem_append.mp hpc with hpc | hpc
    · exact h.cleared pc hpc hcleared
    · rw [List.mem_singleton.mp hpc] at hcleared
      contradiction

theorem Orderly.step (h : s.Orderly) {label : Label μ} (hstep : s.step label = some t) :
    t.Orderly := by
  cases step_case hstep with
  | spawn => exact h.spawn _
  | thread hpc hcase => exact h.thread hpc hcase
  | act | insert => exact h.of_eq rfl rfl rfl rfl

/-! ### The entry of an id -/

/-- Instance `k` is an instance of `typ` for `id` that was not destroyed, with `FromData`
and `OnCreated` completed so many times. -/
def Ready (s : Host σ μ) (k : Nat) (id typ : GoString) (restored created : Nat) : Prop :=
  ∃ slot, s.slots[k]? = some slot ∧ slot.inst.obj.id = id ∧ slot.type.name = typ ∧
    slot.restored = restored ∧ slot.created = created ∧ slot.inst.obj.cancelled = false

def Belongs (s : Host σ μ) (k : Nat) (id : GoString) : Prop :=
  ∃ slot, s.slots[k]? = some slot ∧ slot.inst.obj.id = id

/-- What a thread has learned about its id since it took the lock. -/
def Knows (s : Host σ μ) : TaskPC μ → Prop
  | .allocate cr => s.objects.lookup cr.id = none
  | .restore cr k => s.objects.lookup cr.id = none ∧ s.Ready k cr.id cr.typ 0 0
  | .publish cr k => s.objects.lookup cr.id = none ∧ s.Ready k cr.id cr.typ 1 0
  | .onCreated cr k => s.objects.lookup cr.id = some k ∧ s.Ready k cr.id cr.typ 1 0
  | .ensure cr k => s.objects.lookup cr.id = some k ∧ s.Ready k cr.id cr.typ 1 1
  | .checkType cr k => s.objects.lookup cr.id = some k ∧ ∃ typ, s.Ready k cr.id typ 1 1
  | .invoke cr k => s.objects.lookup cr.id = some k ∧ s.Ready k cr.id cr.typ 1 1
  | .destroy id k => s.objects.lookup id = none ∧ s.Belongs k id
  | _ => True

/-- An instance in the map is complete, or its creator is inside `OnCreated`. -/
def Entry (s : Host σ μ) (id : GoString) (k : Nat) : Prop :=
  (∃ typ, s.Ready k id typ 1 1) ∨ ∃ cr, cr.id = id ∧ .onCreated cr k ∈ s.threads

structure Registered (s : Host σ μ) : Prop where
  named : ∀ typ T, s.objectTypes typ = some T → T.name = typ
  mapped : ∀ id k, s.objects.lookup id = some k → s.Entry id k
  knows : ∀ pc ∈ s.threads, s.Knows pc

/-- A step that leaves the entry and the instances of `id` alone. -/
structure Agree (s t : Host σ μ) (id : GoString) : Prop where
  lookup : t.objects.lookup id = s.objects.lookup id
  slots : ∀ (k : Nat) (slot : Slot σ μ), s.slots[k]? = some slot → slot.inst.obj.id = id →
    ∃ new, t.slots[k]? = some new ∧ slot.Same new

namespace Agree

variable {id : GoString} {k : Nat}

theorem of_eq (hobjects : t.objects = s.objects) (hslots : t.slots = s.slots) : s.Agree t id := by
  refine ⟨by rw [hobjects], fun k slot hk _ => ⟨slot, ?_, rfl, rfl, rfl, rfl, rfl⟩⟩
  rw [hslots]
  exact hk

private theorem of_append {more : List (Slot σ μ)} (hobjects : t.objects = s.objects)
    (hslots : t.slots = s.slots ++ more) : s.Agree t id := by
  refine ⟨by rw [hobjects], fun k slot hk _ => ⟨slot, ?_, rfl, rfl, rfl, rfl, rfl⟩⟩
  rw [hslots, List.getElem?_append_left (List.getElem?_eq_some_iff.mp hk).1]
  exact hk

theorem of_same {old new : Slot σ μ} (hobjects : t.objects = s.objects)
    (hslots : t.slots = s.slots.set k new) (hk : s.slots[k]? = some old) (hsame : old.Same new) :
    s.Agree t id := by
  refine ⟨by rw [hobjects], fun j slot hj _ => ?_⟩
  rw [hslots]
  by_cases hjk : j = k
  · subst hjk
    rw [hk] at hj
    cases hj
    exact ⟨new, getElem?_set_same hk, hsame⟩
  · rw [List.getElem?_set_ne (Ne.symm hjk)]
    exact ⟨slot, hj, rfl, rfl, rfl, rfl, rfl⟩

theorem of_ne {old new : Slot σ μ} (hobjects : t.objects = s.objects)
    (hslots : t.slots = s.slots.set k new) (hk : s.slots[k]? = some old)
    (hne : id ≠ old.inst.obj.id) : s.Agree t id := by
  refine ⟨by rw [hobjects], fun j slot hj hid => ⟨slot, ?_, rfl, rfl, rfl, rfl, rfl⟩⟩
  rw [hslots, List.getElem?_set_ne]
  · exact hj
  · rintro rfl
    rw [hk] at hj
    cases hj
    exact hne hid.symm

theorem ready (h : s.Agree t id) {typ : GoString} {restored created : Nat}
    (hready : s.Ready k id typ restored created) : t.Ready k id typ restored created := by
  obtain ⟨slot, hk, hid, htype, hrestored, hcreated, hcancelled⟩ := hready
  obtain ⟨new, hnew, hsame⟩ := h.slots k slot hk hid
  exact ⟨new, hnew, hsame.id.trans hid, hsame.type ▸ htype, hsame.restored.trans hrestored,
    hsame.created.trans hcreated, hsame.cancelled.trans hcancelled⟩

theorem belongs (h : s.Agree t id) (hbelongs : s.Belongs k id) : t.Belongs k id := by
  obtain ⟨slot, hk, hid⟩ := hbelongs
  obtain ⟨new, hnew, hsame⟩ := h.slots k slot hk hid
  exact ⟨new, hnew, hsame.id.trans hid⟩

theorem knows (h : ∀ id mode, pc.keyMode = some (id, mode) → s.Agree t id) (hpc : s.Knows pc) :
    t.Knows pc := by
  cases pc with
  | allocate cr => exact (h cr.id _ rfl).lookup.trans hpc
  | restore cr k | publish cr k | onCreated cr k | ensure cr k | invoke cr k =>
    exact ⟨(h cr.id _ rfl).lookup.trans hpc.1, (h cr.id _ rfl).ready hpc.2⟩
  | checkType cr k =>
    obtain ⟨typ, hready⟩ := hpc.2
    exact ⟨(h cr.id _ rfl).lookup.trans hpc.1, typ, (h cr.id _ rfl).ready hready⟩
  | destroy id k => exact ⟨(h id _ rfl).lookup.trans hpc.1, (h id _ rfl).belongs hpc.2⟩
  | _ => trivial

end Agree

theorem next_knows (cr : Creation μ) (ok : Bool) : s.Knows (cr.next ok) := by
  unfold Creation.next
  split <;> trivial

theorem Releases.knows {lock : Lock} {mode : Mode} (h : Releases pc lock mode pc') :
    s.Knows pc' := by
  cases h with
  | create =>
    rename_i cr ok
    exact next_knows cr ok
  | _ => trivial

namespace Registered

theorem advance (h : s.Registered) (hthreads : t.threads = s.threads.set self pc')
    (htypes : t.objectTypes = s.objectTypes)
    (hothers : ∀ (j : Nat) (other : TaskPC μ), j ≠ self → s.threads[j]? = some other →
      ∀ id mode, other.keyMode = some (id, mode) → s.Agree t id)
    (hpc' : t.Knows pc') (hmapped : ∀ id k, t.objects.lookup id = some k → t.Entry id k) :
    t.Registered := by
  refine ⟨by rw [htypes]; exact h.named, hmapped, fun other hother => ?_⟩
  rw [hthreads] at hother
  rcases mem_set_cases hother with rfl | ⟨j, hne, hj⟩
  · exact hpc'
  · exact Agree.knows (hothers j other hne hj) (h.knows other (List.mem_of_getElem? hj))

theorem still (h : s.Registered) (hpc : s.threads[self]? = some pc)
    (hthreads : t.threads = s.threads.set self pc') (htypes : t.objectTypes = s.objectTypes)
    (hagree : ∀ id, s.Agree t id) (hcreating : ∀ cr k, pc ≠ .onCreated cr k)
    (hpc' : t.Knows pc') : t.Registered := by
  refine h.advance hthreads htypes (fun _ _ _ _ id _ _ => hagree id) hpc' fun id k hk => ?_
  rw [(hagree id).lookup] at hk
  rcases h.mapped id k hk with ⟨typ, hready⟩ | ⟨cr, hid, hcr⟩
  · exact .inl ⟨typ, (hagree id).ready hready⟩
  · refine .inr ⟨cr, hid, ?_⟩
    rw [hthreads]
    exact (eq_or_mem_set hpc hcr).resolve_left fun heq => hcreating cr k heq.symm

theorem exclusive (h : s.Registered) (ho : s.Orderly) (hpc : s.threads[self]? = some pc)
    (hthreads : t.threads = s.threads.set self pc') (htypes : t.objectTypes = s.objectTypes)
    {id : GoString} (hkey : pc.keyMode = some (id, .exclusive))
    (hagree : ∀ other, other ≠ id → s.Agree t other) (hpc' : t.Knows pc')
    (hown : ∀ k, t.objects.lookup id = some k → t.Entry id k) : t.Registered := by
  refine h.advance hthreads htypes ?_ hpc' ?_
  · intro j other hne hj id' mode hmode
    refine hagree id' ?_
    rintro rfl
    refine hne (ho.disciplined.excludes hpc (TaskPC.holds_lifecycle hkey) hj ?_)
    rw [TaskPC.holds_lifecycle hmode]
    simp
  · intro id' k hk
    by_cases hid : id' = id
    · subst hid
      exact hown k hk
    · have hold := hagree id' hid
      rw [hold.lookup] at hk
      rcases h.mapped id' k hk with ⟨typ, hready⟩ | ⟨cr, rfl, hcr⟩
      · exact .inl ⟨typ, hold.ready hready⟩
      · refine .inr ⟨cr, rfl, ?_⟩
        rw [hthreads]
        refine (eq_or_mem_set hpc hcr).resolve_left ?_
        rintro rfl
        exact hid (congrArg Prod.fst (Option.some.inj hkey))

theorem alone (h : s.Registered) (ho : s.Orderly) (hpc : s.threads[self]? = some pc)
    (hthreads : t.threads = s.threads.set self pc') (htypes : t.objectTypes = s.objectTypes)
    (hexclusive : pc.stopMode = some .exclusive) (hempty : t.objects = ∅) (hpc' : t.Knows pc') :
    t.Registered := by
  refine h.advance hthreads htypes ?_ hpc' ?_
  · intro j other hne hj id mode hmode
    refine absurd (ho.disciplined.excludes (k := .stopMu) hpc hexclusive hj ?_) hne
    exact TaskPC.stopMode_of_keyMode (by simp [hmode])
  · intro id k hk
    rw [hempty] at hk
    simp at hk

theorem complete (h : s.Registered) (ho : s.Orderly) (hpc : s.threads[self]? = some pc)
    {id : GoString} {k : Nat} (hkey : pc.keyMode = some (id, .shared))
    (hk : s.objects.lookup id = some k) : ∃ typ, s.Ready k id typ 1 1 := by
  rcases h.mapped id k hk with hready | ⟨cr, rfl, hcr⟩
  · exact hready
  · obtain ⟨j, hj⟩ := List.mem_iff_getElem?.mp hcr
    obtain rfl := ho.disciplined.excludes (k := .lifecycle cr.id) hj
      (TaskPC.holds_lifecycle rfl) hpc (by simp [TaskPC.holds_lifecycle hkey])
    rw [hpc] at hj
    cases hj
    simp [TaskPC.keyMode] at hkey

theorem belongs (h : s.Registered) {id : GoString} {k : Nat}
    (hk : s.objects.lookup id = some k) : s.Belongs k id := by
  have hready : ∃ typ created, s.Ready k id typ 1 created := by
    rcases h.mapped id k hk with ⟨typ, hready⟩ | ⟨cr, rfl, hcr⟩
    · exact ⟨typ, 1, hready⟩
    · exact ⟨cr.typ, 0, (h.knows _ hcr).2⟩
  obtain ⟨typ, created, slot, hslot, hid, -⟩ := hready
  exact ⟨slot, hslot, hid⟩

private theorem walk_knows (h : s.Registered) (ho : s.Orderly) (hpc : s.threads[self]? = some pc)
    (hwalk : Walks s pc pc') : s.Knows pc' := by
  have hknows := h.knows pc (List.mem_of_getElem? hpc)
  cases hwalk with
  | absentLocked hnone => exact hnone
  | found hk => exact ⟨hk, h.complete ho hpc rfl hk⟩
  | typed htype =>
    obtain ⟨hk, typ, slot, hslot, hid, hname, hrest⟩ := hknows
    refine ⟨hk, slot, hslot, hid, ?_, hrest⟩
    simpa [typeName, hslot] using htype
  | enter => rename_i task _; cases task <;> trivial
  | there =>
    rename_i cr ok
    exact next_knows cr ok
  | _ => trivial

theorem walk (h : s.Registered) (ho : s.Orderly) (hpc : s.threads[self]? = some pc)
    (hwalk : Walks s pc pc') : (s.goto self pc').Registered := by
  refine h.still hpc rfl rfl (fun _ => .of_eq rfl rfl) ?_ ?_
  · rintro cr k rfl
    cases hwalk
  · exact Agree.knows (fun _ _ _ => .of_eq rfl rfl) (h.walk_knows ho hpc hwalk)

theorem allocate (h : s.Registered) {cr : Creation μ} {T : ObjectType σ μ}
    (hpc : s.threads[self]? = some (.allocate cr)) (hT : s.objectTypes cr.typ = some T)
    (ht : t = { s with slots := s.slots ++ [(⟨T, .start cr.id T.blank 0, 0, 0⟩ : Slot σ μ)] }.goto
      self (.restore cr s.slots.length)) : t.Registered := by
  subst ht
  refine h.still hpc rfl rfl (fun _ => .of_append rfl rfl) (by simp) ⟨?_, ?_⟩
  · exact h.knows _ (List.mem_of_getElem? hpc)
  · exact ⟨_, List.getElem?_concat_length, rfl, h.named _ _ hT, rfl, rfl, rfl⟩

variable {cr : Creation μ} {k : Nat} {slot : Slot σ μ}

theorem restore (h : s.Registered) (ho : s.Orderly)
    (hpc : s.threads[self]? = some (.restore cr k)) (hk : s.slots[k]? = some slot) (data : σ)
    (nextRcseq : Int) :
    ((s.setSlot k ⟨slot.type, .start cr.id data nextRcseq, slot.restored + 1,
      slot.created⟩).goto self (.publish cr k)).Registered := by
  obtain ⟨hnone, slot', hk', hid, htype, hrestored, hcreated, -⟩ :=
    h.knows _ (List.mem_of_getElem? hpc)
  rw [hk] at hk'
  cases hk'
  refine h.exclusive ho hpc rfl rfl rfl ?_ ⟨hnone, ?_⟩ ?_
  · intro other hne
    exact .of_ne rfl rfl hk (by rwa [hid])
  · exact ⟨_, getElem?_set_same hk, rfl, htype,
      by simp [hrestored], hcreated, rfl⟩
  · intro k' hk'
    exact absurd (hk'.symm.trans hnone) (by simp)

theorem publish (h : s.Registered) (ho : s.Orderly)
    (hpc : s.threads[self]? = some (.publish cr k)) :
    ({ s with objects := s.objects.insert cr.id k }.goto self (.onCreated cr k)).Registered := by
  obtain ⟨hnone, hready⟩ := h.knows _ (List.mem_of_getElem? hpc)
  refine h.exclusive ho hpc rfl rfl rfl ?_ ⟨AList.lookup_insert _, hready⟩ ?_
  · intro other hne
    exact ⟨AList.lookup_insert_ne hne, (Agree.of_eq rfl rfl).slots⟩
  · intro k' hk'
    obtain rfl := Option.some.inj ((AList.lookup_insert _).symm.trans hk')
    exact .inr ⟨cr, rfl, mem_set_self hpc⟩

theorem onCreated (h : s.Registered) (ho : s.Orderly)
    (hpc : s.threads[self]? = some (.onCreated cr k)) (hk : s.slots[k]? = some slot)
    (hpc' : pc' = .ensure cr k ∨ pc' = .unlockKey cr true) :
    ((s.setSlot k ⟨slot.type, slot.inst, slot.restored, slot.created + 1⟩).goto self
      pc').Registered := by
  obtain ⟨hlookup, slot', hk', hid, htype, hrestored, hcreated, hlive⟩ :=
    h.knows _ (List.mem_of_getElem? hpc)
  rw [hk] at hk'
  cases hk'
  have hready : ((s.setSlot k ⟨slot.type, slot.inst, slot.restored, slot.created + 1⟩).goto self
      pc').Ready k cr.id cr.typ 1 1 :=
    ⟨_, getElem?_set_same hk, hid, htype, hrestored,
      by simp [hcreated], hlive⟩
  refine h.exclusive ho hpc rfl rfl rfl ?_ ?_ ?_
  · intro other hne
    exact .of_ne rfl rfl hk (by rwa [hid])
  · rcases hpc' with rfl | rfl
    · exact ⟨hlookup, hready⟩
    · trivial
  · intro k' hk'
    obtain rfl := Option.some.inj (hlookup.symm.trans hk')
    exact .inl ⟨cr.typ, hready⟩

theorem remove (h : s.Registered) (ho : s.Orderly) {id : GoString}
    (hpc : s.threads[self]? = some (.remove id)) (hk : s.objects.lookup id = some k) :
    ({ s with objects := s.objects.erase id }.goto self (.destroy id k)).Registered := by
  have hgone : (s.objects.erase id).lookup id = none := AList.lookup_erase _ _
  refine h.exclusive ho hpc rfl rfl rfl ?_ ⟨hgone, h.belongs hk⟩ ?_
  · intro other hne
    exact ⟨AList.lookup_erase_ne hne, (Agree.of_eq rfl rfl).slots⟩
  · intro k' hk'
    exact absurd (hk'.symm.trans hgone) (by simp)

theorem destroy (h : s.Registered) (ho : s.Orderly) {id : GoString}
    (hpc : s.threads[self]? = some (.destroy id k)) (hk : s.slots[k]? = some slot)
    (new : Slot σ μ) : ((s.setSlot k new).goto self (.unlockRemoval id)).Registered := by
  obtain ⟨hnone, slot', hk', hid⟩ := h.knows _ (List.mem_of_getElem? hpc)
  rw [hk] at hk'
  cases hk'
  refine h.exclusive ho hpc rfl rfl rfl ?_ trivial ?_
  · intro other hne
    exact .of_ne rfl rfl hk (by rwa [hid])
  · intro k' hk'
    exact absurd (hk'.symm.trans hnone) (by simp)

theorem thread (h : s.Registered) (ho : s.Orderly) (hpc : s.threads[self]? = some pc)
    (hcase : TaskCase s self pc t) : t.Registered := by
  cases hcase with
  | walk hwalk => exact h.walk ho hpc hwalk
  | setStopped => exact h.still hpc rfl rfl (fun _ => .of_eq rfl rfl) (by simp) trivial
  | rlock htakes | lock htakes =>
    refine h.still hpc rfl rfl (fun _ => .of_eq rfl rfl) ?_ ?_ <;> cases htakes <;>
      first | trivial | simp
  | runlock hreleases | unlock hreleases =>
    refine h.still hpc rfl rfl (fun _ => .of_eq rfl rfl) ?_ hreleases.knows
    cases hreleases <;> simp
  | store hstores =>
    refine h.still hpc rfl rfl (fun _ => .of_eq rfl rfl) ?_ ?_ <;> cases hstores <;>
      first | trivial | simp
  | allocate hT => exact h.allocate hpc hT rfl
  | restore hk => exact h.restore ho hpc hk _ _
  | publish => exact h.publish ho hpc
  | onCreated hk hpc' => exact h.onCreated ho hpc hk hpc'
  | ensure hk =>
    exact h.still hpc rfl rfl (fun _ => .of_same rfl rfl hk ⟨rfl, rfl, rfl, rfl, rfl⟩) (by simp)
      trivial
  | invoke hk =>
    exact h.still hpc rfl rfl (fun _ => .of_same rfl rfl hk ⟨rfl, rfl, rfl, rfl, rfl⟩) (by simp)
      trivial
  | remove hk => exact h.remove ho hpc hk
  | destroy hk => exact h.destroy ho hpc hk _
  | clear => exact h.alone ho hpc rfl rfl rfl rfl trivial
  | destroyNext hk =>
    exact h.alone ho hpc rfl rfl rfl (ho.cleared _ (List.mem_of_getElem? hpc) rfl) trivial

theorem spawn (h : s.Registered) (task : Task μ) :
    Registered { s with threads := s.threads ++ [.start task] } := by
  refine ⟨h.named, fun id k hk => ?_, fun pc hpc => ?_⟩
  · rcases h.mapped id k hk with hready | ⟨cr, hid, hcr⟩
    · exact .inl hready
    · exact .inr ⟨cr, hid, List.mem_append_left _ hcr⟩
  · rcases mem_concat_cases hpc with hpc | rfl
    · exact Agree.knows (fun _ _ _ => .of_eq rfl rfl) (h.knows pc hpc)
    · trivial

private theorem of_agree (h : s.Registered) (hthreads : t.threads = s.threads)
    (htypes : t.objectTypes = s.objectTypes) (hagree : ∀ id, s.Agree t id) : t.Registered := by
  refine ⟨by rw [htypes]; exact h.named, fun id k hk => ?_, fun pc hpc => ?_⟩
  · rw [(hagree id).lookup] at hk
    rcases h.mapped id k hk with ⟨typ, hready⟩ | ⟨cr, hid, hcr⟩
    · exact .inl ⟨typ, (hagree id).ready hready⟩
    · exact .inr ⟨cr, hid, by rwa [hthreads]⟩
  · rw [hthreads] at hpc
    exact Agree.knows (fun id _ _ => hagree id) (h.knows pc hpc)

theorem step (h : s.Registered) (ho : s.Orderly) {label : Label μ}
    (hstep : s.step label = some t) : t.Registered := by
  cases step_case hstep with
  | spawn => exact h.spawn _
  | thread hpc hcase => exact h.thread ho hpc hcase
  | act hk hout hdestroy =>
    refine h.of_agree rfl rfl fun id => .of_same rfl rfl hk ⟨rfl, ?_, rfl, rfl, ?_⟩
    · exact Instance.step_id hout
    · exact Instance.step_cancelled hout hdestroy
  | insert => exact h.of_agree rfl rfl fun id => .of_eq rfl rfl

theorem keeps (h : s.Registered) {label : Label μ} (hstep : s.step label = some t)
    {id : GoString} {k k' : Nat} (hk : s.objects.lookup id = some k)
    (hk' : t.objects.lookup id = some k') : k' = k := by
  have hsame : t.objects = s.objects → k' = k := by
    intro hobjects
    rw [hobjects, hk] at hk'
    exact (Option.some.inj hk').symm
  cases step_case hstep with
  | spawn | act | insert => exact hsame rfl
  | thread hpc hcase =>
    cases hcase with
    | publish =>
      rename_i cr j
      have hnone := (h.knows _ (List.mem_of_getElem? hpc)).1
      have hne : id ≠ cr.id := by
        rintro rfl
        rw [hk] at hnone
        contradiction
      have hk' : (s.objects.insert cr.id j).lookup id = some k' := hk'
      rw [AList.lookup_insert_ne hne, hk] at hk'
      exact (Option.some.inj hk').symm
    | remove =>
      rename_i id' j _
      have hk' : (s.objects.erase id').lookup id = some k' := hk'
      by_cases hid : id = id'
      · subst hid
        rw [AList.lookup_erase] at hk'
        contradiction
      · rw [AList.lookup_erase_ne hid, hk] at hk'
        exact (Option.some.inj hk').symm
    | clear => simp [goto] at hk'
    | _ => exact hsame rfl

end Registered

theorem safe_of_reachable {ok : Host σ μ → Label μ → Prop} (h : (machine σ μ).Reachable ok s) :
    s.Orderly ∧ s.Registered := by
  refine h.invariant (I := fun s => s.Orderly ∧ s.Registered) ?_ ?_
  · rintro s ⟨objectTypes, hasProvider, db, hnamed, rfl⟩
    refine ⟨⟨?_, ?_, ?_, ?_⟩, ⟨hnamed, ?_, ?_⟩⟩ <;> simp [start, Disciplined]
  · intro s label t hs _ hstep
    exact ⟨hs.1.step hstep, hs.2.step hs.1 hstep⟩

theorem Registered.not_destroyed (h : s.Registered) (ho : s.Orderly) {cr : Creation μ} {k : Nat}
    (hcr : .invoke cr k ∈ s.threads) (hpc : pc ∈ s.threads) : pc.destroys k = false := by
  by_contra hdestroys
  cases pc with
  | destroy id k' =>
    obtain rfl : k' = k := by simpa [TaskPC.destroys] using hdestroys
    obtain ⟨-, slot, hk, rfl⟩ := h.knows _ hpc
    obtain ⟨-, slot', hk', hid, -⟩ := h.knows _ hcr
    rw [hk] at hk'
    cases hk'
    obtain ⟨i, hi⟩ := List.mem_iff_getElem?.mp hpc
    obtain ⟨j, hj⟩ := List.mem_iff_getElem?.mp hcr
    obtain rfl := ho.disciplined.excludes hi (TaskPC.holds_lifecycle rfl) hj
      (by simp [TaskPC.holds, TaskPC.keyMode, hid])
    rw [hi] at hj
    cases hj
  | destroyAll ks =>
    have := ho.not_working hpc rfl hcr
    contradiction
  | _ => simp [TaskPC.destroys] at hdestroys

theorem stopDone_step {label : Label μ} (h : .stopDone ∈ s.threads)
    (hstep : s.step label = some t) : .stopDone ∈ t.threads := by
  cases step_case hstep with
  | spawn => exact List.mem_append_left _ h
  | thread hpc hcase =>
    obtain ⟨pc', hm⟩ := hcase.moves
    rw [hm.threads]
    exact (eq_or_mem_set hpc h).resolve_left fun heq => hm.done heq.symm
  | act | insert => exact h

/-- In every reachable state of a node: a live instance is not replaced by the next step, a
`CallObject` that is inside a method has an instance of the requested type on which `FromData`
and `OnCreated` have each completed once and on which `Destroy` was not called and is not
about to be, and once a `Stop` has returned the map is empty for the rest of the run. -/
theorem registry_lifecycle (h : (machine σ μ).Reachable Machine.Any s) :
    (∀ label t, (machine σ μ).step s label = some t → ∀ id k k',
      s.objects.lookup id = some k → t.objects.lookup id = some k' → k' = k) ∧
    (∀ cr k, .invoke cr k ∈ s.threads → s.Ready k cr.id cr.typ 1 1 ∧
      ∀ pc ∈ s.threads, pc.destroys k = false) ∧
    (.stopDone ∈ s.threads → ∀ ls t, (machine σ μ).Steps Machine.Any s ls t → t.objects = ∅) := by
  obtain ⟨ho, hr⟩ := safe_of_reachable h
  refine ⟨fun label t hstep id k k' => hr.keeps hstep, fun cr k hcr => ?_, ?_⟩
  · obtain ⟨-, hready⟩ := hr.knows _ hcr
    exact ⟨hready, fun pc hpc => hr.not_destroyed ho hcr hpc⟩
  · intro hdone ls t hrun
    have hdone' : .stopDone ∈ t.threads :=
      hrun.preserves (I := fun s => .stopDone ∈ s.threads) (fun hs _ hst => stopDone_step hs hst)
        hdone
    exact (safe_of_reachable (h.steps hrun)).1.cleared _ hdone' rfl

def tallyTypes (typ : GoString) : Option (ObjectType Bytes Bytes) :=
  if typ = lit "Tally" then some tally else none

def tallyHost : Host Bytes Bytes := start tallyTypes true DB.empty

theorem tallyTypes_name {typ : GoString} {T : ObjectType Bytes Bytes}
    (h : tallyTypes typ = some T) : T.name = typ := by
  unfold tallyTypes at h
  split at h
  · rename_i heq
    cases h
    exact heq.symm
  · contradiction

theorem tallyHost_init : (machine Bytes Bytes).Init tallyHost :=
  ⟨tallyTypes, true, DB.empty, fun _ _ => tallyTypes_name, rfl⟩

def tallyTask (tag : UInt8) : Task Bytes :=
  .object ⟨lit "Tally", lit "o", some (lit "Add", [tag])⟩

def threadSteps (self n : Nat) : List (Label Bytes) := List.replicate n (.thread self true)

/-- A `CallObject` creates its object and enters the method. -/
def calling : List (Label Bytes) := .spawn (tallyTask 1) :: threadSteps 0 14

/-- The method ends and the node is stopped. -/
def stoppedAfterCall : List (Label Bytes) :=
  threadSteps 0 3 ++ .spawn .stop :: threadSteps 1 13

theorem registry_lifecycle_stoppedAfterCall :
    ∃ s t cr, (machine Bytes Bytes).Steps Machine.Any tallyHost calling s ∧
      (machine Bytes Bytes).Steps Machine.Any s stoppedAfterCall t ∧
      .invoke cr 0 ∈ s.threads ∧ s.Ready 0 cr.id cr.typ 1 1 ∧
      .stopDone ∈ t.threads ∧ t.objects = ∅ := by
  have hrun : ((machine Bytes Bytes).exec Machine.Any tallyHost calling).any (fun s =>
      s.threads.any (·.invokes 0) &&
      ((machine Bytes Bytes).exec Machine.Any s stoppedAfterCall).any fun t =>
        t.threads.any fun pc => pc.cleared && pc.stopMode.isNone) = true := by
    decide
  obtain ⟨s, hs, htest⟩ := Machine.exec_any hrun
  obtain ⟨hinvokes, hrest⟩ := (Bool.and_eq_true _ _).mp htest
  obtain ⟨t, ht, hcleared⟩ := Machine.exec_any hrest
  obtain ⟨pc, hpc, hin⟩ := List.any_eq_true.mp hinvokes
  obtain ⟨cr, rfl⟩ := TaskPC.invoke_of_invokes hin
  obtain ⟨pc, hdone, hout⟩ := List.any_eq_true.mp hcleared
  obtain rfl := TaskPC.stopDone_of_cleared hout
  have hsr : (machine Bytes Bytes).Reachable Machine.Any s := ⟨_, _, tallyHost_init, hs⟩
  refine ⟨s, t, cr, hs, ht, hpc, ((registry_lifecycle hsr).2.1 cr 0 hpc).1, hdone, ?_⟩
  exact (registry_lifecycle (hsr.steps ht)).2.2 hdone [] t (.nil t)

end Host
end Goverse.Node
