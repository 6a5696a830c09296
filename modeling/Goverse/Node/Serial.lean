import Goverse.Node.Registry

/-! Methods of one object at a time. `CallObject` holds the lifecycle lock of its id in shared
mode while the method runs, and `processReliableCall` holds `stateMu`: the loops of an
instance exclude each other, but neither lock keeps a `CallObject` from another `CallObject`
or from a loop. -/
namespace Goverse.Object

open Lib

variable {σ μ : Type}

/-- The goroutine is inside `InvokeMethod`. -/
def LoopPC.isRunning : LoopPC μ → Bool
  | .running .. => true
  | _ => false

theorem LoopPC.holdsState_of_isRunning {pc : LoopPC μ} (h : pc.isRunning = true) :
    pc.holdsState = true := by
  cases pc <;> simp_all [isRunning, holdsState]

theorem LoopPC.active_of_isRunning {pc : LoopPC μ} (h : pc.isRunning = true) :
    pc.active = true := by
  cases pc <;> simp_all [isRunning, active]

private theorem loopStep_inactive {T : ObjectType σ μ} {self : Nat} {ok : Bool} {db : Postgres.DB}
    {o : BaseObject σ} {pc : LoopPC μ} {mv : Move σ μ}
    (h : loopStep T self ok db o pc = some mv) (hpc : pc.active = false) :
    mv.pc.active = false := by
  cases pc with
  | cleanup => cases h; rfl
  | done => contradiction
  | _ => contradiction

namespace Instance

variable {inst : Instance σ μ}

instance (inst : Instance σ μ) : (action : Action) → Decidable (inst.Starts action)
  | .register _ | .ensure => inferInstanceAs (Decidable (inst.obj.processingCalls = false))
  | .call _ | .loop _ _ | .save _ | .destroy => isFalse id

theorem Locked.countP_running (h : inst.Locked) : inst.loops.countP LoopPC.isRunning ≤ 1 := by
  apply AtMostOne.countP_le_one
  intro i j a b hi hj ha hb
  have hmu := h i a hi (LoopPC.holdsState_of_isRunning ha)
  rw [h j b hj (LoopPC.holdsState_of_isRunning hb)] at hmu
  exact (Option.some.inj hmu).symm

/-- Every loop has exited, or is about to. -/
def idle (inst : Instance σ μ) : Bool := inst.loops.all fun pc => !pc.active

theorem idle_iff : inst.idle = true ↔ ∀ pc ∈ inst.loops, pc.active = false := by
  simp [idle]

theorem idle.countP_running (h : inst.idle = true) :
    inst.loops.countP LoopPC.isRunning = 0 := by
  refine List.countP_eq_zero.mpr fun pc hpc hrunning => ?_
  have := LoopPC.active_of_isRunning hrunning
  rw [idle_iff.mp h pc hpc] at this
  contradiction

theorem idle.step {T : ObjectType σ μ} {db : Postgres.DB} {action : Action} {out : Outcome σ μ}
    (h : inst.idle = true) (hstep : inst.step T db action = some out)
    (hstarts : ¬ inst.Starts action) : out.inst.idle = true := by
  rw [idle_iff] at h ⊢
  cases step_cases hstep with
  | loop self ok pc mv _ hpc hmv hout =>
    subst hout
    intro other hother
    rcases eq_or_mem_of_mem_set hother with rfl | hj
    · exact loopStep_inactive hmv (h pc (List.mem_of_getElem? hpc))
    · exact h other hj
  | save saved _ _ _ hout => subst hout; exact h
  | quiet _ _ _ _ _ _ _ hloops =>
    rcases hloops with ⟨hsame, -⟩ | ⟨hnew, -⟩
    · rw [hsame]
      exact h
    · exact absurd hnew hstarts

end Instance
end Goverse.Object

namespace Goverse.Node

open Postgres Lib Object

variable {σ μ : Type}

/-- The id whose lock a `CallObject` takes next. -/
def TaskPC.asks : TaskPC μ → Option GoString
  | .rlockKey cr => some cr.id
  | _ => none

theorem TaskPC.keyMode_of_calls {pc : TaskPC μ} {id : GoString} (h : pc.calls id = true) :
    pc.keyMode = some (id, .shared) := by
  cases pc <;> simp_all [calls, keyMode]

theorem TaskPC.keyMode_of_asks {pc : TaskPC μ} {id : GoString} (h : pc.asks = some id) :
    pc.keyMode = none := by
  cases pc <;> simp_all [asks, keyMode]

namespace Host

variable {s t : Host σ μ} {self : Nat} {pc pc' : TaskPC μ}

/-- The instances of `InvokeMethod` that are in progress on instance `k`. -/
def methodsInProgress (s : Host σ μ) (k : Nat) : Nat :=
  s.threads.countP (·.invokes k) +
    ((s.slots[k]?).map fun slot => slot.inst.loops.countP LoopPC.isRunning).getD 0

def loopsIdle (s : Host σ μ) (id : GoString) : Bool :=
  ((s.objects.lookup id).bind fun k => s.slots[k]?).all fun slot => slot.inst.idle

theorem loopsIdle_iff {id : GoString} : s.loopsIdle id = true ↔
    ∀ k slot, s.objects.lookup id = some k → s.slots[k]? = some slot → slot.inst.idle = true := by
  constructor
  · intro h k slot hk hslot
    simpa [loopsIdle, hk, hslot] using h
  · intro h
    cases hk : s.objects.lookup id with
    | none => simp [loopsIdle, hk]
    | some k =>
      cases hslot : s.slots[k]? with
      | none => simp [loopsIdle, hk, hslot]
      | some slot => simpa [loopsIdle, hk, hslot] using h k slot hk hslot

/-- A `CallObject` takes the lock of its id only while no other `CallObject` on the id has it
and the loops of the live instance have exited, and a loop is started only while no
`CallObject` has the lock. -/
def OneCaller (s : Host σ μ) : Label μ → Prop
  | .thread self _ => ∀ pc ∈ s.threads[self]?, ∀ id ∈ pc.asks,
      (∀ other ∈ s.threads, other.calls id = false) ∧ s.loopsIdle id = true
  | .act k action => ∀ slot ∈ s.slots[k]?, slot.inst.Starts action →
      ∀ pc ∈ s.threads, pc.calls slot.inst.obj.id = false
  | _ => True

instance (s : Host σ μ) : (label : Label μ) → Decidable (s.OneCaller label)
  | .thread self _ => inferInstanceAs (Decidable (∀ pc ∈ s.threads[self]?, ∀ id ∈ pc.asks,
      (∀ other ∈ s.threads, other.calls id = false) ∧ s.loopsIdle id = true))
  | .act k action => inferInstanceAs (Decidable (∀ slot ∈ s.slots[k]?,
      slot.inst.Starts action → ∀ pc ∈ s.threads, pc.calls slot.inst.obj.id = false))
  | .spawn _ | .insert _ => isTrue trivial

structure Serial (s : Host σ μ) : Prop where
  locked : ∀ slot ∈ s.slots, slot.inst.Locked
  single : ∀ id, AtMostOne (TaskPC.calls id) s.threads
  idle : ∀ pc ∈ s.threads, ∀ id, pc.calls id = true → s.loopsIdle id = true

theorem locked_start (id : GoString) (data : σ) (nextRcseq : Int) :
    (Instance.start id data nextRcseq : Instance σ μ).Locked := by
  intro i pc hi
  simp [Instance.start] at hi

theorem TaskCase.locked (h : TaskCase s self pc t) (hs : ∀ slot ∈ s.slots, slot.inst.Locked) :
    ∀ slot ∈ t.slots, slot.inst.Locked := by
  have hset : ∀ {k : Nat} {new : Slot σ μ}, new.inst.Locked →
      ∀ slot ∈ s.slots.set k new, slot.inst.Locked := by
    intro k new hnew slot hslot
    rcases eq_or_mem_of_mem_set hslot with rfl | hj
    · exact hnew
    · exact hs slot hj
  cases h with
  | allocate =>
    intro slot hslot
    rcases mem_concat_cases hslot with hslot | rfl
    · exact hs slot hslot
    · exact locked_start _ _ _
  | restore => exact hset (locked_start _ _ _)
  | ensure hk =>
    rename_i k slot
    have hold := hs slot (List.mem_of_getElem? hk)
    have hstep : slot.inst.step slot.type s.db .ensure =
        some ⟨s.db, slot.inst.spawn slot.inst.obj.ensureProcessingLoopRunning, none⟩ := rfl
    have hnew := hold.step hstep
    exact hset hnew
  | onCreated hk | invoke hk | destroy hk | destroyNext hk =>
    have hold := hs _ (List.mem_of_getElem? hk)
    exact hset hold
  | _ => exact hs

theorem loopsIdle_set {id : GoString} {k : Nat} {new : Slot σ μ} (hidle : s.loopsIdle id = true)
    (hobjects : t.objects = s.objects) (hslots : t.slots = s.slots.set k new)
    (hnew : s.objects.lookup id = some k → new.inst.idle = true) : t.loopsIdle id = true := by
  rw [loopsIdle_iff] at hidle ⊢
  intro j slot hj hslot
  rw [hobjects] at hj
  rw [hslots] at hslot
  rcases getElem?_set_cases hslot with ⟨rfl, rfl⟩ | ⟨-, hslot⟩
  · exact hnew hj
  · exact hidle j slot hj hslot

theorem TaskCase.idle (h : TaskCase s self pc t) (hr : s.Registered) (hpc : pc ∈ s.threads)
    {id : GoString} (hidle : s.loopsIdle id = true)
    (hkey : pc.keyMode ≠ some (id, .exclusive)) : t.loopsIdle id = true := by
  have hlive := loopsIdle_iff.mp hidle
  cases h with
  | allocate =>
    rw [loopsIdle_iff]
    intro j slot hj hslot
    rcases getElem?_concat_cases hslot with ⟨-, rfl⟩ | hslot
    · rfl
    · exact hlive j slot hj hslot
  | restore => exact loopsIdle_set hidle rfl rfl fun _ => rfl
  | onCreated hk | invoke hk | destroy hk | destroyNext hk =>
    refine loopsIdle_set hidle rfl rfl fun hlookup => ?_
    have hold := hlive _ _ hlookup hk
    exact hold
  | ensure hk =>
    refine loopsIdle_set hidle rfl rfl fun hlookup => ?_
    obtain ⟨-, slot, hslot, hcr, -⟩ := hr.knows _ hpc
    obtain ⟨slot', hslot', hid⟩ := hr.belongs hlookup
    rw [hslot] at hslot'
    cases hslot'
    rw [hid] at hcr
    exact absurd (by rw [hcr]; rfl) hkey
  | publish =>
    rename_i cr k
    have hne : id ≠ cr.id := by
      rintro rfl
      exact hkey rfl
    rw [loopsIdle_iff]
    intro j slot hj hslot
    exact hlive j slot ((AList.lookup_insert_ne hne).symm.trans hj) hslot
  | remove =>
    rename_i id' k _
    have hne : id ≠ id' := by
      rintro rfl
      exact hkey rfl
    rw [loopsIdle_iff]
    intro j slot hj hslot
    exact hlive j slot ((AList.lookup_erase_ne hne).symm.trans hj) hslot
  | clear =>
    rw [loopsIdle_iff]
    intro j slot hj
    simp [goto] at hj
  | _ => exact hidle

theorem Serial.thread (h : s.Serial) (ho : s.Orderly) (hr : s.Registered)
    (hpc : s.threads[self]? = some pc)
    (hguard : ∀ id ∈ pc.asks, (∀ other ∈ s.threads, other.calls id = false) ∧
      s.loopsIdle id = true) (hcase : TaskCase s self pc t) : t.Serial := by
  obtain ⟨pc', hm⟩ := hcase.moves
  have hmem := List.mem_of_getElem? hpc
  have hnew : ∀ id, pc'.calls id = true → pc.calls id = true ∨ pc.asks = some id := by
    intro id hcalls
    rcases hm.calls id hcalls with hold | ⟨cr, rfl, rfl⟩
    · exact .inl hold
    · exact .inr rfl
  refine ⟨hcase.locked h.locked, fun id => ?_, fun other hother id hcalls => ?_⟩
  · rw [hm.threads]
    by_cases hasks : pc.asks = some id
    · exact .set_of_forall (hguard id hasks).1 _ _
    · exact (h.single id).set hpc fun hcalls => (hnew id hcalls).resolve_right hasks
  · rw [hm.threads] at hother
    rcases mem_set_cases hother with rfl | ⟨j, hne, hj⟩
    · rcases hnew id hcalls with hold | hasks
      · exact hcase.idle hr hmem (h.idle pc hmem id hold) (by simp [TaskPC.keyMode_of_calls hold])
      · exact hcase.idle hr hmem (hguard id hasks).2 (by simp [TaskPC.keyMode_of_asks hasks])
    · refine hcase.idle hr hmem (h.idle other (List.mem_of_getElem? hj) id hcalls) fun hkey => ?_
      refine hne (ho.disciplined.excludes hpc (TaskPC.holds_lifecycle hkey) hj ?_)
      simp [TaskPC.holds_lifecycle (TaskPC.keyMode_of_calls hcalls)]

theorem Serial.act (h : s.Serial) (hr : s.Registered) {k : Nat} {action : Action}
    {slot : Slot σ μ} {out : Outcome σ μ} (hk : s.slots[k]? = some slot)
    (hout : slot.inst.step slot.type s.db action = some out)
    (hguard : slot.inst.Starts action → ∀ pc ∈ s.threads, pc.calls slot.inst.obj.id = false) :
    Serial { s with db := out.db, slots := s.slots.set k { slot with inst := out.inst } } := by
  refine ⟨fun other hother => ?_, h.single, fun pc hpc id hcalls => ?_⟩
  · rcases eq_or_mem_of_mem_set hother with rfl | hj
    · exact (h.locked slot (List.mem_of_getElem? hk)).step hout
    · exact h.locked other hj
  · have hidle := h.idle pc hpc id hcalls
    refine loopsIdle_set hidle rfl rfl fun hlookup => ?_
    refine Instance.idle.step (loopsIdle_iff.mp hidle k slot hlookup hk) hout fun hstarts => ?_
    obtain ⟨slot', hslot', rfl⟩ := hr.belongs hlookup
    rw [hk] at hslot'
    cases hslot'
    rw [hguard hstarts pc hpc] at hcalls
    contradiction

theorem Serial.spawn (h : s.Serial) (task : Task μ) :
    Serial { s with threads := s.threads ++ [.start task] } := by
  refine ⟨h.locked, fun id => (h.single id).spawn rfl, fun pc hpc id hcalls => ?_⟩
  rcases List.mem_append.mp hpc with hpc | hpc
  · exact h.idle pc hpc id hcalls
  · rw [List.mem_singleton.mp hpc] at hcalls
    contradiction

theorem Serial.step (h : s.Serial) (ho : s.Orderly) (hr : s.Registered) {label : Label μ}
    (hguard : s.OneCaller label) (hstep : s.step label = some t) : t.Serial := by
  cases step_case hstep with
  | spawn => exact h.spawn _
  | thread hpc hcase => exact h.thread ho hr hpc (hguard _ hpc) hcase
  | act hk hout => exact h.act hr hk hout (hguard _ hk)
  | insert => exact ⟨h.locked, h.single, h.idle⟩

theorem serial_of_reachable (h : (machine σ μ).Reachable OneCaller s) :
    (s.Orderly ∧ s.Registered) ∧ s.Serial := by
  refine h.invariant (I := fun s => (s.Orderly ∧ s.Registered) ∧ s.Serial) ?_ ?_
  · intro s hinit
    have hstart : (machine σ μ).Reachable OneCaller s := .init hinit
    refine ⟨safe_of_reachable hstart, ?_⟩
    obtain ⟨objectTypes, hasProvider, db, -, rfl⟩ := hinit
    exact ⟨by simp [start], fun id => .nil, by simp [start]⟩
  · intro s label t hs hguard hstep
    exact ⟨⟨hs.1.1.step hstep, hs.1.2.step hs.1.1 hstep⟩, hs.2.step hs.1.1 hs.1.2 hguard hstep⟩

theorem Registered.slot_of_invokes (h : s.Registered) {k : Nat} (hpc : pc ∈ s.threads)
    (hinvokes : pc.invokes k = true) : ∃ slot, s.slots[k]? = some slot ∧
      pc.calls slot.inst.obj.id = true ∧ s.objects.lookup slot.inst.obj.id = some k := by
  obtain ⟨cr, rfl⟩ := TaskPC.invoke_of_invokes hinvokes
  obtain ⟨hlookup, slot, hk, hid, -⟩ := h.knows _ hpc
  exact ⟨slot, hk, by simp [TaskPC.calls, hid], by rw [hid]; exact hlookup⟩

theorem Serial.threads_le_one (h : s.Serial) (hr : s.Registered) (k : Nat) :
    s.threads.countP (·.invokes k) ≤ 1 := by
  apply AtMostOne.countP_le_one
  intro i j a b hi hj ha hb
  obtain ⟨slot, hk, hca, -⟩ := hr.slot_of_invokes (List.mem_of_getElem? hi) ha
  obtain ⟨slot', hk', hcb, -⟩ := hr.slot_of_invokes (List.mem_of_getElem? hj) hb
  rw [hk] at hk'
  cases hk'
  exact h.single _ i j a b hi hj hca hcb

theorem Serial.loops_le_one (h : s.Serial) (k : Nat) :
    ((s.slots[k]?).map fun slot => slot.inst.loops.countP LoopPC.isRunning).getD 0 ≤ 1 := by
  cases hk : s.slots[k]? with
  | none => simp
  | some slot => exact (h.locked slot (List.mem_of_getElem? hk)).countP_running

/-- In a run in which a `CallObject` enters an object only when no other one is inside and no
loop runs, and a loop is started only when no `CallObject` is inside, at most one method of an
instance is in progress at any time. -/
theorem methods_run_serially (h : (machine σ μ).Reachable OneCaller s) (k : Nat) :
    s.methodsInProgress k ≤ 1 := by
  obtain ⟨⟨ho, hr⟩, hs⟩ := serial_of_reachable h
  unfold methodsInProgress
  by_cases hin : ∃ pc ∈ s.threads, pc.invokes k = true
  · obtain ⟨pc, hpc, hinvokes⟩ := hin
    obtain ⟨slot, hk, hcalls, hlookup⟩ := hr.slot_of_invokes hpc hinvokes
    have hidle := loopsIdle_iff.mp (hs.idle pc hpc _ hcalls) k slot hlookup hk
    rw [hk, Option.map_some, Option.getD_some, Instance.idle.countP_running hidle]
    exact hs.threads_le_one hr k
  · have hnone : s.threads.countP (·.invokes k) = 0 :=
      List.countP_eq_zero.mpr fun pc hpc hinvokes => hin ⟨pc, hpc, hinvokes⟩
    rw [hnone, Nat.zero_add]
    exact hs.loops_le_one k

def loopSteps (k self n : Nat) : List (Label Bytes) :=
  List.replicate n (.act k (.loop self true))

/-- Two `CallObject` methods and a reliable call, all inside one object. -/
def crowded : List (Label Bytes) :=
  .insert (tallyCall 1 1) :: .spawn (tallyTask 2) :: threadSteps 0 14 ++
    loopSteps 0 0 9 ++ .spawn (tallyTask 3) :: threadSteps 1 6

theorem concurrent_methods_on_one_object :
    ∃ s, (machine Bytes Bytes).Reachable Machine.Any s ∧
      s.objects.lookup (lit "o") = some 0 ∧ s.methodsInProgress 0 = 3 := by
  have hrun : ((machine Bytes Bytes).exec Machine.Any tallyHost crowded).any (fun s =>
      decide (s.objects.lookup (lit "o") = some 0 ∧ s.methodsInProgress 0 = 3)) = true := by
    decide
  obtain ⟨s, hreach, hbad⟩ := Machine.exec_reachable hrun tallyHost_init
  exact ⟨s, hreach, of_decide_eq_true hbad⟩

/-- The eager loop has exited before the `CallObject` goes on to the method. -/
def callAfterLoop : List (Label Bytes) :=
  .spawn (tallyTask 1) :: threadSteps 0 11 ++ loopSteps 0 0 8 ++ threadSteps 0 3

/-- The `CallObject` returns, and a reliable call is processed. -/
def loopAfterCall : List (Label Bytes) :=
  threadSteps 0 3 ++ .insert (tallyCall 1 2) :: .act 0 .ensure :: loopSteps 0 1 9

theorem methods_run_serially_loopAfterCall :
    ∃ s t, (machine Bytes Bytes).Steps OneCaller tallyHost callAfterLoop s ∧
      (machine Bytes Bytes).Steps OneCaller s loopAfterCall t ∧
      (s.methodsInProgress 0 = 1 ∧ t.methodsInProgress 0 = 1) ∧
      s.methodsInProgress 0 ≤ 1 ∧ t.methodsInProgress 0 ≤ 1 := by
  have hrun : ((machine Bytes Bytes).exec OneCaller tallyHost callAfterLoop).any (fun s =>
      ((machine Bytes Bytes).exec OneCaller s loopAfterCall).any fun t =>
        decide (s.methodsInProgress 0 = 1 ∧ t.methodsInProgress 0 = 1)) = true := by
    decide
  obtain ⟨s, hs, hrest⟩ := Machine.exec_any hrun
  obtain ⟨t, ht, hone⟩ := Machine.exec_any hrest
  have hsr : (machine Bytes Bytes).Reachable OneCaller s := ⟨_, _, tallyHost_init, hs⟩
  exact ⟨s, t, hs, ht, of_decide_eq_true hone, methods_run_serially hsr 0,
    methods_run_serially (hsr.steps ht) 0⟩

end Host
end Goverse.Node
