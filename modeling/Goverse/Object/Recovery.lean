import Goverse.Object.Instance

/-! A persistent object across crashes. The store keeps the object's row and the rows of
its calls; an activation restores the object from its row and serves calls until a crash
takes it away. `memory` and `stored` record whose effects the live state and the row
contain, so that both can be compared with a replay of those calls. -/
namespace Goverse.Object

open Postgres Lib

variable {σ μ : Type}

namespace ObjectType

/-- What processing a call does to the state. -/
def apply (T : ObjectType σ μ) (state : σ) (call : ReliableCall) : σ :=
  match T.bytesToMsg call.requestData with
  | .error _ => state
  | .ok msg => (T.invokeMethod state call.methodName msg).1

def replay (T : ObjectType σ μ) (calls : List ReliableCall) : σ :=
  calls.foldl T.apply T.fresh

@[simp] theorem replay_concat (T : ObjectType σ μ) (calls : List ReliableCall)
    (call : ReliableCall) : T.replay (calls ++ [call]) = T.apply (T.replay calls) call := by
  simp [replay]

/-- `ToData` answers for a new object, so `createObject` asks the provider for its row. -/
def Persistent (T : ObjectType σ μ) : Prop := ∃ data, T.toData T.blank = .ok data

/-- The state and the `next_rcseq` that `createObject` gives a new instance. -/
def restore (T : ObjectType σ μ) (db : DB) (id : GoString) (ok : Bool) : Option (σ × Int) :=
  match T.toData T.blank with
  | .error _ => some (T.fresh, 0)
  | .ok _ =>
    match if ok then (db.loadObject id).toOption else none with
    | none => none
    | some none => some (T.fresh, 0)
    | some (some row) => (T.fromData row.data).map fun data => (data, row.nextRcseq)

theorem restore_cases {T : ObjectType σ μ} (hT : T.Persistent) {db : DB} {id : GoString}
    {ok : Bool} {restored : σ × Int} (h : T.restore db id ok = some restored) :
    (db.objects.lookup id = none ∧ restored = (T.fresh, 0)) ∨
      ∃ row, db.objects.lookup id = some row ∧ T.fromData row.data = some restored.1 ∧
        restored.2 = row.nextRcseq := by
  obtain ⟨template, htemplate⟩ := hT
  unfold restore at h
  rw [htemplate] at h
  simp only at h
  split at h
  · contradiction
  · rename_i hload
    have hlookup := DB.loadObject_ok (toOption_eq_some hload).2
    exact .inl ⟨hlookup, (Option.some.inj h).symm⟩
  · rename_i row hload
    have hlookup := DB.loadObject_ok (toOption_eq_some hload).2
    obtain ⟨data, hdata, rfl⟩ := Option.map_eq_some_iff.mp h
    exact .inr ⟨row, hlookup, hdata, rfl⟩

private theorem final_status (T : ObjectType σ μ) (result : Except GoString μ) :
    (T.final result).status ≠ .pending := by
  cases result <;> simp [final]

end ObjectType

/-- The call whose method has returned. -/
def Event.finished : Event → Option ReliableCall
  | finish call => some call
  | _ => none

/-- The call whose method has been started. -/
def Event.invoked : Event → Option ReliableCall
  | invoke call => some call
  | _ => none

/-- The message is the one the call carries, and a call that is finalized as completed
has its effect in memory. -/
def LoopPC.Applied (T : ObjectType σ μ) (memory : List ReliableCall) : LoopPC μ → Prop
  | running call _ msg => T.bytesToMsg call.requestData = .ok msg
  | finalize call _ final | save call _ final | update call _ final =>
    final.status ≠ .pending ∧ (final.status.Completed → call ∈ memory)
  | _ => True

theorem LoopPC.Applied.mono {T : ObjectType σ μ} {memory more : List ReliableCall}
    {pc : LoopPC μ} (h : pc.Applied T memory) : pc.Applied T (memory ++ more) := by
  cases pc with
  | finalize | save | update => exact ⟨h.1, fun hc => List.mem_append_left _ (h.2 hc)⟩
  | _ => exact h

theorem loopStep_applied {T : ObjectType σ μ} {self : Nat} {ok : Bool} {db : DB}
    {o : BaseObject σ} {pc : LoopPC μ} {mv : Move σ μ} {memory : List ReliableCall}
    (happ : pc.Applied T memory) (h : loopStep T self ok db o pc = some mv) :
    mv.pc.Applied T (memory ++ (mv.event.bind Event.finished).toList) := by
  cases loopStep_cases h with
  | reject => exact ⟨by simp, by rintro (h | h) <;> cases h⟩
  | invoke hmsg => exact hmsg
  | finish => exact ⟨T.final_status _, fun _ => by simp [Event.finished]⟩
  | finalize | notSaved | saved => exact happ.mono
  | _ => trivial

/-- The store, the live instance if there is one, and the record of effects: `memory`
and `stored` as above, `executed` the calls the current activation has started and
`loaded` the `next_rcseq` it was restored with. -/
structure Recovery (σ μ : Type) where
  db : DB
  live : Option (Instance σ μ)
  memory : List ReliableCall
  stored : List ReliableCall
  executed : List ReliableCall
  loaded : Int

namespace Recovery

/-- `nextval` is a sequence value drawn by an `INSERT` that leaves no row. -/
inductive Label where
  | act (action : Action)
  | insert (callID objectID objectType methodName : GoString) (requestData : Bytes)
  | nextval
  | activate (ok : Bool)
  | crash
  deriving DecidableEq, Repr

def observe (s : Recovery σ μ) (out : Outcome σ μ) : Recovery σ μ where
  db := out.db
  live := some out.inst
  memory := s.memory ++ (out.event.bind Event.finished).toList
  stored := if out.event = some .save then s.memory else s.stored
  executed := s.executed ++ (out.event.bind Event.invoked).toList
  loaded := s.loaded

def step (T : ObjectType σ μ) (id : GoString) (s : Recovery σ μ) :
    Label → Option (Recovery σ μ)
  | .act action => s.live.bind fun inst => (inst.step T s.db action).map s.observe
  | .insert callID objectID objectType methodName requestData =>
    (s.db.insertOrGetReliableCall callID objectID objectType methodName
      requestData).toOption.map fun result => { s with db := result.2 }
  | .nextval => some { s with db := s.db.nextval.2 }
  | .activate ok =>
    match s.live with
    | some _ => none
    | none => (T.restore s.db id ok).map fun restored =>
      { s with
        live := some (.start id restored.1 restored.2)
        memory := s.stored
        executed := []
        loaded := restored.2 }
  | .crash => s.live.map fun _ => { s with live := none, memory := [], executed := [] }

/-- Nothing of the object is stored yet; the sequence starts at one. -/
def machine (T : ObjectType σ μ) (id : GoString) : Machine (Recovery σ μ) Label where
  Init s := s.live = none ∧ s.memory = [] ∧ s.stored = [] ∧ s.executed = [] ∧
    s.db.objects.lookup id = none ∧ (∀ row ∈ s.db.calls.rows, row.objectID ≠ id) ∧
    (∀ row ∈ s.db.calls.rows, row.seq ≤ s.db.lastSeq) ∧ 0 ≤ s.db.lastSeq
  step := step T id

def OneLoop (s : Recovery σ μ) : Label → Prop
  | .act action => ∀ inst ∈ s.live, inst.OneLoop action
  | _ => True

instance (s : Recovery σ μ) (label : Label) : Decidable (s.OneLoop label) := by
  cases label <;> simp only [OneLoop] <;> infer_instance

/-- The live instance holds the replay of `memory`. The row lags behind it by the calls
from the row's `next_rcseq` on. -/
structure Live (T : ObjectType σ μ) (id : GoString) (s : Recovery σ μ)
    (inst : Instance σ μ) : Prop where
  id_eq : inst.obj.id = id
  exclusive : ∃ processed, inst.Exclusive processed
  locked : inst.Locked
  applied : ∀ pc ∈ inst.loops, pc.Applied T s.memory
  data : inst.obj.data = T.replay s.memory
  increasing : (s.memory.map (·.seq)).Pairwise (· < ·)
  below : ∀ call ∈ s.memory, call.seq < inst.obj.nextRcseq ∨
    ∃ rest final, .finalize call rest final ∈ inst.loops
  kept : ∀ call ∈ s.stored, call ∈ s.memory
  row_le : ∀ row, s.db.objects.lookup id = some row → row.nextRcseq ≤ inst.obj.nextRcseq
  saved : ∀ row, s.db.objects.lookup id = some row →
    ∀ call ∈ s.memory, call.seq < row.nextRcseq → call ∈ s.stored
  loaded_le : s.loaded ≤ inst.obj.nextRcseq
  executed_ge : ∀ call ∈ s.executed, s.loaded ≤ call.seq

structure Sound (T : ObjectType σ μ) (id : GoString) (s : Recovery σ μ) : Prop where
  increasing : (s.stored.map (·.seq)).Pairwise (· < ·)
  absent : s.db.objects.lookup id = none → s.stored = []
  row : ∀ row, s.db.objects.lookup id = some row →
    T.toData (T.replay s.stored) = .ok row.data ∧ ∀ call ∈ s.stored, call.seq < row.nextRcseq
  live : ∀ inst, s.live = some inst → s.Live T id inst

section Live

variable {T : ObjectType σ μ} {id : GoString} {s : Recovery σ μ} {inst : Instance σ μ}

theorem Live.below_of_not_finalize (h : s.Live T id inst) {i : Nat} {pc : LoopPC μ}
    (hi : inst.loops[i]? = some pc) (hactive : pc.active = true)
    (hpc : ∀ call rest final, pc ≠ .finalize call rest final) :
    ∀ call ∈ s.memory, call.seq < inst.obj.nextRcseq := by
  intro call hcall
  rcases h.below call hcall with hlt | ⟨rest, final, hmem⟩
  · exact hlt
  · obtain ⟨processed, hexcl⟩ := h.exclusive
    obtain ⟨j, hj⟩ := List.mem_iff_getElem?.mp hmem
    have hij : j = i := hexcl.single j i _ _ hj hi rfl hactive
    subst hij
    rw [hi] at hj
    exact absurd (Option.some.inj hj) (hpc call rest final)

theorem Live.below_of_save (h : s.Live T id inst) (hmay : inst.MaySave) :
    ∀ call ∈ s.memory, call.seq < inst.obj.nextRcseq := by
  rcases hmay with hfree | ⟨self, call, rest, final, hself⟩
  · intro call hcall
    rcases h.below call hcall with hlt | ⟨rest, final, hmem⟩
    · exact hlt
    · have := h.locked.free hfree hmem
      contradiction
  · exact h.below_of_not_finalize hself rfl nofun

theorem Live.below_step (h : s.Live T id inst) {action : Action} {out : Outcome σ μ}
    (hstep : inst.step T s.db action = some out) :
    ∀ call ∈ s.memory, call.seq < out.inst.obj.nextRcseq ∨
      ∃ rest final, .finalize call rest final ∈ out.inst.loops := by
  intro call hcall
  obtain ⟨processed, hexcl⟩ := h.exclusive
  have hle := hexcl.nextRcseq_le hstep
  rcases h.below call hcall with hlt | ⟨rest, final, hmem⟩
  · exact .inl (lt_of_lt_of_le hlt hle)
  · cases Instance.step_cases hstep with
    | loop self ok pc mv haction hpc hmv hout =>
      subst hout
      rcases eq_or_mem_set hpc hmem with heq | hmem
      · subst heq
        cases hmv
        exact .inl (Int.lt_succ call.seq)
      · exact .inr ⟨rest, final, hmem⟩
    | save saved haction hfree hsaved hout => subst hout; exact .inr ⟨rest, final, hmem⟩
    | quiet hdb hevent hid hdata hseq hmu hcancelled hloops =>
      refine .inr ⟨rest, final, ?_⟩
      rcases hloops with ⟨hsame, -⟩ | ⟨-, hnew, -⟩
      · rwa [hsame]
      · rw [hnew]
        exact List.mem_append_left _ hmem

theorem Live.applied_step (h : s.Live T id inst) {action : Action} {out : Outcome σ μ}
    (hstep : inst.step T s.db action = some out) :
    ∀ pc ∈ out.inst.loops, pc.Applied T (s.memory ++ (out.event.bind Event.finished).toList) := by
  intro p hp
  cases Instance.step_cases hstep with
  | loop self ok pc mv haction hpc hmv hout =>
    subst hout
    rcases eq_or_mem_of_mem_set hp with rfl | hj
    · exact loopStep_applied (h.applied pc (List.mem_of_getElem? hpc)) hmv
    · exact (h.applied p hj).mono
  | save saved haction hfree hsaved hout => subst hout; exact (h.applied p hp).mono
  | quiet hdb hevent hid hdata hseq hmu hcancelled hloops =>
    rcases Instance.mem_loops_cases hloops hp
      with hp | rfl
    · exact (h.applied p hp).mono
    · trivial

theorem Live.carry (h : s.Live T id inst) {action : Action} {out : Outcome σ μ}
    (hone : inst.OneLoop action) (hstep : inst.step T s.db action = some out) :
    out.inst.obj.id = id ∧ (∃ processed, out.inst.Exclusive processed) ∧ out.inst.Locked ∧
      inst.obj.nextRcseq ≤ out.inst.obj.nextRcseq := by
  obtain ⟨processed, hexcl⟩ := h.exclusive
  exact ⟨(Instance.step_id hstep).trans h.id_eq, ⟨_, hexcl.step hone hstep⟩,
    h.locked.step hstep, hexcl.nextRcseq_le hstep⟩

theorem Live.still (h : s.Live T id inst) {action : Action} {out : Outcome σ μ}
    (hone : inst.OneLoop action) (hstep : inst.step T s.db action = some out)
    (hfinished : out.event.bind Event.finished = none) (hsave : out.event ≠ some .save)
    (hobjects : out.db.objects = s.db.objects) (hdata : out.inst.obj.data = inst.obj.data)
    (hexecuted : ∀ call ∈ out.event.bind Event.invoked, s.loaded ≤ call.seq) :
    (s.observe out).Live T id out.inst := by
  obtain ⟨hid, hexcl, hlocked, hle⟩ := h.carry hone hstep
  have hmem : (s.observe out).memory = s.memory := by simp [observe, hfinished]
  have hstored : (s.observe out).stored = s.stored := by simp [observe, hsave]
  have hlookup : (s.observe out).db.objects.lookup id = s.db.objects.lookup id := by
    simp [observe, hobjects]
  refine ⟨hid, hexcl, hlocked, h.applied_step hstep, ?_, ?_, ?_, ?_, ?_, ?_, ?_, ?_⟩
  · rw [hmem, hdata]
    exact h.data
  · rw [hmem]
    exact h.increasing
  · rw [hmem]
    exact h.below_step hstep
  · rw [hmem, hstored]
    exact h.kept
  · intro row hrow
    rw [hlookup] at hrow
    exact le_trans (h.row_le row hrow) hle
  · intro row hrow
    rw [hlookup] at hrow
    rw [hmem, hstored]
    exact h.saved row hrow
  · exact le_trans h.loaded_le hle
  · intro call hcall
    rcases List.mem_append.mp hcall with hcall | hcall
    · exact h.executed_ge call hcall
    · exact hexecuted call (by simpa using hcall)

theorem Live.finish (h : s.Live T id inst) {action : Action} {out : Outcome σ μ}
    (hone : inst.OneLoop action) (hstep : inst.step T s.db action = some out) {self : Nat}
    {call : ReliableCall} {rest : List ReliableCall} {msg : μ}
    (hpc : inst.loops[self]? = some (.running call rest msg)) (hdb : out.db = s.db)
    (hobj : out.inst.obj =
      { inst.obj with data := (T.invokeMethod inst.obj.data call.methodName msg).1 })
    (hnew : ∃ final, out.inst.loops = inst.loops.set self (.finalize call rest final))
    (hevent : out.event = some (.finish call)) : (s.observe out).Live T id out.inst := by
  obtain ⟨hid, hexcl, hlocked, hle⟩ := h.carry hone hstep
  obtain ⟨processed, hexcl₀⟩ := h.exclusive
  have hseq : inst.obj.nextRcseq ≤ call.seq :=
    (hexcl₀.ordered _ (List.mem_of_getElem? hpc)).bounded call (by simp [LoopPC.remaining])
  have hbelow := h.below_of_not_finalize hpc rfl (by simp)
  have hmem : (s.observe out).memory = s.memory ++ [call] := by
    simp [observe, hevent, Event.finished]
  have hstored : (s.observe out).stored = s.stored := by simp [observe, hevent]
  have hlookup : (s.observe out).db = s.db := hdb
  refine ⟨hid, hexcl, hlocked, h.applied_step hstep, ?_, ?_, ?_, ?_, ?_, ?_, ?_, ?_⟩
  · have hmsg : T.bytesToMsg call.requestData = .ok msg :=
      h.applied _ (List.mem_of_getElem? hpc)
    rw [hmem, T.replay_concat, hobj, h.data]
    simp [ObjectType.apply, hmsg]
  · rw [hmem, List.map_append]
    refine List.pairwise_append.mpr ⟨h.increasing, by simp, ?_⟩
    intro a ha b hb
    obtain ⟨old, hold, rfl⟩ := List.mem_map.mp ha
    have hb' : b = call.seq := by simpa using hb
    have := hbelow old hold
    omega
  · rw [hmem]
    intro c hc
    rcases List.mem_append.mp hc with hc | hc
    · exact h.below_step hstep c hc
    · obtain ⟨final, hloops⟩ := hnew
      rw [List.mem_singleton.mp hc, hloops]
      exact .inr ⟨rest, final, List.mem_set (List.getElem?_eq_some_iff.mp hpc).1 _⟩
  · rw [hmem, hstored]
    exact fun c hc => List.mem_append_left _ (h.kept c hc)
  · intro row hrow
    rw [hlookup] at hrow
    exact le_trans (h.row_le row hrow) hle
  · intro row hrow c hc hlt
    rw [hlookup] at hrow
    rw [hstored]
    rw [hmem] at hc
    rcases List.mem_append.mp hc with hc | hc
    · exact h.saved row hrow c hc hlt
    · rw [List.mem_singleton.mp hc] at hlt
      have := h.row_le row hrow
      omega
  · exact le_trans h.loaded_le hle
  · intro c hc
    exact h.executed_ge c (by simpa [observe, hevent, Event.invoked] using hc)

theorem Live.save (h : s.Live T id inst) {action : Action} {out : Outcome σ μ}
    (hone : inst.OneLoop action) (hstep : inst.step T s.db action = some out)
    (hobj : out.inst.obj = inst.obj) (hevent : out.event = some .save) {data : Bytes}
    (hobjects : out.db.objects =
      s.db.objects.insert inst.obj.id ⟨T.name, data, inst.obj.nextRcseq⟩) :
    (s.observe out).Live T id out.inst := by
  obtain ⟨hid, hexcl, hlocked, hle⟩ := h.carry hone hstep
  have hmem : (s.observe out).memory = s.memory := by simp [observe, hevent, Event.finished]
  have hstored : (s.observe out).stored = s.memory := by simp [observe, hevent]
  refine ⟨hid, hexcl, hlocked, h.applied_step hstep, ?_, ?_, ?_, ?_, ?_, ?_, ?_, ?_⟩
  · rw [hmem, hobj]
    exact h.data
  · rw [hmem]
    exact h.increasing
  · rw [hmem]
    exact h.below_step hstep
  · rw [hmem, hstored]
    exact fun c hc => hc
  · intro row hrow
    have hrow' : out.db.objects.lookup id = some row := hrow
    rw [hobjects, h.id_eq, AList.lookup_insert] at hrow'
    cases hrow'
    rw [hobj]
  · intro row _ c hc _
    rw [hstored]
    rwa [hmem] at hc
  · exact le_trans h.loaded_le hle
  · intro c hc
    exact h.executed_ge c (by simpa [observe, hevent, Event.invoked] using hc)

end Live

section Sound

variable {T : ObjectType σ μ} {id : GoString} {s t : Recovery σ μ}

theorem Sound.of_same_row (h : s.Sound T id)
    (hlookup : t.db.objects.lookup id = s.db.objects.lookup id) (hstored : t.stored = s.stored)
    (hlive : ∀ inst, t.live = some inst → t.Live T id inst) : t.Sound T id := by
  refine ⟨?_, ?_, ?_, hlive⟩
  · rw [hstored]
    exact h.increasing
  · rw [hstored, hlookup]
    exact h.absent
  · rw [hstored, hlookup]
    exact h.row

theorem Sound.act (h : s.Sound T id) {inst : Instance σ μ} (hinst : s.live = some inst)
    {action : Action} {out : Outcome σ μ} (hone : inst.OneLoop action)
    (hstep : inst.step T s.db action = some out) : (s.observe out).Sound T id := by
  have hl := h.live inst hinst
  have hlive : ∀ {P : Instance σ μ → Prop}, P out.inst →
      ∀ other, (s.observe out).live = some other → P other := by
    intro P hP other hother
    rwa [← Option.some.inj hother]
  cases Instance.step_effect hstep with
  | quiet hdb hdata hevent =>
    have hfinished : out.event.bind Event.finished = none := by
      rcases hevent with hevent | ⟨call, hevent⟩ <;> simp [hevent, Event.finished]
    have hinvoked : out.event.bind Event.invoked = none := by
      rcases hevent with hevent | ⟨call, hevent⟩ <;> simp [hevent, Event.invoked]
    have hsave : out.event ≠ some .save := by
      rcases hevent with hevent | ⟨call, hevent⟩ <;> simp [hevent]
    refine h.of_same_row (by simp [observe, hdb]) (by simp [observe, hsave]) (hlive ?_)
    exact hl.still hone hstep hfinished hsave (by rw [hdb]) hdata (by simp [hinvoked])
  | invoke self call rest hpc hdb hobj hevent =>
    obtain ⟨processed, hexcl⟩ := hl.exclusive
    have hseq : inst.obj.nextRcseq ≤ call.seq :=
      (hexcl.ordered _ (List.mem_of_getElem? hpc)).bounded call (by simp [LoopPC.remaining])
    refine h.of_same_row (by simp [observe, hdb]) (by simp [observe, hevent]) (hlive ?_)
    refine hl.still hone hstep (by simp [hevent, Event.finished]) (by simp [hevent])
      (by rw [hdb]) (by rw [hobj]) ?_
    intro c hc
    have hc' : call = c := by simpa [hevent, Event.invoked] using hc
    rw [← hc']
    exact le_trans hl.loaded_le hseq
  | finish self call rest msg hpc hdb hobj hnew hevent =>
    refine h.of_same_row (by simp [observe, hdb]) (by simp [observe, hevent]) (hlive ?_)
    exact hl.finish hone hstep hpc hdb hobj hnew hevent
  | save hmay hsaved hobj hevent =>
    obtain ⟨data, hdata, -, -, hobjects⟩ := BaseObject.saveLocked_ok hsaved
    have hrow : (s.observe out).db.objects.lookup id =
        some ⟨T.name, data, inst.obj.nextRcseq⟩ := by
      simp [observe, hobjects, hl.id_eq]
    have hstored : (s.observe out).stored = s.memory := by simp [observe, hevent]
    refine ⟨?_, ?_, ?_, hlive (hl.save hone hstep hobj hevent hobjects)⟩
    · rw [hstored]
      exact hl.increasing
    · intro hnone
      rw [hrow] at hnone
      contradiction
    · rw [hrow, hstored]
      rintro row hsome
      cases hsome
      exact ⟨hl.data ▸ hdata, hl.below_of_save hmay⟩
  | update self call rest final haction hpc hupdated hobj hevent =>
    obtain ⟨hobjects, -, -⟩ := DB.updateReliableCallStatus_ok hupdated
    refine h.of_same_row (by simp [observe, hobjects]) (by simp [observe, hevent]) (hlive ?_)
    exact hl.still hone hstep (by simp [hevent, Event.finished]) (by simp [hevent]) hobjects
      (by rw [hobj]) (by simp [hevent, Event.invoked])

theorem Live.of_same_row {inst : Instance σ μ} (h : s.Live T id inst)
    (hlookup : t.db.objects.lookup id = s.db.objects.lookup id) (hmem : t.memory = s.memory)
    (hstored : t.stored = s.stored) (hexec : t.executed = s.executed)
    (hloaded : t.loaded = s.loaded) : t.Live T id inst := by
  obtain ⟨h₁, h₂, h₃, h₄, h₅, h₆, h₇, h₈, h₉, h₁₀, h₁₁, h₁₂⟩ := h
  constructor <;> simp_all

theorem Sound.activate (hT : T.Persistent) (h : s.Sound T id) {ok : Bool}
    {restored : σ × Int} (hrestore : T.restore s.db id ok = some restored) :
    ({ s with
        live := some (.start id restored.1 restored.2)
        memory := s.stored
        executed := []
        loaded := restored.2 } : Recovery σ μ).Sound T id := by
  refine h.of_same_row rfl rfl ?_
  intro inst hinst
  cases Option.some.inj hinst
  have hstart : ∃ processed, (Instance.start id restored.1 restored.2 :
      Instance σ μ).Exclusive processed := ⟨[], Instance.exclusive_start id _ _⟩
  rcases T.restore_cases hT hrestore with ⟨hnone, rfl⟩ | ⟨row, hsome, hdata, hseq⟩
  · have hempty := h.absent hnone
    refine ⟨rfl, hstart, ?_, ?_, ?_, ?_, ?_, ?_, ?_, ?_, ?_, ?_⟩ <;>
      simp [Instance.start, Instance.Locked, BaseObject.onInit, hempty, hnone,
        ObjectType.replay]
  · obtain ⟨htoData, hbelow⟩ := h.row row hsome
    have hstate : restored.1 = T.replay s.stored := by
      rw [T.fromData_toData _ _ htoData] at hdata
      exact (Option.some.inj hdata).symm
    refine ⟨rfl, hstart, by simp [Instance.start, Instance.Locked],
      by simp [Instance.start], hstate, h.increasing, ?_, fun c hc => hc, ?_, ?_,
      le_refl _, by simp⟩
    · intro call hcall
      refine .inl ?_
      simpa [Instance.start, BaseObject.onInit, hseq] using hbelow call hcall
    · intro other hother
      rw [hsome] at hother
      cases hother
      exact le_of_eq hseq.symm
    · exact fun _ _ call hcall _ => hcall

theorem Sound.step (hT : T.Persistent) (h : s.Sound T id) {label : Label}
    (hone : s.OneLoop label) (hstep : (machine T id).step s label = some t) : t.Sound T id := by
  cases label with
  | act action =>
    obtain ⟨inst, hinst, hmap⟩ := Option.bind_eq_some_iff.mp hstep
    obtain ⟨out, hout, rfl⟩ := Option.map_eq_some_iff.mp hmap
    exact h.act hinst (hone inst hinst) hout
  | insert callID objectID objectType methodName requestData =>
    obtain ⟨result, hresult, rfl⟩ := Option.map_eq_some_iff.mp hstep
    have hobjects := (DB.insertOrGetReliableCall_ok (eq_ok_of_toOption hresult)).1
    have hlookup : result.2.objects.lookup id = s.db.objects.lookup id := by rw [hobjects]
    exact h.of_same_row hlookup rfl fun inst hinst =>
      (h.live inst hinst).of_same_row hlookup rfl rfl rfl rfl
  | nextval =>
    cases hstep
    exact h.of_same_row rfl rfl fun inst hinst =>
      (h.live inst hinst).of_same_row rfl rfl rfl rfl rfl
  | activate ok =>
    simp only [machine, Recovery.step] at hstep
    split at hstep
    · contradiction
    · obtain ⟨restored, hrestore, rfl⟩ := Option.map_eq_some_iff.mp hstep
      exact h.activate hT hrestore
  | crash =>
    obtain ⟨inst, hinst, rfl⟩ := Option.map_eq_some_iff.mp hstep
    exact h.of_same_row rfl rfl nofun

theorem sound_init (h : (machine T id).Init s) : s.Sound T id := by
  obtain ⟨hlive, -, hstored, -, hrow, -⟩ := h
  refine ⟨?_, ?_, ?_, ?_⟩ <;> simp [hlive, hstored, hrow]

end Sound

/-- With one loop at a time, the row is the replay of an increasing sequence of calls, all
below its `next_rcseq`, and an activation starts no call below the `next_rcseq` it was
restored with. -/
theorem persisted_state_is_ordered_fold (T : ObjectType σ μ) (id : GoString)
    (hT : T.Persistent) {s : Recovery σ μ} (h : (machine T id).Reachable OneLoop s) :
    (s.stored.map (·.seq)).Pairwise (· < ·) ∧
      (∀ call ∈ s.stored, ∃ row, s.db.objects.lookup id = some row ∧
        call.seq < row.nextRcseq) ∧
      (∀ row, s.db.objects.lookup id = some row →
        T.toData (T.replay s.stored) = .ok row.data) ∧
      ∀ inst, s.live = some inst → ∀ call ∈ s.executed, s.loaded ≤ call.seq := by
  have hs : s.Sound T id := h.invariant sound_init fun hs hl hst => hs.step hT hl hst
  refine ⟨hs.increasing, ?_, fun row hrow => (hs.row row hrow).1,
    fun inst hinst => (hs.live inst hinst).executed_ge⟩
  intro call hcall
  cases hrow : s.db.objects.lookup id with
  | none => simp [hs.absent hrow] at hcall
  | some row => exact ⟨row, rfl, (hs.row row hrow).2 call hcall⟩

def tallyEmpty : Recovery Bytes Bytes := ⟨DB.empty, none, [], [], [], 0⟩

theorem tallyEmpty_init : (machine tally (lit "o")).Init tallyEmpty := by
  simp [machine, tallyEmpty, DB.empty, CallTable.empty]

theorem tally_persistent : tally.Persistent := ⟨[], rfl⟩

def tallyInsert (tag : UInt8) : Label := .insert [tag] (lit "o") (lit "Tally") (lit "Add") [tag]

def loopSteps (self : Nat) (n : Nat) : List Label :=
  List.replicate n (.act (.loop self true))

/-- A crash between the save of call 1 and its status; call 2 is served by the next
activation, which is then saved once more. -/
def crashAfterSave : List Label :=
  [tallyInsert 1, .activate true, .act .ensure] ++ loopSteps 0 12 ++
    [.crash, tallyInsert 2, .activate true, .act .ensure] ++ loopSteps 0 15 ++
    [.act (.save true)]

theorem persisted_state_is_ordered_fold_crashAfterSave :
    ∃ s, (machine tally (lit "o")).Steps OneLoop tallyEmpty crashAfterSave s ∧
      s.stored.map (·.seq) = [1, 2] ∧ s.executed.map (·.seq) = [2] ∧
      (s.stored.map (·.seq)).Pairwise (· < ·) ∧
      (∀ call ∈ s.stored, ∃ row, s.db.objects.lookup (lit "o") = some row ∧
        call.seq < row.nextRcseq) ∧
      (∀ row, s.db.objects.lookup (lit "o") = some row →
        tally.toData (tally.replay s.stored) = .ok row.data) ∧
      ∀ inst, s.live = some inst → ∀ call ∈ s.executed, s.loaded ≤ call.seq := by
  have hrun : ((machine tally (lit "o")).exec OneLoop tallyEmpty crashAfterSave).any (fun s =>
      decide (s.stored.map (·.seq) = [1, 2] ∧ s.executed.map (·.seq) = [2])) = true := by
    decide
  obtain ⟨s, hs, hlogs⟩ := Machine.exec_any hrun
  obtain ⟨hstored, hexecuted⟩ := of_decide_eq_true hlogs
  have hreach : (machine tally (lit "o")).Reachable OneLoop s :=
    (Machine.Reachable.init tallyEmpty_init).steps hs
  exact ⟨s, hs, hstored, hexecuted,
    persisted_state_is_ordered_fold tally (lit "o") tally_persistent hreach⟩

/-- The stored row's `next_rcseq` is past `seq`. -/
def rowPast (db : DB) (id : GoString) (seq : Int) : Bool :=
  (db.objects.lookup id).any fun row => decide (seq < row.nextRcseq)

/-- A status `success` or `failed` is written only when the row's `next_rcseq` is past
the call, that is when the `SaveObject` of the same `finalize` took effect. -/
def StatusAfterSave (id : GoString) (s : Recovery σ μ) : Label → Prop
  | .act (.loop self true) =>
    match s.live.bind fun inst => inst.loops[self]? with
    | some (.update call _ final) => final.status.Completed → rowPast s.db id call.seq = true
    | _ => True
  | _ => True

instance (id : GoString) (s : Recovery σ μ) (label : Label) :
    Decidable (s.StatusAfterSave id label) := by
  unfold StatusAfterSave
  split
  · split <;> infer_instance
  · infer_instance

/-- The effect of the call is in the live state, and in the state that a reload of the row
gives. -/
def Contained (T : ObjectType σ μ) (id : GoString) (s : Recovery σ μ) (seq : Int) : Prop :=
  (∀ inst, s.live = some inst →
    inst.obj.data = T.replay s.memory ∧ seq ∈ s.memory.map (·.seq)) ∧
  ∃ row, s.db.objects.lookup id = some row ∧ T.fromData row.data = some (T.replay s.stored) ∧
    seq ∈ s.stored.map (·.seq)

/-- Completed calls are contained in the stored row. -/
def CompletedStored (id : GoString) (s : Recovery σ μ) : Prop :=
  ∀ row ∈ s.db.calls.rows, row.objectID = id → row.status.Completed →
    row.seq ∈ s.stored.map (·.seq)

section Completed

variable {T : ObjectType σ μ} {id : GoString} {s t : Recovery σ μ}

theorem CompletedStored.act (hsound : s.Sound T id) (h : s.CompletedStored id)
    {inst : Instance σ μ} (hinst : s.live = some inst) {action : Action} {out : Outcome σ μ}
    (hguard : s.StatusAfterSave id (.act action)) (hstep : inst.step T s.db action = some out) :
    (s.observe out).CompletedStored id := by
  have hl := hsound.live inst hinst
  cases Instance.step_effect hstep with
  | quiet hdb hdata hevent =>
    have hsave : out.event ≠ some .save := by
      rcases hevent with hevent | ⟨call, hevent⟩ <;> simp [hevent]
    simpa [CompletedStored, observe, hdb, hsave] using h
  | invoke self call rest hpc hdb hobj hevent =>
    simpa [CompletedStored, observe, hdb, hevent] using h
  | finish self call rest msg hpc hdb hobj hnew hevent =>
    simpa [CompletedStored, observe, hdb, hevent] using h
  | save hmay hsaved hobj hevent =>
    obtain ⟨data, -, hcalls, -, -⟩ := BaseObject.saveLocked_ok hsaved
    intro row hrow hid hdone
    have hrow' : row ∈ s.db.calls.rows := by simpa [observe, hcalls] using hrow
    obtain ⟨call, hcall, hseq⟩ := List.mem_map.mp (h row hrow' hid hdone)
    have hstored : (s.observe out).stored = s.memory := by simp [observe, hevent]
    rw [hstored]
    exact List.mem_map.mpr ⟨call, hl.kept call hcall, hseq⟩
  | update self call rest final haction hpc hupdated hobj hevent =>
    obtain ⟨-, -, hrows⟩ := DB.updateReliableCallStatus_ok hupdated
    have hstored : (s.observe out).stored = s.stored := by simp [observe, hevent]
    intro row hrow hid hdone
    have hrow' : row ∈ out.db.calls.rows := hrow
    rw [hrows] at hrow'
    obtain ⟨old, hold, rfl⟩ := List.mem_map.mp hrow'
    rw [hstored, CallTable.finish_seq]
    by_cases hseq : old.seq = call.seq
    · have hfinal : final.status.Completed := by
        simpa [CallTable.finish, hseq] using hdone
      have hmem := (hl.applied _ (List.mem_of_getElem? hpc)).2 hfinal
      subst haction
      have hpast : rowPast s.db id call.seq = true := by
        simpa [StatusAfterSave, hinst, hpc, hfinal] using hguard
      obtain ⟨objRow, hlookup, hlt⟩ := Option.any_eq_true _ _ |>.mp hpast
      have hin := hl.saved objRow hlookup call hmem (of_decide_eq_true hlt)
      rw [hseq]
      exact List.mem_map_of_mem hin
    · rw [CallTable.finish, if_neg hseq] at hdone
      exact h old hold (by simpa using hid) hdone

theorem CompletedStored.step (hsound : s.Sound T id) (h : s.CompletedStored id)
    {label : Label} (hguard : s.StatusAfterSave id label)
    (hstep : (machine T id).step s label = some t) : t.CompletedStored id := by
  cases label with
  | act action =>
    obtain ⟨inst, hinst, hmap⟩ := Option.bind_eq_some_iff.mp hstep
    obtain ⟨out, hout, rfl⟩ := Option.map_eq_some_iff.mp hmap
    exact h.act hsound hinst hguard hout
  | insert callID objectID objectType methodName requestData =>
    obtain ⟨result, hresult, rfl⟩ := Option.map_eq_some_iff.mp hstep
    obtain ⟨-, -, hcases⟩ := DB.insertOrGetReliableCall_ok (eq_ok_of_toOption hresult)
    intro row hrow hid hdone
    rcases hcases with ⟨-, -, hcalls⟩ | ⟨hnew, -, hrows⟩
    · exact h row (by simpa [hcalls] using hrow) hid hdone
    · have hrow' : row ∈ s.db.calls.rows ++ [result.1] := hrows ▸ hrow
      rcases List.mem_append.mp hrow' with hrow' | hrow'
      · exact h row hrow' hid hdone
      · rw [List.mem_singleton.mp hrow', hnew] at hdone
        rcases hdone with hdone | hdone <;> cases hdone
  | nextval =>
    cases hstep
    exact h
  | activate ok =>
    simp only [machine, Recovery.step] at hstep
    split at hstep
    · contradiction
    · obtain ⟨restored, -, rfl⟩ := Option.map_eq_some_iff.mp hstep
      exact h
  | crash =>
    obtain ⟨inst, -, rfl⟩ := Option.map_eq_some_iff.mp hstep
    exact h

end Completed

/-- With one loop at a time, and statuses written only after their row, a completed call
is in the live state and survives a reload. -/
theorem completed_call_is_never_lost (T : ObjectType σ μ) (id : GoString)
    (hT : T.Persistent) {s : Recovery σ μ}
    (h : (machine T id).Reachable (fun s l => s.OneLoop l ∧ s.StatusAfterSave id l) s) :
    ∀ row ∈ s.db.calls.rows, row.objectID = id → row.status.Completed →
      s.Contained T id row.seq := by
  have hinv : s.Sound T id ∧ s.CompletedStored id := by
    apply h.invariant
    · intro s hinit
      have hnone := hinit.2.2.2.2.2.1
      exact ⟨sound_init hinit, fun row hmem hid => absurd hid (hnone row hmem)⟩
    · exact fun hs hl hst => ⟨hs.1.step hT hl.1 hst, hs.2.step hs.1 hl.2 hst⟩
  obtain ⟨hs, hdone⟩ := hinv
  intro row hrow hid hcompleted
  obtain ⟨call, hcall, hseq⟩ := List.mem_map.mp (hdone row hrow hid hcompleted)
  refine ⟨fun inst hinst => ?_, ?_⟩
  · have hl := hs.live inst hinst
    exact ⟨hl.data, List.mem_map.mpr ⟨call, hl.kept call hcall, hseq⟩⟩
  · cases hlookup : s.db.objects.lookup id with
    | none => simp [hs.absent hlookup] at hcall
    | some objRow =>
      obtain ⟨hdata, -⟩ := hs.row objRow hlookup
      exact ⟨objRow, rfl, T.fromData_toData _ _ hdata, List.mem_map.mpr ⟨call, hcall, hseq⟩⟩

/-- The save of call 1 fails, its status is written all the same, and the node crashes. -/
def saveFails : List Label :=
  [tallyInsert 1, .activate true, .act .ensure] ++ loopSteps 0 11 ++
    [.act (.loop 0 false)] ++ loopSteps 0 1 ++ [.crash, .activate true]

theorem failed_save_loses_completed_call :
    ∃ s, (machine tally (lit "o")).Reachable OneLoop s ∧
      (∃ row ∈ s.db.calls.rows, row.objectID = lit "o" ∧ row.status = .success ∧
        ¬ s.Contained tally (lit "o") row.seq) ∧
      ∃ inst, s.live = some inst ∧ inst.obj.data = tally.fresh := by
  have hrun : ((machine tally (lit "o")).exec OneLoop tallyEmpty saveFails).any (fun s =>
      s.db.calls.rows.any (fun row => row.objectID = lit "o" ∧ row.status = .success ∧
        row.seq ∉ s.memory.map (·.seq)) &&
      s.live.any (fun inst => inst.obj.data = tally.fresh)) = true := by
    decide
  obtain ⟨s, hs, hbad⟩ := Machine.exec_any hrun
  obtain ⟨hrows, hlive⟩ := Bool.and_eq_true_iff.mp hbad
  obtain ⟨row, hrow, hlost⟩ := List.any_eq_true.mp hrows
  obtain ⟨inst, hinst, hdata⟩ := Option.any_eq_true _ _ |>.mp hlive
  obtain ⟨hid, hstatus, hseq⟩ := of_decide_eq_true hlost
  exact ⟨s, (Machine.Reachable.init tallyEmpty_init).steps hs,
    ⟨row, hrow, hid, hstatus, fun hc => hseq (hc.1 inst hinst).2⟩,
    inst, hinst, of_decide_eq_true hdata⟩

theorem completed_call_is_never_lost_crashAfterSave :
    ∃ s, (machine tally (lit "o")).Steps
        (fun s l => s.OneLoop l ∧ s.StatusAfterSave (lit "o") l) tallyEmpty crashAfterSave s ∧
      (∃ row ∈ s.db.calls.rows, row.objectID = lit "o" ∧ row.status = .success) ∧
      ∀ row ∈ s.db.calls.rows, row.objectID = lit "o" → row.status.Completed →
        s.Contained tally (lit "o") row.seq := by
  have hrun : ((machine tally (lit "o")).exec
      (fun s l => s.OneLoop l ∧ s.StatusAfterSave (lit "o") l) tallyEmpty crashAfterSave).any
      (fun s => s.db.calls.rows.any fun row =>
        row.objectID = lit "o" ∧ row.status = .success) = true := by
    decide
  obtain ⟨s, hs, hrows⟩ := Machine.exec_any hrun
  obtain ⟨row, hrow, hdone⟩ := List.any_eq_true.mp hrows
  exact ⟨s, hs, ⟨row, hrow, of_decide_eq_true hdone⟩,
    completed_call_is_never_lost tally (lit "o") tally_persistent
      ((Machine.Reachable.init tallyEmpty_init).steps hs)⟩

end Recovery
end Goverse.Object
