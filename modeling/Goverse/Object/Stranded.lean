import Goverse.Object.Recovery
import Goverse.Object.Watermark

/-! A call is stranded when its row is still pending below `nextRcseq`: no loop fetches it
again. `finalize` strands its call for the time between the store of `nextRcseq` and the
write of the status, so a status that is not written, or a crash in between, strands it
for good. -/
namespace Goverse.Object

open Postgres Lib

variable {σ μ : Type}

/-- The call whose `nextRcseq` has been stored and whose status has not been written. -/
def LoopPC.finalizing : LoopPC μ → Option ReliableCall
  | save call _ _ | update call _ _ => some call
  | _ => none

theorem LoopPC.holdsState_of_finalizing {pc : LoopPC μ} {call : ReliableCall}
    (h : pc.finalizing = some call) : pc.holdsState = true := by
  cases pc <;> simp_all [finalizing, holdsState]

def Instance.Finalizing (inst : Instance σ μ) (seq : Int) : Prop :=
  ∃ pc ∈ inst.loops, ∃ call, pc.finalizing = some call ∧ call.seq = seq

/-- A status that is written takes effect. -/
def Instance.StatusWritten (db : DB) (inst : Instance σ μ) : Action → Prop
  | .loop self ok =>
    match inst.loops[self]? with
    | some (.update call _ final) =>
      ok = true ∧ (db.updateReliableCallStatus call.seq final.status final.resultData
        final.error).isOk = true
    | _ => True
  | _ => True

instance (db : DB) (inst : Instance σ μ) :
    (action : Action) → Decidable (inst.StatusWritten db action)
  | .loop self ok => by
    dsimp only [Instance.StatusWritten]
    split <;> infer_instance
  | .call _ | .register _ | .ensure | .save _ | .destroy => isTrue trivial

namespace Recovery

def Pending (db : DB) (id : GoString) (row : ReliableCall) : Prop :=
  row ∈ db.calls.rows ∧ row.objectID = id ∧ row.status = .pending

/-- Pending calls that no goroutine is about to take off the list. -/
def Due (db : DB) (id : GoString) (inst : Instance σ μ) (seq : Int) : Prop :=
  (∃ row, Pending db id row ∧ row.seq = seq) ∧ ¬ inst.Finalizing seq

def StatusWritten (s : Recovery σ μ) : Label → Prop
  | .act action => ∀ inst ∈ s.live, inst.StatusWritten s.db action
  | _ => True

instance (s : Recovery σ μ) : (label : Label) → Decidable (s.StatusWritten label)
  | .act action => inferInstanceAs (Decidable (∀ inst ∈ s.live, inst.StatusWritten s.db action))
  | .insert _ _ _ _ _ | .nextval | .activate _ | .crash => isTrue trivial

/-- The goroutine is not between a save that took effect and the status of its call. -/
def Unsaved (db : DB) (id : GoString) : LoopPC μ → Prop
  | .update call _ _ => rowPast db id call.seq = false
  | _ => True

instance (db : DB) (id : GoString) (pc : LoopPC μ) : Decidable (Unsaved db id pc) := by
  unfold Unsaved
  split <;> infer_instance

def CrashOutsideFinalize (id : GoString) (s : Recovery σ μ) : Label → Prop
  | .crash => ∀ inst ∈ s.live, ∀ pc ∈ inst.loops, Unsaved s.db id pc
  | _ => True

instance (id : GoString) (s : Recovery σ μ) (label : Label) :
    Decidable (s.CrashOutsideFinalize id label) := by
  unfold CrashOutsideFinalize
  split <;> infer_instance

/-- The live instance steps over no due call, and the row does so only for a call whose
status is written next. -/
structure Serving (T : ObjectType σ μ) (id : GoString) (db : DB) (inst : Instance σ μ) :
    Prop where
  id_eq : inst.obj.id = id
  locked : inst.Locked
  applied : ∀ pc ∈ inst.loops, ∃ memory, pc.Applied T memory
  complete : inst.Complete (Due db id inst) db.lastSeq
  window : ∀ row, db.objects.lookup id = some row → ∀ call, Pending db id call →
    call.seq < row.nextRcseq → ∃ c rest final, .update c rest final ∈ inst.loops ∧ c.seq = call.seq

structure Settled (T : ObjectType σ μ) (id : GoString) (s : Recovery σ μ) : Prop where
  drawn : ∀ row ∈ s.db.calls.rows, row.seq ≤ s.db.lastSeq
  positive : ∀ row ∈ s.db.calls.rows, row.objectID = id → 0 < row.seq
  nonneg : 0 ≤ s.db.lastSeq
  bound : ∀ row, s.db.objects.lookup id = some row → row.nextRcseq ≤ s.db.lastSeq + 1
  dormant : s.live = none → ∀ row, s.db.objects.lookup id = some row →
    ∀ call, Pending s.db id call → row.nextRcseq ≤ call.seq
  live : ∀ inst, s.live = some inst → Serving T id s.db inst

section Action

variable {T : ObjectType σ μ} {id : GoString} {db : DB} {inst : Instance σ μ}
  {action : Action} {out : Outcome σ μ}

theorem pending_step (happ : ∀ pc ∈ inst.loops, ∃ memory, pc.Applied T memory)
    (hstep : inst.step T db action = some out) {row : ReliableCall}
    (h : Pending out.db id row) :
    Pending db id row ∧ ∀ seq status, out.event = some (.update seq status) → row.seq ≠ seq := by
  cases Instance.step_effect hstep with
  | quiet hdb hdata hevent =>
    rw [hdb] at h
    refine ⟨h, fun seq status hupdate => ?_⟩
    rcases hevent with hevent | ⟨call, hevent⟩ <;> simp [hevent] at hupdate
  | invoke self call rest hpc hdb hobj hevent =>
    rw [hdb] at h
    exact ⟨h, by simp [hevent]⟩
  | finish self call rest msg hpc hdb hobj hnew hevent =>
    rw [hdb] at h
    exact ⟨h, by simp [hevent]⟩
  | save hmay hsaved hobj hevent =>
    obtain ⟨data, -, hcalls, -, -⟩ := BaseObject.saveLocked_ok hsaved
    rw [Pending, hcalls] at h
    exact ⟨h, by simp [hevent]⟩
  | update self call rest final haction hpc hupdated hobj hevent =>
    obtain ⟨-, -, hrows⟩ := DB.updateReliableCallStatus_ok hupdated
    obtain ⟨memory, hfinal, -⟩ := happ _ (List.mem_of_getElem? hpc)
    obtain ⟨hrow, hid, hpending⟩ := h
    rw [hrows] at hrow
    obtain ⟨old, hold, rfl⟩ := List.mem_map.mp hrow
    have hne : old.seq ≠ call.seq := by
      intro heq
      rw [CallTable.finish, if_pos heq] at hpending
      exact hfinal hpending
    rw [CallTable.finish, if_neg hne] at hid hpending ⊢
    refine ⟨⟨hold, hid, hpending⟩, ?_⟩
    intro seq status heq
    rw [hevent] at heq
    cases heq
    exact hne

theorem update_step (happ : ∀ pc ∈ inst.loops, ∃ memory, pc.Applied T memory)
    (hstep : inst.step T db action = some out)
    (hwrite : inst.StatusWritten db action)
    {row call : ReliableCall} {rest : List ReliableCall} {final : Final}
    (hrow : Pending out.db id row) (hpc : .update call rest final ∈ inst.loops)
    (hseq : call.seq = row.seq) : .update call rest final ∈ out.inst.loops := by
  cases Instance.step_cases hstep with
  | loop self ok pc mv haction hself hmv hout =>
    rcases eq_or_mem_set (c := mv.pc) hself hpc with heq | hmem
    · subst heq
      subst haction
      obtain ⟨rfl, hok⟩ : ok = true ∧ (db.updateReliableCallStatus call.seq final.status
          final.resultData final.error).isOk = true := by
        simpa [Instance.StatusWritten, hself] using hwrite
      have hevent : out.event = some (.update call.seq final.status) := by
        subst hout
        simp only [loopStep, ↓reduceIte] at hmv
        cases hdb : db.updateReliableCallStatus call.seq final.status final.resultData
            final.error with
        | error e => simp [hdb, Except.isOk, Except.toBool] at hok
        | ok updated =>
          rw [hdb] at hmv
          cases hmv
          rfl
      exact absurd hseq.symm ((pending_step happ hstep hrow).2 _ _ hevent)
    · subst hout
      exact hmem
  | save saved haction hfree hsaved hout => subst hout; exact hpc
  | quiet hdb hevent hid hdata hseq hmu hcancelled hloops =>
    rcases hloops with ⟨hsame, -⟩ | ⟨-, hnew, -⟩
    · rwa [hsame]
    · rw [hnew]
      exact List.mem_append_left _ hpc

theorem finalizing_step (happ : ∀ pc ∈ inst.loops, ∃ memory, pc.Applied T memory)
    (hstep : inst.step T db action = some out)
    (hwrite : inst.StatusWritten db action)
    {row : ReliableCall} (hrow : Pending out.db id row) (h : inst.Finalizing row.seq) :
    out.inst.Finalizing row.seq := by
  obtain ⟨pc, hpc, call, hcall, hseq⟩ := h
  cases pc with
  | update c rest final =>
    cases hcall
    exact ⟨_, update_step happ hstep hwrite hrow hpc hseq, call, rfl, hseq⟩
  | save c rest final =>
    cases hcall
    cases Instance.step_cases hstep with
    | loop self ok pc mv haction hself hmv hout =>
      subst hout
      have hlt := (List.getElem?_eq_some_iff.mp hself).1
      rcases eq_or_mem_set hself hpc with heq | hmem
      · subst heq
        have hnext : mv.pc = .update call rest final := by
          simp only [loopStep] at hmv
          split at hmv <;> cases hmv <;> rfl
        exact ⟨mv.pc, List.mem_set hlt _, call, by rw [hnext]; rfl, hseq⟩
      · exact ⟨_, hmem, call, rfl, hseq⟩
    | save saved haction hfree hsaved hout => subst hout; exact ⟨_, hpc, call, rfl, hseq⟩
    | quiet hdb hevent hid hdata hn hmu hcancelled hloops =>
      refine ⟨.save call rest final, ?_, call, rfl, hseq⟩
      rcases hloops with ⟨hsame, -⟩ | ⟨-, hnew, -⟩
      · rwa [hsame]
      · rw [hnew]
        exact List.mem_append_left _ hpc
  | _ => cases hcall

theorem Serving.complete_step (h : Serving T id db inst)
    (hrows : ∀ row ∈ db.calls.rows, row.seq ≤ db.lastSeq)
    (hstep : inst.step T db action = some out)
    (hwrite : inst.StatusWritten db action) :
    out.inst.Complete (Due out.db id out.inst) out.db.lastSeq := by
  rw [Instance.step_lastSeq hstep]
  refine h.complete.step hstep (fun row hrow _ => hrows row hrow) ?_ ?_ ?_
  · rintro q ⟨⟨row, hrow, rfl⟩, hfinal⟩
    exact ⟨⟨row, (pending_step h.applied hstep hrow).1, rfl⟩,
      fun hold => hfinal (finalizing_step h.applied hstep hwrite hrow hold)⟩
  · rintro q n ⟨⟨row, hrow, rfl⟩, -⟩ hle
    rw [h.id_eq]
    exact List.mem_map_of_mem
      (CallTable.mem_pendingFrom.mpr ⟨hrow.1, hrow.2.1, hle, hrow.2.2⟩)
  · rintro self ok call rest final rfl hpc q ⟨-, hfinal⟩ rfl
    refine hfinal ⟨.save call rest final, ?_, call, rfl, rfl⟩
    simp only [Instance.step, hpc, loopStep, Option.some.injEq] at hstep
    subst hstep
    exact List.mem_set (List.getElem?_eq_some_iff.mp hpc).1 _

theorem Serving.window_step (h : Serving T id db inst)
    (hstep : inst.step T db action = some out)
    (hwrite : inst.StatusWritten db action) :
    ∀ row, out.db.objects.lookup id = some row → ∀ call, Pending out.db id call →
      call.seq < row.nextRcseq →
      ∃ c rest final, .update c rest final ∈ out.inst.loops ∧ c.seq = call.seq := by
  intro row hrow call hcall hlt
  have hold := (pending_step h.applied hstep hcall).1
  by_cases hsame : out.db.objects.lookup id = db.objects.lookup id
  · rw [hsame] at hrow
    obtain ⟨c, rest, final, hpc, hseq⟩ := h.window row hrow call hold hlt
    exact ⟨c, rest, final, update_step h.applied hstep hwrite hcall hpc hseq, hseq⟩
  · have hfinalizing : call.seq < inst.obj.nextRcseq → inst.Finalizing call.seq := by
      intro hbelow
      by_contra hnot
      have := h.complete.watermark call.seq ⟨⟨call, hold, rfl⟩, hnot⟩
      omega
    have hsaved : ∀ saved, inst.obj.saveLocked T db = .ok saved → out.db = saved →
        inst.Finalizing call.seq := by
      intro saved hsaved heq
      obtain ⟨data, -, -, -, hobjects⟩ := BaseObject.saveLocked_ok hsaved
      rw [heq, hobjects, h.id_eq, AList.lookup_insert] at hrow
      cases hrow
      exact hfinalizing hlt
    cases Instance.step_cases hstep with
    | loop self ok pc mv haction hself hmv hout =>
      cases loopStep_effect hmv with
      | quiet hdb => subst hout; exact absurd (by rw [hdb]) hsame
      | invoke _ _ _ _ _ heq | finish _ _ _ _ heq => subst hout heq; exact absurd rfl hsame
      | update c rest final updated hpc hok hupdated heq =>
        subst hout heq
        exact absurd (by rw [(DB.updateReliableCallStatus_ok hupdated).1]) hsame
      | save c rest final saved hpc hsave heq =>
        subst hpc hout heq
        obtain ⟨p, hp, c', hc', hseq⟩ := hsaved saved hsave rfl
        obtain ⟨j, hj⟩ := List.mem_iff_getElem?.mp hp
        have hjs := h.locked j p hj (LoopPC.holdsState_of_finalizing hc')
        rw [h.locked self _ hself rfl] at hjs
        cases Option.some.inj hjs
        rw [hself] at hj
        cases hj
        cases hc'
        exact ⟨c, rest, final, List.mem_set (List.getElem?_eq_some_iff.mp hself).1 _, hseq⟩
    | save saved haction hfree hsave hout =>
      subst hout
      obtain ⟨p, hp, c', hc', -⟩ := hsaved saved hsave rfl
      have := h.locked.free hfree hp
      rw [LoopPC.holdsState_of_finalizing hc'] at this
      contradiction
    | quiet hdb => exact absurd (by rw [hdb]) hsame

theorem applied_step (happ : ∀ pc ∈ inst.loops, ∃ memory, pc.Applied T memory)
    (hstep : inst.step T db action = some out) :
    ∀ pc ∈ out.inst.loops, ∃ memory, pc.Applied T memory := by
  intro p hp
  cases Instance.step_cases hstep with
  | loop self ok pc mv haction hpc hmv hout =>
    subst hout
    rcases eq_or_mem_of_mem_set hp with rfl | hj
    · obtain ⟨memory, hmemory⟩ := happ pc (List.mem_of_getElem? hpc)
      exact ⟨_, loopStep_applied hmemory hmv⟩
    · exact happ p hj
  | save saved haction hfree hsaved hout => subst hout; exact happ p hp
  | quiet hdb hevent hid hdata hseq hmu hcancelled hloops =>
    rcases Instance.mem_loops_cases hloops hp
      with hp | rfl
    · exact happ p hp
    · exact ⟨[], trivial⟩

theorem Serving.act (h : Serving T id db inst)
    (hrows : ∀ row ∈ db.calls.rows, row.seq ≤ db.lastSeq)
    (hstep : inst.step T db action = some out)
    (hwrite : inst.StatusWritten db action) :
    Serving T id out.db out.inst :=
  ⟨(Instance.step_id hstep).trans h.id_eq, h.locked.step hstep, applied_step h.applied hstep,
    h.complete_step hrows hstep hwrite, h.window_step hstep hwrite⟩

theorem bound_step (hid : inst.obj.id = id) (hn : inst.obj.nextRcseq ≤ db.lastSeq + 1)
    (hbound : ∀ row, db.objects.lookup id = some row → row.nextRcseq ≤ db.lastSeq + 1)
    (hstep : inst.step T db action = some out) :
    ∀ row, out.db.objects.lookup id = some row → row.nextRcseq ≤ out.db.lastSeq + 1 := by
  rw [Instance.step_lastSeq hstep]
  intro row hrow
  cases Instance.step_effect hstep with
  | quiet hdb | invoke _ _ _ _ hdb | finish _ _ _ _ _ hdb =>
    rw [hdb] at hrow
    exact hbound row hrow
  | save hmay hsaved hobj hevent =>
    obtain ⟨data, -, -, -, hobjects⟩ := BaseObject.saveLocked_ok hsaved
    rw [hobjects, hid, AList.lookup_insert] at hrow
    cases hrow
    exact hn
  | update self call rest final haction hpc hupdated hobj hevent =>
    rw [(DB.updateReliableCallStatus_ok hupdated).1] at hrow
    exact hbound row hrow

theorem Serving.grow (h : Serving T id db inst) {db' : DB}
    (hobjects : db'.objects = db.objects) (hle : db.lastSeq ≤ db'.lastSeq)
    (hbound : ∀ row, db.objects.lookup id = some row → row.nextRcseq ≤ db.lastSeq + 1)
    (hpending : ∀ row, Pending db' id row → Pending db id row ∨ db.lastSeq < row.seq) :
    Serving T id db' inst := by
  refine ⟨h.id_eq, h.locked, h.applied, h.complete.grow hle ?_, ?_⟩
  · rintro q ⟨⟨row, hrow, rfl⟩, hfinal⟩
    exact (hpending row hrow).imp_left fun hold => ⟨⟨row, hold, rfl⟩, hfinal⟩
  · intro row hrow call hcall hlt
    rw [hobjects] at hrow
    rcases hpending call hcall with hold | hnew
    · exact h.window row hrow call hold hlt
    · have := hbound row hrow
      omega

end Action

section Settled

variable {T : ObjectType σ μ} {id : GoString} {s t : Recovery σ μ}

private theorem settled_init (h : (machine T id).Init s) : s.Settled T id := by
  obtain ⟨hlive, -, -, -, hrow, hnone, hdrawn, hpos⟩ := h
  refine ⟨hdrawn, fun row hmem hid => absurd hid (hnone row hmem), hpos, ?_, ?_, ?_⟩ <;>
    simp [hlive, hrow]

theorem Settled.act (h : s.Settled T id) {inst : Instance σ μ} (hinst : s.live = some inst)
    {action : Action} {out : Outcome σ μ} (hwrite : inst.StatusWritten s.db action)
    (hstep : inst.step T s.db action = some out) : (s.observe out).Settled T id := by
  have hl := h.live inst hinst
  refine ⟨?_, ?_, ?_, ?_, nofun, ?_⟩
  · intro row hrow
    obtain ⟨old, hold, hseq, -⟩ := Instance.step_rows hstep hrow
    have hlast : (s.observe out).db.lastSeq = s.db.lastSeq := Instance.step_lastSeq hstep
    rw [← hseq, hlast]
    exact h.drawn old hold
  · intro row hrow hid
    obtain ⟨old, hold, hseq, hobject, -⟩ := Instance.step_rows hstep hrow
    rw [← hseq]
    exact h.positive old hold (hobject.trans hid)
  · have hlast : (s.observe out).db.lastSeq = s.db.lastSeq := Instance.step_lastSeq hstep
    rw [hlast]
    exact h.nonneg
  · exact bound_step hl.id_eq hl.complete.bound h.bound hstep
  · intro other hother
    rw [← Option.some.inj hother]
    exact hl.act h.drawn hstep hwrite

theorem Settled.grow (h : s.Settled T id) {db : DB} (hobjects : db.objects = s.db.objects)
    (hlast : db.lastSeq = s.db.lastSeq + 1)
    (hrows : ∀ row ∈ db.calls.rows, row ∈ s.db.calls.rows ∨ row.seq = s.db.lastSeq + 1) :
    ({ s with db := db } : Recovery σ μ).Settled T id := by
  have hpending : ∀ row, Pending db id row → Pending s.db id row ∨ s.db.lastSeq < row.seq := by
    rintro row ⟨hrow, hid, hstatus⟩
    rcases hrows row hrow with hold | hnew
    · exact .inl ⟨hold, hid, hstatus⟩
    · exact .inr (by omega)
  refine ⟨?_, ?_, ?_, ?_, ?_, ?_⟩
  · intro row hrow
    dsimp only
    rcases hrows row hrow with hold | hnew
    · have := h.drawn row hold
      omega
    · omega
  · intro row hrow hid
    rcases hrows row hrow with hold | hnew
    · exact h.positive row hold hid
    · have := h.nonneg
      omega
  · have := h.nonneg
    dsimp only
    omega
  · intro row hrow
    have := h.bound row (by rwa [← hobjects])
    dsimp only
    omega
  · intro hlive row hrow call hcall
    have hrow' : s.db.objects.lookup id = some row := by rwa [← hobjects]
    rcases hpending call hcall with hold | hnew
    · exact h.dormant hlive row hrow' call hold
    · have := h.bound row hrow'
      omega
  · intro inst hinst
    have hle : s.db.lastSeq ≤ db.lastSeq := by omega
    exact (h.live inst hinst).grow hobjects hle h.bound hpending

theorem Settled.activate (hT : T.Persistent) (h : s.Settled T id) (hlive : s.live = none)
    {ok : Bool} {restored : σ × Int} (hrestore : T.restore s.db id ok = some restored)
    {memory executed : List ReliableCall} {loaded : Int} :
    ({ s with
        live := some (.start id restored.1 restored.2)
        memory := memory
        executed := executed
        loaded := loaded } : Recovery σ μ).Settled T id := by
  refine ⟨h.drawn, h.positive, h.nonneg, h.bound, nofun, ?_⟩
  intro inst hinst
  cases Option.some.inj hinst
  refine ⟨rfl, by simp [Instance.Locked, Instance.start], by simp [Instance.start], ?_, ?_⟩
  · rcases T.restore_cases hT hrestore with ⟨hnone, rfl⟩ | ⟨row, hrow, -, hseq⟩
    · apply Instance.complete_start
      · have := h.nonneg
        dsimp only
        omega
      · rintro q ⟨⟨row, hrow, rfl⟩, -⟩
        exact le_of_lt (h.positive row hrow.1 hrow.2.1)
    · apply Instance.complete_start
      · rw [hseq]
        exact h.bound row hrow
      · rintro q ⟨⟨call, hcall, rfl⟩, -⟩
        rw [hseq]
        exact h.dormant hlive row hrow call hcall
  · intro row hrow call hcall hlt
    have := h.dormant hlive row hrow call hcall
    omega

theorem Settled.crash (h : s.Settled T id) {inst : Instance σ μ} (hinst : s.live = some inst)
    (hcrash : ∀ pc ∈ inst.loops, Unsaved s.db id pc) {memory executed : List ReliableCall} :
    ({ s with live := none, memory := memory, executed := executed } :
      Recovery σ μ).Settled T id := by
  refine ⟨h.drawn, h.positive, h.nonneg, h.bound, ?_, nofun⟩
  intro _ row hrow call hcall
  by_contra hlt
  obtain ⟨c, rest, final, hpc, hseq⟩ :=
    (h.live inst hinst).window row hrow call hcall (by omega)
  have hunsaved : rowPast s.db id c.seq = false := hcrash _ hpc
  have hrow' : s.db.objects.lookup id = some row := hrow
  simp only [rowPast, hrow', Option.any_some, decide_eq_false_iff_not] at hunsaved
  omega

theorem Settled.step (hT : T.Persistent) (h : s.Settled T id) {label : Label}
    (hwrite : s.StatusWritten label) (hcrash : s.CrashOutsideFinalize id label)
    (hstep : (machine T id).step s label = some t) : t.Settled T id := by
  cases label with
  | act action =>
    obtain ⟨inst, hinst, hmap⟩ := Option.bind_eq_some_iff.mp hstep
    obtain ⟨out, hout, rfl⟩ := Option.map_eq_some_iff.mp hmap
    exact h.act hinst (hwrite inst hinst) hout
  | insert callID objectID objectType methodName requestData =>
    obtain ⟨result, hresult, rfl⟩ := Option.map_eq_some_iff.mp hstep
    obtain ⟨hobjects, hlast, hcases⟩ :=
      DB.insertOrGetReliableCall_ok (eq_ok_of_toOption hresult)
    refine h.grow hobjects hlast fun row hrow => ?_
    rcases hcases with ⟨-, -, hcalls⟩ | ⟨hnew, -, hrows⟩
    · exact .inl (hcalls ▸ hrow)
    · rw [hrows] at hrow
      rcases List.mem_append.mp hrow with hold | hrow
      · exact .inl hold
      · rw [List.mem_singleton.mp hrow, hnew]
        exact .inr rfl
  | nextval =>
    cases hstep
    exact h.grow rfl rfl fun row hrow => .inl hrow
  | activate ok =>
    simp only [machine, Recovery.step] at hstep
    split at hstep
    · contradiction
    · rename_i hlive
      obtain ⟨restored, hrestore, rfl⟩ := Option.map_eq_some_iff.mp hstep
      exact h.activate hT hlive hrestore
  | crash =>
    obtain ⟨inst, hinst, rfl⟩ := Option.map_eq_some_iff.mp hstep
    exact h.crash hinst (hcrash inst hinst)

end Settled

/-- If every status that is written takes effect, and no crash comes between a save that
took effect and the status of its call, then no call is stranded whenever no loop is
running: a retry finds an outcome, or a call that the next fetch returns. -/
theorem no_executed_call_left_pending (T : ObjectType σ μ) (id : GoString)
    (hT : T.Persistent) {s : Recovery σ μ}
    (h : (machine T id).Reachable
      (fun s l => s.StatusWritten l ∧ s.CrashOutsideFinalize id l) s)
    {inst : Instance σ μ} (hlive : s.live = some inst)
    (hidle : ∀ pc ∈ inst.loops, pc.active = false) :
    ∀ row ∈ s.db.calls.rows, row.objectID = id →
      (row.status = .pending → inst.obj.nextRcseq ≤ row.seq) ∧
      (row.status ≠ .pending ∨
        row ∈ s.db.calls.pendingFrom id inst.obj.nextRcseq) := by
  have hs : s.Settled T id := h.invariant settled_init
    fun hs hl hst => hs.step hT hl.1 hl.2 hst
  intro row hrow hid
  have hmin : row.status = .pending → inst.obj.nextRcseq ≤ row.seq := by
    intro hpending
    refine (hs.live inst hlive).complete.watermark row.seq ⟨⟨row, ⟨hrow, hid, hpending⟩, rfl⟩, ?_⟩
    rintro ⟨pc, hpc, call, hcall, -⟩
    have := hidle pc hpc
    cases pc <;> simp_all [LoopPC.active, LoopPC.finalizing]
  refine ⟨hmin, ?_⟩
  by_cases hpending : row.status = .pending
  · exact .inr (CallTable.mem_pendingFrom.mpr ⟨hrow, hid, hmin hpending, hpending⟩)
  · exact .inl hpending

/-- No loop is running and a pending call lies below `nextRcseq`. -/
def Stranded (id : GoString) (s : Recovery σ μ) : Prop :=
  ∃ inst ∈ s.live, (∀ pc ∈ inst.loops, pc.active = false) ∧
    ∃ row ∈ s.db.calls.rows, row.objectID = id ∧ row.status = .pending ∧
      row.seq < inst.obj.nextRcseq

def isStranded (id : GoString) (s : Recovery σ μ) : Bool :=
  s.live.any fun inst => decide ((∀ pc ∈ inst.loops, pc.active = false) ∧
    ∃ row ∈ s.db.calls.rows, row.objectID = id ∧ row.status = .pending ∧
      row.seq < inst.obj.nextRcseq)

private theorem stranded_of_isStranded {id : GoString} {s : Recovery σ μ}
    (h : isStranded id s = true) : s.Stranded id := by
  obtain ⟨inst, hinst, hbad⟩ := Option.any_eq_true _ _ |>.mp h
  exact ⟨inst, hinst, of_decide_eq_true hbad⟩

/-- The node crashes between the save of call 1 and the write of its status. -/
def crashBeforeStatus : List Label :=
  [tallyInsert 1, .activate true, .act .ensure] ++ loopSteps 0 12 ++ [.crash, .activate true]

/-- The status of call 1 is not written; the loop finds no more calls and exits. -/
def statusFails : List Label :=
  [tallyInsert 1, .activate true, .act .ensure] ++ loopSteps 0 12 ++
    [.act (.loop 0 false)] ++ loopSteps 0 11

theorem crash_or_failed_status_strands_call :
    (machine tally (lit "o")).Init tallyEmpty ∧
    (∃ s, (machine tally (lit "o")).Steps OneLoop tallyEmpty crashBeforeStatus s ∧
      s.Stranded (lit "o")) ∧
    ∃ s, (machine tally (lit "o")).Steps OneLoop tallyEmpty statusFails s ∧
      s.Stranded (lit "o") := by
  have hcrash : ((machine tally (lit "o")).exec OneLoop tallyEmpty crashBeforeStatus).any
      (isStranded (lit "o")) = true := by
    decide
  have hstatus : ((machine tally (lit "o")).exec OneLoop tallyEmpty statusFails).any
      (isStranded (lit "o")) = true := by
    decide
  obtain ⟨s, hs, hbad⟩ := Machine.exec_any hcrash
  obtain ⟨t, ht, hbad'⟩ := Machine.exec_any hstatus
  exact ⟨tallyEmpty_init, ⟨s, hs, stranded_of_isStranded hbad⟩, t, ht, stranded_of_isStranded hbad'⟩

/-- A save fails and the node crashes before the status is written: call 1 is served
again by the next activation. -/
def crashUnsaved : List Label :=
  [tallyInsert 1, .activate true, .act .ensure] ++ loopSteps 0 11 ++
    [.act (.loop 0 false), .crash, .activate true, .act .ensure] ++ loopSteps 0 24

theorem no_executed_call_left_pending_crashUnsaved :
    ∃ s inst, (machine tally (lit "o")).Steps
        (fun s l => s.StatusWritten l ∧ s.CrashOutsideFinalize (lit "o") l) tallyEmpty
        crashUnsaved s ∧
      s.live = some inst ∧ inst.obj.nextRcseq = 2 ∧
      ∀ row ∈ s.db.calls.rows, row.objectID = lit "o" →
        (row.status = .pending → inst.obj.nextRcseq ≤ row.seq) ∧
        (row.status ≠ .pending ∨
          row ∈ s.db.calls.pendingFrom (lit "o") inst.obj.nextRcseq) := by
  have hrun : ((machine tally (lit "o")).exec
      (fun s l => s.StatusWritten l ∧ s.CrashOutsideFinalize (lit "o") l) tallyEmpty
      crashUnsaved).any (fun s => s.live.any fun inst =>
        decide (inst.obj.nextRcseq = 2 ∧ ∀ pc ∈ inst.loops, pc.active = false)) = true := by
    decide
  obtain ⟨s, hs, hlive⟩ := Machine.exec_any hrun
  obtain ⟨inst, hinst, hidle⟩ := Option.any_eq_true _ _ |>.mp hlive
  obtain ⟨hseq, hidle⟩ := of_decide_eq_true hidle
  exact ⟨s, inst, hs, hinst, hseq, no_executed_call_left_pending tally (lit "o")
    tally_persistent ((Machine.Reachable.init tallyEmpty_init).steps hs) hinst hidle⟩

end Recovery
end Goverse.Object
