import Goverse.Object.Delivery

/-! What a stored call is about. Its number, its IDs, its method and its request never change;
only its outcome does, and a call that has an outcome is not pending again. -/
namespace Goverse.Object

open Postgres Lib

variable {σ μ : Type}

/-- A call is finalized with an outcome. -/
def LoopPC.Decided : LoopPC μ → Prop
  | finalize _ _ final | save _ _ final | update _ _ final => final.status ≠ .pending
  | _ => True

theorem ObjectType.final_ne_pending (T : ObjectType σ μ) (result : Except GoString μ) :
    (T.final result).status ≠ .pending := by
  cases result <;> simp [ObjectType.final]

private theorem loopStep_decided {T : ObjectType σ μ} {self : Nat} {ok : Bool} {db : DB}
    {o : BaseObject σ} {pc : LoopPC μ} {mv : Move σ μ} (hpc : pc.Decided)
    (h : loopStep T self ok db o pc = some mv) : mv.pc.Decided := by
  cases loopStep_cases h with
  | reject => simp [LoopPC.Decided]
  | finish => exact T.final_ne_pending _
  | finalize | notSaved | saved => exact hpc
  | _ => trivial

namespace Instance

/-- Every goroutine finalizes with an outcome. -/
def Decided (inst : Instance σ μ) : Prop := ∀ pc ∈ inst.loops, pc.Decided

theorem Decided.step {T : ObjectType σ μ} {db : DB} {inst : Instance σ μ} (h : inst.Decided)
    {action : Action} {out : Outcome σ μ} (hstep : inst.step T db action = some out) :
    out.inst.Decided := by
  intro pc hpc
  cases step_cases hstep with
  | loop self ok old mv haction hold hmv hout =>
    subst hout
    rcases eq_or_mem_of_mem_set hpc with rfl | hj
    · exact loopStep_decided (h old (List.mem_of_getElem? hold)) hmv
    · exact h pc hj
  | save saved haction hfree hsaved hout =>
    subst hout
    exact h pc hpc
  | quiet hdb hevent hid hdata hseq hmu hcancelled hloops =>
    rcases mem_loops_cases hloops hpc with hold | rfl
    · exact h pc hold
    · trivial

theorem Decided.pending {T : ObjectType σ μ} {db : DB} {inst : Instance σ μ} (h : inst.Decided)
    {action : Action} {out : Outcome σ μ} (hstep : inst.step T db action = some out)
    {row : ReliableCall} (hrow : row ∈ out.db.calls.rows) (hpending : row.status = .pending) :
    row ∈ db.calls.rows := by
  cases step_effect hstep with
  | quiet hdb | invoke _ _ _ _ hdb | finish _ _ _ _ _ hdb =>
    rw [hdb] at hrow
    exact hrow
  | save hmay hsaved =>
    obtain ⟨_, -, hcalls, -, -⟩ := BaseObject.saveLocked_ok hsaved
    rw [hcalls] at hrow
    exact hrow
  | update self call rest final _ hpc hupdated =>
    rw [(DB.updateReliableCallStatus_ok hupdated).2.2] at hrow
    obtain ⟨old, hold, rfl⟩ := List.mem_map.mp hrow
    unfold CallTable.finish at hpending ⊢
    split at hpending
    · exact absurd hpending (h _ (List.mem_of_getElem? hpc))
    · rename_i hother
      rw [if_neg hother]
      exact hold

end Instance

end Goverse.Object
