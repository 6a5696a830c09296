import Goverse.Lib.Batch
import Goverse.Object.Instance

/-! `nextRcseq` as a watermark. Whatever a run counts as due, no step of a goroutine
moves `nextRcseq` past a due call, as long as a `GetPendingReliableCalls` returns every
due call from its argument on. -/
namespace Goverse.Object

open Postgres Lib

variable {σ μ : Type}

namespace Instance

/-- `last` bounds the `seq` of every row the object has. -/
structure Complete (due : Int → Prop) (last : Int) (inst : Instance σ μ) : Prop where
  increasing : ∀ pc ∈ inst.loops, (pc.remaining.map (·.seq)).Pairwise (· < ·)
  drawn : ∀ pc ∈ inst.loops, ∀ call ∈ pc.remaining, call.seq ≤ last
  covers : ∀ pc ∈ inst.loops, Covers due (pc.remaining.map (·.seq))
  loaded : ∀ n, .fetch n ∈ inst.loops → n ≤ last + 1 ∧ ∀ q, due q → n ≤ q
  bound : inst.obj.nextRcseq ≤ last + 1
  watermark : ∀ q, due q → inst.obj.nextRcseq ≤ q

variable {due due' : Int → Prop} {last last' : Int} {inst : Instance σ μ}

theorem complete_start {id : GoString} {data : σ} {nextRcseq : Int}
    (hbound : nextRcseq ≤ last + 1) (hdue : ∀ q, due q → nextRcseq ≤ q) :
    (start id data nextRcseq : Instance σ μ).Complete due last := by
  refine ⟨?_, ?_, ?_, ?_, hbound, hdue⟩ <;> simp [start]

theorem Complete.grow (h : inst.Complete due last) (hle : last ≤ last')
    (hdue : ∀ q, due' q → due q ∨ last < q) : inst.Complete due' last' := by
  refine ⟨h.increasing, ?_, ?_, ?_, ?_, ?_⟩
  · intro pc hpc call hcall
    exact le_trans (h.drawn pc hpc call hcall) hle
  · intro pc hpc
    refine (h.covers pc hpc).mono fun q hq => (hdue q hq).imp_right ?_
    intro hlt b hb
    obtain ⟨call, hcall, rfl⟩ := List.mem_map.mp hb
    exact lt_of_le_of_lt (h.drawn pc hpc call hcall) hlt
  · intro n hn
    obtain ⟨hbound, hmin⟩ := h.loaded n hn
    refine ⟨by omega, fun q hq => ?_⟩
    rcases hdue q hq with hq | hq
    · exact hmin q hq
    · omega
  · have := h.bound
    omega
  · intro q hq
    rcases hdue q hq with hq | hq
    · exact h.watermark q hq
    · have := h.bound
      omega

variable {T : ObjectType σ μ} {db : DB}

theorem Complete.loop (h : inst.Complete due last) {i : Nat} {ok : Bool} {pc : LoopPC μ}
    {mv : Move σ μ} (hi : inst.loops[i]? = some pc)
    (hmv : loopStep T i ok db inst.obj pc = some mv)
    (hrows : ∀ row ∈ db.calls.rows, row.objectID = inst.obj.id → row.seq ≤ last)
    (hsub : ∀ q, due' q → due q)
    (hfetch : ∀ q n, due q → n ≤ q →
      q ∈ (db.calls.pendingFrom inst.obj.id n).map (·.seq))
    (hdone : ∀ call rest final, pc = .finalize call rest final → ∀ q, due' q → q ≠ call.seq) :
    ({ inst with obj := mv.obj, loops := inst.loops.set i mv.pc } :
      Instance σ μ).Complete due' last := by
  have hpc := List.mem_of_getElem? hi
  have hshrink : ∀ p ∈ inst.loops, Covers due' (p.remaining.map (·.seq)) := fun p hp =>
    (h.covers p hp).mono fun q hq => .inl (hsub q hq)
  constructor
  case increasing =>
    intro p hp
    rcases eq_or_mem_of_mem_set hp with rfl | hj
    · exact loopStep_increasing (h.increasing pc hpc) hmv
    · exact h.increasing p hj
  case drawn =>
    intro p hp
    rcases eq_or_mem_of_mem_set hp with rfl | hj
    · intro call hcall
      rcases loopStep_remaining hmv with hnil | ⟨hsame, -⟩ | ⟨n, -, hfetched, -, -⟩ |
        ⟨c, rest, final, rfl, rfl⟩
      · rw [hnil] at hcall
        contradiction
      · exact h.drawn pc hpc call (hsame ▸ hcall)
      · rw [hfetched] at hcall
        obtain ⟨hmem, hid, -⟩ := CallTable.mem_pendingFrom.mp hcall
        exact hrows call hmem hid
      · exact h.drawn _ hpc call (List.mem_cons_of_mem _ hcall)
    · exact h.drawn p hj
  case covers =>
    intro p hp
    rcases eq_or_mem_of_mem_set hp with rfl | hj
    · rcases loopStep_remaining hmv with hnil | ⟨hsame, -⟩ | ⟨n, rfl, hfetched, -, -⟩ |
        ⟨call, rest, final, rfl, rfl⟩
      · rw [hnil]
        exact Covers.nil _
      · rw [hsame]
        exact hshrink pc hpc
      · rw [hfetched]
        intro q hq
        exact .inl (hfetch q n (hsub q hq) ((h.loaded n hpc).2 q (hsub q hq)))
      · exact (h.covers _ hpc).tail fun q hq => ⟨hsub q hq, hdone call rest final rfl q hq⟩
    · exact hshrink p hj
  case loaded =>
    intro n hn
    rcases eq_or_mem_of_mem_set hn with heq | hj
    · have hload := loopStep_fetch hmv heq.symm
      rw [hload] at heq
      cases heq
      exact ⟨h.bound, fun q hq => h.watermark q (hsub q hq)⟩
    · obtain ⟨hbound, hmin⟩ := h.loaded n hj
      exact ⟨hbound, fun q hq => hmin q (hsub q hq)⟩
  case bound =>
    rcases loopStep_progress hmv with ⟨hn, -, -⟩ | ⟨call, rest, -, rfl⟩ |
      ⟨call, rest, final, rfl, rfl⟩
    · rw [hn]
      exact h.bound
    · exact h.bound
    · have := h.drawn _ hpc call (by simp [LoopPC.remaining])
      dsimp only
      omega
  case watermark =>
    intro q hq
    rcases loopStep_progress hmv with ⟨hn, -, -⟩ | ⟨call, rest, -, rfl⟩ |
      ⟨call, rest, final, rfl, rfl⟩
    · rw [hn]
      exact h.watermark q (hsub q hq)
    · exact h.watermark q (hsub q hq)
    · by_contra hlt
      have hle : q ≤ call.seq := by
        dsimp only at hlt
        omega
      have hcovers := h.covers _ hpc
      have hinc := h.increasing _ hpc
      exact hdone call rest final rfl q hq (hcovers.head hinc (hsub q hq) hle)

theorem Complete.step (h : inst.Complete due last) {action : Action} {out : Outcome σ μ}
    (hstep : inst.step T db action = some out)
    (hrows : ∀ row ∈ db.calls.rows, row.objectID = inst.obj.id → row.seq ≤ last)
    (hsub : ∀ q, due' q → due q)
    (hfetch : ∀ q n, due q → n ≤ q →
      q ∈ (db.calls.pendingFrom inst.obj.id n).map (·.seq))
    (hdone : ∀ self ok call rest final, action = .loop self ok →
      inst.loops[self]? = some (.finalize call rest final) → ∀ q, due' q → q ≠ call.seq) :
    out.inst.Complete due' last := by
  cases step_cases hstep with
  | loop self ok pc mv haction hpc hmv hout =>
    subst hout
    refine h.loop hpc hmv hrows hsub hfetch ?_
    rintro call rest final rfl
    exact hdone self ok call rest final haction hpc
  | save saved haction hfree hsaved hout =>
    subst hout
    have h' : inst.Complete due' last := h.grow (le_refl _) fun q hq => .inl (hsub q hq)
    exact h'
  | quiet hdb hevent hid hdata hseq hmu hcancelled hloops =>
    obtain ⟨hinc, hdrawn, hcovers, hloaded, hbound, hmin⟩ :
        inst.Complete due' last := h.grow (le_refl _) fun q hq => .inl (hsub q hq)
    have hmem : ∀ pc ∈ out.inst.loops, pc ∈ inst.loops ∨ pc = .checkCtx := fun pc hpc =>
      mem_loops_cases hloops hpc
    refine ⟨?_, ?_, ?_, ?_, hseq ▸ hbound, hseq ▸ hmin⟩
    · intro pc hpc
      rcases hmem pc hpc with hpc | rfl
      · exact hinc pc hpc
      · exact List.Pairwise.nil
    · intro pc hpc
      rcases hmem pc hpc with hpc | rfl
      · exact hdrawn pc hpc
      · nofun
    · intro pc hpc
      rcases hmem pc hpc with hpc | rfl
      · exact hcovers pc hpc
      · exact Covers.nil _
    · intro n hn
      rcases hmem _ hn with hn | hn
      · exact hloaded n hn
      · cases hn

end Instance
end Goverse.Object
