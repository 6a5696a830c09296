import Goverse.Object.Delivery
import Goverse.Object.SeqWrite

/-! When a caller of `ProcessPendingReliableCalls` is released. Its channel is closed at once if
`nextRcseq` is past its number, by `notifyWaiters`, and by the cleanup of a loop goroutine. The
first two look at what has been processed; a cleanup does not, and it may come after the
goroutine has let go of `processingCalls`. -/
namespace Goverse.Object

open Postgres Lib

variable {σ μ : Type}

namespace LoopPC

/-- `nextRcseq` is past this number. -/
def reached : LoopPC μ → Option Int
  | closeProcessed n => some (n - 1)
  | save call _ _ | update call _ _ | notify call _ => some call.seq
  | _ => none

/-- The channels the goroutine is to close. -/
def owes : LoopPC μ → List Nat
  | deliver toClose toNotify _ _ => toClose ++ toNotify
  | _ => []

@[simp] theorem processing_of_inactive {pc : LoopPC μ} (h : pc.active = false) :
    pc.processing = none := by
  cases pc <;> simp_all [active, processing]

end LoopPC

private theorem mem_popped {seq : Int} {waiters : List SeqWaiter} {ch : Nat}
    (h : ch ∈ (popWaiters seq waiters).toClose ++ (popWaiters seq waiters).toNotify) :
    ∃ w ∈ waiters, w.ch = ch ∧ w.seq ≤ seq := by
  induction waiters with
  | nil => contradiction
  | cons first rest ih =>
    rw [popWaiters] at h
    split at h
    · rename_i hle
      have hcases : ch = first.ch ∨ ch ∈ (popWaiters seq rest).toClose ++
          (popWaiters seq rest).toNotify := by
        dsimp only at h
        split at h <;> simp only [List.mem_append, List.mem_cons] at h ⊢ <;> tauto
      rcases hcases with rfl | hrest
      · exact ⟨first, List.mem_cons_self, rfl, hle⟩
      · obtain ⟨w, hw, hfound⟩ := ih hrest
        exact ⟨w, List.mem_cons_of_mem first hw, hfound⟩
    · contradiction

namespace BaseObject

variable {o : BaseObject σ}

private theorem deliver_closes {toClose toNotify : List Nat} {call : Option ReliableCall} {ch : Nat}
    {c : Chan} (h : (o.deliver toClose toNotify call).chans[ch]? = some c)
    (hclosed : 0 < c.closes) :
    (∃ old, o.chans[ch]? = some old ∧ 0 < old.closes) ∨ ch ∈ toClose ++ toNotify := by
  obtain ⟨n, mid, hmid, rfl, hnotify⟩ := getElem?_foldl_modify h
  by_cases hn : n = 0
  · subst hn
    obtain ⟨m, old, hold, rfl, hclose⟩ := getElem?_foldl_modify hmid
    by_cases hm : m = 0
    · subst hm
      exact .inl ⟨old, hold, hclosed⟩
    · exact .inr (List.mem_append_left _ (hclose hm))
  · exact .inr (List.mem_append_right _ (hnotify hn))

private theorem cleanup_closes {ch : Nat} {c : Chan}
    (h : o.cleanupProcessingLoop.chans[ch]? = some c) (hclosed : 0 < c.closes) :
    (∃ old, o.chans[ch]? = some old ∧ 0 < old.closes) ∨ ∃ w ∈ o.seqWaiters, w.ch = ch := by
  rw [cleanup_chans] at h
  obtain ⟨n, old, hold, rfl, hmem⟩ := getElem?_foldl_modify h
  by_cases hn : n = 0
  · subst hn
    exact .inl ⟨old, hold, hclosed⟩
  · obtain ⟨w, hw, hch⟩ := List.mem_map.mp (hmem hn)
    exact .inr ⟨w, hw, hch⟩

end BaseObject

/-- What a step of a goroutine does to those who wait. -/
structure ReleaseEffect (o : BaseObject σ) (pc : LoopPC μ) (mv : Move σ μ) : Prop where
  waiters : ∀ w ∈ mv.obj.seqWaiters, w ∈ o.seqWaiters
  length : mv.obj.chans.length = o.chans.length
  owes : ∀ ch ∈ mv.pc.owes, pc.processing = none ∧ pc.active = true ∧
    ∃ w ∈ o.seqWaiters, w.ch = ch ∧ ∃ q, pc.reached = some q ∧ w.seq ≤ q
  closes : ∀ (ch : Nat) (c : Chan), mv.obj.chans[ch]? = some c → 0 < c.closes →
    (∃ old, o.chans[ch]? = some old ∧ 0 < old.closes) ∨ ch ∈ pc.owes ∨
      (pc = .cleanup ∧ ∃ w ∈ o.seqWaiters, w.ch = ch)

theorem ReleaseEffect.same {o : BaseObject σ} {pc : LoopPC μ} {mv : Move σ μ}
    (hwaiters : mv.obj.seqWaiters = o.seqWaiters) (hchans : mv.obj.chans = o.chans)
    (howes : mv.pc.owes = []) : ReleaseEffect o pc mv where
  waiters w hw := hwaiters ▸ hw
  length := by rw [hchans]
  owes ch hch := by simp [howes] at hch
  closes ch c hc hclosed := .inl ⟨c, hchans ▸ hc, hclosed⟩

private theorem loopStep_release {T : ObjectType σ μ} {self : Nat} {ok : Bool} {db : DB}
    {o : BaseObject σ} {pc : LoopPC μ} {mv : Move σ μ}
    (h : loopStep T self ok db o pc = some mv) : ReleaseEffect o pc mv := by
  cases loopStep_cases h with
  | closeProcessed | notify =>
    refine ⟨fun w hw => mem_popWaiters hw, rfl, fun ch hch => ?_, fun ch c hc hclosed => ?_⟩
    · obtain ⟨w, hw, hwch, hle⟩ := mem_popped hch
      exact ⟨rfl, rfl, w, hw, hwch, _, rfl, hle⟩
    · exact .inl ⟨c, hc, hclosed⟩
  | closed | delivered =>
    refine ⟨fun w hw => hw, BaseObject.length_deliver _ _ _, nofun, fun ch c hc hclosed => ?_⟩
    exact (BaseObject.deliver_closes hc hclosed).imp_right .inl
  | cleanup =>
    refine ⟨nofun, BaseObject.length_cleanup, nofun, fun ch c hc hclosed => ?_⟩
    exact (BaseObject.cleanup_closes hc hclosed).imp_right fun hw => .inr ⟨rfl, hw⟩
  | _ => exact .same rfl rfl rfl

private theorem loopStep_reached {T : ObjectType σ μ} {self : Nat} {ok : Bool} {db : DB}
    {o : BaseObject σ} {pc : LoopPC μ} {mv : Move σ μ}
    (h : loopStep T self ok db o pc = some mv)
    (hreached : ∀ q, pc.reached = some q → q < o.nextRcseq) :
    ∀ q, mv.pc.reached = some q → q < mv.obj.nextRcseq := by
  intro q hq
  cases loopStep_cases h with
  | loadSeq =>
    cases hq
    dsimp only
    omega
  | finalize =>
    cases hq
    dsimp only
    omega
  | notSaved | saved | notUpdated | updated => exact hreached q hq
  | _ => contradiction

private theorem loopStep_exit {T : ObjectType σ μ} {self : Nat} {ok : Bool} {db : DB}
    {o : BaseObject σ} {pc : LoopPC μ} {mv : Move σ μ}
    (h : loopStep T self ok db o pc = some mv) (hlive : o.cancelled = false)
    (hactive : pc.active = true) (hexit : mv.pc.active = false) :
    mv.obj.processingCalls = false ∧ mv.obj.seqWaiters = [] := by
  cases loopStep_cases h with
  | cancelled hcancelled | fetchCancelled hcancelled | abandon hcancelled =>
    rw [hlive] at hcancelled
    contradiction
  | exit =>
    simp only [loopStep, BaseObject.tryExitIfNoWaiters] at h
    split at h
    · rename_i hnone
      exact ⟨rfl, hnone⟩
    · simp at h
  | _ => contradiction

namespace Instance

variable {T : ObjectType σ μ} {db : DB} {inst : Instance σ μ} {processed : List Int} {q : Int}

theorem step_loop {self : Nat} {ok : Bool} {out : Outcome σ μ}
    (hstep : inst.step T db (.loop self ok) = some out) :
    ∃ pc mv, inst.loops[self]? = some pc ∧ loopStep T self ok db inst.obj pc = some mv ∧
      out = ⟨mv.db, { inst with obj := mv.obj, loops := inst.loops.set self mv.pc }, mv.event⟩ := by
  simp only [step] at hstep
  split at hstep
  · contradiction
  · rename_i pc hpc
    split at hstep
    · contradiction
    · rename_i mv hmv
      cases hstep
      exact ⟨pc, mv, hpc, hmv, rfl⟩

/-- `nextRcseq` is past the number, and it is not inside `processReliableCall`. -/
structure Past (inst : Instance σ μ) (q : Int) : Prop where
  below : q < inst.obj.nextRcseq
  idle : ∀ pc ∈ inst.loops, ∀ call, pc.processing = some call → call.seq ≠ q

theorem Past.step (h : inst.Past q) (hexcl : inst.Exclusive processed) {action : Action}
    {out : Outcome σ μ} (hstep : inst.step T db action = some out) : out.inst.Past q := by
  refine ⟨lt_of_lt_of_le h.below (hexcl.nextRcseq_le hstep), fun p hp call hcall => ?_⟩
  cases step_cases hstep with
  | loop self ok pc mv haction hpc hmv hout =>
    subst hout
    rcases eq_or_mem_of_mem_set hp with rfl | hj
    · rcases loopStep_processing hmv hcall with hold | ⟨-, hevent⟩
      · exact h.idle pc (List.mem_of_getElem? hpc) call hold
      · -- a call that is passed on was fetched from `nextRcseq` on
        rcases loopStep_progress hmv with ⟨-, -, hnone⟩ | ⟨call', rest, rfl, rfl⟩ |
          ⟨call', rest, final, rfl, rfl⟩
        · simp [hevent, Event.processed] at hnone
        · cases hevent
          have hbound := (hexcl.ordered _ (List.mem_of_getElem? hpc)).bounded call
            (by simp [LoopPC.remaining])
          have := h.below
          omega
        · contradiction
    · exact h.idle p hj call hcall
  | save saved haction hfree hsaved hout =>
    subst hout
    exact h.idle p hp call hcall
  | quiet hdb hevent hid hdata hseq hmu hcancelled hloops =>
    rcases mem_loops_cases hloops hp with hp | rfl
    · exact h.idle p hp call hcall
    · contradiction

/-- The number for which an action registers a waiter. -/
def registers (inst : Instance σ μ) : Action → Option Int
  | .register caller => inst.callers[caller]?
  | _ => none

/-- Those who are or will be released are past, and whoever waits has a goroutine. `asked` are
the numbers the channels were made for. -/
structure Served (inst : Instance σ μ) (asked : List Int) : Prop where
  live : inst.obj.cancelled = false
  flagged : inst.Flagged
  attended : inst.obj.processingCalls = true ∨ inst.obj.seqWaiters ≠ [] →
    ∃ pc ∈ inst.loops, pc.active = true
  length : asked.length = inst.obj.chans.length
  waiters : ∀ w ∈ inst.obj.seqWaiters, asked[w.ch]? = some w.seq
  reached : ∀ pc ∈ inst.loops, ∀ q, pc.reached = some q → q < inst.obj.nextRcseq
  owes : ∀ pc ∈ inst.loops, ∀ ch ∈ pc.owes, ∃ q, asked[ch]? = some q ∧ inst.Past q
  closed : ∀ (ch : Nat) (c : Chan) (q : Int), inst.obj.chans[ch]? = some c → 0 < c.closes →
    asked[ch]? = some q → inst.Past q

namespace Served

variable {asked : List Int}

theorem start (id : GoString) (data : σ) (nextRcseq : Int) :
    (Instance.start id data nextRcseq : Instance σ μ).Served [] where
  live := rfl
  flagged pc hpc := by cases hpc
  attended hneeded := by
    rcases hneeded with hneeded | hneeded <;> simp [Instance.start, BaseObject.onInit] at hneeded
  length := rfl
  waiters w hw := by cases hw
  reached pc hpc := by cases hpc
  owes pc hpc := by cases hpc
  closed ch c q hc := by simp [Instance.start, BaseObject.onInit] at hc

private theorem past_of_reached (h : inst.Served asked) (hexcl : inst.Exclusive processed)
    {self : Nat} {pc : LoopPC μ} (hpc : inst.loops[self]? = some pc) (hactive : pc.active = true)
    (hidle : pc.processing = none) {r : Int} (hreached : pc.reached = some r) (hle : q ≤ r) :
    inst.Past q := by
  have hlt := h.reached pc (List.mem_of_getElem? hpc) r hreached
  refine ⟨by omega, fun p hp call hcall => ?_⟩
  obtain ⟨j, hj⟩ := List.mem_iff_getElem?.mp hp
  by_cases hij : j = self
  · subst hij
    rw [hpc] at hj
    cases hj
    rw [hidle] at hcall
    contradiction
  · rw [LoopPC.processing_of_inactive (hexcl.single.others hpc hactive hj hij)] at hcall
    contradiction

theorem loop (h : inst.Served asked) (hexcl : inst.Exclusive processed) {self : Nat} {ok : Bool}
    {out : Outcome σ μ} (halone : inst.CleanupAlone (.loop self ok))
    (hstep : inst.step T db (.loop self ok) = some out) : out.inst.Served asked := by
  have hflagged := h.flagged.step hexcl halone hstep
  have hlive := step_cancelled hstep (by simp)
  have hpast : ∀ q, inst.Past q → out.inst.Past q := fun q hq => hq.step hexcl hstep
  have hseq := hexcl.nextRcseq_le hstep
  obtain ⟨pc, mv, hpc, hmv, rfl⟩ := step_loop hstep
  have heffect := loopStep_release hmv
  have hmem := List.mem_of_getElem? hpc
  -- a cleanup finds nobody waiting
  have hcleanup : pc = .cleanup → inst.obj.seqWaiters = [] := by
    rintro rfl
    by_contra hwaiting
    obtain ⟨p, hp, hactive⟩ := h.attended (.inr hwaiting)
    rw [halone (by simp [hpc, LoopPC.isCleanup]) p hp] at hactive
    contradiction
  constructor
  case live => exact hlive.trans h.live
  case flagged => exact hflagged
  case attended =>
    intro hneeded
    by_cases hactive : mv.pc.active = true
    · exact ⟨mv.pc, mem_set_self hpc, hactive⟩
    · exfalso
      have hdone : mv.obj.processingCalls = false ∧ mv.obj.seqWaiters = [] := by
        rcases active_or_isCleanup hmv with hpcactive | rfl
        · exact loopStep_exit hmv h.live hpcactive (by simpa using hactive)
        · cases hmv
          exact ⟨rfl, rfl⟩
      rcases hneeded with hneeded | hneeded
      · rw [hdone.1] at hneeded
        contradiction
      · exact hneeded hdone.2
  case length => exact h.length.trans heffect.length.symm
  case waiters => exact fun w hw => h.waiters w (heffect.waiters w hw)
  case reached =>
    intro p hp r hr
    rcases eq_or_mem_of_mem_set hp with rfl | hj
    · exact loopStep_reached hmv (h.reached pc hmem) r hr
    · exact lt_of_lt_of_le (h.reached p hj r hr) hseq
  case owes =>
    intro p hp ch hch
    rcases eq_or_mem_of_mem_set hp with rfl | hj
    · obtain ⟨hidle, hactive, w, hw, rfl, r, hr, hle⟩ := heffect.owes ch hch
      exact ⟨w.seq, h.waiters w hw,
        hpast _ (h.past_of_reached hexcl hpc hactive hidle hr hle)⟩
    · obtain ⟨q, hq, hold⟩ := h.owes p hj ch hch
      exact ⟨q, hq, hpast q hold⟩
  case closed =>
    intro ch c q hc hclosed hq
    rcases heffect.closes ch c hc hclosed with ⟨old, hold, hpos⟩ | howed | ⟨hpc', w, hw, -⟩
    · exact hpast q (h.closed ch old q hold hpos hq)
    · obtain ⟨r, hr, hold⟩ := h.owes pc hmem ch howed
      rw [hq] at hr
      cases hr
      exact hpast q hold
    · rw [hcleanup hpc'] at hw
      contradiction

theorem quiet (h : inst.Served asked) {next : Instance σ μ} {more : List Int}
    (hpast : ∀ q, inst.Past q → next.Past q)
    (hlive : next.obj.cancelled = inst.obj.cancelled)
    (hflagged : next.Flagged)
    (hseq : next.obj.nextRcseq = inst.obj.nextRcseq)
    (hloops : ∀ pc ∈ next.loops, pc ∈ inst.loops ∨ pc = .checkCtx)
    (hattended : next.obj.processingCalls = true ∨ next.obj.seqWaiters ≠ [] →
      ∃ pc ∈ next.loops, pc.active = true)
    (hlength : (asked ++ more).length = next.obj.chans.length)
    (hwaiters : ∀ w ∈ next.obj.seqWaiters, w ∈ inst.obj.seqWaiters ∨
      (asked ++ more)[w.ch]? = some w.seq)
    (hchans : ∀ (ch : Nat) (c : Chan), next.obj.chans[ch]? = some c → 0 < c.closes →
      inst.obj.chans[ch]? = some c) : next.Served (asked ++ more) := by
  have hold : ∀ {ch : Nat} {q : Int}, ch < inst.obj.chans.length →
      (asked ++ more)[ch]? = some q → asked[ch]? = some q := by
    intro ch q hlt hq
    rwa [List.getElem?_append_left (h.length ▸ hlt)] at hq
  constructor
  case live => exact hlive.trans h.live
  case flagged => exact hflagged
  case attended => exact hattended
  case length => exact hlength
  case waiters =>
    intro w hw
    rcases hwaiters w hw with hw | hnew
    · have hasked := h.waiters w hw
      exact getElem?_grow hasked
    · exact hnew
  case reached =>
    intro pc hpc r hr
    rw [hseq]
    rcases hloops pc hpc with hpc | rfl
    · exact h.reached pc hpc r hr
    · contradiction
  case owes =>
    intro pc hpc ch hch
    rcases hloops pc hpc with hpc | rfl
    · obtain ⟨q, hq, hq'⟩ := h.owes pc hpc ch hch
      refine ⟨q, ?_, hpast q hq'⟩
      exact getElem?_grow hq
    · contradiction
  case closed =>
    intro ch c q hc hclosed hq
    have hc' := hchans ch c hc hclosed
    exact hpast q (h.closed ch c q hc' hclosed (hold (List.getElem?_eq_some_iff.mp hc').1 hq))

private theorem attended_spawn
    (h : inst.obj.processingCalls = true → ∃ pc ∈ inst.loops, pc.active = true)
    {started : BaseObject σ × Bool} (hstarted : started.2 = !inst.obj.processingCalls) :
    ∃ pc ∈ (inst.spawn started).loops, pc.active = true := by
  cases hflag : inst.obj.processingCalls with
  | true =>
    obtain ⟨pc, hpc, hactive⟩ := h hflag
    refine ⟨pc, ?_, hactive⟩
    simpa [spawn, hstarted, hflag] using hpc
  | false =>
    refine ⟨.checkCtx, ?_, rfl⟩
    simp [spawn, hstarted, hflag]

theorem step (h : inst.Served asked) (hexcl : inst.Exclusive processed) {action : Action}
    {out : Outcome σ μ} (halone : inst.CleanupAlone action) (hkeep : action ≠ .destroy)
    (hstep : inst.step T db action = some out) :
    out.inst.Served (asked ++ (inst.registers action).toList) := by
  have hflagged := h.flagged.step hexcl halone hstep
  have hpast : ∀ q, inst.Past q → out.inst.Past q := fun q hq => hq.step hexcl hstep
  have hlive := step_cancelled hstep hkeep
  cases action with
  | loop self ok =>
    rw [show inst.registers (.loop self ok) = none from rfl, Option.toList_none,
      List.append_nil]
    exact h.loop hexcl halone hstep
  | destroy => contradiction
  | call seq =>
    simp only [Instance.step] at hstep
    split at hstep <;> cases hstep <;>
      exact h.quiet hpast hlive hflagged rfl (fun _ hpc => .inl hpc) h.attended
        (by simpa [registers] using h.length) (fun _ hw => .inl hw) fun _ _ hc _ => hc
  | save ok =>
    have hsame : out.inst = inst := by
      simp only [Instance.step] at hstep
      split at hstep
      · contradiction
      · split at hstep <;> cases hstep <;> rfl
    rw [hsame] at hpast hlive hflagged ⊢
    exact h.quiet hpast hlive hflagged rfl (fun _ hpc => .inl hpc) h.attended
      (by simpa [registers] using h.length) (fun _ hw => .inl hw) fun _ _ hc _ => hc
  | ensure =>
    cases hstep
    refine h.quiet hpast hlive hflagged rfl (fun pc hpc => mem_spawn_loops hpc)
      (fun _ => attended_spawn (fun hflag => h.attended (.inl hflag)) rfl) ?_
      (fun _ hw => .inl hw) fun _ _ hc _ => hc
    simpa [registers, spawn, BaseObject.ensureProcessingLoopRunning] using h.length
  | register caller =>
    simp only [Instance.step] at hstep
    split at hstep
    · contradiction
    · rename_i seq hcaller
      cases hstep
      rw [show inst.registers (.register caller) = some seq from hcaller, Option.toList_some]
      refine h.quiet hpast hlive hflagged rfl (fun pc hpc => mem_spawn_loops hpc)
        (fun _ => attended_spawn (fun hflag => h.attended (.inl hflag)) rfl) ?_ ?_ ?_
      · simp [spawn, BaseObject.registerWaiter, h.length]
      · intro w hw
        rcases mem_insertWaiterSorted.mp hw with rfl | hw
        · exact .inr (by simp [← h.length])
        · exact .inl hw
      · intro ch c hc hclosed
        rcases getElem?_concat_cases hc with ⟨-, rfl⟩ | hc
        · contradiction
        · exact hc

end Served
end Instance

namespace SeqWrite

/-- The number that a step tests at the beginning of `ProcessPendingReliableCalls`. -/
def tests (s : SeqWrite σ μ) : Label → Option Int
  | .act (.call seq) => some seq
  | .caller self _ =>
    match s.callers[self]? with
    | some (.process seq) => some seq
    | _ => none
  | _ => none

def registers (s : SeqWrite σ μ) : Label → Option Int
  | .act action => s.inst.registers action
  | _ => none

theorem step_inst {T : ObjectType σ μ} {s t : SeqWrite σ μ} {l : Label}
    (hstep : s.step T l = some t) :
    (∃ action out, s.inst.step T s.db action = some out ∧ t.inst = out.inst ∧
      (l = .act action ∨ ∃ seq, action = .call seq ∧ s.registers l = none) ∧
      ∀ seq ∈ s.tests l, action = .call seq) ∨
    (t.inst = s.inst ∧ s.tests l = none ∧ s.registers l = none) := by
  cases l with
  | act action =>
    obtain ⟨out, hout, rfl⟩ := Option.map_eq_some_iff.mp hstep
    refine .inl ⟨action, out, hout, rfl, .inl rfl, fun seq hseq => ?_⟩
    cases action with
    | call q =>
      cases hseq
      rfl
    | _ => contradiction
  | arrive callID methodName requestData =>
    cases hstep
    exact .inr ⟨rfl, rfl, rfl⟩
  | nextval =>
    cases hstep
    exact .inr ⟨rfl, rfl, rfl⟩
  | other row =>
    simp only [step] at hstep
    split at hstep
    · contradiction
    · obtain ⟨result, -, rfl⟩ := Option.map_eq_some_iff.mp hstep
      exact .inr ⟨rfl, rfl, rfl⟩
  | caller self ok =>
    obtain ⟨pc, hself, hstep⟩ := Option.bind_eq_some_iff.mp hstep
    cases pc with
    | process seq =>
      obtain ⟨out, hout, rfl⟩ := Option.map_eq_some_iff.mp hstep
      refine .inl ⟨.call seq, out, hout, rfl, .inr ⟨seq, rfl, rfl⟩, fun q hq => ?_⟩
      simp only [tests, hself, Option.mem_def, Option.some.injEq] at hq
      rw [hq]
    | lock | insert | commit =>
      simp only [callerStep] at hstep
      refine .inr ⟨?_, by simp [tests, hself], rfl⟩
      split at hstep
      all_goals first | contradiction | (cases hstep; rfl)
    | unlock =>
      cases hstep
      exact .inr ⟨rfl, by simp [tests, hself], rfl⟩
    | done => contradiction

/-- The object is not destroyed, and no cleanup comes while another loop goroutine serves. -/
def Kept (s : SeqWrite σ μ) : Label → Prop
  | .act action => s.inst.CleanupAlone action ∧ action ≠ .destroy
  | _ => True

instance (s : SeqWrite σ μ) : (l : Label) → Decidable (s.Kept l)
  | .act action =>
    inferInstanceAs (Decidable (s.inst.CleanupAlone action ∧ action ≠ .destroy))
  | .arrive _ _ _ | .caller _ _ | .other _ | .nextval => isTrue trivial

/-- `processReliableCall` has run for the number, in this activation or before it, and has
returned. -/
def Ran (s : SeqWrite σ μ) (seq : Int) : Prop :=
  (seq ∈ s.passed ∨ seq ∈ s.before) ∧
    ∀ pc ∈ s.inst.loops, ∀ call, pc.processing = some call → call.seq ≠ seq

def HasRow (s : SeqWrite σ μ) (seq : Int) : Prop :=
  ∃ row ∈ s.db.calls.rows, row.objectID = s.inst.obj.id ∧ row.seq = seq

theorem Sequenced.ran {s : SeqWrite σ μ} {last seq : Int} (h : s.Sequenced last)
    (hpast : s.inst.Past seq) (hrow : s.HasRow seq) : s.Ran seq := by
  refine ⟨?_, hpast.idle⟩
  by_contra hnot
  have hdue : s.Due seq := ⟨hrow, fun hp => hnot (.inl hp), fun hb => hnot (.inr hb)⟩
  have := h.complete.watermark seq hdue
  have := hpast.below
  omega

end SeqWrite

/-- `asked` are the numbers the channels of the waiters were made for, and `dismissed` those of
the callers whose channel was closed at once. -/
structure Release (σ μ : Type) where
  run : SeqWrite σ μ
  asked : List Int
  dismissed : List Int

namespace Release

def step (T : ObjectType σ μ) (s : Release σ μ) (l : SeqWrite.Label) : Option (Release σ μ) :=
  (s.run.step T l).map fun run =>
    ⟨run, s.asked ++ (s.run.registers l).toList,
      s.dismissed ++ ((s.run.tests l).filter (· < s.run.inst.obj.nextRcseq)).toList⟩

def machine (T : ObjectType σ μ) : Machine (Release σ μ) SeqWrite.Label where
  Init s := (SeqWrite.machine T).Init s.run ∧ s.asked = [] ∧ s.dismissed = []
  step := step T

/-- Besides, nobody asks for a call whose `nextRcseq` is stored but which is still inside
`processReliableCall`. -/
def Orderly (s : Release σ μ) (l : SeqWrite.Label) : Prop :=
  s.run.Kept l ∧ ∀ seq ∈ s.run.tests l, seq < s.run.inst.obj.nextRcseq →
    ∀ pc ∈ s.run.inst.loops, ∀ call ∈ pc.processing, call.seq ≠ seq

instance (s : Release σ μ) (l : SeqWrite.Label) : Decidable (s.Orderly l) := by
  unfold Orderly
  infer_instance

structure Sound (s : Release σ μ) : Prop where
  sequenced : ∃ last, s.run.Sequenced last
  served : s.run.inst.Served s.asked
  dismissed : ∀ seq ∈ s.dismissed, s.run.inst.Past seq

variable {T : ObjectType σ μ} {s t : Release σ μ}

private theorem sound_init (h : (machine T).Init s) : s.Sound := by
  obtain ⟨hrun, hasked, hdismissed⟩ := h
  refine ⟨⟨_, SeqWrite.sequenced_init hrun⟩, ?_, by simp [hdismissed]⟩
  obtain ⟨⟨id, data, nextRcseq, hinst⟩, -⟩ := hrun
  rw [hinst, hasked]
  exact .start id data nextRcseq

theorem Sound.step (h : s.Sound) {l : SeqWrite.Label} (hl : s.Orderly l)
    (hstep : s.step T l = some t) : t.Sound := by
  obtain ⟨run, hrun, rfl⟩ := Option.map_eq_some_iff.mp hstep
  obtain ⟨last, hlast⟩ := h.sequenced
  have hone : s.run.OneLoop l := by
    cases l with
    | act action => exact h.served.flagged.oneLoop action
    | _ => trivial
  refine ⟨hlast.step hone hrun, ?_, ?_⟩
  · rcases SeqWrite.step_inst hrun with ⟨action, out, hout, hinst, hact, -⟩ | ⟨hinst, -, hnone⟩
    · dsimp only
      rw [hinst]
      rcases hact with rfl | ⟨seq, rfl, hnone⟩
      · exact h.served.step hlast.exclusive hl.1.1 hl.1.2 hout
      · have halone : s.run.inst.CleanupAlone (.call seq) := trivial
        rw [hnone]
        exact h.served.step hlast.exclusive halone (by simp) hout
    · dsimp only
      rw [hinst, hnone, Option.toList_none, List.append_nil]
      exact h.served
  · have hpast : ∀ seq, s.run.inst.Past seq → run.inst.Past seq := by
      intro seq hseq
      rcases SeqWrite.step_inst hrun with ⟨action, out, hout, hinst, -⟩ | ⟨hinst, -⟩
      · rw [hinst]
        exact hseq.step hlast.exclusive hout
      · rwa [hinst]
    intro seq hseq
    rcases List.mem_append.mp hseq with hseq | hseq
    · exact hpast seq (h.dismissed seq hseq)
    · rw [Option.mem_toList, Option.filter_eq_some_iff] at hseq
      have hbelow : seq < s.run.inst.obj.nextRcseq := of_decide_eq_true hseq.2
      exact hpast seq ⟨hbelow, hl.2 seq hseq.1 hbelow⟩

/-- A caller is released only with an outcome: if the channel that it was given for a call that
has a row is closed, `processReliableCall` has run for that call. -/
theorem callers_are_released_with_an_outcome (T : ObjectType σ μ) (s : Release σ μ)
    (hreach : (machine T).Reachable Orderly s) :
    (∀ (ch : Nat) (c : Chan) (seq : Int), s.run.inst.obj.chans[ch]? = some c → 0 < c.closes →
      s.asked[ch]? = some seq → s.run.HasRow seq → s.run.Ran seq) ∧
    ∀ seq ∈ s.dismissed, s.run.HasRow seq → s.run.Ran seq := by
  have hsound : s.Sound := hreach.invariant sound_init fun h hl hstep => h.step hl hstep
  obtain ⟨last, hlast⟩ := hsound.sequenced
  constructor
  · intro ch c seq hc hclosed hasked hrow
    exact hlast.ran (hsound.served.closed ch c seq hc hclosed hasked) hrow
  · intro seq hseq hrow
    exact hlast.ran (hsound.dismissed seq hseq) hrow

def tallyStart : Release Bytes Bytes := ⟨.tallyStart, [], []⟩

theorem tallyStart_init : (machine tally).Init tallyStart := ⟨SeqWrite.tallyStart_init, rfl, rfl⟩

def loopSteps (self n : Nat) : List SeqWrite.Label :=
  List.replicate n (.act (.loop self true))

/-- A `ReliableCallObject` with this call ID, up to the test of `nextRcseq`. -/
def reliableCall (self : Nat) (tag : UInt8) : List SeqWrite.Label :=
  .arrive [tag] (lit "Add") [tag] :: List.replicate 5 (.caller self true)

/-- Call 1 is registered and served. -/
def servedCall : List SeqWrite.Label :=
  reliableCall 0 1 ++ [.act (.register 0)] ++ loopSteps 0 15

theorem callers_are_released_with_an_outcome_served :
    ∃ s, (machine tally).Reachable Orderly s ∧ s.asked = [1] ∧
      s.run.inst.obj.chans.map (·.closes) = [1] ∧ s.run.HasRow 1 ∧ s.run.Ran 1 := by
  have hrun : ((machine tally).exec Orderly tallyStart servedCall).any (fun s => decide
      (s.asked = [1] ∧ s.run.inst.obj.chans.map (·.closes) = [1] ∧
        ∃ row ∈ s.run.db.calls.rows, row.objectID = s.run.inst.obj.id ∧ row.seq = 1)) = true := by
    decide
  obtain ⟨s, hreach, hs⟩ := Machine.exec_reachable hrun tallyStart_init
  obtain ⟨hasked, hclosed, hrow⟩ := of_decide_eq_true hs
  obtain ⟨c, hc, hone⟩ : ∃ c, s.run.inst.obj.chans[0]? = some c ∧ c.closes = 1 := by
    have hfirst : (s.run.inst.obj.chans.map (·.closes))[0]? = some 1 := by simp [hclosed]
    rw [List.getElem?_map] at hfirst
    exact Option.map_eq_some_iff.mp hfirst
  exact ⟨s, hreach, hasked, hclosed, hrow,
    (callers_are_released_with_an_outcome tally s hreach).1 0 c 1 hc (by omega)
      (by simp [hasked]) hrow⟩

/-- Loop 0 has decided to exit; a caller registers for call 1 and starts loop 1; loop 0 cleans up
and closes the caller's channel. -/
def overtakenCaller : List SeqWrite.Label :=
  [.act .ensure] ++ loopSteps 0 7 ++ reliableCall 0 1 ++ [.act (.register 0)] ++ loopSteps 0 1

/-- Call 1 has been run and its `nextRcseq` is stored, but its status is not written yet. A second
request with its call ID comes. -/
def askedTooEarly : List SeqWrite.Label :=
  reliableCall 0 1 ++ [.act (.register 0)] ++ loopSteps 0 11 ++ reliableCall 1 1

theorem caller_is_released_without_an_outcome :
    (∃ s, (machine tally).Reachable Machine.Any s ∧ s.asked = [1] ∧
      s.run.inst.obj.chans.map (·.closes) = [1] ∧
      s.run.db.calls.rows.map (fun row => (row.seq, row.status)) = [(1, .pending)] ∧
      s.run.inst.obj.cancelled = false ∧ 1 ∉ s.run.passed ∧ 1 ∉ s.run.before) ∧
    ∃ s, (machine tally).Reachable Machine.Any s ∧ s.dismissed = [1] ∧
      s.run.db.calls.rows.map (fun row => (row.seq, row.status)) = [(1, .pending)] ∧
      s.run.inst.obj.cancelled = false ∧
      ∃ pc ∈ s.run.inst.loops, pc.processing.map (·.seq) = some 1 := by
  constructor
  · have hrun : ((machine tally).exec Machine.Any tallyStart overtakenCaller).any (fun s => decide
        (s.asked = [1] ∧ s.run.inst.obj.chans.map (·.closes) = [1] ∧
          s.run.db.calls.rows.map (fun row => (row.seq, row.status)) = [(1, .pending)] ∧
          s.run.inst.obj.cancelled = false ∧ 1 ∉ s.run.passed ∧ 1 ∉ s.run.before)) = true := by
      decide
    obtain ⟨s, hreach, hs⟩ := Machine.exec_reachable hrun tallyStart_init
    exact ⟨s, hreach, of_decide_eq_true hs⟩
  · have hrun : ((machine tally).exec Machine.Any tallyStart askedTooEarly).any (fun s => decide
        (s.dismissed = [1] ∧
          s.run.db.calls.rows.map (fun row => (row.seq, row.status)) = [(1, .pending)] ∧
          s.run.inst.obj.cancelled = false ∧
          ∃ pc ∈ s.run.inst.loops, pc.processing.map (·.seq) = some 1)) = true := by
      decide
    obtain ⟨s, hreach, hs⟩ := Machine.exec_reachable hrun tallyStart_init
    exact ⟨s, hreach, of_decide_eq_true hs⟩

end Release

end Goverse.Object
