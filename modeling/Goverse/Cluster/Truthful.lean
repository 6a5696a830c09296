import Goverse.Object.Delivery
import Goverse.Cluster.ReliableCall

/-! When SKIPPED can be believed. An attempt that is turned away answers SKIPPED without
knowing what became of the attempts before it, or of its own INSERT; `RefusedAlone` names the
runs in which the one the caller waits for is turned away only while the call has no row and
cannot get one. -/
namespace Goverse.Cluster

open Postgres Lib Object Consensus Sharding

variable {σ μ : Type}

/-- What an attempt has read of its own row. -/
structure Read (T : ObjectType σ μ) (req : Request) (db : DB) (call : ReliableCall) : Prop where
  known : Known db call
  callID : call.callID = req.callID
  rejected : call.status = .skipped → T.Rejects call

/-- `seq` is the number of the call's row. -/
def Stored (req : Request) (db : DB) (seq : Int) : Prop :=
  ∃ row ∈ db.calls.rows, row.seq = seq ∧ row.callID = req.callID

/-- What an attempt remembers is so. -/
def AttemptPC.Faithful (T : ObjectType σ μ) (req : Request) (db : DB)
    (insts : List (Instance σ μ)) : AttemptPC → Prop
  | .commit _ row => row.callID = req.callID ∧ row.status = .pending
  | .unlockSeqWrite _ (.ok call) | .checkStatus _ call | .finish call => Read T req db call
  | .process _ seq | .register _ seq | .poll seq _ => Stored req db seq
  | .pause seq _ call => Stored req db seq ∧ Read T req db call
  | .receive k seq ch =>
    Stored req db seq ∧ ∃ inst, insts[k]? = some inst ∧ inst.Promises ch seq
  | _ => True

theorem AttemptPC.faithful_of_blank {T : ObjectType σ μ} {req : Request} {db : DB}
    {insts : List (Instance σ μ)} {pc : AttemptPC} (h : pc.blank = true) :
    pc.Faithful T req db insts := by
  cases pc with
  | unlockSeqWrite k result =>
    cases result with
    | error => trivial
    | ok => contradiction
  | commit | checkStatus | finish | process | register | poll | pause | receive => contradiction
  | _ => trivial

section Rows

variable {T : ObjectType σ μ} {req : Request} {db next : DB} {call : ReliableCall} {seq : Int}

theorem rejects_of_known (hknown : Known db call) (h : T.Rejects call) :
    ∃ row ∈ db.calls.rows, row.callID = call.callID ∧ T.Rejects row := by
  obtain ⟨row, hrow, -, hcallID, hrequest⟩ := hknown
  obtain ⟨message, hmessage⟩ := h
  exact ⟨row, hrow, hcallID, message, by rw [hrequest, hmessage]⟩

theorem Read.mono (h : Read T req db call) (hext : Extends db next) : Read T req next call :=
  ⟨h.known.mono hext, h.callID, h.rejected⟩

theorem Stored.mono (h : Stored req db seq) (hext : Extends db next) : Stored req next seq := by
  obtain ⟨row, hrow, hseq, hcallID⟩ := h
  obtain ⟨row', hrow', hseq', hcallID', -⟩ := hext row hrow
  exact ⟨row', hrow', hseq'.trans hseq, hcallID'.trans hcallID⟩

theorem Read.stored (h : Read T req db call) : Stored req db call.seq := by
  obtain ⟨row, hrow, hseq, hcallID, -⟩ := h.known
  exact ⟨row, hrow, hseq, hcallID.trans h.callID⟩

theorem Stored.callID_eq (h : Stored req db seq) (hknown : Known db call) (hseq : call.seq = seq) :
    call.callID = req.callID := by
  obtain ⟨row, hrow, hrowSeq, hcallID⟩ := h
  obtain ⟨other, hother, hotherSeq, hotherID, -⟩ := hknown
  obtain rfl := row_unique hrow hother (by rw [hrowSeq, hotherSeq, hseq])
  exact hotherID.symm.trans hcallID

end Rows

namespace Invocation

variable {T : ObjectType σ μ} {c : Config} {req : Request} {self : Option GoString}
  {s t mid : Invocation σ μ} {pc next : AttemptPC}

/-- The store, the activations, the history and the attempts agree. -/
structure Sound (T : ObjectType σ μ) (req : Request) (s : Invocation σ μ) : Prop where
  reports : ∀ inst ∈ s.insts, inst.Reports T s.db
  executed : ∀ call ∈ s.executed, Known s.db call ∧ ¬ T.Rejects call
  skipped : ∀ row ∈ s.db.calls.rows, row.callID = req.callID → row.status = .skipped →
    T.Rejects row
  attempts : ∀ a ∈ s.attempts, a.pc.Faithful T req s.db s.insts

/-- What any step does to the store, the activations and the history. -/
structure Evolves (T : ObjectType σ μ) (req : Request) (s t : Invocation σ μ) : Prop where
  store : Extends s.db t.db
  skipped : ∀ row ∈ t.db.calls.rows, row.callID = req.callID → row.status = .skipped →
    row ∈ s.db.calls.rows ∨ T.Rejects row
  reports : ∀ inst ∈ t.insts, inst.Reports T t.db
  promises : ∀ (k : Nat) (inst : Instance σ μ), s.insts[k]? = some inst →
    ∃ next, t.insts[k]? = some next ∧ ∀ ch seq, inst.Promises ch seq → next.Promises ch seq
  executed : ∀ call ∈ t.executed, call ∈ s.executed ∨ (Known s.db call ∧ ¬ T.Rejects call)

theorem Evolves.faithful (h : Evolves T req s t) (hpc : pc.Faithful T req s.db s.insts) :
    pc.Faithful T req t.db t.insts := by
  cases pc with
  | commit => exact hpc
  | unlockSeqWrite k result =>
    cases result with
    | error => trivial
    | ok => exact Read.mono hpc h.store
  | checkStatus | finish => exact Read.mono hpc h.store
  | process | register | poll => exact Stored.mono hpc h.store
  | pause => exact ⟨hpc.1.mono h.store, hpc.2.mono h.store⟩
  | receive k seq ch =>
    obtain ⟨hstored, inst, hk, hpromises⟩ := hpc
    obtain ⟨inst', hk', hkept⟩ := h.promises k inst hk
    exact ⟨hstored.mono h.store, inst', hk', hkept ch seq hpromises⟩
  | _ => trivial

theorem Evolves.goto (h : Evolves T req s mid) (i : Nat) (node : GoString) (next : AttemptPC) :
    Evolves T req s (mid.goto i node next) :=
  ⟨h.store, h.skipped, h.reports, h.promises, h.executed⟩

theorem Evolves.sound (h : Evolves T req s t) (hs : Sound T req s)
    (hattempts : ∀ a ∈ t.attempts, a ∈ s.attempts ∨ a.pc.Faithful T req t.db t.insts) :
    Sound T req t := by
  refine ⟨h.reports, fun call hcall => ?_, fun row hrow hcallID hskipped => ?_, fun a ha => ?_⟩
  · rcases h.executed call hcall with hold | ⟨hknown, hnot⟩
    · obtain ⟨hknown, hnot⟩ := hs.executed call hold
      exact ⟨hknown.mono h.store, hnot⟩
    · exact ⟨hknown.mono h.store, hnot⟩
  · rcases h.skipped row hrow hcallID hskipped with hold | hrejects
    · exact hs.skipped row hold hcallID hskipped
    · exact hrejects
  · rcases hattempts a ha with hold | hfaithful
    · exact h.faithful (hs.attempts a hold)
    · exact hfaithful

theorem EnvCase.attempts_eq (h : EnvCase T req s t) :
    t.attempts = s.attempts ∧ t.client = s.client := by
  cases h with
  | aside _ _ hattempts hclient => exact ⟨hattempts, hclient⟩
  | _ => exact ⟨rfl, rfl⟩

section Evolution

variable (hs : Sound T req s)
include hs

theorem Sound.evolves_aside (hcalls : t.db.calls = s.db.calls) (hinsts : t.insts = s.insts)
    (hexecuted : t.executed = s.executed) : Evolves T req s t := by
  have hext := (keeps_of_calls hcalls).extends
  refine ⟨hext, fun row hrow _ _ => ?_, fun inst hinst => ?_, fun k inst hk => ?_, ?_⟩
  · rw [hcalls] at hrow
    exact .inl hrow
  · rw [hinsts] at hinst
    exact (hs.reports inst hinst).mono hext
  · rw [hinsts]
    exact ⟨inst, hk, fun _ _ => id⟩
  · rw [hexecuted]
    exact fun call => .inl

theorem Sound.evolves_insert {row rc : ReliableCall} {db : DB}
    (hrow : row.callID = req.callID → row.status = .pending)
    (hinsert : s.db.insertCall row = .ok (rc, db)) : Evolves T req s { s with db := db } := by
  have hext := (keeps_insertCall hinsert).extends
  refine ⟨hext, fun new hnew hcallID hskipped => ?_, fun inst hinst => ?_,
    fun k inst hk => ⟨inst, hk, fun _ _ => id⟩, fun call => .inl⟩
  · obtain ⟨-, -, ⟨-, -, hcalls⟩ | ⟨-, -, -, hrows⟩⟩ := DB.insertCall_ok hinsert
    · rw [hcalls] at hnew
      exact .inl hnew
    · rw [hrows] at hnew
      rcases mem_concat_cases hnew with hold | rfl
      · exact .inl hold
      · rw [hrow hcallID] at hskipped
        contradiction
  · exact (hs.reports inst hinst).mono hext

theorem Sound.reports_set {k : Nat} {new : Instance σ μ} {db : DB} (hext : Extends s.db db)
    (hnew : new.Reports T db) : ∀ inst ∈ s.insts.set k new, inst.Reports T db := by
  intro inst hinst
  rcases eq_or_mem_of_mem_set hinst with rfl | hj
  · exact hnew
  · exact (hs.reports inst hj).mono hext

omit hs in
theorem promises_set {k : Nat} {inst new : Instance σ μ} (hk : s.insts[k]? = some inst)
    (hkept : ∀ ch seq, inst.Promises ch seq → new.Promises ch seq) (j : Nat)
    (other : Instance σ μ) (hj : s.insts[j]? = some other) :
    ∃ next, (s.insts.set k new)[j]? = some next ∧
      ∀ ch seq, other.Promises ch seq → next.Promises ch seq := by
  by_cases hjk : j = k
  · subst hjk
    rw [hk] at hj
    cases hj
    exact ⟨new, getElem?_set_same hk, hkept⟩
  · exact ⟨other, by rw [List.getElem?_set_ne (Ne.symm hjk), hj], fun _ _ => id⟩

theorem Sound.evolves_quiet {k : Nat} {inst new : Instance σ μ} (hk : s.insts[k]? = some inst)
    (hloops : ∀ pc ∈ new.loops, pc ∈ inst.loops ∨ pc = .checkCtx) (hmail : inst.Mail new)
    (hdb : t.db = s.db) (hinsts : t.insts = s.insts.set k new)
    (hexecuted : t.executed = s.executed) : Evolves T req s t := by
  have hnew := (hs.reports inst (List.mem_of_getElem? hk)).quiet hloops hmail
  refine ⟨(keeps_of_calls (by rw [hdb])).extends, fun row hrow _ _ => ?_, ?_, ?_, ?_⟩
  · rw [hdb] at hrow
    exact .inl hrow
  · rw [hinsts, hdb]
    exact hs.reports_set (keeps_of_calls rfl).extends hnew
  · rw [hinsts]
    exact promises_set hk fun ch seq hpromises => hpromises.quiet hloops hmail
  · rw [hexecuted]
    exact fun call => .inl

theorem Sound.evolves_act {k : Nat} {action : Action} {inst : Instance σ μ} {out : Outcome σ μ}
    (hk : s.insts[k]? = some inst) (hact : inst.step T s.db action = some out) :
    Evolves T req s (s.observe k out) := by
  have hext := (keeps_step hact).extends
  have hinst := hs.reports inst (List.mem_of_getElem? hk)
  refine ⟨hext, fun row hrow _ hskipped => hinst.skipped hact hrow hskipped,
    hs.reports_set hext (hinst.step hact),
    promises_set hk fun ch seq hpromises => hpromises.step hact, fun call hcall => ?_⟩
  rcases List.mem_append.mp hcall with hold | hnew
  · exact .inl hold
  · obtain ⟨event, hevent, hinvoked⟩ := Option.bind_eq_some_iff.mp (Option.mem_toList.mp hnew)
    cases event with
    | invoke called =>
      cases hinvoked
      exact .inr (hinst.invoked hact hevent)
    | _ => contradiction

theorem Sound.evolves_env (h : EnvCase T req s t) : Evolves T req s t := by
  cases h with
  | aside hdb hinsts _ _ hexecuted => exact hs.evolves_aside (by rw [hdb]) hinsts hexecuted
  | act hk hact => exact hs.evolves_act hk hact
  | insert hother hinsert => exact hs.evolves_insert (fun hcallID => absurd hcallID hother) hinsert
  | nextval => exact hs.evolves_aside rfl rfl rfl
  | activate =>
    refine ⟨(keeps_of_calls rfl).extends, fun row hrow _ _ => .inl hrow, fun inst hinst => ?_,
      fun k inst hk => ⟨inst, ?_, fun _ _ => id⟩, fun call => .inl⟩
    · rcases mem_concat_cases hinst with hold | rfl
      · exact hs.reports inst hold
      · exact (Instance.reports_start _ _ _).quiet (fun pc => Instance.mem_spawn_loops)
          (.inl ⟨rfl, rfl⟩)
    · exact getElem?_grow hk
  | @evict k objects =>
    cases hk : s.insts[k]? with
    | none =>
      refine hs.evolves_aside rfl ?_ rfl
      simp [List.modify_eq_set_getElem?, hk]
    | some inst =>
      have hset : s.insts.modify k (fun inst => { inst with obj := inst.obj.destroy }) =
          s.insts.set k { inst with obj := inst.obj.destroy } := by
        simp [List.modify_eq_set_getElem?, hk]
      refine hs.evolves_quiet hk ?_ ?_ rfl hset rfl
      · exact fun pc => .inl
      · exact .inl ⟨rfl, rfl⟩

theorem Sound.evolves_attempt (hpc : pc.Faithful T req s.db s.insts)
    (h : AttemptCase T req s pc mid next) : Evolves T req s mid := by
  cases h with
  | created hcreate => exact hs.evolves_env (createObject_case hcreate)
  | inserted hinsert | insertLost hinsert => exact hs.evolves_insert (fun _ => hpc.2) hinsert
  | @registered k seq inst hk =>
    refine hs.evolves_quiet hk (fun pc => Instance.mem_spawn_loops) ?_ rfl rfl rfl
    exact .inr ⟨seq, rfl, rfl⟩
  | _ => exact hs.evolves_aside rfl rfl rfl

end Evolution

theorem Sound.read (hs : Sound T req s) {seq : Int} {call : ReliableCall}
    (hstored : Stored req s.db seq) (hget : s.db.getReliableCallBySeq seq = .ok call) :
    Read T req s.db call := by
  obtain ⟨hrow, hseq⟩ := DB.getReliableCallBySeq_ok hget
  have hcallID := hstored.callID_eq (known_of_mem hrow) hseq
  exact ⟨known_of_mem hrow, hcallID, hs.skipped call hrow hcallID⟩

theorem Sound.faithful (hs : Sound T req s) (hpc : pc.Faithful T req s.db s.insts)
    (h : AttemptCase T req s pc mid next) : next.Faithful T req mid.db mid.insts := by
  cases h with
  | early _ hnext => exact AttemptPC.faithful_of_blank hnext
  | inserting => exact ⟨rfl, rfl⟩
  | inserted hinsert =>
    obtain ⟨-, -, ⟨hmem, hcallID, hcalls⟩ | ⟨rfl, -, -, hrows⟩⟩ := DB.insertCall_ok hinsert
    · have hid := hcallID.trans hpc.1
      exact ⟨known_of_mem (hcalls ▸ hmem), hid, hs.skipped _ hmem hid⟩
    · refine ⟨known_of_mem (by rw [hrows]; simp), hpc.1, fun hskipped => ?_⟩
      rw [hpc.2] at hskipped
      contradiction
  | stored => exact hpc
  | pending => exact Read.stored hpc
  | processed | unprocessed => exact hpc
  | registered hk =>
    refine ⟨hpc, _, getElem?_set_same hk, ?_⟩
    exact (hs.reports _ (List.mem_of_getElem? hk)).promises (fun pc => Instance.mem_spawn_loops)
      rfl rfl
  | @received k seq ch inst chan call hk hchan hvalue =>
    obtain ⟨hstored, inst', hk', hpromises⟩ := hpc
    obtain rfl : inst = inst' := Option.some.inj (hk.symm.trans hk')
    obtain ⟨hknown, hrejected⟩ :=
      (hs.reports inst (List.mem_of_getElem? hk)).values ch chan hchan call hvalue
    exact ⟨hknown, hstored.callID_eq hknown (hpromises.value chan hchan call hvalue), hrejected⟩
  | closed => exact hpc.1
  | polled hget => exact hs.read hpc hget
  | pausing hget => exact ⟨hpc, hs.read hpc hget⟩
  | again => exact hpc.1
  | exhausted => exact hpc.2
  | created | locked | insertLost | unlocked | cached | unknown | finished | refused => trivial

theorem AttemptCase.attempts_eq (h : AttemptCase T req s pc mid next) :
    mid.attempts = s.attempts ∧ mid.client = s.client := by
  cases h with
  | created hcreate =>
    have hcase : EnvCase T req s mid := createObject_case hcreate
    exact hcase.attempts_eq
  | _ => exact ⟨rfl, rfl⟩

section Step

variable {label : Label} (hs : Sound T req s)
include hs

theorem Sound.evolves (h : StepCase T req s label t) : Evolves T req s t := by
  cases h with
  | client _ hcase => cases hcase <;> exact hs.evolves_aside rfl rfl rfl
  | attempt _ hself hcase =>
    exact (hs.evolves_attempt (hs.attempts _ (List.mem_of_getElem? hself)) hcase).goto _ _ _
  | drop => exact hs.evolves_aside rfl rfl rfl
  | env _ hcase => exact hs.evolves_env hcase

theorem Sound.step (h : StepCase T req s label t) : Sound T req t := by
  refine (hs.evolves h).sound hs fun a ha => ?_
  cases h with
  | client _ hcase =>
    cases hcase with
    | prepare | response | retry => exact .inl ha
    | send _ hpc =>
      rcases mem_concat_cases ha with hold | rfl
      · exact .inl hold
      · exact .inr (AttemptPC.faithful_of_blank hpc)
  | @attempt i _ node pc next mid hself hcase =>
    have hnext : next.Faithful T req mid.db mid.insts :=
      hs.faithful (hs.attempts _ (List.mem_of_getElem? hself)) hcase
    rcases eq_or_mem_of_mem_set ha with rfl | hj
    · exact .inr hnext
    · exact .inl (hcase.attempts_eq.1 ▸ hj)
  | drop hself =>
    rcases eq_or_mem_of_mem_set ha with rfl | hj
    · exact .inr trivial
    · exact .inl hj
  | env _ hcase => exact .inl (hcase.attempts_eq.1 ▸ ha)

end Step

/-! ### What SKIPPED says -/

/-- The call has no row, and no attempt can give it one. -/
def Barred (req : Request) (s : Invocation σ μ) : Prop :=
  (∀ row ∈ s.db.calls.rows, row.callID ≠ req.callID) ∧ ∀ a ∈ s.attempts, a.pc.mayInsert = false

/-- The call is never executed, unless another attempt is made. -/
def Settled (T : ObjectType σ μ) (req : Request) (s : Invocation σ μ) : Prop :=
  s.Barred req ∨ ∃ row ∈ s.db.calls.rows, row.callID = req.callID ∧ T.Rejects row

/-- The attempt that the caller waits for is refused only while the call is barred. -/
def RefusedAlone (req : Request) (s : Invocation σ μ) : Label → Prop
  | .attempt i _ => s.client.awaited = some i →
      (s.attempts[i]?.any fun a => a.pc.refuses) = true → s.Barred req
  | _ => True

instance (req : Request) (s : Invocation σ μ) (label : Label) :
    Decidable (s.RefusedAlone req label) := by
  unfold RefusedAlone Barred
  split <;> infer_instance

theorem AttemptCase.mayInsert (h : AttemptCase T req s pc mid next)
    (hnext : next.mayInsert = true) : pc.mayInsert = true := by
  cases h with
  | early hold => exact hold
  | created | locked | inserting => rfl
  | _ => contradiction

theorem AttemptCase.rows (h : AttemptCase T req s pc mid next)
    (hrows : ∀ row ∈ s.db.calls.rows, row.callID ≠ req.callID) (hpc : pc.mayInsert = false) :
    ∀ row ∈ mid.db.calls.rows, row.callID ≠ req.callID := by
  cases h with
  | created | inserted | insertLost => contradiction
  | _ => exact hrows

theorem EnvCase.rows (h : EnvCase T req s t)
    (hrows : ∀ row ∈ s.db.calls.rows, row.callID ≠ req.callID) :
    ∀ row ∈ t.db.calls.rows, row.callID ≠ req.callID := by
  intro row hrow
  cases h with
  | aside hdb =>
    rw [hdb] at hrow
    exact hrows row hrow
  | act _ hact =>
    obtain ⟨old, hold, -, -, hcallID⟩ := Instance.step_rows hact hrow
    exact hcallID ▸ hrows old hold
  | insert hother hinsert =>
    obtain ⟨-, -, ⟨-, -, hcalls⟩ | ⟨-, -, -, hnew⟩⟩ := DB.insertCall_ok hinsert
    · exact hrows row (hcalls ▸ hrow)
    · rw [hnew] at hrow
      rcases List.mem_append.mp hrow with hold | hlast
      · exact hrows row hold
      · exact List.mem_singleton.mp hlast ▸ hother
  | nextval | activate | evict => exact hrows row hrow

section Settling

variable {label : Label} (hsent : t.attempts.length = s.attempts.length)
  (hcase : StepCase T req s label t)
include hsent hcase

theorem Barred.step (h : s.Barred req) : t.Barred req := by
  obtain ⟨hrows, hattempts⟩ := h
  cases hcase with
  | client _ hcase =>
    cases hcase with
    | prepare | response | retry => exact ⟨hrows, hattempts⟩
    | send => simp at hsent
  | attempt _ hself hcase =>
    have hpc := hattempts _ (List.mem_of_getElem? hself)
    refine ⟨hcase.rows hrows hpc, fun a ha => ?_⟩
    rcases eq_or_mem_of_mem_set ha with rfl | hj
    · by_contra hmay
      rw [hcase.mayInsert (by simpa using hmay)] at hpc
      contradiction
    · exact hattempts a (hcase.attempts_eq.1 ▸ hj)
  | drop hself =>
    have hpc := hattempts _ (List.mem_of_getElem? hself)
    contradiction
  | env _ hcase => exact ⟨hcase.rows hrows, hcase.attempts_eq.1 ▸ hattempts⟩

theorem Settled.step (h : s.Settled T req) (hs : Sound T req s) : t.Settled T req := by
  rcases h with hbarred | ⟨row, hrow, hcallID, hrejects⟩
  · exact .inl (hbarred.step hsent hcase)
  · obtain ⟨row', hrow', hcallID', hrejects'⟩ :=
      rejects_of_known ((hs.evolves hcase).store row hrow) hrejects
    exact .inr ⟨row', hrow', hcallID'.trans hcallID, hrejects'⟩

end Settling

theorem Settled.not_executed (h : s.Settled T req) (hs : Sound T req s) :
    ∀ call ∈ s.executed, call.callID ≠ req.callID := by
  intro call hcall hcallID
  obtain ⟨⟨row, hrow, -, hrowID, hrequest⟩, hnot⟩ := hs.executed call hcall
  rcases h with ⟨hrows, -⟩ | ⟨other, hother, hotherID, message, hmessage⟩
  · exact hrows row hrow (hrowID.trans hcallID)
  · obtain rfl := row_unique_callID hrow hother (by rw [hrowID, hcallID, hotherID])
    exact hnot ⟨message, hrequest ▸ hmessage⟩

private theorem answerOf_skipped {reply : Reply} {call : ReliableCall}
    (h : (answerOf reply call).status = .skipped) : call.status = .skipped := by
  unfold answerOf at h
  split at h
  · split at h <;> contradiction
  · contradiction
  · cases hstatus : call.status <;> simp_all [stringToReliableCallStatus]

theorem AttemptCase.skipped {answer : Answer} (h : AttemptCase T req s pc mid (.answered answer))
    (hpc : pc.Faithful T req s.db s.insts) (hskipped : answer.status = .skipped) :
    mid = s ∧ (pc.refuses = true ∨
      ∃ row ∈ s.db.calls.rows, row.callID = req.callID ∧ T.Rejects row) := by
  have hread : ∀ {call : ReliableCall}, Read T req s.db call → call.status = .skipped →
      ∃ row ∈ s.db.calls.rows, row.callID = req.callID ∧ T.Rejects row := by
    intro call hread hstatus
    obtain ⟨row, hrow, hcallID, hrejects⟩ := rejects_of_known hread.known (hread.rejected hstatus)
    exact ⟨row, hrow, hcallID.trans hread.callID, hrejects⟩
  cases h with
  | early _ hnext => contradiction
  | cached | finished => exact ⟨rfl, .inr (hread hpc (answerOf_skipped hskipped))⟩
  | unknown => contradiction
  | refused => exact ⟨rfl, .inl rfl⟩

/-- A call that is given up with SKIPPED, or is about to be, is settled. -/
structure Truthful (T : ObjectType σ μ) (req : Request) (s : Invocation σ μ) : Prop where
  sound : Sound T req s
  unsent : s.client.unsent = true →
    s.attempts = [] ∧ ∀ row ∈ s.db.calls.rows, row.callID ≠ req.callID
  waiting : ∀ (i : Nat) (server : GoString) (answer : Answer), s.client.awaited = some i →
    s.attempts[i]? = some ⟨server, .answered answer⟩ → answer.status = .skipped → s.Settled T req
  returned : ∀ answer, s.client.answer = some answer → answer.status = .skipped → s.Settled T req

theorem Truthful.init (h : (machine T c req self).Init s) : Truthful T req s := by
  obtain ⟨db, view, views, hrows, rfl⟩ := h
  constructor
  case sound =>
    constructor
    case reports => exact fun inst hinst => absurd hinst List.not_mem_nil
    case executed => exact fun call hcall => absurd hcall List.not_mem_nil
    case skipped => exact fun row hrow hcallID => absurd hcallID (hrows row hrow)
    case attempts => exact fun a ha => absurd ha List.not_mem_nil
  case unsent => exact fun _ => ⟨rfl, hrows⟩
  case waiting =>
    intro i server answer hawaited
    contradiction
  case returned =>
    intro answer hanswer
    contradiction

section TruthfulStep

variable (h : Truthful T req s)
include h

theorem Truthful.client (hcase : ClientCase s t) (hsound : Sound T req t) : Truthful T req t := by
  cases hcase with
  | prepare hunsent hnext =>
    obtain ⟨hattempts, hrows⟩ := h.unsent hunsent
    refine ⟨hsound, fun _ => ⟨hattempts, hrows⟩, fun i server answer hawaited => ?_,
      fun _ _ _ => .inl ⟨hrows, by simp [hattempts]⟩⟩
    rw [hnext] at hawaited
    contradiction
  | send _ hpc =>
    refine ⟨hsound, fun hunsent => by contradiction, fun i server answer hawaited hattempt => ?_,
      fun answer hanswer => by contradiction⟩
    cases hawaited
    rw [List.getElem?_concat_length] at hattempt
    cases hattempt
    contradiction
  | @response i server answer hclient hattempt =>
    refine ⟨hsound, fun hunsent => by contradiction,
      fun i server other hawaited => by contradiction, fun other hother hskipped => ?_⟩
    cases hother
    exact h.waiting i server answer hclient hattempt hskipped
  | retry _ hunsent hawaited hanswer =>
    refine ⟨hsound, fun hnext => ?_, fun i server answer hnext => ?_,
      fun answer hnext hskipped => ?_⟩
    · rw [hunsent] at hnext
      contradiction
    · rw [hawaited] at hnext
      contradiction
    · rw [hanswer answer hnext] at hskipped
      contradiction

theorem Truthful.quiet {label : Label} (hcase : StepCase T req s label t)
    (hclient : t.client = s.client) (hsent : t.attempts.length = s.attempts.length)
    (hwaiting : ∀ (i : Nat) (server : GoString) (answer : Answer), s.client.awaited = some i →
      t.attempts[i]? = some ⟨server, .answered answer⟩ → answer.status = .skipped →
      s.attempts[i]? = some ⟨server, .answered answer⟩ ∨ t.Settled T req) : Truthful T req t := by
  refine ⟨h.sound.step hcase, fun hunsent => ?_,
    fun i server answer hawaited hattempt hskipped => ?_, fun answer hanswer hskipped => ?_⟩
  · obtain ⟨hattempts, hrows⟩ := h.unsent (hclient ▸ hunsent)
    have hbarred : s.Barred req := ⟨hrows, by simp [hattempts]⟩
    refine ⟨List.eq_nil_of_length_eq_zero ?_, (hbarred.step hsent hcase).1⟩
    rw [hsent, hattempts, List.length_nil]
  · rw [hclient] at hawaited
    rcases hwaiting i server answer hawaited hattempt hskipped with hold | hsettled
    · exact (h.waiting i server answer hawaited hold hskipped).step hsent hcase h.sound
    · exact hsettled
  · rw [hclient] at hanswer
    exact (h.returned answer hanswer hskipped).step hsent hcase h.sound

theorem Truthful.attempt {i : Nat} {reply : Reply} {node : GoString}
    (hok : s.RefusedAlone req (.attempt i reply)) (hself : s.attempts[i]? = some ⟨node, pc⟩)
    (hcase : AttemptCase T req s pc mid next) : Truthful T req (mid.goto i node next) := by
  obtain ⟨hattempts, hclient⟩ := hcase.attempts_eq
  refine h.quiet (.attempt reply hself hcase) hclient (by simp [goto, hattempts]) ?_
  intro j server answer hawaited hattempt hskipped
  rcases getElem?_set_cases hattempt with ⟨rfl, hnext⟩ | ⟨-, hj⟩
  · cases hnext
    have hpc := h.sound.attempts _ (List.mem_of_getElem? hself)
    obtain ⟨rfl, hrefuses | hrow⟩ := hcase.skipped hpc hskipped
    · have hbarred := hok hawaited (by simp [hself, hrefuses])
      exact .inr (.inl (hbarred.step (by simp [goto]) (.attempt reply hself hcase)))
    · exact .inr (.inr hrow)
  · exact .inl (hattempts ▸ hj)

end TruthfulStep

theorem Truthful.step {label : Label} (h : Truthful T req s) (hok : s.RefusedAlone req label)
    (hcase : StepCase T req s label t) : Truthful T req t := by
  cases hcase with
  | client event hcase => exact h.client hcase (h.sound.step (.client event hcase))
  | attempt _ hself hcase => exact h.attempt hok hself hcase
  | drop hself =>
    refine h.quiet (.drop hself) rfl (by simp [goto]) fun j server answer _ hattempt _ => ?_
    rcases getElem?_set_cases hattempt with ⟨-, hnext⟩ | ⟨-, hj⟩
    · cases hnext
    · exact .inl hj
  | env _ hcase =>
    obtain ⟨hattempts, hclient⟩ := hcase.attempts_eq
    refine h.quiet (.env label hcase) hclient (by rw [hattempts]) ?_
    exact fun j server answer _ hattempt _ => .inl (hattempts ▸ hattempt)

theorem truthful_of_reachable (h : (machine T c req self).Reachable (RefusedAlone req) s) :
    Truthful T req s :=
  h.invariant Truthful.init fun hs hok hstep => hs.step hok (step_cases hstep)

private theorem answer_of_steps {ok : Invocation σ μ → Label → Prop} {labels : List Label}
    {answer : Answer} (hrun : (machine T c req self).Steps ok s labels t)
    (h : s.client.answer = some answer) :
    t.client.answer = some answer := by
  refine hrun.preserves (I := fun s => s.client.answer = some answer) ?_ h
  intro s label t hs _ hstep
  cases step_cases hstep with
  | client _ hcase =>
    cases hcase with
    | prepare hunsent =>
      cases hclient : s.client <;> simp_all [ClientPC.unsent, ClientPC.answer]
    | response hawaited =>
      cases hclient : s.client <;> simp_all [ClientPC.awaited, ClientPC.answer]
    | send hopen | retry hopen =>
      rw [hopen] at hs
      contradiction
  | attempt _ _ hcase => exact hcase.attempts_eq.2 ▸ hs
  | drop => exact hs
  | env _ hcase => exact hcase.attempts_eq.2 ▸ hs

/-- Whether or not there is a row by then: if SKIPPED is returned, the call has not been
executed before and is not executed afterwards. -/
theorem skipped_is_truthful {labels : List Label} {answer : Answer}
    (hs : (machine T c req self).Reachable (RefusedAlone req) s)
    (hreturned : s.client = .returned answer) (hskipped : answer.status = .skipped)
    (hrun : (machine T c req self).Steps (RefusedAlone req) s labels t) :
    ∀ call ∈ t.executed, call.callID ≠ req.callID := by
  have ht := truthful_of_reachable (hs.steps hrun)
  have hanswer : t.client.answer = some answer := answer_of_steps hrun (by rw [hreturned]; rfl)
  exact (ht.returned answer hanswer hskipped).not_executed ht.sound

section Examples

def addOne : Request := ⟨[1], lit "Tally", lit "o", lit "Add", some [1]⟩

/-- Both nodes are up, and the object's shard is as given. -/
def placed (current target : GoString) : ClusterState :=
  { ClusterState.empty with
    nodes := (AList.insert (lit "a") true ∅).insert (lit "b") true
    shards := AList.insert (getShardID (lit "o") 2) ⟨⟨target, current, []⟩, 1⟩ ∅ }

def before : Invocation Bytes Bytes :=
  start DB.empty (placed (lit "a") (lit "a")) fun _ => placed (lit "a") (lit "a")

theorem init_before (self : Option GoString) :
    (machine tally twoShards addOne self).Init before :=
  ⟨DB.empty, _, _, nofun, rfl⟩

def advance (i n : Nat) : List Label := List.replicate n (.attempt i .ok)

/-- The first goroutine of the first activation gets as far as starting a method. -/
def execution : List Label := List.replicate 9 (.act 0 (.loop 0 true))

def connecting : List Label := [.client .go, .client .go, .client (.connected true), .client .go]

def retrying : List Label :=
  [.client (.rpcError false), .client (.waited false), .client .go]

/-- The first request is lost and the second finds the node stopped. -/
def stoppedRun : List Label :=
  connecting ++ [.drop 0, .stop (lit "a")] ++ retrying ++ advance 1 4 ++ [.client .response]

/-- A later call is executed. -/
def laterCall : List Label :=
  [.create (lit "b") (lit "Tally") true, .insert (tallyCall 1 2)] ++ execution

theorem skipped_is_truthful_stopped : ∃ s t : Invocation Bytes Bytes,
    s.client = .returned ⟨.skipped, some .nodeStopped⟩ ∧ t.executed ≠ [] ∧
      ∀ call ∈ t.executed, call.callID ≠ addOne.callID := by
  have hrun : ((machine tally twoShards addOne none).exec (RefusedAlone addOne) before
      stoppedRun).any (fun s => decide (s.client = .returned ⟨.skipped, some .nodeStopped⟩) &&
        ((machine tally twoShards addOne none).exec (RefusedAlone addOne) s laterCall).any
          fun t => decide (t.executed ≠ [])) = true := by decide
  obtain ⟨s, hsteps, hs⟩ := Machine.exec_any hrun
  obtain ⟨hclient, hlater⟩ := (Bool.and_eq_true _ _).mp hs
  have hreturned := of_decide_eq_true hclient
  obtain ⟨t, hrest, ht⟩ := Machine.exec_any hlater
  exact ⟨s, t, hreturned, of_decide_eq_true ht,
    skipped_is_truthful ⟨before, _, init_before none, hsteps⟩ hreturned rfl hrest⟩

/-- The INSERT of a local call takes effect and is reported as an error. -/
def insertLostRun : List Label :=
  [.client .go, .client .go] ++ advance 0 8 ++ [.attempt 0 .lost] ++ advance 0 2 ++
    [.client .response]

/-- The first attempt is executed but not heard of; the shard is then to move, and the second
is turned away. -/
def turnedAwayRun : List Label :=
  connecting ++ advance 0 11 ++ execution ++
    [.serverView (lit "a") (placed (lit "a") (lit "b"))] ++ retrying ++ advance 1 3 ++
    [.client .response]

theorem skipped_call_is_executed :
    (∃ (s t : Invocation Bytes Bytes) (labels : List Label) (answer : Answer),
      (machine tally twoShards addOne (some (lit "a"))).Reachable Machine.Any s ∧
        s.client = .returned answer ∧ answer.status = .skipped ∧
        (∀ row ∈ s.db.calls.rows, row.status ≠ .skipped) ∧
        (machine tally twoShards addOne (some (lit "a"))).Steps Machine.Any s labels t ∧
        ∃ call ∈ t.executed, call.callID = addOne.callID) ∧
    ∃ (s : Invocation Bytes Bytes) (answer : Answer),
      (machine tally twoShards addOne (some (lit "b"))).Reachable Machine.Any s ∧
        s.client = .returned answer ∧ answer.status = .skipped ∧
        (∀ row ∈ s.db.calls.rows, row.status ≠ .skipped) ∧
        ∃ call ∈ s.executed, call.callID = addOne.callID := by
  refine ⟨?_, ?_⟩
  · have hrun : ((machine tally twoShards addOne (some (lit "a"))).exec Machine.Any before
        insertLostRun).any (fun s =>
          decide (s.client = .returned ⟨.skipped, some .insertOrGet⟩ ∧
            ∀ row ∈ s.db.calls.rows, row.status ≠ .skipped) &&
          ((machine tally twoShards addOne (some (lit "a"))).exec Machine.Any s execution).any
            fun t => decide (∃ call ∈ t.executed, call.callID = addOne.callID)) = true := by decide
    obtain ⟨s, hsteps, hs⟩ := Machine.exec_any hrun
    obtain ⟨hclient, hlater⟩ := (Bool.and_eq_true _ _).mp hs
    obtain ⟨hreturned, hrows⟩ := of_decide_eq_true hclient
    obtain ⟨t, hrest, ht⟩ := Machine.exec_any hlater
    exact ⟨s, t, _, _, ⟨before, _, init_before _, hsteps⟩, hreturned, rfl, hrows, hrest,
      of_decide_eq_true ht⟩
  · have hrun : ((machine tally twoShards addOne (some (lit "b"))).exec Machine.Any before
        turnedAwayRun).any (fun s => decide (s.client = .returned ⟨.skipped,
            some (.noTarget (lit "o") (.migrating (getShardID (lit "o") 2) (lit "a") (lit "b")))⟩ ∧
          (∀ row ∈ s.db.calls.rows, row.status ≠ .skipped) ∧
          ∃ call ∈ s.executed, call.callID = addOne.callID)) = true := by decide
    obtain ⟨s, hreach, hs⟩ := Machine.exec_reachable hrun (init_before _)
    obtain ⟨hreturned, hrows, hexecuted⟩ := of_decide_eq_true hs
    exact ⟨s, _, hreach, hreturned, rfl, hrows, hexecuted⟩

end Examples

end Invocation
end Goverse.Cluster
