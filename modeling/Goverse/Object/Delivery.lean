import Goverse.Object.Instance

/-! What a waiter is told. Every call a goroutine works on, and every call it sends to a
waiter, has a row in the store; the call that reaches a waiter is the one it waits for; and
a call that is reported as skipped is one whose request cannot be decoded. -/
namespace Goverse.Object

open Postgres Lib

variable {σ μ : Type}

section Rows

/-- The call has a row, with its number and its request. -/
def Known (db : DB) (call : ReliableCall) : Prop :=
  ∃ row ∈ db.calls.rows,
    row.seq = call.seq ∧ row.callID = call.callID ∧ row.requestData = call.requestData

/-- No row of `db` is lost or renumbered. -/
def Extends (db next : DB) : Prop := ∀ row ∈ db.calls.rows, Known next row

/-- No row is lost, and none becomes another call. -/
def Keeps (db next : DB) : Prop :=
  ∀ row ∈ db.calls.rows, ∃ kept ∈ next.calls.rows, kept.asked = row.asked

variable {db next : DB} {call : ReliableCall}

theorem known_of_mem (h : call ∈ db.calls.rows) : Known db call := ⟨call, h, rfl, rfl, rfl⟩

theorem Known.congr {other : ReliableCall} (h : Known db call) (hseq : call.seq = other.seq)
    (hcallID : call.callID = other.callID) (hrequest : call.requestData = other.requestData) :
    Known db other := by
  obtain ⟨row, hrow, hs, hc, hr⟩ := h
  exact ⟨row, hrow, hs.trans hseq, hc.trans hcallID, hr.trans hrequest⟩

theorem Known.mono (h : Known db call) (hext : Extends db next) : Known next call := by
  obtain ⟨row, hrow, hs, hc, hr⟩ := h
  exact (hext row hrow).congr hs hc hr

theorem keeps_of_calls (h : next.calls = db.calls) : Keeps db next := by
  intro row hrow
  rw [← h] at hrow
  exact ⟨row, hrow, rfl⟩

theorem keeps_insertCall {row result : ReliableCall}
    (h : db.insertCall row = .ok (result, next)) : Keeps db next := by
  obtain ⟨-, -, ⟨-, -, hcalls⟩ | ⟨-, -, -, hrows⟩⟩ := DB.insertCall_ok h
  · exact keeps_of_calls hcalls
  · intro old hold
    refine ⟨old, ?_, rfl⟩
    rw [hrows]
    exact List.mem_append_left _ hold

theorem Keeps.extends (h : Keeps db next) : Extends db next := by
  intro row hrow
  obtain ⟨kept, hkept, hasked⟩ := h row hrow
  obtain ⟨hseq, hcallID, -, -, -, hrequest⟩ := ReliableCall.eq_of_asked hasked
  exact ⟨kept, hkept, hseq, hcallID, hrequest⟩

theorem keeps_step {T : ObjectType σ μ} {inst : Instance σ μ} {action : Action}
    {out : Outcome σ μ} (h : inst.step T db action = some out) : Keeps db out.db := by
  cases Instance.step_effect h with
  | quiet hdb | invoke _ _ _ _ hdb | finish _ _ _ _ _ hdb => exact keeps_of_calls (by rw [hdb])
  | save hmay hsaved =>
    obtain ⟨_, -, hcalls, -, -⟩ := BaseObject.saveLocked_ok hsaved
    exact keeps_of_calls hcalls
  | update _ call _ final _ _ hupdated =>
    intro row hrow
    refine ⟨CallTable.finish call.seq final.status final.resultData final.error row, ?_, by simp⟩
    rw [(DB.updateReliableCallStatus_ok hupdated).2.2]
    exact List.mem_map_of_mem hrow

theorem row_unique {row other : ReliableCall} (hrow : row ∈ db.calls.rows)
    (hother : other ∈ db.calls.rows) (hseq : row.seq = other.seq) : row = other :=
  List.inj_on_of_nodup_map db.calls.seq_unique hrow hother hseq

theorem row_unique_callID {row other : ReliableCall} (hrow : row ∈ db.calls.rows)
    (hother : other ∈ db.calls.rows) (hcallID : row.callID = other.callID) : row = other :=
  List.inj_on_of_nodup_map db.calls.callID_unique hrow hother hcallID

end Rows

/-! ### The calls of a goroutine -/

/-- `protohelper.BytesToMsg` fails on the request. -/
def ObjectType.Rejects (T : ObjectType σ μ) (call : ReliableCall) : Prop :=
  ∃ message, T.bytesToMsg call.requestData = .error message

namespace LoopPC

def calls : LoopPC μ → List ReliableCall
  | drain calls => calls
  | lockState call rest | decode call rest | running call rest _ | finalize call rest _
  | save call rest _ | update call rest _ | notify call rest => call :: rest
  | deliver _ _ call rest => call.toList ++ rest.getD []
  | _ => []

/-- The channels the goroutine is about to send a call on. -/
def notice : LoopPC μ → Option (List Nat × ReliableCall)
  | deliver _ toNotify (some call) _ => some (toNotify, call)
  | _ => none

/-- A call is finalized or reported as skipped only if its request was rejected. -/
def Honest (T : ObjectType σ μ) : LoopPC μ → Prop
  | finalize call _ final | save call _ final | update call _ final =>
    final.status = .skipped → T.Rejects call
  | notify call _ | deliver _ _ (some call) _ => call.status = .skipped → T.Rejects call
  | _ => True

end LoopPC

section Loop

variable {T : ObjectType σ μ} {self : Nat} {ok : Bool} {db : DB} {o : BaseObject σ}
  {pc : LoopPC μ} {mv : Move σ μ}

private theorem loopStep_calls (h : loopStep T self ok db o pc = some mv) {call : ReliableCall}
    (hcall : call ∈ mv.pc.calls) : call ∈ db.calls.rows ∨
      ∃ old ∈ pc.calls, old.seq = call.seq ∧ old.callID = call.callID ∧
        old.requestData = call.requestData := by
  have hsame : call ∈ pc.calls → call ∈ db.calls.rows ∨ ∃ old ∈ pc.calls, old.seq = call.seq ∧
      old.callID = call.callID ∧ old.requestData = call.requestData :=
    fun hmem => .inr ⟨call, hmem, rfl, rfl, rfl⟩
  cases loopStep_cases h with
  | fetched => exact .inl (CallTable.mem_pendingFrom.mp hcall).1
  | process | lock | reject | invoke | finish | finalize | notSaved | saved | notify =>
    exact hsame hcall
  | notUpdated | updated =>
    rcases List.mem_cons.mp hcall with rfl | hmem
    · exact .inr ⟨_, List.mem_cons_self, rfl, rfl, rfl⟩
    · exact hsame (List.mem_cons_of_mem _ hmem)
  | delivered => exact hsame (List.mem_append_right _ hcall)
  | _ => contradiction

private theorem loopStep_honest (hhonest : pc.Honest T) (h : loopStep T self ok db o pc = some mv) :
    mv.pc.Honest T := by
  cases loopStep_cases h with
  | reject hmessage => exact fun _ => ⟨_, hmessage⟩
  | @finish call rest msg =>
    intro hskipped
    cases hresult : (T.invokeMethod o.data call.methodName msg).2 with
    | error message =>
      rw [hresult] at hskipped
      contradiction
    | ok result =>
      rw [hresult] at hskipped
      contradiction
  | finalize | notSaved | saved | notUpdated | updated | notify => exact hhonest
  | _ => trivial

end Loop

/-! ### Channels -/

theorem getElem?_foldl_modify {α : Type} {f : α → α} {is : List Nat} {xs : List α} {i : Nat} {x : α}
    (h : (is.foldl (fun xs i => xs.modify i f) xs)[i]? = some x) :
    ∃ n old, xs[i]? = some old ∧ x = f^[n] old ∧ (n ≠ 0 → i ∈ is) := by
  induction is generalizing xs with
  | nil => exact ⟨0, x, h, rfl, fun hne => absurd rfl hne⟩
  | cons j is ih =>
    obtain ⟨n, mid, hmid, hx, hmem⟩ := ih h
    rw [List.getElem?_modify] at hmid
    obtain ⟨old, hold, rfl⟩ := Option.map_eq_some_iff.mp hmid
    by_cases hij : j = i
    · refine ⟨n + 1, old, hold, ?_, fun _ => by simp [hij]⟩
      simpa [hij] using hx
    · refine ⟨n, old, hold, ?_, fun hne => List.mem_cons_of_mem _ (hmem hne)⟩
      simpa [hij] using hx

@[simp] theorem length_foldl_modify {α : Type} {f : α → α} (is : List Nat) (xs : List α) :
    (is.foldl (fun xs i => xs.modify i f) xs).length = xs.length := by
  induction is generalizing xs with
  | nil => rfl
  | cons i is ih =>
    rw [List.foldl_cons, ih]
    exact List.length_modify f xs i

@[simp] theorem Chan.iterate_close_value (n : Nat) (ch : Chan) :
    (Chan.close^[n] ch).value = ch.value := by
  induction n generalizing ch with
  | zero => rfl
  | succ n ih => exact ih ch.close

theorem Chan.iterate_send_value (call : Option ReliableCall) (n : Nat) (ch : Chan) :
    ((fun c : Chan => (call.elim c c.send).close)^[n] ch).value = ch.value ∨
      (n ≠ 0 ∧ ((fun c : Chan => (call.elim c c.send).close)^[n] ch).value = call) := by
  induction n generalizing ch with
  | zero => exact .inl rfl
  | succ n ih =>
    rw [Function.iterate_succ_apply]
    rcases ih (call.elim ch ch.send).close with hsame | ⟨-, hcall⟩
    · cases call with
      | none => exact .inl hsame
      | some call => exact .inr ⟨Nat.succ_ne_zero n, hsame⟩
    · exact .inr ⟨Nat.succ_ne_zero n, hcall⟩

namespace BaseObject

variable {o : BaseObject σ}

theorem deliver_value {toClose toNotify : List Nat} {call : Option ReliableCall} {ch : Nat}
    {c : Chan} (h : (o.deliver toClose toNotify call).chans[ch]? = some c) :
    ∃ old, o.chans[ch]? = some old ∧
      (c.value = old.value ∨ (ch ∈ toNotify ∧ c.value = call)) := by
  obtain ⟨n, mid, hmid, rfl, hmem⟩ := getElem?_foldl_modify h
  obtain ⟨m, old, hold, rfl, -⟩ := getElem?_foldl_modify hmid
  refine ⟨old, hold, ?_⟩
  rcases Chan.iterate_send_value call n (Chan.close^[m] old) with hsame | ⟨hne, hcall⟩
  · exact .inl (hsame.trans (Chan.iterate_close_value m old))
  · exact .inr ⟨hmem hne, hcall⟩

@[simp] theorem length_deliver (toClose toNotify : List Nat) (call : Option ReliableCall) :
    (o.deliver toClose toNotify call).chans.length = o.chans.length := by
  rw [deliver, length_foldl_modify, length_foldl_modify]

theorem cleanup_chans (o : BaseObject σ) : o.cleanupProcessingLoop.chans =
    (o.seqWaiters.map (·.ch)).foldl (fun chans i => chans.modify i Chan.close) o.chans := by
  rw [List.foldl_map]
  rfl

theorem cleanup_value {ch : Nat} {c : Chan} (h : o.cleanupProcessingLoop.chans[ch]? = some c) :
    ∃ old, o.chans[ch]? = some old ∧ c.value = old.value := by
  rw [cleanup_chans] at h
  obtain ⟨n, old, hold, rfl, -⟩ := getElem?_foldl_modify h
  exact ⟨old, hold, Chan.iterate_close_value n old⟩

@[simp] theorem length_cleanup : o.cleanupProcessingLoop.chans.length = o.chans.length := by
  rw [cleanup_chans, length_foldl_modify]

end BaseObject

section Waiters

@[simp] theorem mem_insertWaiterSorted {waiters : List SeqWaiter} {waiter w : SeqWaiter} :
    w ∈ insertWaiterSorted waiters waiter ↔ w = waiter ∨ w ∈ waiters := by
  have hbubble : ∀ ws : List SeqWaiter, w ∈ bubbleUp waiter ws ↔ w = waiter ∨ w ∈ ws := by
    intro ws
    induction ws with
    | nil => simp [bubbleUp]
    | cons last front ih =>
      rw [bubbleUp]
      split
      · rw [List.mem_cons, ih, List.mem_cons]
        exact or_left_comm
      · rw [List.mem_cons]
  rw [insertWaiterSorted, List.mem_reverse, hbubble, List.mem_reverse]

theorem mem_popWaiters {seq : Int} {waiters : List SeqWaiter} {w : SeqWaiter}
    (h : w ∈ (popWaiters seq waiters).waiters) : w ∈ waiters := by
  induction waiters with
  | nil => contradiction
  | cons first rest ih =>
    rw [popWaiters] at h
    split at h
    · dsimp only at h
      split at h
      · exact List.mem_cons_of_mem _ (ih h)
      · exact List.mem_cons_of_mem _ (ih h)
    · exact h

theorem mem_toNotify {seq : Int} {waiters : List SeqWaiter} {ch : Nat}
    (h : ch ∈ (popWaiters seq waiters).toNotify) : ∃ w ∈ waiters, w.ch = ch ∧ w.seq = seq := by
  induction waiters with
  | nil => contradiction
  | cons first rest ih =>
    rw [popWaiters] at h
    split at h
    · dsimp only at h
      split at h
      · rename_i hseq
        rcases List.mem_cons.mp h with rfl | h
        · exact ⟨first, List.mem_cons_self, rfl, hseq⟩
        · obtain ⟨w, hw, hfound⟩ := ih h
          exact ⟨w, List.mem_cons_of_mem _ hw, hfound⟩
      · obtain ⟨w, hw, hfound⟩ := ih h
        exact ⟨w, List.mem_cons_of_mem _ hw, hfound⟩
    · contradiction

end Waiters

/-- What a step of a goroutine does to the waiters and their channels. -/
inductive MailEffect (o : BaseObject σ) (pc : LoopPC μ) (mv : Move σ μ) : Prop
  | same (hwaiters : mv.obj.seqWaiters = o.seqWaiters) (hchans : mv.obj.chans = o.chans)
      (hnotice : mv.pc.notice = none)
  | pop (seq : Int) (hwaiters : mv.obj.seqWaiters = (popWaiters seq o.seqWaiters).waiters)
      (hchans : mv.obj.chans = o.chans)
      (hnotice : ∀ toNotify call, mv.pc.notice = some (toNotify, call) →
        toNotify = (popWaiters seq o.seqWaiters).toNotify ∧ call.seq = seq)
  | deliver (toClose toNotify : List Nat) (call : Option ReliableCall)
      (rest : Option (List ReliableCall)) (hpc : pc = .deliver toClose toNotify call rest)
      (hobj : mv.obj = o.deliver toClose toNotify call) (hnotice : mv.pc.notice = none)
  | cleanup (hobj : mv.obj = o.cleanupProcessingLoop) (hnotice : mv.pc.notice = none)

theorem loopStep_mail {T : ObjectType σ μ} {self : Nat} {ok : Bool} {db : DB} {o : BaseObject σ}
    {pc : LoopPC μ} {mv : Move σ μ} (h : loopStep T self ok db o pc = some mv) :
    MailEffect o pc mv := by
  cases loopStep_cases h with
  | closeProcessed => exact .pop _ rfl rfl nofun
  | notify =>
    refine .pop _ rfl rfl fun toNotify other hnotice => ?_
    cases hnotice
    exact ⟨rfl, rfl⟩
  | closed | delivered => exact .deliver _ _ _ _ rfl rfl rfl
  | cleanup => exact .cleanup rfl rfl
  | _ => exact .same rfl rfl rfl

/-! ### Instances -/

namespace Instance

/-- The channels that are in use exist, and what a goroutine reports is so. -/
structure Reports (T : ObjectType σ μ) (db : DB) (inst : Instance σ μ) : Prop where
  known : ∀ pc ∈ inst.loops, ∀ call ∈ pc.calls, Known db call
  honest : ∀ pc ∈ inst.loops, pc.Honest T
  waiters : ∀ w ∈ inst.obj.seqWaiters, w.ch < inst.obj.chans.length
  notices : ∀ pc ∈ inst.loops, ∀ toNotify call, pc.notice = some (toNotify, call) →
    ∀ ch ∈ toNotify, ch < inst.obj.chans.length
  values : ∀ (ch : Nat) (c : Chan), inst.obj.chans[ch]? = some c → ∀ call, c.value = some call →
    Known db call ∧ (call.status = .skipped → T.Rejects call)

/-- Nothing but the call `seq` is or will be sent on the channel. -/
structure Promises (inst : Instance σ μ) (ch : Nat) (seq : Int) : Prop where
  bound : ch < inst.obj.chans.length
  waiters : ∀ w ∈ inst.obj.seqWaiters, w.ch = ch → w.seq = seq
  notices : ∀ pc ∈ inst.loops, ∀ toNotify call, pc.notice = some (toNotify, call) →
    ch ∈ toNotify → call.seq = seq
  value : ∀ c, inst.obj.chans[ch]? = some c → ∀ call, c.value = some call → call.seq = seq

variable {T : ObjectType σ μ} {db : DB} {inst next : Instance σ μ}

theorem reports_start (id : GoString) (data : σ) (nextRcseq : Int) :
    (Instance.start id data nextRcseq : Instance σ μ).Reports T db := by
  refine ⟨?_, ?_, ?_, ?_, ?_⟩ <;> simp [Instance.start, BaseObject.onInit]

theorem Reports.mono (h : inst.Reports T db) {db' : DB} (hext : Extends db db') :
    inst.Reports T db' := by
  refine ⟨fun pc hpc call hcall => (h.known pc hpc call hcall).mono hext, h.honest, h.waiters,
    h.notices, fun ch c hc call hcall => ?_⟩
  obtain ⟨hknown, hskipped⟩ := h.values ch c hc call hcall
  exact ⟨hknown.mono hext, hskipped⟩

/-- The waiters are the same, or one has been registered on a new channel. -/
def Mail (inst next : Instance σ μ) : Prop :=
  (next.obj.seqWaiters = inst.obj.seqWaiters ∧ next.obj.chans = inst.obj.chans) ∨
    ∃ seq, next.obj.seqWaiters =
        insertWaiterSorted inst.obj.seqWaiters ⟨seq, inst.obj.chans.length⟩ ∧
      next.obj.chans = inst.obj.chans ++ [Chan.new]

theorem Mail.length_le (h : Mail inst next) : inst.obj.chans.length ≤ next.obj.chans.length := by
  rcases h with ⟨-, hchans⟩ | ⟨seq, -, hchans⟩
  · rw [hchans]
  · rw [hchans, List.length_append]
    exact Nat.le_add_right _ _

theorem Mail.value (h : Mail inst next) {ch : Nat} {c : Chan}
    (hc : next.obj.chans[ch]? = some c) : inst.obj.chans[ch]? = some c ∨ c.value = none := by
  rcases h with ⟨-, hchans⟩ | ⟨seq, -, hchans⟩
  · rw [hchans] at hc
    exact .inl hc
  · rw [hchans] at hc
    rcases getElem?_concat_cases hc with ⟨-, rfl⟩ | hold
    · exact .inr rfl
    · exact .inl hold

theorem Reports.quiet (h : inst.Reports T db)
    (hloops : ∀ pc ∈ next.loops, pc ∈ inst.loops ∨ pc = .checkCtx) (hmail : Mail inst next) :
    next.Reports T db := by
  refine ⟨fun pc hpc => ?_, fun pc hpc => ?_, fun w hw => ?_, fun pc hpc => ?_,
    fun ch c hc call hcall => ?_⟩
  · rcases hloops pc hpc with hold | rfl
    · exact h.known pc hold
    · simp [LoopPC.calls]
  · rcases hloops pc hpc with hold | rfl
    · exact h.honest pc hold
    · trivial
  · rcases hmail with ⟨hwaiters, hchans⟩ | ⟨seq, hwaiters, hchans⟩
    · rw [hwaiters] at hw
      rw [hchans]
      exact h.waiters w hw
    · rw [hwaiters] at hw
      rw [hchans, List.length_append]
      rcases mem_insertWaiterSorted.mp hw with rfl | hw
      · exact Nat.lt_succ_self _
      · exact Nat.lt_add_right _ (h.waiters w hw)
  · rcases hloops pc hpc with hold | rfl
    · exact fun toNotify call hnotice ch hch =>
        Nat.lt_of_lt_of_le (h.notices pc hold toNotify call hnotice ch hch) hmail.length_le
    · nofun
  · rcases hmail.value hc with hold | hnone
    · exact h.values ch c hold call hcall
    · rw [hnone] at hcall
      contradiction

theorem Promises.quiet {ch : Nat} {seq : Int} (h : inst.Promises ch seq)
    (hloops : ∀ pc ∈ next.loops, pc ∈ inst.loops ∨ pc = .checkCtx) (hmail : Mail inst next) :
    next.Promises ch seq := by
  refine ⟨Nat.lt_of_lt_of_le h.bound hmail.length_le, fun w hw hch => ?_, fun pc hpc => ?_,
    fun c hc call hcall => ?_⟩
  · rcases hmail with ⟨hwaiters, -⟩ | ⟨seq', hwaiters, -⟩
    · rw [hwaiters] at hw
      exact h.waiters w hw hch
    · rw [hwaiters] at hw
      rcases mem_insertWaiterSorted.mp hw with rfl | hw
      · have := h.bound
        dsimp only at hch
        omega
      · exact h.waiters w hw hch
  · rcases hloops pc hpc with hold | rfl
    · exact h.notices pc hold
    · nofun
  · rcases hmail.value hc with hold | hnone
    · exact h.value c hold call hcall
    · rw [hnone] at hcall
      contradiction

theorem Reports.promises (h : inst.Reports T db) {seq : Int}
    (hloops : ∀ pc ∈ next.loops, pc ∈ inst.loops ∨ pc = .checkCtx)
    (hwaiters : next.obj.seqWaiters =
      insertWaiterSorted inst.obj.seqWaiters ⟨seq, inst.obj.chans.length⟩)
    (hchans : next.obj.chans = inst.obj.chans ++ [Chan.new]) :
    next.Promises inst.obj.chans.length seq := by
  refine ⟨?_, fun w hw hch => ?_, fun pc hpc => ?_, fun c hc call hcall => ?_⟩
  · rw [hchans, List.length_append]
    exact Nat.lt_succ_self _
  · rw [hwaiters] at hw
    rcases mem_insertWaiterSorted.mp hw with rfl | hw
    · rfl
    · have := h.waiters w hw
      omega
  · rcases hloops pc hpc with hold | rfl
    · intro toNotify call hnotice hch
      exact absurd (h.notices pc hold toNotify call hnotice _ hch) (Nat.lt_irrefl _)
    · nofun
  · rw [hchans, List.getElem?_concat_length] at hc
    cases hc
    contradiction

section Loop

variable {self : Nat} {ok : Bool} {pc : LoopPC μ} {mv : Move σ μ}

theorem Reports.loop (h : inst.Reports T db) (hpc : inst.loops[self]? = some pc)
    (hmv : loopStep T self ok db inst.obj pc = some mv) (hext : Extends db mv.db) :
    Reports T mv.db { inst with obj := mv.obj, loops := inst.loops.set self mv.pc } := by
  have hself := List.mem_of_getElem? hpc
  have hchans : mv.obj.chans.length = inst.obj.chans.length := by
    cases loopStep_mail hmv with
    | same _ hchans | pop _ _ hchans => rw [hchans]
    | deliver toClose toNotify call rest _ hobj => rw [hobj, BaseObject.length_deliver]
    | cleanup hobj => rw [hobj, BaseObject.length_cleanup]
  refine ⟨fun p hp call hcall => ?_, fun p hp => ?_, fun w hw => ?_,
    fun p hp toNotify call hnotice ch hch => ?_, fun ch c hc call hcall => ?_⟩
  · rcases eq_or_mem_of_mem_set hp with rfl | hj
    · rcases loopStep_calls hmv hcall with hrow | ⟨old, hold, hseq, hcallID, hrequest⟩
      · exact (known_of_mem hrow).mono hext
      · exact ((h.known pc hself old hold).congr hseq hcallID hrequest).mono hext
    · exact (h.known p hj call hcall).mono hext
  · rcases eq_or_mem_of_mem_set hp with rfl | hj
    · exact loopStep_honest (h.honest pc hself) hmv
    · exact h.honest p hj
  · change w.ch < mv.obj.chans.length
    rw [hchans]
    apply h.waiters
    cases loopStep_mail hmv with
    | same hwaiters => exact hwaiters ▸ hw
    | pop seq hwaiters => exact mem_popWaiters (hwaiters ▸ hw)
    | deliver _ _ _ _ _ hobj =>
      rw [hobj] at hw
      exact hw
    | cleanup hobj =>
      rw [hobj] at hw
      contradiction
  · change ch < mv.obj.chans.length
    rw [hchans]
    rcases eq_or_mem_of_mem_set hp with rfl | hj
    · cases loopStep_mail hmv with
      | pop seq _ _ hpopped =>
        obtain ⟨rfl, -⟩ := hpopped toNotify call hnotice
        obtain ⟨w, hw, rfl, -⟩ := mem_toNotify hch
        exact h.waiters w hw
      | same _ _ hnone | deliver _ _ _ _ _ _ hnone | cleanup _ hnone =>
        rw [hnone] at hnotice
        contradiction
    · exact h.notices p hj toNotify call hnotice ch hch
  · have hold : ∀ {c' : Chan}, inst.obj.chans[ch]? = some c' → c'.value = some call →
        Known mv.db call ∧ (call.status = .skipped → T.Rejects call) := by
      intro c' hc' hvalue
      obtain ⟨hknown, hskipped⟩ := h.values ch c' hc' call hvalue
      exact ⟨hknown.mono hext, hskipped⟩
    cases loopStep_mail hmv with
    | same _ hsame | pop _ _ hsame =>
      rw [hsame] at hc
      exact hold hc hcall
    | deliver toClose toNotify sent rest hdeliver hobj =>
      rw [hobj] at hc
      obtain ⟨c', hc', hvalue | ⟨-, hvalue⟩⟩ := BaseObject.deliver_value hc
      · exact hold hc' (hvalue ▸ hcall)
      · obtain rfl : sent = some call := hvalue.symm.trans hcall
        subst hdeliver
        refine ⟨(h.known _ hself call ?_).mono hext, h.honest _ hself⟩
        simp [LoopPC.calls]
    | cleanup hobj =>
      rw [hobj] at hc
      obtain ⟨c', hc', hvalue⟩ := BaseObject.cleanup_value hc
      exact hold hc' (hvalue ▸ hcall)

theorem Promises.loop {ch : Nat} {seq : Int} (h : inst.Promises ch seq)
    (hpc : inst.loops[self]? = some pc) (hmv : loopStep T self ok db inst.obj pc = some mv) :
    Promises { inst with obj := mv.obj, loops := inst.loops.set self mv.pc } ch seq := by
  have hself := List.mem_of_getElem? hpc
  have hothers : ∀ p ∈ inst.loops.set self mv.pc, ∀ toNotify call,
      (p = mv.pc → mv.pc.notice = some (toNotify, call) → ch ∈ toNotify → call.seq = seq) →
      p.notice = some (toNotify, call) → ch ∈ toNotify → call.seq = seq := by
    intro p hp toNotify call hmoved hnotice
    rcases eq_or_mem_of_mem_set hp with rfl | hj
    · exact hmoved rfl hnotice
    · exact h.notices p hj toNotify call hnotice
  cases loopStep_mail hmv with
  | same hwaiters hchans hnone =>
    refine ⟨?_, ?_, fun p hp toNotify call => hothers p hp toNotify call ?_, ?_⟩
    · exact hchans ▸ h.bound
    · exact hwaiters ▸ h.waiters
    · intro _ hnotice
      rw [hnone] at hnotice
      contradiction
    · exact hchans ▸ h.value
  | pop popped hwaiters hchans hpopped =>
    refine ⟨?_, ?_, fun p hp toNotify call => hothers p hp toNotify call ?_, ?_⟩
    · exact hchans ▸ h.bound
    · exact fun w hw => h.waiters w (mem_popWaiters (hwaiters ▸ hw))
    · intro _ hnotice hch
      obtain ⟨rfl, hseq⟩ := hpopped toNotify call hnotice
      obtain ⟨w, hw, hwch, hwseq⟩ := mem_toNotify hch
      rw [hseq, ← hwseq]
      exact h.waiters w hw hwch
    · exact hchans ▸ h.value
  | deliver toClose toNotify sent rest hdeliver hobj hnone =>
    refine ⟨?_, ?_, fun p hp toNotify call => hothers p hp toNotify call ?_, ?_⟩
    · rw [hobj]
      exact (BaseObject.length_deliver _ _ _).symm ▸ h.bound
    · rw [hobj]
      exact h.waiters
    · intro _ hnotice
      rw [hnone] at hnotice
      contradiction
    · intro c hc call hcall
      rw [hobj] at hc
      obtain ⟨c', hc', hvalue | ⟨hch, hvalue⟩⟩ := BaseObject.deliver_value hc
      · exact h.value c' hc' call (hvalue ▸ hcall)
      · obtain rfl : sent = some call := hvalue.symm.trans hcall
        subst hdeliver
        exact h.notices _ hself toNotify call rfl hch
  | cleanup hobj hnone =>
    refine ⟨?_, ?_, fun p hp toNotify call => hothers p hp toNotify call ?_, ?_⟩
    · rw [hobj]
      exact BaseObject.length_cleanup.symm ▸ h.bound
    · rw [hobj]
      nofun
    · intro _ hnotice
      rw [hnone] at hnotice
      contradiction
    · intro c hc call hcall
      rw [hobj] at hc
      obtain ⟨c', hc', hvalue⟩ := BaseObject.cleanup_value hc
      exact h.value c' hc' call (hvalue ▸ hcall)

end Loop

section Step

variable {action : Action} {out : Outcome σ μ}

theorem Reports.step (h : inst.Reports T db) (hstep : inst.step T db action = some out) :
    out.inst.Reports T out.db := by
  have hext := (keeps_step hstep).extends
  cases step_cases hstep with
  | loop self ok pc mv haction hpc hmv hout =>
    subst hout
    exact h.loop hpc hmv hext
  | save saved haction hfree hsaved hout =>
    subst hout
    exact h.mono hext
  | quiet hdb hevent hid hdata hseq hmu hcancelled hloops hwaiters =>
    rw [hdb]
    refine h.quiet (fun pc hpc => ?_) hwaiters
    exact mem_loops_cases hloops hpc

theorem Promises.step {ch : Nat} {seq : Int} (h : inst.Promises ch seq)
    (hstep : inst.step T db action = some out) : out.inst.Promises ch seq := by
  cases step_cases hstep with
  | loop self ok pc mv haction hpc hmv hout =>
    subst hout
    exact h.loop hpc hmv
  | save saved haction hfree hsaved hout =>
    subst hout
    exact h
  | quiet hdb hevent hid hdata hseq hmu hcancelled hloops hwaiters =>
    refine h.quiet (fun pc hpc => ?_) hwaiters
    exact mem_loops_cases hloops hpc

theorem Reports.invoked (h : inst.Reports T db) (hstep : inst.step T db action = some out)
    {call : ReliableCall} (hevent : out.event = some (.invoke call)) :
    Known db call ∧ ¬ T.Rejects call := by
  cases step_cases hstep with
  | loop self ok pc mv haction hpc hmv hout =>
    subst hout
    cases loopStep_effect hmv with
    | invoke called rest msg hdecode hmsg heq =>
      subst hdecode heq
      cases hevent
      refine ⟨h.known _ (List.mem_of_getElem? hpc) call List.mem_cons_self, ?_⟩
      rintro ⟨message, hmessage⟩
      rw [hmsg] at hmessage
      contradiction
    | quiet _ _ hquiet =>
      rcases hquiet with hnone | ⟨_, hprocess⟩
      · rw [hnone] at hevent
        cases hevent
      · rw [hprocess] at hevent
        cases hevent
    | finish _ _ _ _ heq | save _ _ _ _ _ _ heq | update _ _ _ _ _ _ _ heq =>
      subst heq
      cases hevent
  | save saved haction hfree hsaved hout =>
    subst hout
    cases hevent
  | quiet _ hnone =>
    rw [hnone] at hevent
    contradiction

theorem Reports.skipped (h : inst.Reports T db) (hstep : inst.step T db action = some out)
    {row : ReliableCall} (hrow : row ∈ out.db.calls.rows) (hskipped : row.status = .skipped) :
    row ∈ db.calls.rows ∨ T.Rejects row := by
  cases step_effect hstep with
  | quiet hdb | invoke _ _ _ _ hdb | finish _ _ _ _ _ hdb =>
    rw [hdb] at hrow
    exact .inl hrow
  | save hmay hsaved =>
    obtain ⟨_, -, hcalls, -, -⟩ := BaseObject.saveLocked_ok hsaved
    rw [hcalls] at hrow
    exact .inl hrow
  | update self call rest final haction hpc hupdated =>
    rw [(DB.updateReliableCallStatus_ok hupdated).2.2] at hrow
    obtain ⟨old, hold, rfl⟩ := List.mem_map.mp hrow
    have hself := List.mem_of_getElem? hpc
    unfold CallTable.finish at hskipped ⊢
    split at hskipped
    · rename_i hseq
      refine .inr ?_
      rw [if_pos hseq]
      obtain ⟨known, hknown, hs, -, hrequest⟩ := h.known _ hself call List.mem_cons_self
      obtain rfl := row_unique hold hknown (hseq.trans hs.symm)
      obtain ⟨message, hmessage⟩ := h.honest _ hself hskipped
      exact ⟨message, hrequest ▸ hmessage⟩
    · rename_i hseq
      rw [if_neg hseq]
      exact .inl hold

end Step
end Instance
end Goverse.Object
