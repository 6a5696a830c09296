import Goverse.Lib.RWLock
import Goverse.Object.Recovery

/-! `createObject`, `EvictObject`, `DeleteObject` and the periodic save of one object id on
any number of nodes, next to the processing loops of every instance that was ever
activated. Each node has its own `objectLifecycleLock` for the id and its own entry in
`objects`; the store is shared. The loops take no lifecycle lock. -/
namespace Goverse.Node

open Postgres Lib Object

variable {σ μ : Type}

inductive Op where
  | create
  | evict
  | delete (claimedType : GoString)
  | saveAll
  deriving DecidableEq, Repr

/-- Where an operation is. `save`, `deleteRow`, `remove` and `destroy` hold the exclusive
lock of the id; `saveShared` is the body of `saveAllObjectsLocked` for it. `ret` is the
deferred unlock before the operation returns nil, with the instance it has destroyed. -/
inductive OpPC (σ : Type) where
  | lock (op : Op)
  | find (op : Op)
  | save (k : Nat)
  | deleteRow (k : Nat)
  | remove (k : Nat)
  | destroy (k : Nat)
  | restore
  | insert (data : σ) (nextRcseq : Int)
  | ensure (k : Nat)
  | ret (destroyed : Option Nat)
  | fail
  | saveShared (k : Nat)
  | runlock
  | done

structure Thread (σ : Type) where
  node : Nat
  pc : OpPC σ

/-- The lock an operation holds, by the node whose lock it is. -/
def Thread.holds (th : Thread σ) (node : Nat) : Option Mode :=
  if node = th.node then
    match th.pc with
    | .lock _ | .done => none
    | .find .saveAll | .saveShared _ | .runlock => some .shared
    | _ => some .exclusive
  else none

/-- `insts` are all instances in the order of their activation and `objects` the instance
in the map of each node. `returned` lists the instances for which an `EvictObject` or a
`DeleteObject` has returned nil, and `late` what such an instance did afterwards. -/
structure Fleet (σ μ : Type) where
  db : DB
  insts : List (Instance σ μ)
  objects : Nat → Option Nat
  locks : Nat → RWLock
  threads : List (Thread σ)
  returned : List Nat
  late : List (Nat × Event)

/-- The method is started or ends, or the provider is written to. -/
def touches : Event → Bool
  | .process _ => false
  | _ => true

namespace Fleet

/-- `act` is a step of instance `k` by a caller or a loop; `thread self ok` is the next
step of an operation, where `ok` stands for the answer of the lifecycle rules or of the
provider. -/
inductive Label where
  | act (k : Nat) (action : Action)
  | insert (row : ReliableCall)
  | spawn (node : Nat) (op : Op)
  | thread (self : Nat) (ok : Bool)
  deriving DecidableEq, Repr

def observe (s : Fleet σ μ) (k : Nat) (out : Outcome σ μ) : Fleet σ μ :=
  { s with
    db := out.db
    insts := s.insts.set k out.inst
    late := if k ∈ s.returned then
        s.late ++ (out.event.toList.filter touches).map fun event => (k, event)
      else s.late }

def goto (s : Fleet σ μ) (self node : Nat) (pc : OpPC σ) : Fleet σ μ :=
  { s with threads := s.threads.set self ⟨node, pc⟩ }

/-- `obj.Save(provider)`; the result is `none` while `stateMu` is taken, and otherwise says
whether `Save` returned nil or `ErrNotPersistent`. -/
def saveObject (T : ObjectType σ μ) (s : Fleet σ μ) (k : Nat) (ok : Bool) :
    Option (Bool × Fleet σ μ) :=
  match s.insts[k]? with
  | none => none
  | some inst =>
    match inst.obj.stateMu with
    | some _ => none
    | none =>
      match inst.obj.saveLocked T s.db with
      | .error .notPersistent => some (true, s)
      | .error _ => some (false, s)
      | .ok saved =>
        if ok then some (true, s.observe k ⟨saved, inst, some .save⟩) else some (false, s)

def threadStep (T : ObjectType σ μ) (id : GoString) (s : Fleet σ μ) (self node : Nat)
    (ok : Bool) : OpPC σ → Option (Fleet σ μ)
  | .lock .saveAll =>
    ((s.locks node).rlock self).map fun l =>
      { s with locks := Function.update s.locks node l }.goto self node (.find .saveAll)
  | .lock op =>
    ((s.locks node).lock self).map fun l =>
      { s with locks := Function.update s.locks node l }.goto self node (.find op)
  | .find .evict =>
    some (s.goto self node ((s.objects node).elim (.ret none) .save))
  | .find (.delete claimedType) =>
    some (s.goto self node ((s.objects node).elim (.ret none) fun k =>
      if T.name = claimedType ∧ ok then .deleteRow k else .fail))
  | .find .create =>
    some (s.goto self node
      (if s.objects node = none then if ok then .restore else .fail else .ret none))
  | .find .saveAll =>
    some (s.goto self node ((s.objects node).elim .runlock .saveShared))
  | .save k =>
    (s.saveObject T k ok).map fun (saved, next) =>
      next.goto self node (if saved then .remove k else .fail)
  | .deleteRow k =>
    match s.insts[k]? with
    | none => none
    | some inst =>
      match T.toData inst.obj.data with
      | .error _ => some (s.goto self node (.remove k))
      | .ok _ =>
        match if ok then (s.db.deleteObject id).toOption else none with
        | none => some (s.goto self node .fail)
        | some db => some ({ s with db := db }.goto self node (.remove k))
  | .remove _ =>
    match s.objects node with
    | none => some (s.goto self node (.ret none))
    | some k =>
      some ({ s with objects := Function.update s.objects node none }.goto self node (.destroy k))
  | .destroy k =>
    some ({ s with insts := s.insts.modify k fun inst =>
      { inst with obj := inst.obj.destroy } }.goto self node (.ret (some k)))
  | .restore =>
    match T.restore s.db id ok with
    | none => some (s.goto self node .fail)
    | some (data, nextRcseq) => some (s.goto self node (.insert data nextRcseq))
  | .insert data nextRcseq =>
    some ({ s with
      insts := s.insts ++ [Instance.start id data nextRcseq]
      objects := Function.update s.objects node (some s.insts.length) }.goto self node
        (.ensure s.insts.length))
  | .ensure k =>
    (s.insts[k]?.bind fun inst => inst.step T s.db .ensure).map fun out =>
      (s.observe k out).goto self node (.ret none)
  | .ret destroyed =>
    some ({ s with
      locks := Function.update s.locks node (s.locks node).unlock
      returned := destroyed.toList ++ s.returned }.goto self node .done)
  | .fail =>
    some ({ s with locks := Function.update s.locks node (s.locks node).unlock }.goto
      self node .done)
  | .saveShared k =>
    (s.saveObject T k ok).map fun (_, next) => next.goto self node .runlock
  | .runlock =>
    some ({ s with locks := Function.update s.locks node ((s.locks node).runlock self) }.goto
      self node .done)
  | .done => none

def step (T : ObjectType σ μ) (id : GoString) (s : Fleet σ μ) : Label → Option (Fleet σ μ)
  | .act _ (.save _) | .act _ .destroy => none
  | .act k action =>
    (s.insts[k]?.bind fun inst => inst.step T s.db action).map (s.observe k)
  | .insert row => (s.db.insertCall row).toOption.map fun result => { s with db := result.2 }
  | .spawn node op => some { s with threads := s.threads ++ [⟨node, .lock op⟩] }
  | .thread self ok => s.threads[self]?.bind fun th => s.threadStep T id self th.node ok th.pc

def start (db : DB) : Fleet σ μ := ⟨db, [], fun _ => none, fun _ => .free, [], [], []⟩

def machine (T : ObjectType σ μ) (id : GoString) : Machine (Fleet σ μ) Label where
  Init s := ∃ db, s = start db
  step := step T id

/-- `Destroy` is called when no loop of the instance is inside `processReliableCall`. -/
def DestroyBetweenCalls (s : Fleet σ μ) : Label → Prop
  | .thread self _ =>
    match s.threads[self]? with
    | some ⟨_, .destroy k⟩ =>
      ∀ inst ∈ s.insts[k]?, ∀ pc ∈ inst.loops, pc.processing = none
    | _ => True
  | _ => True

instance (s : Fleet σ μ) (label : Label) : Decidable (s.DestroyBetweenCalls label) := by
  cases label with
  | thread self ok =>
    simp only [DestroyBetweenCalls]
    split <;> infer_instance
  | _ => exact isTrue trivial

/-- Nothing is left to do for the loops but to exit. -/
def Dead (inst : Instance σ μ) : Prop :=
  inst.obj.cancelled = true ∧ ∀ pc ∈ inst.loops, pc.processing = none

theorem Dead.step {T : ObjectType σ μ} {db : DB} {inst : Instance σ μ} (h : Dead inst)
    {action : Action} {out : Outcome σ μ} (hstep : inst.step T db action = some out)
    (haction : ∀ ok, action ≠ .save ok) :
    Dead out.inst ∧ out.db = db ∧ out.event.toList.filter touches = [] := by
  cases Instance.step_cases hstep with
  | loop self ok pc mv hloop hpc hmv hout =>
    subst hout
    have hnone := h.2 pc (List.mem_of_getElem? hpc)
    refine ⟨⟨(loopStep_fixed hmv).2.trans h.1, ?_⟩, ?_⟩
    · intro p hp
      rcases eq_or_mem_of_mem_set hp with rfl | hj
      · cases hcall : mv.pc.processing with
        | none => rfl
        | some call =>
          rcases loopStep_processing hmv hcall with hold | ⟨hlive, -⟩
          · rw [hnone] at hold
            contradiction
          · rw [h.1] at hlive
            contradiction
      · exact h.2 p hj
    · cases loopStep_effect hmv with
      | quiet hdb hdata hevent =>
        refine ⟨hdb, ?_⟩
        rcases hevent with hevent | ⟨call, hevent⟩ <;> simp [hevent, touches]
      | invoke _ _ _ heq | finish _ _ _ heq | save _ _ _ _ heq | update _ _ _ _ heq =>
        subst heq
        contradiction
  | save saved hsave hfree hsaved hout => exact absurd hsave (haction true)
  | quiet hdb hevent hid hdata hseq hmu hcancelled hloops =>
    refine ⟨⟨hcancelled h.1, ?_⟩, hdb, by simp [hevent]⟩
    intro pc hpc
    rcases Instance.mem_loops_cases hloops hpc
      with hpc | rfl
    · exact h.2 pc hpc
    · rfl

variable {T : ObjectType σ μ} {id : GoString} {s t : Fleet σ μ}

/-- The instance is in no map and its loops are on their way out. -/
def Gone (s : Fleet σ μ) (k : Nat) : Prop :=
  (∀ node, s.objects node ≠ some k) ∧ ∃ inst, s.insts[k]? = some inst ∧ Dead inst

/-- What an operation knows about the instance it works on. -/
def Knows (s : Fleet σ μ) (th : Thread σ) : Prop :=
  match th.pc with
  | .save k | .deleteRow k | .remove k | .ensure k | .saveShared k =>
    s.objects th.node = some k
  | .destroy k => (∀ node, s.objects node ≠ some k) ∧ ∃ inst, s.insts[k]? = some inst
  | .ret (some k) => s.Gone k
  | _ => True

structure Safe (s : Fleet σ μ) : Prop where
  disciplined : Disciplined s.locks Thread.holds s.threads
  valid : ∀ node k, s.objects node = some k → k < s.insts.length
  home : ∀ node node' k, s.objects node = some k → s.objects node' = some k → node = node'
  knows : ∀ th ∈ s.threads, s.Knows th
  gone : ∀ k ∈ s.returned, s.Gone k
  quiet : s.late = []

theorem safe_start (db : DB) : (start db : Fleet σ μ).Safe := by
  refine ⟨?_, ?_, ?_, ?_, ?_, rfl⟩ <;> simp [start, Disciplined]

theorem Safe.goto (h : s.Safe) {self node : Nat} {pc pc' : OpPC σ}
    (hself : s.threads[self]? = some ⟨node, pc⟩)
    (hkeep : Thread.holds ⟨node, pc'⟩ node = Thread.holds ⟨node, pc⟩ node ∨
      Thread.holds ⟨node, pc'⟩ node = none)
    (hknows : s.Knows ⟨node, pc'⟩) : (s.goto self node pc').Safe := by
  refine ⟨h.disciplined.move hself ?_, h.valid, h.home, ?_, h.gone, h.quiet⟩
  · intro key mode hmode
    by_cases hkey : key = node
    · subst hkey
      rcases hkeep with hsame | hnone
      · rwa [← hsame]
      · rw [hnone] at hmode
        contradiction
    · simp [Thread.holds, hkey] at hmode
  · intro th hth
    rcases eq_or_mem_of_mem_set hth with rfl | hj
    · exact hknows
    · exact h.knows th hj

/-- No instance is lost, the dead stay dead, and what is in no map stays so. -/
structure Keeps (s t : Fleet σ μ) : Prop where
  unmapped : ∀ {k : Nat} {inst : Instance σ μ}, s.insts[k]? = some inst →
    (∀ node, s.objects node ≠ some k) → ∀ node, t.objects node ≠ some k
  inst : ∀ {k : Nat} {inst : Instance σ μ}, s.insts[k]? = some inst →
    ∃ inst', t.insts[k]? = some inst' ∧ (Dead inst → Dead inst')

theorem Keeps.gone (h : Keeps s t) {k : Nat} (hk : s.Gone k) : t.Gone k := by
  obtain ⟨hnone, inst, hinst, hdead⟩ := hk
  obtain ⟨inst', hinst', hstill⟩ := h.inst hinst
  exact ⟨h.unmapped hinst hnone, inst', hinst', hstill hdead⟩

theorem Keeps.knows (h : Keeps s t) {th : Thread σ}
    (hmap : th.holds th.node ≠ none → t.objects th.node = s.objects th.node)
    (hth : s.Knows th) : t.Knows th := by
  obtain ⟨node, pc⟩ := th
  cases pc with
  | save k | deleteRow k | remove k | ensure k | saveShared k =>
    exact (hmap (by simp [Thread.holds])).trans hth
  | destroy k =>
    obtain ⟨hnone, inst, hinst⟩ := hth
    obtain ⟨inst', hinst', -⟩ := h.inst hinst
    exact ⟨h.unmapped hinst hnone, inst', hinst'⟩
  | ret destroyed =>
    cases destroyed with
    | none => trivial
    | some k => exact h.gone hth
  | _ => trivial

private theorem keeps_observe {k : Nat} {inst : Instance σ μ} {out : Outcome σ μ}
    (hk : s.insts[k]? = some inst) (hdead : Dead inst → Dead out.inst) :
    Keeps s (s.observe k out) := by
  refine ⟨fun _ hnone => hnone, fun {j other} hj => ?_⟩
  by_cases hjk : j = k
  · subst hjk
    cases hk.symm.trans hj
    exact ⟨out.inst, getElem?_set_same hk, hdead⟩
  · exact ⟨other, (List.getElem?_set_ne (Ne.symm hjk)).trans hj, id⟩

theorem Safe.observe (h : s.Safe) {k : Nat} {inst : Instance σ μ} {out : Outcome σ μ}
    (hk : s.insts[k]? = some inst) (hdead : Dead inst → Dead out.inst)
    (hquiet : k ∈ s.returned → out.event.toList.filter touches = []) :
    (s.observe k out).Safe := by
  refine ⟨h.disciplined, ?_, h.home, ?_, ?_, ?_⟩
  · intro node j hj
    simpa [Fleet.observe] using h.valid node j hj
  · exact fun th hth => (keeps_observe hk hdead).knows (fun _ => rfl) (h.knows th hth)
  · exact fun j hj => (keeps_observe hk hdead).gone (h.gone j hj)
  · simp only [Fleet.observe]
    split
    · rename_i hmem
      simp [h.quiet, hquiet hmem]
    · exact h.quiet

theorem Safe.not_returned (h : s.Safe) {node k : Nat} (hmap : s.objects node = some k) :
    k ∉ s.returned := fun hmem => (h.gone k hmem).1 node hmap

theorem Safe.saveObject (h : s.Safe) {node k : Nat} {ok saved : Bool}
    (hmap : s.objects node = some k) (hsave : s.saveObject T k ok = some (saved, t)) :
    t.Safe ∧ t.objects = s.objects ∧ t.threads = s.threads ∧ t.locks = s.locks := by
  unfold Fleet.saveObject at hsave
  split at hsave
  · contradiction
  · rename_i inst hk
    split at hsave
    · contradiction
    · split at hsave
      · cases hsave
        exact ⟨h, rfl, rfl, rfl⟩
      · cases hsave
        exact ⟨h, rfl, rfl, rfl⟩
      · split at hsave
        · cases hsave
          refine ⟨h.observe hk (fun hd => hd) ?_, rfl, rfl, rfl⟩
          exact fun hmem => absurd hmem (h.not_returned hmap)
        · cases hsave
          exact ⟨h, rfl, rfl, rfl⟩

theorem Safe.relock (h : s.Safe) {self node : Nat} {pc' : OpPC σ} {l : RWLock}
    {returned : List Nat}
    (hdisc : Disciplined (Function.update s.locks node l) Thread.holds
      (s.threads.set self ⟨node, pc'⟩))
    (hknows : s.Knows ⟨node, pc'⟩) (hgone : ∀ k ∈ returned, s.Gone k) :
    ({ s with
        locks := Function.update s.locks node l
        returned := returned }.goto self node pc' : Fleet σ μ).Safe := by
  refine ⟨hdisc, h.valid, h.home, ?_, hgone, h.quiet⟩
  intro th hth
  rcases eq_or_mem_of_mem_set hth with rfl | hj
  · exact hknows
  · exact h.knows th hj

theorem Thread.holds_other {node node' : Nat} {pc : OpPC σ} {mode : Mode} (hne : node' ≠ node)
    (h : Thread.holds ⟨node, pc⟩ node' = some mode) {P : Prop} : P := by
  simp [Thread.holds, hne] at h

/-- The map of a node changes under its exclusive lock, so that no other operation that
knows about the map of this node is under way. -/
theorem Safe.setObject (h : s.Safe) {self node : Nat} {pc pc' : OpPC σ}
    (hself : s.threads[self]? = some ⟨node, pc⟩)
    (hpc : Thread.holds ⟨node, pc⟩ node = some .exclusive)
    (hpc' : Thread.holds ⟨node, pc'⟩ node = some .exclusive) {entry : Option Nat}
    {more : List (Instance σ μ)} (hentry : ∀ k ∈ entry, k = s.insts.length ∧ more ≠ [])
    (hknows : ({ s with
      insts := s.insts ++ more
      objects := Function.update s.objects node entry } : Fleet σ μ).Knows ⟨node, pc'⟩) :
    ({ s with
        insts := s.insts ++ more
        objects := Function.update s.objects node entry }.goto self node pc' :
      Fleet σ μ).Safe := by
  have hmap : ∀ {n k}, Function.update s.objects node entry n = some k →
      (n = node ∧ k = s.insts.length ∧ more ≠ []) ∨ s.objects n = some k := by
    intro n k hk
    by_cases hn : n = node
    · subst hn
      rw [Function.update_self] at hk
      exact .inl ⟨rfl, hentry k hk⟩
    · rw [Function.update_of_ne hn] at hk
      exact .inr hk
  have hkeeps : Keeps s { s with
      insts := s.insts ++ more
      objects := Function.update s.objects node entry } := by
    refine ⟨fun hk hnone n hn => ?_, fun {k inst} hk => ⟨inst, ?_, id⟩⟩
    · rcases hmap hn with ⟨-, rfl, -⟩ | hn
      · simp at hk
      · exact hnone n hn
    · exact getElem?_grow hk
  refine ⟨h.disciplined.move hself ?_, ?_, ?_, ?_, ?_, h.quiet⟩
  · intro key mode hmode
    by_cases hkey : key = node
    · subst hkey
      rwa [hpc, ← hpc']
    · exact Thread.holds_other hkey hmode
  · intro n k hk
    rcases hmap hk with ⟨-, rfl, hmore⟩ | hk
    · have := List.length_pos_iff.mpr hmore
      simp only [Fleet.goto, List.length_append]
      omega
    · have := h.valid n k hk
      simp only [Fleet.goto, List.length_append]
      omega
  · intro n n' k hn hn'
    rcases hmap hn with ⟨hnode, hk, -⟩ | hfirst <;>
      rcases hmap hn' with ⟨hnode', hk', -⟩ | hsecond
    · exact hnode.trans hnode'.symm
    · exact absurd (h.valid n' k hsecond) (by omega)
    · exact absurd (h.valid n k hfirst) (by omega)
    · exact h.home n n' k hfirst hsecond
  · intro th hth
    rcases mem_set_cases hth with rfl | ⟨j, hne, hj⟩
    · exact hknows
    · refine hkeeps.knows (fun hholds => ?_) (h.knows th (List.mem_of_getElem? hj))
      refine Function.update_of_ne ?_ _ _
      intro hnode
      rw [hnode] at hholds
      exact hne (h.disciplined.excludes hself hpc hj hholds)
  · exact fun k hk => hkeeps.gone (h.gone k hk)

theorem Safe.destroy (h : s.Safe) {self node k : Nat}
    (hself : s.threads[self]? = some ⟨node, .destroy k⟩)
    (hidle : ∀ inst ∈ s.insts[k]?, ∀ pc ∈ inst.loops, pc.processing = none) :
    ({ s with insts := s.insts.modify k fun inst =>
        { inst with obj := inst.obj.destroy } }.goto self node (.ret (some k)) :
      Fleet σ μ).Safe := by
  have hkeeps : Keeps s { s with insts := s.insts.modify k fun inst =>
      { inst with obj := inst.obj.destroy } } := by
    refine ⟨fun _ hnone => hnone, fun {j inst} hj => ?_⟩
    by_cases hjk : k = j
    · subst hjk
      exact ⟨{ inst with obj := inst.obj.destroy }, by simp [hj], fun hdead => ⟨rfl, hdead.2⟩⟩
    · exact ⟨inst, by simp [hj, hjk], id⟩
  have hknows := h.knows _ (List.mem_of_getElem? hself)
  refine ⟨h.disciplined.move hself ?_, ?_, h.home, ?_, fun j hj => hkeeps.gone (h.gone j hj),
    h.quiet⟩
  · intro key mode hmode
    by_cases hkey : key = node
    · subst hkey
      simpa [Thread.holds] using hmode
    · exact Thread.holds_other hkey hmode
  · intro n j hj
    simpa [Fleet.goto] using h.valid n j hj
  · intro th hth
    rcases eq_or_mem_of_mem_set hth with rfl | hj
    · obtain ⟨hnone, inst, hinst⟩ := hknows
      exact ⟨hnone, { inst with obj := inst.obj.destroy }, by simp [Fleet.goto, hinst], rfl,
        hidle inst hinst⟩
    · exact hkeeps.knows (fun _ => rfl) (h.knows th hj)

theorem Safe.unlock (h : s.Safe) {self node : Nat} {pc : OpPC σ} {returned : List Nat}
    (hself : s.threads[self]? = some ⟨node, pc⟩)
    (hpc : Thread.holds ⟨node, pc⟩ node = some .exclusive) (hgone : ∀ k ∈ returned, s.Gone k) :
    ({ s with
        locks := Function.update s.locks node (s.locks node).unlock
        returned := returned }.goto self node .done : Fleet σ μ).Safe := by
  refine h.relock (h.disciplined.unlock hself hpc ?_ ?_) trivial hgone
  · simp [Thread.holds]
  · exact fun key mode hne hmode => Thread.holds_other hne hmode

theorem Safe.lock (h : s.Safe) {self node : Nat} {op : Op} {l : RWLock} (hop : op ≠ .saveAll)
    (hself : s.threads[self]? = some ⟨node, .lock op⟩) (hl : (s.locks node).lock self = some l) :
    ({ s with locks := Function.update s.locks node l }.goto self node (.find op) :
      Fleet σ μ).Safe := by
  refine h.relock (h.disciplined.lock hself hl ?_ ?_) trivial h.gone
  · cases op <;> simp_all [Thread.holds]
  · exact fun key mode hne hmode => Thread.holds_other hne hmode

theorem Safe.find (h : s.Safe) {self node : Nat} {ok : Bool} {op : Op}
    (hself : s.threads[self]? = some ⟨node, .find op⟩)
    (hstep : s.threadStep T id self node ok (.find op) = some t) : t.Safe := by
  cases op with
  | evict =>
    cases hstep
    cases hmap : s.objects node with
    | none => exact h.goto hself (.inl rfl) trivial
    | some k => exact h.goto hself (.inl rfl) hmap
  | delete claimedType =>
    cases hstep
    cases hmap : s.objects node with
    | none => exact h.goto hself (.inl rfl) trivial
    | some k =>
      simp only [Option.elim_some]
      split
      · exact h.goto hself (.inl rfl) hmap
      · exact h.goto hself (.inl rfl) trivial
  | create =>
    cases hstep
    split
    · split <;> exact h.goto hself (.inl rfl) trivial
    · exact h.goto hself (.inl rfl) trivial
  | saveAll =>
    cases hstep
    cases hmap : s.objects node with
    | none => exact h.goto hself (.inl rfl) trivial
    | some k => exact h.goto hself (.inl rfl) hmap

theorem Safe.deleteRow (h : s.Safe) {self node k : Nat} {ok : Bool}
    (hself : s.threads[self]? = some ⟨node, .deleteRow k⟩)
    (hstep : s.threadStep T id self node ok (.deleteRow k) = some t) : t.Safe := by
  have hknows := h.knows _ (List.mem_of_getElem? hself)
  simp only [threadStep] at hstep
  split at hstep
  · contradiction
  · split at hstep
    · cases hstep
      exact h.goto hself (.inl rfl) hknows
    · split at hstep
      · cases hstep
        exact h.goto hself (.inl rfl) trivial
      · rename_i db hdb
        cases hstep
        have hdeleted : ({ s with db := db } : Fleet σ μ).Safe := ⟨h.1, h.2, h.3, h.4, h.5, h.6⟩
        exact hdeleted.goto hself (.inl rfl) hknows

theorem Safe.remove (h : s.Safe) {self node k : Nat} {ok : Bool}
    (hself : s.threads[self]? = some ⟨node, .remove k⟩)
    (hstep : s.threadStep T id self node ok (.remove k) = some t) : t.Safe := by
  have hknows := h.knows _ (List.mem_of_getElem? hself)
  simp only [threadStep, show s.objects node = some k from hknows] at hstep
  cases hstep
  have hvalid := h.valid node k hknows
  have hnone : ∀ n, Function.update s.objects node none n ≠ some k := by
    intro n hn
    by_cases heq : n = node
    · subst heq
      simp at hn
    · rw [Function.update_of_ne heq] at hn
      exact heq (h.home n node k hn hknows)
  have hmoved : ({ s with
      insts := s.insts ++ []
      objects := Function.update s.objects node none }.goto self node (.destroy k) :
      Fleet σ μ).Safe :=
    h.setObject hself (by simp [Thread.holds]) (by simp [Thread.holds]) nofun
      ⟨hnone, s.insts[k], by simp [List.getElem?_eq_getElem hvalid]⟩
  simpa using hmoved

theorem Safe.thread (h : s.Safe) {self node : Nat} {ok : Bool} {pc : OpPC σ}
    (hself : s.threads[self]? = some ⟨node, pc⟩)
    (hguard : s.DestroyBetweenCalls (.thread self ok))
    (hstep : s.threadStep T id self node ok pc = some t) : t.Safe := by
  have hknows := h.knows _ (List.mem_of_getElem? hself)
  cases pc with
  | lock op =>
    cases op with
    | saveAll =>
      obtain ⟨l, hl, rfl⟩ := Option.map_eq_some_iff.mp hstep
      refine h.relock (h.disciplined.rlock hself hl ?_ ?_) trivial h.gone
      · simp [Thread.holds]
      · exact fun key mode hne hmode => Thread.holds_other hne hmode
    | create | evict | delete =>
      obtain ⟨l, hl, rfl⟩ := Option.map_eq_some_iff.mp hstep
      exact h.lock nofun hself hl
  | find op => exact h.find hself hstep
  | save k =>
    obtain ⟨⟨saved, next⟩, hsave, rfl⟩ := Option.map_eq_some_iff.mp hstep
    obtain ⟨hnext, hobjects, hthreads, -⟩ := h.saveObject hknows hsave
    rw [← hthreads] at hself
    cases saved with
    | true => exact hnext.goto hself (.inl rfl) ((congrFun hobjects node).trans hknows)
    | false => exact hnext.goto hself (.inl rfl) trivial
  | deleteRow k => exact h.deleteRow hself hstep
  | remove k => exact h.remove hself hstep
  | destroy k =>
    cases hstep
    refine h.destroy hself ?_
    simpa [DestroyBetweenCalls, hself] using hguard
  | restore =>
    simp only [threadStep] at hstep
    split at hstep <;> cases hstep <;> exact h.goto hself (.inl rfl) trivial
  | insert data nextRcseq =>
    cases hstep
    apply h.setObject hself
    · simp [Thread.holds]
    · simp [Thread.holds]
    · intro k hk
      exact ⟨(Option.some.inj hk).symm, by simp⟩
    · simp [Knows]
  | ensure k =>
    obtain ⟨out, hout, rfl⟩ := Option.map_eq_some_iff.mp hstep
    obtain ⟨inst, hinst, hout⟩ := Option.bind_eq_some_iff.mp hout
    have hnext : (s.observe k out).Safe :=
      h.observe hinst (fun hd => (hd.step hout nofun).1)
        (fun hmem => absurd hmem (h.not_returned hknows))
    exact hnext.goto hself (.inl rfl) trivial
  | ret destroyed =>
    cases hstep
    refine h.unlock hself (by simp [Thread.holds]) ?_
    intro k hk
    rcases List.mem_append.mp hk with hk | hk
    · have hsome : destroyed = some k := by simpa using hk
      subst hsome
      exact hknows
    · exact h.gone k hk
  | fail =>
    cases hstep
    exact h.unlock hself (by simp [Thread.holds]) h.gone
  | saveShared k =>
    obtain ⟨⟨saved, next⟩, hsave, rfl⟩ := Option.map_eq_some_iff.mp hstep
    obtain ⟨hnext, hobjects, hthreads, -⟩ := h.saveObject hknows hsave
    rw [← hthreads] at hself
    exact hnext.goto hself (.inl rfl) trivial
  | runlock =>
    cases hstep
    refine h.relock (h.disciplined.runlock hself ?_ ?_) trivial h.gone
    · simp [Thread.holds]
    · exact fun key mode hne hmode => Thread.holds_other hne hmode
  | done => cases hstep

theorem Safe.step (h : s.Safe) {label : Label} (hguard : s.DestroyBetweenCalls label)
    (hstep : (machine T id).step s label = some t) : t.Safe := by
  cases label with
  | act k action =>
    have hact : (∀ ok, action ≠ .save ok) ∧
        (s.insts[k]?.bind fun inst => inst.step T s.db action).map (s.observe k) = some t := by
      cases action with
      | save ok => cases hstep
      | destroy => cases hstep
      | _ => exact ⟨nofun, hstep⟩
    obtain ⟨hsave, hact⟩ := hact
    obtain ⟨out, hout, rfl⟩ := Option.map_eq_some_iff.mp hact
    obtain ⟨inst, hinst, hout⟩ := Option.bind_eq_some_iff.mp hout
    refine h.observe hinst (fun hd => (hd.step hout hsave).1) fun hmem => ?_
    obtain ⟨-, other, hother, hdead⟩ := h.gone k hmem
    rw [hinst] at hother
    cases hother
    exact (hdead.step hout hsave).2.2
  | insert row =>
    obtain ⟨result, -, rfl⟩ := Option.map_eq_some_iff.mp hstep
    exact ⟨h.1, h.2, h.3, h.4, h.5, h.6⟩
  | spawn node op =>
    cases hstep
    refine ⟨h.disciplined.spawn (by simp [Thread.holds]), h.valid, h.home, ?_, h.gone, h.quiet⟩
    intro th hth
    rcases mem_concat_cases hth with hth | rfl
    · exact h.knows th hth
    · trivial
  | thread self ok =>
    obtain ⟨⟨node, pc⟩, hself, hpc⟩ := Option.bind_eq_some_iff.mp hstep
    exact h.thread hself hguard hpc

/-- If `Destroy` always finds the loops outside `processReliableCall`, an instance for
which `EvictObject` or `DeleteObject` has returned nil starts and finishes no method and
writes nothing: none of its steps changes the store. -/
theorem destroyed_instance_is_dead (T : ObjectType σ μ) (id : GoString) {s : Fleet σ μ}
    (h : (machine T id).Reachable DestroyBetweenCalls s) :
    s.late = [] ∧ ∀ k ∈ s.returned, (∀ node, s.objects node ≠ some k) ∧
      ∀ action t, (machine T id).step s (.act k action) = some t → t.db = s.db := by
  have hs : s.Safe := h.invariant (fun ⟨db, hdb⟩ => hdb ▸ safe_start db)
    fun hs hl hst => hs.step hl hst
  refine ⟨hs.quiet, fun k hk => ⟨(hs.gone k hk).1, fun action t hstep => ?_⟩⟩
  obtain ⟨-, inst, hinst, hdead⟩ := hs.gone k hk
  cases action with
  | save ok => cases hstep
  | destroy => cases hstep
  | call | register | ensure | loop =>
    obtain ⟨out, hout, rfl⟩ := Option.map_eq_some_iff.mp hstep
    obtain ⟨other, hother, hout⟩ := Option.bind_eq_some_iff.mp hout
    rw [hinst] at hother
    cases hother
    exact (hdead.step hout nofun).2.1

def operation (self node : Nat) (op : Op) (n : Nat) : List Label :=
  .spawn node op :: List.replicate n (.thread self true)

def loopSteps (k self n : Nat) : List Label := List.replicate n (.act k (.loop self true))

/-- The loop has fetched call 1 and passed its test of the context when the object is
evicted; the new owner is activated before the loop goes on. -/
def evictedInCall : List Label :=
  [.insert (tallyCall 1 1)] ++ operation 0 0 .create 6 ++ loopSteps 0 0 7 ++
    operation 1 0 .evict 6 ++ operation 2 1 .create 6 ++ loopSteps 0 0 6

/-- The same with a `DeleteObject` of an object that has been saved. -/
def deletedInCall : List Label :=
  [.insert (tallyCall 1 1)] ++ operation 0 0 .create 6 ++ operation 1 0 .saveAll 4 ++
    loopSteps 0 0 7 ++ operation 2 0 (.delete (lit "Tally")) 6 ++ loopSteps 0 0 6

theorem destroyed_instance_writes :
    (∃ s, (machine tally (lit "o")).Reachable Machine.Any s ∧ 0 ∈ s.returned ∧
      s.late = [(0, .invoke (tallyCall 1 1)), (0, .finish (tallyCall 1 1)), (0, .save),
        (0, .update 1 .success)]) ∧
    ∃ s, (machine tally (lit "o")).Reachable Machine.Any s ∧ 0 ∈ s.returned ∧
      s.insts.length = 1 ∧ s.db.objects.lookup (lit "o") ≠ none := by
  have hevict : ((machine tally (lit "o")).exec Machine.Any (start DB.empty)
      evictedInCall).any (fun s => decide (0 ∈ s.returned ∧
        s.late = [(0, .invoke (tallyCall 1 1)), (0, .finish (tallyCall 1 1)), (0, .save),
          (0, .update 1 .success)])) = true := by
    decide
  have hdelete : ((machine tally (lit "o")).exec Machine.Any (start DB.empty)
      deletedInCall).any (fun s => decide (0 ∈ s.returned ∧ s.insts.length = 1 ∧
        s.db.objects.lookup (lit "o") ≠ none)) = true := by
    decide
  obtain ⟨s, hs, hbad⟩ := Machine.exec_any hevict
  obtain ⟨t, ht, hbad'⟩ := Machine.exec_any hdelete
  have hinit : (machine tally (lit "o")).Reachable Machine.Any (start DB.empty) :=
    .init ⟨DB.empty, rfl⟩
  exact ⟨⟨s, hinit.steps hs, of_decide_eq_true hbad⟩, t, hinit.steps ht,
    of_decide_eq_true hbad'⟩

/-- The object is evicted while its loop waits for more calls. -/
def evictedBetweenCalls : List Label :=
  [.insert (tallyCall 1 1)] ++ operation 0 0 .create 6 ++ loopSteps 0 0 15 ++
    operation 1 0 .evict 6 ++ operation 2 1 .create 6 ++ loopSteps 0 0 3

theorem destroyed_instance_is_dead_evictedBetweenCalls :
    ∃ s, (machine tally (lit "o")).Steps DestroyBetweenCalls (start DB.empty)
        evictedBetweenCalls s ∧ s.returned = [0] ∧
      (s.late = [] ∧ ∀ k ∈ s.returned, (∀ node, s.objects node ≠ some k) ∧
        ∀ action t, (machine tally (lit "o")).step s (.act k action) = some t →
          t.db = s.db) := by
  have hrun : ((machine tally (lit "o")).exec DestroyBetweenCalls (start DB.empty)
      evictedBetweenCalls).any (fun s => decide (s.returned = [0])) = true := by
    decide
  obtain ⟨s, hs, hreturned⟩ := Machine.exec_any hrun
  have hinit : (machine tally (lit "o")).Reachable DestroyBetweenCalls (start DB.empty) :=
    .init ⟨DB.empty, rfl⟩
  exact ⟨s, hs, of_decide_eq_true hreturned,
    destroyed_instance_is_dead tally (lit "o") (hinit.steps hs)⟩

end Fleet
end Goverse.Node
