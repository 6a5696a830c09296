import Goverse.Node.Objects

/-! What `createObject` makes of the stored state of an object, for every answer of the user's
code and of the store, and what the saves of a whole history can overwrite. -/
namespace Goverse.Node

open Postgres Lib Object

variable {σ μ : Type}

/-- An instance of a type. `persistent` says that the `ToData` of the new object did not report
`ErrNotPersistent`, `origin` is the stored data that its `FromData` was given with the counter
that came with it, and `writes` are the rows that its saves have written. -/
structure Incarnation (σ μ : Type) where
  obj : LiveObject σ μ
  persistent : Bool
  origin : Option (Bytes × Int)
  writes : List ObjectData

/-- A node, all instances that it has ever made, and the instance of each map entry. -/
structure Custody (σ μ : Type) where
  node : NodeState σ μ
  incarnations : List (Incarnation σ μ)
  current : GoString → Nat

/-- `ToData` has something to save. -/
def LiveObject.Saves (obj : LiveObject σ μ) : Prop :=
  (obj.type.toData obj.base.data).toOption.isSome = true

instance (obj : LiveObject σ μ) : Decidable obj.Saves :=
  inferInstanceAs (Decidable (_ = true))

namespace Incarnation

def id (inc : Incarnation σ μ) : GoString := inc.obj.base.id

/-- The row is one that the instance started from or has written. -/
def Descends (inc : Incarnation σ μ) (row : ObjectData) : Prop :=
  inc.origin = some (row.data, row.nextRcseq) ∨ row ∈ inc.writes

instance (inc : Incarnation σ μ) (row : ObjectData) : Decidable (inc.Descends row) :=
  inferInstanceAs (Decidable (_ ∨ _))

def mutate (inc : Incarnation σ μ) (data : σ) (nextRcseq : Int) : Incarnation σ μ :=
  let base := { inc.obj.base with data := data, nextRcseq := nextRcseq }
  { inc with obj := ⟨inc.obj.type, base⟩ }

end Incarnation

namespace Custody

/-- `mutate` is whatever methods and reliable calls do to an instance; a processing loop can
outlive its object, so an instance that has left the map may still change and be saved.
`destroy` is the end of `EvictObject`, `clear` a crash or a `Stop`, and `foreign` what other
nodes do to the row of an object that is not live here. -/
inductive Label (σ : Type) where
  | create (typ id : GoString) (hooks : Hooks σ)
  | mutate (k : Nat) (data : σ) (nextRcseq : Int)
  | save (k : Nat) (reply : StoreReply)
  | delete (claimedType id : GoString) (reply : StoreReply)
  | destroy (id : GoString)
  | clear
  | foreign (id : GoString) (row : Option ObjectData)

/-- The instance of the map entry of its id. -/
def Live (s : Custody σ μ) (k : Nat) (inc : Incarnation σ μ) : Prop :=
  (s.node.objects.lookup inc.id).isSome = true ∧ s.current inc.id = k

instance (s : Custody σ μ) (k : Nat) (inc : Incarnation σ μ) : Decidable (s.Live k inc) :=
  inferInstanceAs (Decidable (_ ∧ _))

/-- `createObject`, with the new instance if it inserts one. -/
def create (s : Custody σ μ) (typ id : GoString) (hooks : Hooks σ) : Custody σ μ :=
  let next := (s.node.createObject typ id hooks).1
  match s.node.objects.lookup id, next.objects.lookup id with
  | none, some obj =>
    let origin := (s.node.dataToRestore id hooks).bind fun restore =>
      restore.1.map fun data => (data, restore.2)
    { node := next
      incarnations := s.incarnations ++ [⟨obj, decide (hooks.toData ≠ .notPersistent), origin, []⟩]
      current := Function.update s.current id s.incarnations.length }
  | _, _ => { s with node := next }

def mutate (s : Custody σ μ) (k : Nat) (inc : Incarnation σ μ) (data : σ) (nextRcseq : Int) :
    Custody σ μ :=
  let changed := inc.mutate data nextRcseq
  let objects :=
    if s.Live k inc then s.node.objects.insert inc.id changed.obj else s.node.objects
  { s with
    node := { s.node with objects := objects }
    incarnations := s.incarnations.set k changed }

/-- `saveLocked`, on a store that executes the statement or not. -/
def save (s : Custody σ μ) (k : Nat) (inc : Incarnation σ μ) : StoreReply → Custody σ μ
  | .failed => s
  | .executed | .lost =>
    match s.node.provider with
    | none => s
    | some db =>
      match inc.obj.base.saveLocked inc.obj.type db with
      | .error _ => s
      | .ok next =>
        { s with
          node := { s.node with provider := some next }
          incarnations := s.incarnations.set k { inc with
            writes := inc.writes ++ (next.objects.lookup inc.id).toList } }

def setRow (db : DB) (id : GoString) (row : Option ObjectData) : DB :=
  { db with objects := row.elim (db.objects.erase id) (db.objects.insert id) }

def step (s : Custody σ μ) : Label σ → Option (Custody σ μ)
  | .create typ id hooks => some (s.create typ id hooks)
  | .mutate k data nextRcseq =>
    (s.incarnations[k]?).map fun inc => s.mutate k inc data nextRcseq
  | .save k reply => (s.incarnations[k]?).map fun inc => s.save k inc reply
  | .delete claimedType id reply =>
    some { s with node := (s.node.deleteObject claimedType id reply).1 }
  | .destroy id => some { s with node := s.node.destroyObject id }
  | .clear => some { s with node := { s.node with objects := ∅ } }
  | .foreign id row =>
    match s.node.objects.lookup id with
    | some _ => none
    | none => some { s with node := { s.node with
        provider := s.node.provider.map fun db => setRow db id row } }

def start (node : NodeState σ μ) : Custody σ μ := ⟨node, [], fun _ => 0⟩

/-- A running node with a provider, any registry and any store, and no object yet. -/
def machine (σ μ : Type) : Machine (Custody σ μ) (Label σ) where
  Init s := ∃ node : NodeState σ μ, node.stopped = false ∧ node.provider.isSome = true ∧
    node.objects = ∅ ∧ s = start node
  step := step

/-- A new object's `ToData` succeeds or reports `ErrNotPersistent`; an instance whose `ToData`
reported that has nothing to save later, and no instance is saved once it has left the map. -/
def Candid (s : Custody σ μ) : Label σ → Prop
  | .create _ _ hooks => hooks.toData ≠ .failed
  | .save k _ =>
    ∀ inc ∈ s.incarnations[k]?, inc.obj.Saves → inc.persistent = true ∧ s.Live k inc
  | _ => True

instance : ∀ (s : Custody σ μ) (l : Label σ), Decidable (s.Candid l)
  | _, .create _ _ _ | _, .save _ _ => by unfold Candid; infer_instance
  | _, .mutate _ _ _ | _, .delete _ _ _ | _, .destroy _ | _, .clear | _, .foreign _ _ =>
    isTrue trivial

variable {s t : Custody σ μ} {k : Nat} {inc : Incarnation σ μ}

/-- The instance of a map entry is the object of the entry, and if it can be saved, then the row
of its id is one of its own. -/
structure Kept (s : Custody σ μ) : Prop where
  running : s.node.stopped = false
  synced : ∀ {k : Nat} {inc : Incarnation σ μ}, s.incarnations[k]? = some inc → s.Live k inc →
    s.node.objects.lookup inc.id = some inc.obj
  descends : ∀ {k : Nat} {inc : Incarnation σ μ} {row : ObjectData}, s.incarnations[k]? = some inc →
    s.Live k inc → inc.persistent = true → s.node.row inc.id = some row →
      inc.Descends row

/-- What a save does: nothing, or it makes the state of the instance the row of its id. -/
inductive SaveCase (s : Custody σ μ) (k : Nat) (inc : Incarnation σ μ) : Custody σ μ → Prop
  | kept : SaveCase s k inc s
  | wrote {db next : DB} {data : Bytes} (hprovider : s.node.provider = some db)
      (hdata : inc.obj.type.toData inc.obj.base.data = .ok data)
      (hobjects : next.objects = db.objects.insert inc.id
        ⟨inc.obj.type.name, data, inc.obj.base.nextRcseq⟩) :
      SaveCase s k inc { s with
        node := { s.node with provider := some next }
        incarnations := s.incarnations.set k { inc with writes := inc.writes ++
          [⟨inc.obj.type.name, data, inc.obj.base.nextRcseq⟩] } }

theorem save_cases (s : Custody σ μ) (k : Nat) (inc : Incarnation σ μ) (reply : StoreReply) :
    SaveCase s k inc (s.save k inc reply) := by
  cases reply with
  | failed => exact .kept
  | executed | lost =>
    simp only [Custody.save]
    split
    · exact .kept
    · rename_i db hprovider
      split
      · exact .kept
      · rename_i next hnext
        obtain ⟨data, hdata, -, -, hobjects⟩ := BaseObject.saveLocked_ok hnext
        have hwrites : (next.objects.lookup inc.id).toList =
            [⟨inc.obj.type.name, data, inc.obj.base.nextRcseq⟩] := by
          rw [hobjects]
          exact congrArg Option.toList (AList.lookup_insert _)
        rw [hwrites]
        exact .wrote hprovider hdata hobjects

/-- What a step has done about an instance that is in the map after it. -/
inductive LiveCase (s t : Custody σ μ) : Label σ → Nat → Incarnation σ μ → Prop
  | frame {l : Label σ} {k : Nat} {inc : Incarnation σ μ} (hinc : s.incarnations[k]? = some inc)
      (hlive : s.Live k inc)
      (hlookup : t.node.objects.lookup inc.id = s.node.objects.lookup inc.id)
      (hrow : t.node.row inc.id = s.node.row inc.id) : LiveCase s t l k inc
  | created {typ id : GoString} {hooks : Hooks σ} {k : Nat} {inc : Incarnation σ μ}
      {given : Option Bytes} {nextRcseq : Int} (hnone : s.node.objects.lookup id = none)
      (hid : inc.id = id)
      (hgiven : s.node.dataToRestore id hooks = some (given, nextRcseq))
      (horigin : inc.origin = given.map fun data => (data, nextRcseq))
      (hpersistent : inc.persistent = decide (hooks.toData ≠ .notPersistent))
      (hwrites : inc.writes = [])
      (hlookup : t.node.objects.lookup inc.id = some inc.obj)
      (hrow : t.node.row inc.id = s.node.row inc.id) : LiveCase s t (.create typ id hooks) k inc
  | mutated {k : Nat} {inc : Incarnation σ μ} {data : σ} {nextRcseq : Int}
      (hinc : s.incarnations[k]? = some inc) (hlive : s.Live k inc)
      (hlookup : t.node.objects.lookup inc.id = some (inc.mutate data nextRcseq).obj)
      (hrow : t.node.row inc.id = s.node.row inc.id) :
      LiveCase s t (.mutate k data nextRcseq) k (inc.mutate data nextRcseq)
  | saved {k : Nat} {inc : Incarnation σ μ} {reply : StoreReply} {row : ObjectData}
      (hinc : s.incarnations[k]? = some inc) (hlive : s.Live k inc)
      (hlookup : t.node.objects.lookup inc.id = s.node.objects.lookup inc.id)
      (hrow : t.node.row inc.id = some row) :
      LiveCase s t (.save k reply) k { inc with writes := inc.writes ++ [row] }
  /-- The instance `j` has left the map. -/
  | overwritten {j k : Nat} {inc other : Incarnation σ μ} {reply : StoreReply} {row : ObjectData}
      (hinc : s.incarnations[k]? = some inc) (hlive : s.Live k inc)
      (hother : s.incarnations[j]? = some other) (hid : other.id = inc.id)
      (hdead : ¬ s.Live j other) (hsaves : other.obj.Saves)
      (hlookup : t.node.objects.lookup inc.id = s.node.objects.lookup inc.id)
      (hrow : t.node.row inc.id = some row) : LiveCase s t (.save j reply) k inc
  | unrowed {claimedType id : GoString} {k : Nat} {inc : Incarnation σ μ}
      (hinc : s.incarnations[k]? = some inc) (hlive : s.Live k inc)
      (hlookup : t.node.objects.lookup inc.id = s.node.objects.lookup inc.id)
      (hrow : t.node.row inc.id = none) : LiveCase s t (.delete claimedType id .lost) k inc

section LiveCase

variable {l : Label σ}

theorem LiveCase.of_frame {node : NodeState σ μ} (hinc : s.incarnations[k]? = some inc)
    (hlive : ({ s with node := node } : Custody σ μ).Live k inc)
    (hlookup : node.objects.lookup inc.id = s.node.objects.lookup inc.id)
    (hrow : node.row inc.id = s.node.row inc.id) :
    LiveCase s { s with node := node } l k inc :=
  .frame hinc ⟨hlookup ▸ hlive.1, hlive.2⟩ hlookup hrow

@[simp] theorem create_node (s : Custody σ μ) (typ id : GoString) (hooks : Hooks σ) :
    (s.create typ id hooks).node = (s.node.createObject typ id hooks).1 := by
  unfold Custody.create
  dsimp only
  split <;> rfl

private theorem create_liveCase {typ id : GoString} {hooks : Hooks σ}
    (hinc : (s.create typ id hooks).incarnations[k]? = some inc)
    (hlive : (s.create typ id hooks).Live k inc) :
    LiveCase s (s.create typ id hooks) (.create typ id hooks) k inc := by
  unfold Custody.create at hinc hlive ⊢
  have hcase := s.node.createObject_cases typ id hooks
  generalize s.node.createObject typ id hooks = result at hcase hinc hlive ⊢
  cases hcase with
  | refused error =>
    cases hlookup : s.node.objects.lookup id with
    | none | some =>
      simp only [hlookup] at hinc hlive ⊢
      exact .of_frame hinc hlive rfl rfl
  | present live hpresent =>
    simp only [hpresent] at hinc hlive ⊢
    exact .of_frame hinc hlive rfl rfl
  | @created T given nextRcseq data hnone hgiven hdata =>
    simp only [hnone, AList.lookup_insert] at hinc hlive ⊢
    have hid : (s.node.newObject T id data nextRcseq).base.id = id := NodeState.newObject_id ..
    rcases getElem?_concat_cases hinc with ⟨-, rfl⟩ | hold
    · refine .created hnone hid hgiven ?_ rfl rfl ?_ rfl
      · rw [hgiven]
        rfl
      · rw [Incarnation.id, hid]
        exact AList.lookup_insert _
    · -- an earlier instance is not the one of the new entry
      have hne : inc.id ≠ id := by
        intro hid
        have hlt := (List.getElem?_eq_some_iff.mp hold).1
        have hcurrent : _ = k := hlive.2
        dsimp only at hcurrent
        rw [hid, Function.update_self] at hcurrent
        omega
      refine .frame hold ⟨?_, ?_⟩ (AList.lookup_insert_ne hne) rfl
      · exact (congrArg Option.isSome (AList.lookup_insert_ne hne)).symm.trans hlive.1
      · exact (Function.update_of_ne hne _ _).symm.trans hlive.2

private theorem mutate_liveCase {j : Nat} {changed : Incarnation σ μ} {data : σ} {nextRcseq : Int}
    (hchanged : s.incarnations[j]? = some changed)
    (hinc : (s.mutate j changed data nextRcseq).incarnations[k]? = some inc)
    (hlive : (s.mutate j changed data nextRcseq).Live k inc) :
    LiveCase s (s.mutate j changed data nextRcseq) (.mutate j data nextRcseq) k inc := by
  unfold Custody.mutate at hinc hlive ⊢
  by_cases hbefore : s.Live j changed
  · simp only [if_pos hbefore] at hinc hlive ⊢
    rcases getElem?_set_cases hinc with ⟨rfl, rfl⟩ | ⟨hk, hold⟩
    · exact .mutated hchanged hbefore (AList.lookup_insert _) rfl
    · have hne : inc.id ≠ changed.id := by
        intro hsame
        apply hk
        rw [← hlive.2, ← hbefore.2, hsame]
      refine .frame hold ⟨?_, hlive.2⟩ (AList.lookup_insert_ne hne) rfl
      exact (congrArg Option.isSome (AList.lookup_insert_ne hne)).symm.trans hlive.1
  · simp only [if_neg hbefore] at hinc hlive ⊢
    rcases getElem?_set_cases hinc with ⟨rfl, rfl⟩ | ⟨-, hold⟩
    · exact absurd hlive hbefore
    · exact .frame hold hlive rfl rfl

private theorem save_liveCase {j : Nat} {saving : Incarnation σ μ} {reply : StoreReply}
    (hsaving : s.incarnations[j]? = some saving)
    (hinc : (s.save j saving reply).incarnations[k]? = some inc)
    (hlive : (s.save j saving reply).Live k inc) :
    LiveCase s (s.save j saving reply) (.save j reply) k inc := by
  have hcase := save_cases s j saving reply
  generalize s.save j saving reply = t at hcase hinc hlive ⊢
  cases hcase with
  | kept => exact .frame hinc hlive rfl rfl
  | @wrote db next data hprovider hdata hobjects =>
    have hsaves : saving.obj.Saves := by
      rw [LiveObject.Saves, hdata]
      rfl
    have hrow : next.objects.lookup saving.id =
        some ⟨saving.obj.type.name, data, saving.obj.base.nextRcseq⟩ := by
      rw [hobjects, AList.lookup_insert]
    rcases getElem?_set_cases hinc with ⟨rfl, rfl⟩ | ⟨hk, hold⟩
    · exact .saved hsaving hlive rfl hrow
    · by_cases hid : saving.id = inc.id
      · refine .overwritten hold hlive hsaving hid ?_ hsaves rfl (hid ▸ hrow)
        intro hdead
        exact hk (hlive.2.symm.trans ((congrArg s.current hid.symm).trans hdead.2))
      · refine .frame hold hlive rfl ?_
        rw [NodeState.row, NodeState.row, hprovider]
        exact (congrArg (AList.lookup inc.id) hobjects).trans
          (AList.lookup_insert_ne (Ne.symm hid))

private theorem delete_liveCase (hrunning : s.node.stopped = false) {claimedType id : GoString}
    {reply : StoreReply} (hinc : s.incarnations[k]? = some inc)
    (hlive : ({ s with node := (s.node.deleteObject claimedType id reply).1 } :
      Custody σ μ).Live k inc) :
    LiveCase s { s with node := (s.node.deleteObject claimedType id reply).1 }
      (.delete claimedType id reply) k inc := by
  have hcase := NodeState.deleteObject_case hrunning claimedType id reply
  have huntouched := hcase.untouched
  by_cases hid : inc.id = id
  · subst hid
    obtain ⟨hmem, hcurrent⟩ := hlive
    rcases NodeState.deleteObject_row hrunning claimedType inc.id reply with
      hgone | ⟨hlookup, hrow | ⟨rfl, hrow⟩⟩
    · dsimp only at hmem
      rw [hgone] at hmem
      contradiction
    · exact .of_frame hinc ⟨hmem, hcurrent⟩ hlookup hrow
    · refine .unrowed hinc ⟨?_, hcurrent⟩ hlookup hrow
      rw [← hlookup]
      exact hmem
  · exact .of_frame hinc hlive (huntouched.memory _ hid) (huntouched.store _ hid)

theorem row_setRow_of_ne {node : NodeState σ μ} {id other : GoString} {row : Option ObjectData}
    (hother : other ≠ id) :
    ({ node with provider := node.provider.map fun db => setRow db id row } :
      NodeState σ μ).row other = node.row other := by
  rw [NodeState.row, NodeState.row]
  cases node.provider with
  | none => rfl
  | some db =>
    cases row with
    | none => exact AList.lookup_erase_ne hother
    | some row => exact AList.lookup_insert_ne hother

private theorem foreign_liveCase {id : GoString} (hnone : s.node.objects.lookup id = none)
    (row : Option ObjectData) (hinc : s.incarnations[k]? = some inc) (hlive : s.Live k inc) :
    LiveCase s { s with node := { s.node with
      provider := s.node.provider.map fun db => setRow db id row } } (.foreign id row) k inc := by
  have hne : inc.id ≠ id := by
    rintro rfl
    have hmem := hlive.1
    rw [hnone] at hmem
    contradiction
  exact .frame hinc hlive rfl (row_setRow_of_ne hne)

theorem step_liveCase (hrunning : s.node.stopped = false) (hstep : s.step l = some t)
    (hinc : t.incarnations[k]? = some inc) (hlive : t.Live k inc) : LiveCase s t l k inc := by
  cases l with
  | create typ id hooks =>
    cases hstep
    exact create_liveCase hinc hlive
  | mutate j data nextRcseq =>
    obtain ⟨changed, hchanged, rfl⟩ := Option.map_eq_some_iff.mp hstep
    exact mutate_liveCase hchanged hinc hlive
  | save j reply =>
    obtain ⟨saving, hsaving, rfl⟩ := Option.map_eq_some_iff.mp hstep
    exact save_liveCase hsaving hinc hlive
  | delete claimedType id reply =>
    cases hstep
    exact delete_liveCase hrunning hinc hlive
  | destroy id =>
    cases hstep
    have hne : inc.id ≠ id := by
      rintro rfl
      have hmem := hlive.1
      dsimp only at hmem
      rw [NodeState.lookup_destroyObject] at hmem
      contradiction
    exact .of_frame hinc hlive (NodeState.lookup_destroyObject_of_ne _ hne) rfl
  | clear =>
    cases hstep
    have hmem := hlive.1
    contradiction
  | foreign id row =>
    simp only [Custody.step] at hstep
    split at hstep
    · contradiction
    · rename_i hnone
      cases hstep
      exact foreign_liveCase hnone row hinc hlive

theorem step_node (hrunning : s.node.stopped = false) (hstep : s.step l = some t) :
    t.node.stopped = false ∧ t.node.provider.isSome = s.node.provider.isSome := by
  cases l with
  | create typ id hooks =>
    cases hstep
    rw [create_node]
    have hcase := s.node.createObject_cases typ id hooks
    generalize s.node.createObject typ id hooks = result at hcase ⊢
    cases hcase <;> exact ⟨hrunning, rfl⟩
  | mutate j data nextRcseq =>
    obtain ⟨changed, -, rfl⟩ := Option.map_eq_some_iff.mp hstep
    exact ⟨hrunning, rfl⟩
  | save j reply =>
    obtain ⟨saving, -, rfl⟩ := Option.map_eq_some_iff.mp hstep
    have hcase := save_cases s j saving reply
    generalize s.save j saving reply = t at hcase ⊢
    cases hcase with
    | kept => exact ⟨hrunning, rfl⟩
    | wrote hprovider =>
      rw [hprovider]
      exact ⟨hrunning, rfl⟩
  | delete claimedType id reply =>
    cases hstep
    have hcase := NodeState.deleteObject_case hrunning claimedType id reply
    generalize s.node.deleteObject claimedType id reply = result at hcase ⊢
    cases hcase with
    | refused | absent | unreached | unstored => exact ⟨hrunning, rfl⟩
    | failed db reply hreaches hprovider | deleted db reply hreaches hprovider =>
      rw [hprovider]
      exact ⟨hrunning, rfl⟩
  | destroy | clear =>
    cases hstep
    exact ⟨hrunning, rfl⟩
  | foreign id row =>
    simp only [Custody.step] at hstep
    split at hstep
    · contradiction
    · cases hstep
      exact ⟨hrunning, Option.isSome_map ..⟩

theorem LiveCase.synced (h : LiveCase s t l k inc)
    (hsynced : ∀ {k : Nat} {inc : Incarnation σ μ}, s.incarnations[k]? = some inc →
      s.Live k inc → s.node.objects.lookup inc.id = some inc.obj) :
    t.node.objects.lookup inc.id = some inc.obj := by
  cases h with
  | frame hold hbefore hlookup => exact hlookup.trans (hsynced hold hbefore)
  | created hnone hid hgiven horigin hpersistent hwrites hlookup => exact hlookup
  | mutated hold hbefore hlookup => exact hlookup
  | saved hold hbefore hlookup => exact hlookup.trans (hsynced hold hbefore)
  | overwritten hold hbefore hother hid hdead hsaves hlookup =>
    exact hlookup.trans (hsynced hold hbefore)
  | unrowed hold hbefore hlookup => exact hlookup.trans (hsynced hold hbefore)

end LiveCase

theorem SaveCase.candid (h : SaveCase s k inc t) (hinc : s.incarnations[k]? = some inc)
    {reply : StoreReply} (hok : s.Candid (.save k reply)) :
    t = s ∨ inc.persistent = true ∧ s.Live k inc := by
  cases h with
  | kept => exact .inl rfl
  | wrote hprovider hdata hobjects =>
    right
    apply hok inc hinc
    rw [LiveObject.Saves, hdata]
    rfl

theorem Kept.step (h : s.Kept) {l : Label σ} (hok : s.Candid l) (hstep : s.step l = some t) :
    t.Kept := by
  refine ⟨(step_node h.running hstep).1, fun {k inc} hinc hlive => ?_,
    fun {k inc row} hinc hlive hpersistent hrow => ?_⟩
  · exact (step_liveCase h.running hstep hinc hlive).synced h.synced
  · cases step_liveCase h.running hstep hinc hlive with
    | frame hold hbefore hlookup hsame =>
      exact h.descends hold hbefore hpersistent (hsame.symm.trans hrow)
    | @created typ id hooks k inc given nextRcseq hnone hid hgiven horigin hflag hwrites hlookup
        hsame =>
      rw [hsame, hid] at hrow
      have hmessage : hooks.toData = .message := by
        cases hdata : hooks.toData with
        | message => rfl
        | notPersistent => simp [hflag, hdata] at hpersistent
        | failed => exact absurd hdata hok
      obtain ⟨rfl, rfl⟩ := NodeState.dataToRestore_of_row hgiven hmessage hrow
      exact .inl horigin
    | mutated hold hbefore hlookup hsame =>
      have hdescends := h.descends hold hbefore hpersistent (hsame.symm.trans hrow)
      exact hdescends
    | saved hold hbefore hlookup hwritten =>
      obtain rfl := Option.some.inj (hwritten.symm.trans hrow)
      right
      simp
    | overwritten hold hbefore hother hid hdead hsaves =>
      exact absurd (hok _ hother hsaves).2 hdead
    | unrowed hold hbefore hlookup hnone =>
      rw [show t.node.row inc.id = none from hnone] at hrow
      contradiction

theorem kept (hreach : (machine σ μ).Reachable Candid s) : s.Kept := by
  apply hreach.invariant (I := Kept)
  · rintro _ ⟨node, hrunning, -, -, rfl⟩
    exact ⟨hrunning, fun hinc => by simp [start] at hinc,
      fun hinc => by simp [start] at hinc⟩
  · intro s t l h hok hstep
    exact h.step hok hstep

/-- The row of an instance is replaced by the state of the map entry of its id, and it is a row
that the instance started from or has written. -/
structure Overwrites (s t : Custody σ μ) (inc : Incarnation σ μ) (row : ObjectData) : Prop where
  descends : inc.Descends row
  state : ∃ live data, s.node.objects.lookup inc.id = some live ∧
    live.type.toData live.base.data = .ok data ∧
    t.node.row inc.id = some ⟨live.type.name, data, live.base.nextRcseq⟩

theorem Kept.overwrites (h : s.Kept) {reply : StoreReply} (hok : s.Candid (.save k reply))
    (hinc : s.incarnations[k]? = some inc) {row : ObjectData}
    (hrow : s.node.row inc.id = some row) :
    (s.save k inc reply).node.row inc.id = some row ∨
      s.Overwrites (s.save k inc reply) inc row := by
  have hcase := save_cases s k inc reply
  generalize s.save k inc reply = t at hcase
  rcases hcase.candid hinc hok with rfl | ⟨hpersistent, hlive⟩
  · exact .inl hrow
  · cases hcase with
    | kept => exact .inl hrow
    | wrote hprovider hdata hobjects =>
      refine .inr ⟨h.descends hinc hlive hpersistent hrow, inc.obj, _,
        h.synced hinc hlive, hdata, ?_⟩
      exact (congrArg (AList.lookup inc.id) hobjects).trans (AList.lookup_insert _)

end Custody

namespace NodeState

variable {node : NodeState σ μ} {typ id : GoString} {hooks : Hooks σ}

theorem CreateCase.unchanged {result : NodeState σ μ × Except NodeError Unit}
    (h : CreateCase node typ id hooks result) {error : NodeError}
    (herror : result.2 = .error error) : result.1.objects = node.objects := by
  cases h with
  | refused | present => rfl
  | created => contradiction

theorem CreateCase.restored {result : NodeState σ μ × Except NodeError Unit}
    (h : CreateCase node typ id hooks result) (hok : result.2 = .ok ())
    (hnone : node.objects.lookup id = none) {row : ObjectData} (hrow : node.row id = some row)
    (hmessage : hooks.toData = .message) :
    ∃ live, result.1.objects.lookup id = some live ∧
      hooks.fromData (some row.data) = some live.base.data ∧
      live.base.nextRcseq = row.nextRcseq := by
  cases h with
  | refused => contradiction
  | present live hlive =>
    rw [hnone] at hlive
    contradiction
  | created T _ hgiven hdata =>
    obtain ⟨rfl, rfl⟩ := dataToRestore_of_row hgiven hmessage hrow
    refine ⟨_, AList.lookup_insert _, ?_, ?_⟩
    · rw [newObject_data, hdata]
    · rw [newObject_nextRcseq]

end NodeState

namespace Custody

/-- `createObject` leaves the map alone or gives the new object its row, and a save overwrites
no row but one that its instance started from or wrote. -/
theorem activation_never_shadows_stored_state :
    (∀ (node : NodeState σ μ) (typ id : GoString) (hooks : Hooks σ),
      (∀ error, (node.createObject typ id hooks).2 = .error error →
        (node.createObject typ id hooks).1.objects = node.objects) ∧
      ((node.createObject typ id hooks).2 = .ok () → node.objects.lookup id = none →
        hooks.toData ≠ .failed → ∀ row, node.row id = some row → hooks.toData = .notPersistent ∨
          ∃ live, (node.createObject typ id hooks).1.objects.lookup id = some live ∧
            hooks.fromData (some row.data) = some live.base.data ∧
            live.base.nextRcseq = row.nextRcseq)) ∧
    ∀ (s t : Custody σ μ) (k : Nat) (reply : StoreReply),
      (machine σ μ).Reachable Candid s → s.Candid (.save k reply) →
      s.step (.save k reply) = some t →
      ∀ inc row, s.incarnations[k]? = some inc → s.node.row inc.id = some row →
        t.node.row inc.id = some row ∨ s.Overwrites t inc row := by
  constructor
  · intro node typ id hooks
    have hcase := node.createObject_cases typ id hooks
    refine ⟨fun error => hcase.unchanged, fun hok hnone hfailed row hrow => ?_⟩
    cases hdata : hooks.toData with
    | message => exact .inr (hcase.restored hok hnone hrow hdata)
    | notPersistent => exact .inl rfl
    | failed => exact absurd hdata hfailed
  · intro s t k reply hreach hok hstep inc row hinc hrow
    obtain ⟨saved, hsaved, rfl⟩ := Option.map_eq_some_iff.mp hstep
    cases hinc.symm.trans hsaved
    exact (kept hreach).overwrites hok hinc hrow

/-- The object of `dormantNode` is restored from its row, changed and saved. -/
theorem activation_never_shadows_stored_state_saved :
    ∃ s t : Custody Bytes Bytes, s.step (.save 0 .executed) = some t ∧
      ∃ inc, s.incarnations[0]? = some inc ∧
        t.node.row inc.id = some ⟨tally.name, [7, 8], 4⟩ ∧
        s.Overwrites t inc ⟨tally.name, [7], 3⟩ := by
  have hrun : ((machine Bytes Bytes).exec Candid (start NodeState.dormantNode)
      [.create tally.name (lit "o") (hooksOf tally true true), .mutate 0 [7, 8] 4]).any
        (fun s => decide (s.Candid (.save 0 .executed)) &&
          (s.step (.save 0 .executed)).any fun t => (s.incarnations[0]?).any fun inc =>
            decide (s.node.row inc.id = some ⟨tally.name, [7], 3⟩ ∧
              t.node.row inc.id = some ⟨tally.name, [7, 8], 4⟩)) = true := by
    decide
  obtain ⟨s, hreach, hs⟩ := Machine.exec_reachable hrun ⟨NodeState.dormantNode, rfl, rfl, rfl, rfl⟩
  obtain ⟨hok, hs⟩ := Bool.and_eq_true_iff.mp hs
  obtain ⟨t, hstep, ht⟩ := (Option.any_eq_true _ _).mp hs
  obtain ⟨inc, hinc, hrows⟩ := (Option.any_eq_true _ _).mp ht
  obtain ⟨hbefore, hafter⟩ := of_decide_eq_true hrows
  rcases activation_never_shadows_stored_state.2 s t 0 .executed hreach (of_decide_eq_true hok)
    hstep inc _ hinc hbefore with hsame | hoverwrites
  · rw [hafter] at hsame
    exact absurd hsame (by decide)
  · exact ⟨s, t, hstep, inc, hinc, hafter, hoverwrites⟩

/-- A step replaces a row that instance `k` neither started from nor wrote. -/
def Shadows (s t : Custody σ μ) (k : Nat) : Prop :=
  ∃ inc ∈ s.incarnations[k]?, ∃ row ∈ s.node.row inc.id,
    ¬ inc.Descends row ∧ t.node.row inc.id ≠ some row

instance (s t : Custody σ μ) (k : Nat) : Decidable (s.Shadows t k) :=
  inferInstanceAs (Decidable (∃ inc ∈ s.incarnations[k]?, ∃ row ∈ s.node.row inc.id,
    ¬ inc.Descends row ∧ t.node.row inc.id ≠ some row))

private theorem shadows_of_exec {start : Custody σ μ} {labels : List (Label σ)} {l : Label σ}
    {k : Nat} {id : GoString} {row : ObjectData} (hinit : (machine σ μ).Init start)
    (hrun : ((machine σ μ).exec Machine.Any start labels).any
      (fun s => (s.step l).any fun t => decide (s.Shadows t k ∧ t.node.row id = some row)) =
        true) :
    ∃ s t, (machine σ μ).Reachable Machine.Any s ∧ s.step l = some t ∧ s.Shadows t k ∧
      t.node.row id = some row := by
  obtain ⟨s, hreach, hs⟩ := Machine.exec_reachable hrun hinit
  obtain ⟨t, ht, hshadows⟩ := (Option.any_eq_true _ _).mp hs
  exact ⟨s, t, hreach, ht, of_decide_eq_true hshadows⟩

/-- A type whose `ToData` refuses the state of a new object. -/
def fussy : ObjectType Bytes Bytes where
  name := lit "Fussy"
  blank := []
  fresh := []
  toData state := if state = [] then .error (.data (lit "no entries")) else .ok state
  fromData data := some data
  bytesToMsg data := .ok data
  msgToBytes msg := some msg
  invokeMethod state _ msg := (state ++ msg, .ok msg)
  fromData_toData := by
    intro state data h
    split at h
    · contradiction
    · cases h
      rfl

/-- The store has a row for the object `o` of this type. -/
def fussyNode : NodeState Bytes Bytes where
  stopped := false
  objectTypes typ := if typ = fussy.name then some fussy else none
  objectTypes_name := by
    intro typ T h
    split at h
    · rename_i htyp
      cases h
      exact htyp.symm
    · contradiction
  lifecycleValidator := none
  provider := some { DB.empty with objects := (∅ : AList _).insert (lit "o") ⟨fussy.name, [7], 3⟩ }
  objects := ∅

/-- `createObject` returns nil for an object whose `ToData` fails and gives it nothing of its
row; the first save after a method call then replaces the row. And where `ToData` always
answers, an instance that was evicted while its loop ran a call can still replace the row of its
successor. -/
theorem new_object_shadows_its_row :
    ((hooksOf fussy true true).toData ≠ .notPersistent ∧
      fussyNode.row (lit "o") = some ⟨fussy.name, [7], 3⟩ ∧
      (fussyNode.createObject fussy.name (lit "o") (hooksOf fussy true true)).2 = .ok () ∧
      ((fussyNode.createObject fussy.name (lit "o") (hooksOf fussy true true)).1.objects.lookup
        (lit "o")).any (fun live => live.base.data = [] ∧ live.base.nextRcseq = 0) = true) ∧
    (∃ s t, (machine Bytes Bytes).Reachable Machine.Any s ∧
      s.step (.save 0 .executed) = some t ∧ s.Shadows t 0 ∧
      t.node.row (lit "o") = some ⟨fussy.name, [1], 0⟩) ∧
    ∃ s t, (machine Bytes Bytes).Reachable Machine.Any s ∧
      s.step (.save 0 .executed) = some t ∧ s.Shadows t 0 ∧
      t.node.row (lit "o") = some ⟨tally.name, [7, 9], 4⟩ := by
  have hcreated : ((machine Bytes Bytes).exec Machine.Any (start fussyNode)
      [.create fussy.name (lit "o") (hooksOf fussy true true), .mutate 0 [1] 0]).any
        (fun s => (s.step (.save 0 .executed)).any fun t => decide (s.Shadows t 0 ∧
          t.node.row (lit "o") = some ⟨fussy.name, [1], 0⟩)) = true := by
    decide
  -- the first instance is saved and leaves the map while it runs call 3; its successor runs
  -- calls 3 and 4
  have hevicted : ((machine Bytes Bytes).exec Machine.Any (start NodeState.dormantNode)
      [.create tally.name (lit "o") (hooksOf tally true true), .save 0 .executed,
        .destroy (lit "o"), .mutate 0 [7, 9] 4,
        .create tally.name (lit "o") (hooksOf tally true true), .mutate 1 [7, 9] 4,
        .save 1 .executed, .mutate 1 [7, 9, 8] 5, .save 1 .executed]).any
        (fun s => (s.step (.save 0 .executed)).any fun t => decide (s.Shadows t 0 ∧
          t.node.row (lit "o") = some ⟨tally.name, [7, 9], 4⟩)) = true := by
    decide
  refine ⟨⟨by decide, by decide, by decide, by decide⟩, ?_, ?_⟩
  · exact shadows_of_exec ⟨fussyNode, rfl, rfl, rfl, rfl⟩ hcreated
  · exact shadows_of_exec ⟨NodeState.dormantNode, rfl, rfl, rfl, rfl⟩ hevicted

end Custody
end Goverse.Node
