import Goverse.Node.Custody

/-! What the row of an id says about the instance that is live under it, over whole histories:
its type, and whether the instance can be deleted. -/
namespace Goverse.Node

open Postgres Lib Object

variable {σ μ : Type}

namespace NodeState

variable {node : NodeState σ μ} {typ id : GoString} {hooks : Hooks σ}

theorem lookup_createObject {other : GoString} {live : LiveObject σ μ}
    (h : (node.createObject typ id hooks).1.objects.lookup other = some live) :
    node.objects.lookup other = some live ∨
      id ≠ [] ∧ node.objects.lookup id = none ∧ other = id ∧ live.type.name = typ := by
  unfold createObject at h
  split at h
  · exact .inl h
  · rename_i hid
    split at h
    · split at h <;> exact .inl h
    · rename_i hnone
      split at h
      · exact .inl h
      · split at h
        · exact .inl h
        · rename_i T hT
          split at h
          · exact .inl h
          · split at h
            · exact .inl h
            · by_cases hother : other = id
              · subst hother
                rw [AList.lookup_insert] at h
                cases h
                exact .inr ⟨hid, hnone, rfl, node.objectTypes_name typ T hT⟩
              · rw [AList.lookup_insert_ne hother] at h
                exact .inl h

@[simp] theorem row_createObject (other : GoString) :
    (node.createObject typ id hooks).1.row other = node.row other := by
  have hcase := node.createObject_cases typ id hooks
  generalize node.createObject typ id hooks = result at hcase ⊢
  cases hcase <;> rfl

private theorem createObject_registers (hok : (node.createObject typ id hooks).2 = .ok ())
    (hnone : node.objects.lookup id = none) :
    ∃ live, (node.createObject typ id hooks).1.objects.lookup id = some live ∧
      live.type.name = typ := by
  have hentry : ∃ live, (node.createObject typ id hooks).1.objects.lookup id = some live := by
    have hcase := node.createObject_cases typ id hooks
    generalize node.createObject typ id hooks = result at hcase hok ⊢
    cases hcase with
    | refused error => contradiction
    | present live hlive => exact ⟨live, hlive⟩
    | created T => exact ⟨_, AList.lookup_insert _⟩
  obtain ⟨live, hlive⟩ := hentry
  rcases lookup_createObject hlive with hbefore | ⟨-, -, -, htype⟩
  · rw [hnone] at hbefore
    contradiction
  · exact ⟨live, hlive, htype⟩

private theorem row_of_dataToRestore {data : Bytes} {nextRcseq : Int}
    (h : node.dataToRestore id hooks = some (some data, nextRcseq)) : node.row id ≠ none := by
  intro hrow
  unfold dataToRestore at h
  split at h
  · cases h
  · rename_i db hprovider
    rw [row, hprovider, Option.bind_some] at hrow
    split at h
    · split at h
      · contradiction
      · cases h
      · rename_i row hload
        unfold Hooks.loadObject at hload
        split at hload
        · contradiction
        · cases hload
        · rename_i stored hanswer
          have hstored := DB.loadObject_ok (toOption_eq_some hanswer).2
          rw [hrow] at hstored
          contradiction
    · cases h
    · cases h

end NodeState

namespace Custody

variable {s t : Custody σ μ} {k : Nat} {inc : Incarnation σ μ} {l : Label σ}

/-- The instance of a map entry is the object of the entry. -/
structure Synced (s : Custody σ μ) : Prop where
  running : s.node.stopped = false
  entry : ∀ {k : Nat} {inc : Incarnation σ μ}, s.incarnations[k]? = some inc → s.Live k inc →
    s.node.objects.lookup inc.id = some inc.obj

theorem Synced.step (h : s.Synced) (hstep : s.step l = some t) : t.Synced :=
  ⟨(step_node h.running hstep).1,
    fun hinc hlive => (step_liveCase h.running hstep hinc hlive).synced h.entry⟩

theorem Synced.start {node : NodeState σ μ} (hrunning : node.stopped = false) :
    (Custody.start node).Synced :=
  ⟨hrunning, fun hinc => by simp [Custody.start] at hinc⟩

section Types

/-- Requests for a dormant object name the type of its row, and an instance that has left the map
is not saved while one of another type is live under its id. -/
def NamesType (s : Custody σ μ) : Label σ → Prop
  | .create typ id _ =>
    s.node.objects.lookup id = none → ∀ row ∈ s.node.row id, row.objectType = typ
  | .save k _ => ∀ inc ∈ s.incarnations[k]?, inc.obj.Saves → s.Live k inc ∨
      ∀ live ∈ s.node.objects.lookup inc.id, live.type.name = inc.obj.type.name
  | _ => True

instance : ∀ (s : Custody σ μ) (l : Label σ), Decidable (s.NamesType l)
  | s, .create typ id _ => inferInstanceAs (Decidable (s.node.objects.lookup id = none →
      ∀ row ∈ s.node.row id, row.objectType = typ))
  | s, .save k _ => inferInstanceAs (Decidable (∀ inc ∈ s.incarnations[k]?, inc.obj.Saves →
      s.Live k inc ∨ ∀ live ∈ s.node.objects.lookup inc.id, live.type.name = inc.obj.type.name))
  | _, .mutate _ _ _ | _, .delete _ _ _ | _, .destroy _ | _, .clear | _, .foreign _ _ =>
    isTrue trivial

/-- A live instance has the type of the row of its id. -/
def TypesAgree (s : Custody σ μ) : Prop :=
  ∀ id live row, s.node.objects.lookup id = some live → s.node.row id = some row →
    live.type.name = row.objectType

theorem TypesAgree.of_shrinks (h : s.TypesAgree) {node : NodeState σ μ}
    (hnode : ∀ id live row, node.objects.lookup id = some live → node.row id = some row →
      s.node.objects.lookup id = some live ∧ s.node.row id = some row) :
    ({ s with node := node } : Custody σ μ).TypesAgree := by
  intro id live row hlive hrow
  obtain ⟨hlive, hrow⟩ := hnode id live row hlive hrow
  exact h _ _ _ hlive hrow

theorem TypesAgree.mutate (h : s.TypesAgree) (hsynced : s.Synced)
    (hinc : s.incarnations[k]? = some inc) (data : σ) (nextRcseq : Int) :
    (s.mutate k inc data nextRcseq).TypesAgree := by
  intro id live row hlive hrow
  unfold Custody.mutate at hlive hrow
  by_cases hbefore : s.Live k inc
  · simp only [if_pos hbefore] at hlive hrow
    by_cases hid : id = inc.id
    · subst hid
      rw [AList.lookup_insert] at hlive
      cases hlive
      have htype := h _ _ _ (hsynced.entry hinc hbefore) hrow
      exact htype
    · rw [AList.lookup_insert_ne hid] at hlive
      exact h _ _ _ hlive hrow
  · simp only [if_neg hbefore] at hlive hrow
    exact h _ _ _ hlive hrow

theorem TypesAgree.save (h : s.TypesAgree) (hsynced : s.Synced)
    (hinc : s.incarnations[k]? = some inc) {reply : StoreReply}
    (hok : s.NamesType (.save k reply)) : (s.save k inc reply).TypesAgree := by
  have hcase := save_cases s k inc reply
  generalize s.save k inc reply = t at hcase
  cases hcase with
  | kept => exact h
  | @wrote db next data hprovider hdata hobjects =>
    have hsaves : inc.obj.Saves := by
      rw [LiveObject.Saves, hdata]
      rfl
    intro id live row hlive hrow
    have hrow : next.objects.lookup id = some row := hrow
    rw [hobjects] at hrow
    by_cases hid : id = inc.id
    · subst hid
      rw [AList.lookup_insert] at hrow
      cases hrow
      rcases hok inc hinc hsaves with hself | hothers
      · obtain rfl := Option.some.inj ((hsynced.entry hinc hself).symm.trans hlive)
        rfl
      · exact hothers live hlive
    · rw [AList.lookup_insert_ne hid] at hrow
      apply h _ _ _ hlive
      rw [NodeState.row, hprovider]
      exact hrow

theorem TypesAgree.delete (h : s.TypesAgree) (hsynced : s.Synced) (claimedType id : GoString)
    (reply : StoreReply) :
    ({ s with node := (s.node.deleteObject claimedType id reply).1 } :
      Custody σ μ).TypesAgree := by
  have huntouched := (NodeState.deleteObject_case hsynced.running claimedType id reply).untouched
  refine h.of_shrinks fun other live row hlive hrow => ?_
  by_cases hother : other = id
  · subst hother
    rcases NodeState.deleteObject_row hsynced.running claimedType other reply with
      hgone | ⟨hlookup, hsame | ⟨-, hnone⟩⟩
    · rw [hgone] at hlive
      contradiction
    · exact ⟨hlookup.symm.trans hlive, hsame.symm.trans hrow⟩
    · rw [hnone] at hrow
      contradiction
  · exact ⟨(huntouched.memory other hother).symm.trans hlive,
      (huntouched.store other hother).symm.trans hrow⟩

theorem TypesAgree.step (h : s.TypesAgree) (hsynced : s.Synced) (hok : s.NamesType l)
    (hstep : s.step l = some t) : t.TypesAgree := by
  cases l with
  | create typ id hooks =>
    cases hstep
    intro other live row hlive hrow
    rw [create_node] at hlive hrow
    rw [NodeState.row_createObject] at hrow
    rcases NodeState.lookup_createObject hlive with hbefore | ⟨-, hnone, rfl, htype⟩
    · exact h _ _ _ hbefore hrow
    · exact htype.trans (hok hnone row hrow).symm
  | mutate k data nextRcseq =>
    obtain ⟨inc, hinc, rfl⟩ := Option.map_eq_some_iff.mp hstep
    exact h.mutate hsynced hinc data nextRcseq
  | save k reply =>
    obtain ⟨inc, hinc, rfl⟩ := Option.map_eq_some_iff.mp hstep
    exact h.save hsynced hinc hok
  | delete claimedType id reply =>
    cases hstep
    exact h.delete hsynced claimedType id reply
  | destroy id =>
    cases hstep
    refine h.of_shrinks fun other live row hlive hrow => ⟨?_, hrow⟩
    by_cases hother : other = id
    · rw [hother, NodeState.lookup_destroyObject] at hlive
      contradiction
    · rwa [NodeState.lookup_destroyObject_of_ne _ hother] at hlive
  | clear =>
    cases hstep
    exact h.of_shrinks fun other live row hlive => by contradiction
  | foreign id row =>
    simp only [Custody.step] at hstep
    split at hstep
    · contradiction
    · rename_i hnone
      cases hstep
      refine h.of_shrinks fun other live stored hlive hrow => ⟨hlive, ?_⟩
      have hother : other ≠ id := by
        rintro rfl
        rw [show s.node.objects.lookup other = some live from hlive] at hnone
        contradiction
      rwa [row_setRow_of_ne hother] at hrow

theorem typesAgree (hreach : (machine σ μ).Reachable NamesType s) : s.Synced ∧ s.TypesAgree := by
  apply hreach.invariant (I := fun s => s.Synced ∧ s.TypesAgree)
  · rintro _ ⟨node, hrunning, -, hobjects, rfl⟩
    refine ⟨.start hrunning, fun id live row hlive => ?_⟩
    rw [show (Custody.start node).node.objects = ∅ from hobjects] at hlive
    contradiction
  · intro s l t h hok hstep
    exact ⟨h.1.step hstep, h.2.step h.1 hok hstep⟩

/-- While an id has a row, the instance under it has the type of the row; and a dormant object
that is created again is registered under the requested type, whatever its row says. -/
theorem object_type_is_stable :
    (∀ s : Custody σ μ, (machine σ μ).Reachable NamesType s → ∀ id live row,
      s.node.objects.lookup id = some live → s.node.row id = some row →
        live.type.name = row.objectType) ∧
    ∀ (node : NodeState σ μ) (typ id : GoString) (hooks : Hooks σ) (row : ObjectData),
      node.objects.lookup id = none → node.row id = some row →
      (node.createObject typ id hooks).2 = .ok () →
      ∃ live, (node.createObject typ id hooks).1.objects.lookup id = some live ∧
        (node.createObject typ id hooks).1.row id = some row ∧
        (live.type.name = row.objectType ↔ typ = row.objectType) := by
  constructor
  · intro s hreach
    exact (typesAgree hreach).2
  · intro node typ id hooks row hnone hrow hok
    obtain ⟨live, hlive, htype⟩ := NodeState.createObject_registers hok hnone
    refine ⟨live, hlive, (NodeState.row_createObject id).trans hrow, ?_⟩
    rw [htype]

/-- The object of `dormantNode` is restored, evicted and restored again. -/
theorem object_type_is_stable_evicted :
    ∃ s : Custody Bytes Bytes, (machine Bytes Bytes).Reachable NamesType s ∧
      (∃ live row, s.node.objects.lookup (lit "o") = some live ∧
        s.node.row (lit "o") = some row ∧ live.type.name = row.objectType) ∧
      ∃ live, (NodeState.dormantNode.createObject tally.name (lit "o")
          (hooksOf tally true true)).1.objects.lookup (lit "o") = some live ∧
        live.type.name = tally.name := by
  have hrun : ((machine Bytes Bytes).exec NamesType (start NodeState.dormantNode)
      [.create tally.name (lit "o") (hooksOf tally true true), .mutate 0 [7, 8] 4,
        .save 0 .executed, .destroy (lit "o"),
        .create tally.name (lit "o") (hooksOf tally true true)]).any
        (fun s => (s.node.objects.lookup (lit "o")).any fun _ =>
          (s.node.row (lit "o")).any fun row => decide (row.data = [7, 8])) = true := by
    decide
  obtain ⟨s, hreach, hs⟩ := Machine.exec_reachable hrun ⟨NodeState.dormantNode, rfl, rfl, rfl, rfl⟩
  obtain ⟨live, hlive, hs⟩ := (Option.any_eq_true _ _).mp hs
  obtain ⟨row, hrow, -⟩ := (Option.any_eq_true _ _).mp hs
  refine ⟨s, hreach, ⟨live, row, hlive, hrow,
    object_type_is_stable.1 s hreach (lit "o") live row hlive hrow⟩, ?_⟩
  obtain ⟨created, hcreated, -, htype⟩ := object_type_is_stable.2 NodeState.dormantNode tally.name
    (lit "o") (hooksOf tally true true) ⟨tally.name, [7], 3⟩ (by decide) (by decide) (by decide)
  exact ⟨created, hcreated, htype.mpr rfl⟩

/-- Another type with the data format of `tally`. -/
def ledger : ObjectType Bytes Bytes := { tally with name := lit "Ledger" }

/-- Both types are registered, and the store is empty. -/
def twoTypesNode : NodeState Bytes Bytes where
  stopped := false
  objectTypes typ :=
    if typ = tally.name then some tally else if typ = ledger.name then some ledger else none
  objectTypes_name := by
    intro typ T h
    split at h
    · rename_i htyp
      cases h
      exact htyp.symm
    · split at h
      · rename_i htyp
        cases h
        exact htyp.symm
      · contradiction
  lifecycleValidator := none
  provider := some DB.empty
  objects := ∅

/-- An object is saved as a `Tally` and evicted; the next request names it a `Ledger`, and it is
restored as one while its row still says `Tally`. -/
theorem dormant_object_changes_type :
    ∃ s : Custody Bytes Bytes, (machine Bytes Bytes).Reachable Machine.Any s ∧
      ∃ live row, s.node.objects.lookup (lit "o") = some live ∧
        s.node.row (lit "o") = some row ∧ row.objectType = tally.name ∧
        live.type.name = ledger.name ∧ live.base.data = row.data ∧
        live.type.name ≠ row.objectType := by
  have hrun : ((machine Bytes Bytes).exec Machine.Any (start twoTypesNode)
      [.create tally.name (lit "o") (hooksOf tally true true), .mutate 0 [7] 0,
        .save 0 .executed, .destroy (lit "o"),
        .create ledger.name (lit "o") (hooksOf ledger true true)]).any
        (fun s => (s.node.objects.lookup (lit "o")).any fun live =>
          (s.node.row (lit "o")).any fun row => decide (row.objectType = tally.name ∧
            live.type.name = ledger.name ∧ live.base.data = row.data ∧
            live.type.name ≠ row.objectType)) = true := by
    decide
  obtain ⟨s, hreach, hs⟩ := Machine.exec_reachable hrun ⟨twoTypesNode, rfl, rfl, rfl, rfl⟩
  obtain ⟨live, hlive, hs⟩ := (Option.any_eq_true _ _).mp hs
  obtain ⟨row, hrow, hs⟩ := (Option.any_eq_true _ _).mp hs
  exact ⟨s, hreach, live, row, hlive, hrow,
    of_decide_eq_true hs⟩

end Types

/-! ### Deleting a live object -/

/-- `DeleteObject` returns nil and takes the object out of the map, and a second call returns nil
too. -/
structure Deletes (node : NodeState σ μ) (typ id : GoString) : Prop where
  returns : (node.deleteObject typ id .executed).2 = .ok ()
  removed : (node.deleteObject typ id .executed).1.objects.lookup id = none
  again : ((node.deleteObject typ id .executed).1.deleteObject typ id .executed).2 = .ok ()

private theorem deleteRow_executed {db : DB} {id : GoString} (hid : id ≠ []) :
    (NodeState.deleteRow db id .executed).2 = true ↔ db.objects.lookup id ≠ none := by
  have hmem : id ∈ db.objects ↔ db.objects.lookup id ≠ none := by
    rw [← AList.lookup_isSome, Option.isSome_iff_ne_none]
  simp only [NodeState.deleteRow, DB.deleteObject, if_neg hid]
  by_cases hrow : id ∈ db.objects
  · simp [if_pos hrow, hmem.mp hrow]
  · simp [if_neg hrow, not_not.mp (mt hmem.mpr hrow)]

private theorem deletes_of_ok {node : NodeState σ μ} (hrunning : node.stopped = false)
    {typ id : GoString} (htyp : typ ≠ []) (hok : (node.deleteObject typ id .executed).2 = .ok ()) :
    Deletes node typ id := by
  have hcase := NodeState.deleteObject_case hrunning typ id .executed
  have hgone : (node.deleteObject typ id .executed).1.objects.lookup id = none ∧
      (node.deleteObject typ id .executed).1.stopped = false := by
    generalize node.deleteObject typ id .executed = result at hcase hok
    cases hcase with
    | refused | failed => contradiction
    | absent hreaches hobjects => exact ⟨hobjects, hrunning⟩
    | unreached | unstored | deleted => exact ⟨NodeState.lookup_destroyObject _ id, hrunning⟩
  refine ⟨hok, hgone.1, ?_⟩
  generalize (node.deleteObject typ id .executed).1 = next at hgone
  simp only [NodeState.deleteObject, if_neg htyp, hgone.2, hgone.1]
  rfl

theorem deletes_iff {node : NodeState σ μ} (hrunning : node.stopped = false)
    (hprovider : node.provider.isSome = true) {id : GoString} {live : LiveObject σ μ}
    (hid : id ≠ []) (hlive : node.objects.lookup id = some live) (htyp : live.type.name ≠ [])
    (hpermitted : node.deniesDelete live.type.name id = false) :
    Deletes node live.type.name id ↔ node.row id ≠ none ∨ ¬ live.Saves := by
  obtain ⟨db, hdb⟩ := Option.isSome_iff_exists.mp hprovider
  have hrow : node.row id = db.objects.lookup id := by
    rw [NodeState.row, hdb]
    rfl
  have hok : (node.deleteObject live.type.name id .executed).2 = .ok () ↔
      node.row id ≠ none ∨ ¬ live.Saves := by
    rw [hrow, ← deleteRow_executed hid]
    simp only [NodeState.deleteObject, if_neg htyp, hrunning, hlive, hpermitted, hdb]
    cases hdata : live.type.toData live.base.data with
    | error error => simp [LiveObject.Saves, hdata, Except.toOption]
    | ok data =>
      cases hdeleted : NodeState.deleteRow db id .executed with
      | mk next deleted => cases deleted <;> simp [LiveObject.Saves, hdata, Except.toOption]
  exact ⟨fun h => hok.mp h.returns, fun h => deletes_of_ok hrunning htyp (hok.mpr h)⟩

/-- The store executes every save and every delete. -/
def Prompt (_ : Custody σ μ) : Label σ → Prop
  | .save _ reply | .delete _ _ reply => reply = .executed
  | _ => True

instance : ∀ (s : Custody σ μ) (l : Label σ), Decidable (s.Prompt l)
  | _, .save _ reply => inferInstanceAs (Decidable (reply = .executed))
  | _, .delete _ _ reply => inferInstanceAs (Decidable (reply = .executed))
  | _, .create _ _ _ | _, .mutate _ _ _ | _, .destroy _ | _, .clear | _, .foreign _ _ =>
    isTrue trivial

/-- A live instance has a non-empty id, and if it was restored from a row or has been saved, then
its id has a row. -/
structure Backed (s : Custody σ μ) : Prop where
  running : s.node.stopped = false
  provider : s.node.provider.isSome = true
  named : ∀ {k : Nat} {inc : Incarnation σ μ}, s.incarnations[k]? = some inc → s.Live k inc →
    inc.id ≠ []
  row : ∀ {k : Nat} {inc : Incarnation σ μ}, s.incarnations[k]? = some inc → s.Live k inc →
    inc.origin ≠ none ∨ inc.writes ≠ [] → s.node.row inc.id ≠ none

theorem Backed.step (h : s.Backed) (hok : s.Prompt l) (hstep : s.step l = some t) :
    t.Backed := by
  obtain ⟨hrunning, hprovider⟩ := step_node h.running hstep
  refine ⟨hrunning, hprovider.trans h.provider, fun {k inc} hinc hlive => ?_,
    fun {k inc} hinc hlive hstored => ?_⟩
  · cases step_liveCase h.running hstep hinc hlive with
    | frame hold hbefore => exact h.named hold hbefore
    | @created typ id hooks k inc given nextRcseq hnone hid hgiven horigin hflag hwrites hlookup =>
      cases hstep
      rw [create_node, hid] at hlookup
      rcases NodeState.lookup_createObject hlookup with hbefore | ⟨hne, -⟩
      · rw [hnone] at hbefore
        contradiction
      · rwa [hid]
    | mutated hold hbefore =>
      have hnamed := h.named hold hbefore
      exact hnamed
    | saved hold hbefore =>
      have hnamed := h.named hold hbefore
      exact hnamed
    | overwritten hold hbefore => exact h.named hold hbefore
    | unrowed hold hbefore => exact h.named hold hbefore
  · cases step_liveCase h.running hstep hinc hlive with
    | frame hold hbefore hlookup hsame =>
      rw [hsame]
      exact h.row hold hbefore hstored
    | @created typ id hooks k inc given nextRcseq hnone hid hgiven horigin hflag hwrites hlookup
        hsame =>
      rw [hsame, hid]
      rcases hstored with hfound | hwritten
      · cases given with
        | none => exact absurd horigin hfound
        | some data => exact NodeState.row_of_dataToRestore hgiven
      · exact absurd hwrites hwritten
    | mutated hold hbefore hlookup hsame =>
      have hrow := h.row hold hbefore hstored
      rwa [← hsame] at hrow
    | saved hold hbefore hlookup hwritten =>
      intro hnone
      have hsome := hwritten.symm.trans hnone
      contradiction
    | overwritten hold hbefore hother hid hdead hsaves hlookup hwritten =>
      rw [hwritten]
      exact Option.some_ne_none _
    | unrowed => contradiction

theorem backed (hreach : (machine σ μ).Reachable Prompt s) : s.Backed := by
  apply hreach.invariant (I := Backed)
  · rintro _ ⟨node, hrunning, hprovider, -, rfl⟩
    exact ⟨hrunning, hprovider, fun hinc => by simp [start] at hinc,
      fun hinc => by simp [start] at hinc⟩
  · intro s l t h hok hstep
    exact h.step hok hstep

/-- A live object can be deleted exactly if its id has a row or its `ToData` refuses; over the
histories of a store that executes its statements, the instances that were restored from a row
or have been saved can be deleted. -/
theorem live_object_is_deleted_iff :
    (∀ (node : NodeState σ μ) (id : GoString) (live : LiveObject σ μ), node.stopped = false →
      node.provider.isSome = true → id ≠ [] → node.objects.lookup id = some live →
      live.type.name ≠ [] → node.deniesDelete live.type.name id = false →
      (Deletes node live.type.name id ↔ node.row id ≠ none ∨ ¬ live.Saves)) ∧
    ∀ (s : Custody σ μ) (k : Nat) (inc : Incarnation σ μ) (live : LiveObject σ μ),
      (machine σ μ).Reachable Prompt s → s.incarnations[k]? = some inc → s.Live k inc →
      s.node.objects.lookup inc.id = some live → live.type.name ≠ [] →
      s.node.deniesDelete live.type.name inc.id = false →
      inc.origin ≠ none ∨ inc.writes ≠ [] → Deletes s.node live.type.name inc.id := by
  constructor
  · intro node id live hrunning hprovider hid hlive htyp hpermitted
    exact deletes_iff hrunning hprovider hid hlive htyp hpermitted
  · intro s k inc live hreach hinc hlive hlookup htyp hpermitted hstored
    have hbacked := backed hreach
    exact (deletes_iff hbacked.running hbacked.provider (hbacked.named hinc hlive) hlookup htyp
      hpermitted).mpr (.inl (hbacked.row hinc hlive hstored))

/-- A new object is deleted after its first save. -/
theorem live_object_is_deleted_iff_saved :
    ∃ (s : Custody Bytes Bytes) (live : LiveObject Bytes Bytes),
      s.node.objects.lookup (lit "p") = some live ∧ Deletes s.node live.type.name (lit "p") ∧
      (Deletes s.node live.type.name (lit "p") ↔ s.node.row (lit "p") ≠ none ∨ ¬ live.Saves) := by
  have hrun : ((machine Bytes Bytes).exec Prompt (start NodeState.dormantNode)
      [.create tally.name (lit "p") (hooksOf tally true true), .save 0 .executed]).any
        (fun s => (s.incarnations[0]?).any fun inc =>
          (s.node.objects.lookup (lit "p")).any fun live => decide (s.Live 0 inc ∧
            inc.id = lit "p" ∧ inc.writes ≠ [] ∧ live.type.name ≠ [] ∧
            s.node.deniesDelete live.type.name (lit "p") = false ∧ s.node.stopped = false ∧
            s.node.provider.isSome = true)) = true := by
    decide
  obtain ⟨s, hreach, hs⟩ := Machine.exec_reachable hrun ⟨NodeState.dormantNode, rfl, rfl, rfl, rfl⟩
  obtain ⟨inc, hinc, hs⟩ := (Option.any_eq_true _ _).mp hs
  obtain ⟨live, hlive, hs⟩ := (Option.any_eq_true _ _).mp hs
  obtain ⟨hcurrent, hid, hwrites, htyp, hpermitted, hrunning, hprovider⟩ := of_decide_eq_true hs
  refine ⟨s, live, hlive, ?_, ?_⟩
  · rw [← hid] at hlive hpermitted ⊢
    exact live_object_is_deleted_iff.2 s 0 inc live hreach hinc hcurrent hlive htyp hpermitted
      (.inr hwrites)
  · exact live_object_is_deleted_iff.1 s.node (lit "p") live hrunning hprovider (by decide) hlive
      htyp hpermitted

/-- An object that has never been saved has no row, so that the provider reports that it found
none, and the object stays. -/
theorem unsaved_object_is_not_deleted :
    ∃ s : Custody Bytes Bytes, (machine Bytes Bytes).Reachable Prompt s ∧
      ∃ live, s.node.objects.lookup (lit "p") = some live ∧ live.type.name = tally.name ∧
        s.node.deniesDelete tally.name (lit "p") = false ∧
        (s.node.deleteObject tally.name (lit "p") .executed).2 =
          .error (.deletePersistence (lit "p")) ∧
        ((s.node.deleteObject tally.name (lit "p") .executed).1.objects.lookup
          (lit "p")).isSome = true := by
  have hrun : ((machine Bytes Bytes).exec Prompt (start NodeState.dormantNode)
      [.create tally.name (lit "p") (hooksOf tally true true)]).any
        (fun s => (s.node.objects.lookup (lit "p")).any fun live =>
          decide (live.type.name = tally.name ∧
            s.node.deniesDelete tally.name (lit "p") = false ∧
            (s.node.deleteObject tally.name (lit "p") .executed).2 =
              .error (.deletePersistence (lit "p")) ∧
            ((s.node.deleteObject tally.name (lit "p") .executed).1.objects.lookup
              (lit "p")).isSome = true)) = true := by
    decide
  obtain ⟨s, hreach, hs⟩ := Machine.exec_reachable hrun ⟨NodeState.dormantNode, rfl, rfl, rfl, rfl⟩
  obtain ⟨live, hlive, hs⟩ := (Option.any_eq_true _ _).mp hs
  exact ⟨s, hreach, live, hlive,
    of_decide_eq_true hs⟩

end Custody
end Goverse.Node
