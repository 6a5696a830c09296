import Goverse.Lib.Sweep
import Goverse.Consensus.Reassign

/-! The hand-over of shards. After the leader has stored new targets, every live node claims,
releases and claims again, each pass being a sweep of all live nodes over the mapping. A shard is
claimed by its target only and released by its owner only, so the nodes do not get in each
other's way. The mapping holds what is read back of the records that are stored; the copy of the
node that stored one can differ in the white space of its flags, which these passes do not read. -/
namespace Goverse.Consensus

open GoString ClusterState Lib

/-- What `ClaimShardsForNode` of a node makes of a record. -/
def claims (view : ClusterState) (node : GoString) (info : ShardInfo) : Option ShardInfo :=
  if info.targetNode = node ∧ (info.currentNode = [] ∨ view.hasNode info.currentNode = false) then
    some (info.withCurrentNode node)
  else none

/-- What `ReleaseShardsForNode` of a node without objects makes of a record. -/
def releases (node : GoString) (info : ShardInfo) : Option ShardInfo :=
  if node ≠ [] ∧ info.currentNode = node ∧ info.targetNode ≠ [] ∧ info.targetNode ≠ node then
    some (info.withCurrentNode [])
  else none

/-- The plan of `ReleaseShardsForNode`, which refuses the empty address. -/
def releaseShardsForNode (state : ClusterState) (localNode : GoString)
    (localObjectsPerShard : Int → Nat) : Plan :=
  if localNode = [] then [] else calcReleaseShardsForNode state localNode localObjectsPerShard

/-- Every live node plans on the mapping it finds and stores its plan. -/
def pass (view : ClusterState) (act : GoString → ShardInfo → Option ShardInfo)
    (plan : ClusterState → GoString → Plan) : Sweep ClusterState Int ShardInfo GoString where
  agents := liveNodes view
  get state shardID := state.shards.lookup shardID
  rev := ShardInfo.modRevision
  stamp info rev := { info.reread with modRevision := rev }
  act := act
  plan := plan
  store state shardID info rev := state.applyStored shardID info.reread rev

def claimPass (view : ClusterState) : Sweep ClusterState Int ShardInfo GoString :=
  pass view (claims view) claimShardsForNode

def releasePass (view : ClusterState) : Sweep ClusterState Int ShardInfo GoString :=
  pass view releases fun state node => releaseShardsForNode state node fun _ => 0

/-- The entries of a plan as they are read back. -/
def Plan.reread (plan : Plan) : Plan := plan.map fun (shardID, info) => (shardID, info.reread)

/-- Every address is one that a record can hold, and none is empty. -/
def CleanNodes (view : ClusterState) : Prop :=
  ∀ node, view.hasNode node = true → node ≠ [] ∧ CleanAddress node

/-- A mapping for the nodes of `view`. -/
structure Mapped (view state : ClusterState) : Prop where
  nodes : state.nodes = view.nodes
  readable : ∀ shardID info, state.shards.lookup shardID = some info → info.Readable

theorem CleanNodes.not_empty {view : ClusterState} (h : CleanNodes view) :
    view.hasNode [] = false := by
  rw [← Bool.not_eq_true]
  exact fun hlive => (h [] hlive).1 rfl

theorem Mapped.shard_readable {view state : ClusterState} (h : Mapped view state) (shardID : Int) :
    (state.shard shardID).Readable := by
  rw [shard]
  cases hlookup : state.shards.lookup shardID with
  | none => exact ShardInfo.zero_readable
  | some info => exact h.readable shardID info hlookup

section Survey

/-- The entries that an action on single records gives. -/
def survey (act : ShardInfo → Option ShardInfo) (state : ClusterState) : Plan :=
  state.shards.entries.filterMap fun entry => (act entry.2).map fun info => (entry.1, info)

variable {act : ShardInfo → Option ShardInfo} {state : ClusterState}

@[simp] theorem mem_survey {shardID : Int} {after : ShardInfo} :
    (shardID, after) ∈ survey act state ↔
      ∃ info, state.shards.lookup shardID = some info ∧ act info = some after := by
  rw [survey, List.mem_filterMap]
  constructor
  · rintro ⟨⟨id, info⟩, hentry, hact⟩
    obtain ⟨after', hafter, heq⟩ := Option.map_eq_some_iff.mp hact
    cases heq
    exact ⟨info, AList.mem_lookup_iff.mpr hentry, hafter⟩
  · rintro ⟨info, hlookup, hact⟩
    exact ⟨⟨shardID, info⟩, AList.mem_lookup_iff.mp hlookup, by rw [hact]; rfl⟩

private theorem nodup_survey : ((survey act state).map Prod.fst).Nodup := by
  have hsub : ((survey act state).map Prod.fst).Sublist state.shards.keys := by
    rw [survey, AList.keys, List.keys]
    generalize state.shards.entries = entries
    induction entries with
    | nil => exact List.Sublist.refl _
    | cons entry entries ih =>
      cases hact : act entry.2 with
      | none =>
        rw [List.filterMap_cons_none (by rw [hact]; rfl)]
        exact ih.cons _
      | some info =>
        rw [List.filterMap_cons_some (by rw [hact]; rfl)]
        exact ih.cons_cons _
  exact state.shards.keys_nodup.sublist hsub

private theorem survey_eq_nil (h : ∀ shardID info, state.shards.lookup shardID = some info →
    act info = none) : survey act state = [] := by
  rw [List.eq_nil_iff_forall_not_mem]
  rintro ⟨shardID, after⟩ hmem
  obtain ⟨info, hlookup, hact⟩ := mem_survey.mp hmem
  rw [h shardID info hlookup] at hact
  contradiction

theorem claimShardsForNode_eq (state : ClusterState) (node : GoString) :
    claimShardsForNode state node = survey (claims state node) state := by
  rw [claimShardsForNode, survey]
  congr 1
  funext entry
  rw [claims]
  split <;> rfl

theorem releaseShardsForNode_eq (state : ClusterState) (node : GoString) :
    releaseShardsForNode state node (fun _ => 0) = survey (releases node) state := by
  rw [releaseShardsForNode, survey]
  split
  · rename_i hnode
    subst hnode
    symm
    rw [List.filterMap_eq_nil_iff]
    intro entry _
    rw [releases, if_neg fun h => h.1 rfl]
    rfl
  · rename_i hnode
    rw [calcReleaseShardsForNode]
    congr 1
    funext entry
    rw [releases]
    simp only [ne_eq, hnode, not_false_eq_true, true_and, and_true]
    split <;> rfl

end Survey

/-! ### The passes are sweeps -/

section Laws

variable {view : ClusterState} {act : GoString → ShardInfo → Option ShardInfo}
  {plan : ClusterState → GoString → Plan}

@[simp] theorem revision_pass (state : ClusterState) (shardID : Int) :
    (pass view act plan).revision state shardID = (state.shard shardID).modRevision := by
  rw [Sweep.revision, shard]
  change ((state.shards.lookup shardID).map _).getD 0 = _
  cases state.shards.lookup shardID <;> rfl

theorem Mapped.applyStored {state : ClusterState} (h : Mapped view state) (shardID : Int)
    (info : ShardInfo) (rev : Nat) : Mapped view (state.applyStored shardID info.reread rev) := by
  rw [ClusterState.applyStored]
  split
  · refine ⟨h.nodes, fun other found hlookup => ?_⟩
    by_cases hother : other = shardID
    · subst hother
      cases (AList.lookup_insert _).symm.trans hlookup
      exact info.reread_readable
    · exact h.readable other found ((AList.lookup_insert_ne hother).symm.trans hlookup)
  · exact h

theorem pass_lawful
    (hplan : ∀ {state} node, state.nodes = view.nodes → plan state node = survey (act node) state)
    (hrev : ∀ {node info after}, act node info = some after →
      after.modRevision = info.modRevision)
    (howner : ∀ {a b info x y}, act a info = some x → act b info = some y → a = b)
    (hdone : ∀ {a b info x rev}, info.Readable → view.hasNode a = true → view.hasNode b = true →
      act a info = some x → act b { x.reread with modRevision := rev } = none) :
    (pass view act plan).Lawful (Mapped view) where
  mem_plan {state node shardID after} hstate := by
    change (shardID, after) ∈ plan state node ↔ _
    rw [hplan node hstate.nodes]
    exact mem_survey
  nodup_plan {state} node hstate := by
    change ((plan state node).map Prod.fst).Nodup
    rw [hplan node hstate.nodes]
    exact nodup_survey
  inv_store hstate := hstate.applyStored _ _ _
  get_store {state shardID info rev} hnewer := by
    rw [revision_pass] at hnewer
    funext other
    change (state.applyStored shardID info.reread rev).shards.lookup other = _
    rw [ClusterState.applyStored, if_pos hnewer]
    by_cases hother : other = shardID
    · subst hother
      rw [Function.update_self]
      exact AList.lookup_insert _
    · rw [Function.update_of_ne hother]
      exact AList.lookup_insert_ne hother
  rev_stamp _ _ := rfl
  rev_act h := hrev h
  owner _ _ ha hb := howner ha hb
  done hstate hget ha hb h :=
    hdone (hstate.readable _ _ hget) (mem_liveNodes.mp ha) (mem_liveNodes.mp hb) h

theorem claims_eq_some {node : GoString} {info after : ShardInfo}
    (h : claims view node info = some after) : info.targetNode = node ∧
      (info.currentNode = [] ∨ view.hasNode info.currentNode = false) ∧
      after = info.withCurrentNode node := by
  rw [claims] at h
  split at h
  · rename_i hclaims
    exact ⟨hclaims.1, hclaims.2, (Option.some.inj h).symm⟩
  · contradiction

theorem releases_eq_some {node : GoString} {info after : ShardInfo}
    (h : releases node info = some after) : info.currentNode = node ∧ info.targetNode ≠ [] ∧
      info.targetNode ≠ node ∧ after = info.withCurrentNode [] := by
  rw [releases] at h
  split at h
  · rename_i hreleases
    exact ⟨hreleases.2.1, hreleases.2.2.1, hreleases.2.2.2, (Option.some.inj h).symm⟩
  · contradiction

theorem claimPass_lawful (haddresses : CleanNodes view) :
    (claimPass view).Lawful (Mapped view) := by
  refine pass_lawful (fun {state} node hnodes => ?_) (fun h => ?_) (fun ha hb => ?_)
    (fun {a b info x rev} hread ha hb h => ?_)
  · rw [claimShardsForNode_eq]
    congr 1
    funext info
    rw [claims, claims, hasNode, hnodes, hasNode]
  · rw [(claims_eq_some h).2.2]
    rfl
  · exact (claims_eq_some ha).1.symm.trans (claims_eq_some hb).1
  · obtain ⟨-, -, rfl⟩ := claims_eq_some h
    obtain ⟨hne, hclean⟩ := haddresses a ha
    have howner : (info.withCurrentNode a).reread.currentNode = a :=
      ShardInfo.reread_currentNode (hread.withCurrentNode hclean)
    rw [claims, if_neg]
    rintro ⟨-, hempty | hdead⟩
    · exact hne (howner.symm.trans hempty)
    · rw [howner, ha] at hdead
      contradiction

theorem releasePass_lawful (view : ClusterState) : (releasePass view).Lawful (Mapped view) := by
  refine pass_lawful (fun {state} node _ => releaseShardsForNode_eq state node) (fun h => ?_)
    (fun ha hb => ?_) (fun {a b info x rev} hread ha hb h => ?_)
  · rw [(releases_eq_some h).2.2.2]
    rfl
  · exact (releases_eq_some ha).1.symm.trans (releases_eq_some hb).1
  · obtain ⟨-, -, -, rfl⟩ := releases_eq_some h
    have howner : (info.withCurrentNode []).reread.currentNode = [] :=
      ShardInfo.reread_currentNode (hread.withCurrentNode cleanAddress_nil)
    rw [releases, if_neg]
    rintro ⟨hne, hempty, -⟩
    exact hne (hempty.symm.trans howner)

private theorem exists_pass {state : ClusterState}
    (hlawful : (pass view act plan).Lawful (Mapped view)) (hstate : Mapped view state) :
    ∃ next, (pass view act plan).Ends state next := by
  refine Sweep.exists_ends hlawful hstate state.shards.keys.toFinset fun shardID hsome => ?_
  rw [List.mem_toFinset, ← AList.mem_keys]
  exact AList.lookup_isSome.mp hsome

end Laws

/-! ### What the passes do to a record -/

section Records

variable {view state next : ClusterState}

/-- The record is claimed by its target if that is live and the owner is not. -/
structure Claimed (view : ClusterState) (info after : ShardInfo) : Prop where
  target : after.targetNode = info.targetNode
  taken : view.hasNode info.targetNode = true →
    (info.currentNode = [] ∨ view.hasNode info.currentNode = false) →
    after.currentNode = info.targetNode
  kept : ¬ (view.hasNode info.targetNode = true ∧
    (info.currentNode = [] ∨ view.hasNode info.currentNode = false)) →
    after.currentNode = info.currentNode

/-- The record is released by a live owner that is not its target. -/
structure Released (view : ClusterState) (info after : ShardInfo) : Prop where
  target : after.targetNode = info.targetNode
  given : view.hasNode info.currentNode = true → info.targetNode ≠ [] →
    info.targetNode ≠ info.currentNode → after.currentNode = []
  kept : after.currentNode = info.currentNode ∨ after.currentNode = []

/-- Both mappings have the same shards, and their records are related. -/
def Records (rel : ShardInfo → ShardInfo → Prop) (state next : ClusterState) : Prop :=
  ∀ shardID, Option.Rel rel (state.shards.lookup shardID) (next.shards.lookup shardID)

theorem Records.after {rel : ShardInfo → ShardInfo → Prop} (h : Records rel state next)
    {shardID : Int} {info : ShardInfo} (hinfo : state.shards.lookup shardID = some info) :
    ∃ after, next.shards.lookup shardID = some after ∧ rel info after := by
  have hrel := h shardID
  rw [hinfo] at hrel
  generalize next.shards.lookup shardID = found at hrel
  cases hrel with
  | some hrel => exact ⟨_, rfl, hrel⟩

theorem Records.before {rel : ShardInfo → ShardInfo → Prop} (h : Records rel state next)
    {shardID : Int} {after : ShardInfo} (hafter : next.shards.lookup shardID = some after) :
    ∃ info, state.shards.lookup shardID = some info ∧ rel info after := by
  have hrel := h shardID
  rw [hafter] at hrel
  generalize state.shards.lookup shardID = found at hrel
  cases hrel with
  | some hrel => exact ⟨_, rfl, hrel⟩

theorem pass_records {act : GoString → ShardInfo → Option ShardInfo}
    {plan : ClusterState → GoString → Plan} {rel : ShardInfo → ShardInfo → Prop}
    (hlawful : (pass view act plan).Lawful (Mapped view)) (hstate : Mapped view state)
    (h : (pass view act plan).Ends state next)
    (hidle : ∀ info, (∀ node, view.hasNode node = true → act node info = none) → rel info info)
    (hact : ∀ node info after rev, info.Readable → view.hasNode node = true →
      act node info = some after → rel info { after.reread with modRevision := rev }) :
    Mapped view next ∧ Records rel state next := by
  obtain ⟨hnext, hget⟩ := h.outcome hlawful hstate
  refine ⟨hnext, fun shardID => ?_⟩
  rcases hget shardID with ⟨hsame, hnobody⟩ | ⟨node, hnode, info, after, rev, hinfo, hsome, hafter⟩
  · change next.shards.lookup shardID = state.shards.lookup shardID at hsame
    rw [hsame]
    cases hlookup : state.shards.lookup shardID with
    | none => exact .none
    | some info =>
      exact .some (hidle info fun node hlive => hnobody node (mem_liveNodes.mpr hlive) info hlookup)
  · change state.shards.lookup shardID = some info at hinfo
    change next.shards.lookup shardID = some _ at hafter
    rw [hinfo, hafter]
    exact .some (hact node info after rev (hstate.readable shardID info hinfo)
      (mem_liveNodes.mp hnode) hsome)

private theorem claimPass_records (haddresses : CleanNodes view) (hstate : Mapped view state)
    (h : (claimPass view).Ends state next) :
    Mapped view next ∧ Records (Claimed view) state next := by
  refine pass_records (claimPass_lawful haddresses) hstate h (fun info hnobody => ?_)
    fun node info after rev hread hlive hclaims => ?_
  · refine ⟨rfl, fun hlive hfree => ?_, fun _ => rfl⟩
    have := hnobody info.targetNode hlive
    rw [claims, if_pos ⟨rfl, hfree⟩] at this
    contradiction
  · obtain ⟨rfl, hfree, rfl⟩ := claims_eq_some hclaims
    have hclaimed := hread.withCurrentNode (haddresses _ hlive).2
    exact ⟨ShardInfo.reread_targetNode hclaimed, fun _ _ => ShardInfo.reread_currentNode hclaimed,
      fun hnot => absurd ⟨hlive, hfree⟩ hnot⟩

private theorem releasePass_records (haddresses : CleanNodes view) (hstate : Mapped view state)
    (h : (releasePass view).Ends state next) :
    Mapped view next ∧ Records (Released view) state next := by
  refine pass_records (releasePass_lawful _) hstate h (fun info hnobody => ?_)
    fun node info after rev hread _ hreleases => ?_
  · refine ⟨rfl, fun hlive htarget hother => ?_, .inl rfl⟩
    have := hnobody info.currentNode hlive
    rw [releases, if_pos ⟨(haddresses _ hlive).1, rfl, htarget, hother⟩] at this
    contradiction
  · obtain ⟨-, -, -, rfl⟩ := releases_eq_some hreleases
    have hgiven := hread.withCurrentNode cleanAddress_nil
    have howner := ShardInfo.reread_currentNode hgiven
    exact ⟨ShardInfo.reread_targetNode hgiven, fun _ _ _ => howner, .inr howner⟩

theorem Released.rests (haddresses : view.hasNode [] = false) {info after : ShardInfo}
    (h : Released view info after) (hlive : view.hasNode after.currentNode = true) :
    after.targetNode = [] ∨ after.targetNode = after.currentNode := by
  have hne : after.currentNode ≠ [] := by
    intro hempty
    rw [hempty, haddresses] at hlive
    contradiction
  have hsame : after.currentNode = info.currentNode := h.kept.resolve_right hne
  by_contra hmoving
  rw [not_or, h.target, hsame] at hmoving
  exact hne (h.given (hsame ▸ hlive) hmoving.1 hmoving.2)

theorem Released.handed_over (haddresses : view.hasNode [] = false)
    {info released settled : ShardInfo} (hreleased : Released view info released)
    (hclaimed : Claimed view released settled) :
    (view.hasNode settled.targetNode = true → settled.currentNode = settled.targetNode) ∧
      ∀ node, view.hasNode node = true →
        claims view node settled = none ∧ releases node settled = none := by
  have hmatch : view.hasNode settled.targetNode = true →
      settled.currentNode = settled.targetNode := by
    intro hlive
    rw [hclaimed.target] at hlive ⊢
    by_cases hfree : released.currentNode = [] ∨ view.hasNode released.currentNode = false
    · exact hclaimed.taken hlive hfree
    · rw [hclaimed.kept fun h => hfree h.2]
      rw [not_or, Bool.not_eq_false] at hfree
      rcases hreleased.rests haddresses hfree.2 with hnone | hsame
      · rw [hnone, haddresses] at hlive
        contradiction
      · exact hsame.symm
  refine ⟨hmatch, fun node hnode => ⟨?_, ?_⟩⟩
  · rw [claims, if_neg]
    rintro ⟨rfl, hfree⟩
    rw [hmatch hnode, hnode] at hfree
    rcases hfree with hempty | hdead
    · rw [hempty, haddresses] at hnode
      contradiction
    · contradiction
  · rw [releases, if_neg]
    rintro ⟨-, rfl, htarget, hother⟩
    by_cases htaken : view.hasNode released.targetNode = true ∧
        (released.currentNode = [] ∨ view.hasNode released.currentNode = false)
    · exact hother (hclaimed.target.trans (hclaimed.taken htaken.1 htaken.2).symm)
    · rw [hclaimed.target] at htarget hother
      rw [hclaimed.kept htaken] at hnode hother
      rcases hreleased.rests haddresses hnode with hnone | hsame
      · exact htarget hnone
      · exact hother hsame

end Records

section Mapping

variable {c : Config} {state next : ClusterState} {shuffled : List Int} {offset : Nat} {plan : Plan}

@[simp] theorem map_fst_reread (plan : Plan) :
    (Plan.reread plan).map Prod.fst = plan.map Prod.fst := by
  rw [Plan.reread, List.map_map]
  rfl

private theorem mem_reread {shardID : Int} {info : ShardInfo} (h : (shardID, info) ∈ plan) :
    (shardID, info.reread) ∈ Plan.reread plan :=
  List.mem_map.mpr ⟨_, h, rfl⟩

private theorem targetNode_update_reread (hnodup : (plan.map Prod.fst).Nodup)
    (hread : ∀ entry ∈ plan, entry.2.Readable) (shardID : Int) :
    ((state.update (Plan.reread plan)).shard shardID).targetNode =
      ((state.update plan).shard shardID).targetNode := by
  by_cases hmem : shardID ∈ plan.map Prod.fst
  · obtain ⟨⟨id, info⟩, hentry, rfl⟩ := List.mem_map.mp hmem
    rw [shard_update_of_mem hnodup hentry,
      shard_update_of_mem (by rw [map_fst_reread]; exact hnodup) (mem_reread hentry)]
    exact ShardInfo.reread_targetNode (hread _ hentry)
  · rw [shard_update_of_notMem hmem, shard_update_of_notMem (by rw [map_fst_reread]; exact hmem)]

private theorem readable_of_plan (haddresses : CleanNodes state) (hstate : Mapped state state)
    (hplan : calcReassignShardTargetNodes c state shuffled offset = some plan) :
    ∀ entry ∈ plan, entry.2.Readable := by
  rintro ⟨shardID, info⟩ hentry
  have hplans := calcReassignShardTargetNodes_plans (w := []) hplan hentry
  have hold := hstate.shard_readable shardID
  obtain ⟨htarget, hcurrent⟩ :=
    hplans.clean hold.target hold.current fun node hnode => (haddresses node hnode).2
  exact ⟨htarget, hcurrent, by rw [hplans.intends.flags_eq]; exact hold.flags⟩

theorem nodup_plan (hplan : calcReassignShardTargetNodes c state shuffled offset = some plan) :
    (plan.map Prod.fst).Nodup := by
  rcases calcReassignShardTargetNodes_cases hplan with ⟨-, rfl⟩ | ⟨-, hshuffled, rfl⟩
  · exact List.nodup_nil
  · rw [keys_append c state shuffled offset]
    exact nodup_keys hshuffled

private theorem mapped_of_stored (hstate : Mapped state state)
    (hplan : calcReassignShardTargetNodes c state shuffled offset = some plan)
    (hstored : state.FullyStored (Plan.reread plan) next) : Mapped state next := by
  have hnodup := nodup_plan hplan
  rw [← map_fst_reread] at hnodup
  refine ⟨hstored.nodes_eq hnodup, fun shardID info hlookup => ?_⟩
  by_cases hmem : shardID ∈ (Plan.reread plan).map Prod.fst
  · obtain ⟨⟨id, found⟩, hentry, rfl⟩ := List.mem_map.mp hmem
    obtain ⟨⟨_, old⟩, -, heq⟩ := List.mem_map.mp hentry
    obtain ⟨rev, hfound⟩ := hstored.lookup_of_mem hnodup hentry
    cases heq
    cases hfound.symm.trans hlookup
    exact old.reread_readable
  · rw [hstored.lookup_of_notMem hnodup hmem] at hlookup
    exact hstate.readable shardID info hlookup

private theorem targets_of_stored (hnodes : sortedNodes state ≠ []) (haddresses : CleanNodes state)
    (hstate : Mapped state state)
    (hpinned : ∀ shardID, c.ValidShard shardID → (state.shard shardID).hasFlag pinned = true →
      (state.shard shardID).targetNode ≠ [] →
      state.hasNode (state.shard shardID).targetNode = true)
    (hplan : calcReassignShardTargetNodes c state shuffled offset = some plan)
    (hstored : state.FullyStored (Plan.reread plan) next) {shardID : Int}
    (hvalid : c.ValidShard shardID) :
    ∃ info, next.shards.lookup shardID = some info ∧ state.hasNode info.targetNode = true := by
  have hnodup := nodup_plan hplan
  have hread := readable_of_plan haddresses hstate hplan
  have hlive : state.hasNode (next.shard shardID).targetNode = true := by
    have hrecord := congrArg ShardRecord.targetNode
      (hstored.record_eq (by rw [map_fst_reread]; exact hnodup) shardID)
    rw [hrecord, targetNode_update_reread hnodup hread]
    rcases calcReassignShardTargetNodes_cases hplan with ⟨hnone, -⟩ | ⟨-, hshuffled, rfl⟩
    · contradiction
    rcases settled_update hnodes hshuffled offset (mem_shardIDs.mpr hvalid) with hlive | hdead
    · exact hlive
    · obtain ⟨hsame, hflag, htarget⟩ := hdead
      rw [hsame] at hflag htarget ⊢
      exact hpinned shardID hvalid hflag htarget
  rw [shard] at hlive
  cases hlookup : next.shards.lookup shardID with
  | none =>
    rw [hlookup] at hlive
    change state.hasNode [] = true at hlive
    rw [haddresses.not_empty] at hlive
    contradiction
  | some info =>
    rw [hlookup] at hlive
    exact ⟨info, rfl, hlive⟩

private theorem valid_of_stored (hvalid : ∀ shardID ∈ state.shards, c.ValidShard shardID)
    (hplan : calcReassignShardTargetNodes c state shuffled offset = some plan)
    (hstored : state.FullyStored (Plan.reread plan) next) {shardID : Int}
    (h : shardID ∈ next.shards) : c.ValidShard shardID := by
  have hnodup := nodup_plan hplan
  by_cases hmem : shardID ∈ plan.map Prod.fst
  · obtain ⟨⟨id, info⟩, hentry, rfl⟩ := List.mem_map.mp hmem
    have hplans := calcReassignShardTargetNodes_plans (w := []) hplan hentry
    exact hplans.valid.elim (hvalid id) fun h => h
  · rw [← map_fst_reread] at hnodup hmem
    rw [← AList.lookup_isSome, hstored.lookup_of_notMem hnodup hmem, AList.lookup_isSome] at h
    exact hvalid shardID h

private theorem allMatching_of_settled (haddresses : state.hasNode [] = false)
    (hkeys : ∀ shardID, shardID ∈ state.shards ↔ c.ValidShard shardID)
    (hsettled : ∀ shardID, c.ValidShard shardID →
      (state.shard shardID).targetNode = (state.shard shardID).currentNode ∧
        state.hasNode (state.shard shardID).targetNode = true) :
    allShardsHaveMatchingCurrentAndTarget c state = true := by
  have hlength : state.shards.keys.length = c.numShards := by
    have hperm : state.shards.keys.Perm (shardIDs c) := by
      rw [List.perm_ext_iff_of_nodup state.shards.keys_nodup nodup_shardIDs]
      intro shardID
      rw [← AList.mem_keys, hkeys, mem_shardIDs]
    rw [hperm.length_eq, shardIDs, List.length_map, List.length_range]
  have hentry : ∀ entry ∈ state.shards.entries, entry.2.targetNode = entry.2.currentNode ∧
      entry.2.targetNode ≠ [] := by
    rintro ⟨shardID, info⟩ hmem
    have hlookup := AList.mem_lookup_iff.mpr hmem
    have hvalid := (hkeys shardID).mp (AList.lookup_isSome.mp (by rw [hlookup]; rfl))
    have hmatch := hsettled shardID hvalid
    rw [shard, hlookup, Option.getD_some] at hmatch
    refine ⟨hmatch.1, fun hempty => ?_⟩
    rw [hempty, haddresses] at hmatch
    exact absurd hmatch.2 (by decide)
  rw [allShardsHaveMatchingCurrentAndTarget, isFullyAssignedAndClaimed, hlength, beq_self_eq_true,
    Bool.true_and, Bool.and_eq_true, List.all_eq_true, List.all_eq_true]
  refine ⟨fun entry hmem => ?_, fun entry hmem => ?_⟩
  · obtain ⟨hsame, hne⟩ := hentry entry hmem
    rw [← hsame]
    simpa using hne
  · simpa using (hentry entry hmem).1

/-- Every shard is owned by its live target, and no live node claims or releases any. -/
structure Settled (c : Config) (state : ClusterState) : Prop where
  shards : ∀ shardID, c.ValidShard shardID →
    (state.shard shardID).targetNode = (state.shard shardID).currentNode ∧
      state.hasNode (state.shard shardID).targetNode = true
  idle : ∀ shardID info, state.shards.lookup shardID = some info →
    ∀ node, state.hasNode node = true → claims state node info = none ∧ releases node info = none

private theorem settled_of_passes {view assigned claimed released settled : ClusterState}
    (haddresses : view.hasNode [] = false) (hnodes : settled.nodes = view.nodes)
    (htargets : ∀ shardID, c.ValidShard shardID → ∃ info,
      assigned.shards.lookup shardID = some info ∧ view.hasNode info.targetNode = true)
    (hfirst : Records (Claimed view) assigned claimed)
    (hsecond : Records (Released view) claimed released)
    (hthird : Records (Claimed view) released settled) : Settled c settled := by
  have hlive : ∀ node, settled.hasNode node = view.hasNode node := fun node => by
    rw [hasNode, hnodes, hasNode]
  refine ⟨fun shardID hvalid => ?_, fun shardID i₃ hi₃ node hnode => ?_⟩
  · obtain ⟨i₀, hi₀, htarget⟩ := htargets shardID hvalid
    obtain ⟨i₁, hi₁, h₁⟩ := hfirst.after hi₀
    obtain ⟨i₂, hi₂, h₂⟩ := hsecond.after hi₁
    obtain ⟨i₃, hi₃, h₃⟩ := hthird.after hi₂
    rw [← h₁.target, ← h₂.target, ← h₃.target] at htarget
    rw [shard, hi₃, Option.getD_some, hlive]
    exact ⟨((h₂.handed_over haddresses h₃).1 htarget).symm, htarget⟩
  · obtain ⟨i₂, hi₂, h₃⟩ := hthird.before hi₃
    obtain ⟨i₁, -, h₂⟩ := hsecond.before hi₂
    rw [claims, hlive]
    exact (h₂.handed_over haddresses h₃).2 node (hlive node ▸ hnode)

theorem Settled.calcReassign_nil (h : Settled c state)
    (hplan : calcReassignShardTargetNodes c state shuffled offset = some plan) : plan = [] := by
  refine calcReassignShardTargetNodes_nil (fun shardID hvalid => ?_) hplan
  rw [← Bool.not_eq_true, needsTarget_iff, (h.shards shardID (mem_shardIDs.mp hvalid)).2]
  simp

theorem Settled.plans_nil (h : Settled c state) (haddresses : state.hasNode [] = false)
    {node : GoString} (hnode : state.hasNode node = true) : claimShardsForNode state node = [] ∧
      calcReleaseShardsForNode state node (fun _ => 0) = [] := by
  constructor
  · rw [claimShardsForNode_eq]
    exact survey_eq_nil fun shardID info hinfo => (h.idle shardID info hinfo node hnode).1
  · have hne : node ≠ [] := by
      rintro rfl
      rw [haddresses] at hnode
      contradiction
    have hrelease := releaseShardsForNode_eq state node
    rw [releaseShardsForNode, if_neg hne] at hrelease
    rw [hrelease]
    exact survey_eq_nil fun shardID info hinfo => (h.idle shardID info hinfo node hnode).2

theorem Settled.mem_shards (h : Settled c state) (haddresses : state.hasNode [] = false)
    {shardID : Int} (hvalid : c.ValidShard shardID) : shardID ∈ state.shards := by
  by_contra hmissing
  have hlive := (h.shards shardID hvalid).2
  rw [shard, AList.lookup_eq_none.mpr hmissing] at hlive
  change state.hasNode [] = true at hlive
  rw [haddresses] at hlive
  contradiction

end Mapping

/-- The leader stores new targets, and all live nodes claim, release and claim again. Each pass
ends, and after the last every shard is owned by its live target, and nothing is left to do. -/
theorem handover_completes (c : Config) (state : ClusterState) (hnodes : sortedNodes state ≠ [])
    (haddresses : CleanNodes state)
    (hrecords : ∀ shardID info, state.shards.lookup shardID = some info → info.Readable)
    (hpinned : ∀ shardID, c.ValidShard shardID → (state.shard shardID).hasFlag pinned = true →
      (state.shard shardID).targetNode ≠ [] →
      state.hasNode (state.shard shardID).targetNode = true)
    (shuffled : List Int) (offset : Nat) (plan : Plan)
    (hplan : calcReassignShardTargetNodes c state shuffled offset = some plan)
    (assigned : ClusterState) (hassigned : state.FullyStored (Plan.reread plan) assigned) :
    (∃ claimed, (claimPass state).Ends assigned claimed) ∧
    ∀ claimed, (claimPass state).Ends assigned claimed →
      (∃ released, (releasePass state).Ends claimed released) ∧
      ∀ released, (releasePass state).Ends claimed released →
        (∃ settled, (claimPass state).Ends released settled) ∧
        ∀ settled, (claimPass state).Ends released settled →
          (∀ shardID, c.ValidShard shardID →
            (settled.shard shardID).targetNode = (settled.shard shardID).currentNode ∧
            settled.hasNode (settled.shard shardID).targetNode = true) ∧
          ((∀ shardID ∈ state.shards, c.ValidShard shardID) →
            allShardsHaveMatchingCurrentAndTarget c settled = true) ∧
          (∀ shuffled' offset' plan', calcReassignShardTargetNodes c settled shuffled' offset' =
            some plan' → plan' = []) ∧
          ∀ node, settled.hasNode node = true →
            claimShardsForNode settled node = [] ∧
            calcReleaseShardsForNode settled node (fun _ => 0) = [] := by
  have hstate : Mapped state state := ⟨rfl, hrecords⟩
  have hmapped₀ := mapped_of_stored hstate hplan hassigned
  refine ⟨exists_pass (claimPass_lawful haddresses) hmapped₀, fun claimed hclaimed => ?_⟩
  obtain ⟨hmapped₁, hrecords₁⟩ := claimPass_records haddresses hmapped₀ hclaimed
  refine ⟨exists_pass (releasePass_lawful _) hmapped₁, fun released hreleased => ?_⟩
  obtain ⟨hmapped₂, hrecords₂⟩ := releasePass_records haddresses hmapped₁ hreleased
  refine ⟨exists_pass (claimPass_lawful haddresses) hmapped₂, fun settled hsettled => ?_⟩
  obtain ⟨hmapped₃, hrecords₃⟩ := claimPass_records haddresses hmapped₂ hsettled
  have h := settled_of_passes haddresses.not_empty hmapped₃.nodes (fun shardID hvalid =>
    targets_of_stored hnodes haddresses hstate hpinned hplan hassigned hvalid)
    hrecords₁ hrecords₂ hrecords₃
  have hempty : settled.hasNode [] = false := by
    rw [hasNode, hmapped₃.nodes, ← haddresses.not_empty, hasNode]
  refine ⟨h.shards, fun hvalid => ?_, fun _ _ _ hplan' => h.calcReassign_nil hplan',
    fun node hnode => h.plans_nil hempty hnode⟩
  refine allMatching_of_settled hempty (fun shardID => ⟨fun hmem => ?_, h.mem_shards hempty⟩)
    h.shards
  obtain ⟨i₃, hi₃⟩ := Option.isSome_iff_exists.mp (AList.lookup_isSome.mpr hmem)
  obtain ⟨i₂, hi₂, -⟩ := hrecords₃.before hi₃
  obtain ⟨i₁, hi₁, -⟩ := hrecords₂.before hi₂
  obtain ⟨i₀, hi₀, -⟩ := hrecords₁.before hi₁
  exact valid_of_stored hvalid hplan hassigned (AList.lookup_isSome.mp (by rw [hi₀]; rfl))

section Examples

/-- Shard 0 has a dead target and a flag with a blank, and shard 1 is to move from `a` to `b`. -/
def halfMoved : ClusterState :=
  ofRecords [lit "b", lit "a"] [⟨lit "x", lit "a", [lit " pinned"]⟩, ⟨lit "b", lit "a", []⟩]

theorem handover_completes_halfMoved : ∃ settled,
    allShardsHaveMatchingCurrentAndTarget twoShards settled = true ∧
      (settled.shard 1).targetNode = (settled.shard 1).currentNode ∧
      ∀ node, settled.hasNode node = true → claimShardsForNode settled node = [] := by
  have hids : ∀ shardID ∈ shardIDs twoShards, (halfMoved.shard shardID).hasFlag pinned = false := by
    decide
  have hplan : calcReassignShardTargetNodes twoShards halfMoved [0] 0 =
      some [(0, ⟨⟨lit "a", lit "a", [lit " pinned"]⟩, 1⟩)] := by decide
  have haddresses : ∀ node ∈ halfMoved.nodes.keys, node ≠ [] ∧ CleanAddress node := by decide
  have hrecords : ∀ entry ∈ halfMoved.shards.entries, CleanAddress entry.2.targetNode ∧
      CleanAddress entry.2.currentNode ∧ ∀ flag ∈ entry.2.flags, comma ∉ flag := by decide
  obtain ⟨⟨claimed, hclaimed⟩, hrest⟩ := handover_completes twoShards halfMoved (by decide)
    (fun node hnode => haddresses node (AList.mem_keys.mp (AList.lookup_isSome.mp hnode)))
    (fun shardID info hlookup => by
      obtain ⟨htarget, hcurrent, hflags⟩ := hrecords _ (AList.mem_lookup_iff.mp hlookup)
      exact ⟨htarget, hcurrent, hflags⟩)
    (fun shardID hvalid hflag => by
      rw [hids shardID (mem_shardIDs.mpr hvalid)] at hflag
      contradiction) [0] 0 _ hplan _ (fullyStored_stored halfMoved _)
  obtain ⟨⟨released, hreleased⟩, hrest⟩ := hrest claimed hclaimed
  obtain ⟨⟨settled, hsettled⟩, hrest⟩ := hrest released hreleased
  obtain ⟨hmatch, hall, -, hidle⟩ := hrest settled hsettled
  have hkeys : ∀ shardID ∈ halfMoved.shards.keys, twoShards.ValidShard shardID := by decide
  exact ⟨settled, hall fun shardID hmem => hkeys shardID (AList.mem_keys.mp hmem),
    (hmatch 1 (by decide)).1, fun node hnode => (hidle node hnode).1⟩

/-- Both shards belong to `a` and have no target, and there is a node with the empty address. -/
def ownedWithoutTarget : ClusterState :=
  ofRecords [lit "a", []] [⟨[], lit "a", []⟩, ⟨[], lit "a", []⟩]

/-- The empty target counts as live, so it is not replaced, and nobody may claim or release. -/
theorem empty_address_stops_handover :
    sortedNodes ownedWithoutTarget ≠ [] ∧
    (∀ shardID, twoShards.ValidShard shardID →
      (ownedWithoutTarget.shard shardID).hasFlag pinned = false) ∧
    calcReassignShardTargetNodes twoShards ownedWithoutTarget [] 0 = some [] ∧
    ownedWithoutTarget.FullyStored [] ownedWithoutTarget ∧
    (claimPass ownedWithoutTarget).Ends ownedWithoutTarget ownedWithoutTarget ∧
    (releasePass ownedWithoutTarget).Ends ownedWithoutTarget ownedWithoutTarget ∧
    (ownedWithoutTarget.shard 0).targetNode ≠ (ownedWithoutTarget.shard 0).currentNode := by
  have hclaim : ∀ node ∈ liveNodes ownedWithoutTarget,
      claimShardsForNode ownedWithoutTarget node = [] := by decide
  have hrelease : ∀ node ∈ liveNodes ownedWithoutTarget,
      releaseShardsForNode ownedWithoutTarget node (fun _ => 0) = [] := by decide
  have hids : ∀ shardID ∈ shardIDs twoShards,
      (ownedWithoutTarget.shard shardID).hasFlag pinned = false := by decide
  exact ⟨by decide, fun shardID hvalid => hids shardID (mem_shardIDs.mpr hvalid), by decide,
    fullyStored_stored ownedWithoutTarget [], Sweep.ends_of_idle hclaim,
    Sweep.ends_of_idle hrelease, by decide⟩

end Examples
end Goverse.Consensus
