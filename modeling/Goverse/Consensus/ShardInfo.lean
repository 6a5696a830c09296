import Goverse.GoString

/-! The record of a shard and its text in etcd. -/
namespace Goverse.Consensus

open GoString

/-- A shard's record without the revision it was read at. -/
structure ShardRecord where
  targetNode : GoString
  currentNode : GoString
  flags : List GoString
  deriving DecidableEq, Repr

structure ShardInfo extends ShardRecord where
  modRevision : Nat
  deriving DecidableEq, Repr

namespace ShardInfo

/-- The zero value, which a Go map gives for a missing shard. -/
def zero : ShardInfo := ⟨⟨[], [], []⟩, 0⟩

def hasFlag (info : ShardInfo) (flag : GoString) : Bool := info.flags.contains flag

def withCurrentNode (info : ShardInfo) (node : GoString) : ShardInfo :=
  { info with currentNode := node }

def withTargetNode (info : ShardInfo) (node : GoString) : ShardInfo :=
  { info with targetNode := node }

end ShardInfo

def pinned : GoString := lit "pinned"

def flagPrefix : GoString := lit "f="

/-- The variables of `parseShardInfo`'s loop over the parts of a value. -/
structure Scan where
  record : ShardRecord
  nodePartCount : Nat

def Scan.part (scan : Scan) (part : GoString) : Scan :=
  if hasPrefix (trimSpace part) flagPrefix then
    let flagValue := (trimSpace part).drop flagPrefix.length
    if flagValue ≠ [] then
      { scan with record.flags := scan.record.flags ++ [flagValue] }
    else scan
  else
    match scan.nodePartCount with
    | 0 => { record.targetNode := trimSpace part, record.currentNode := scan.record.currentNode,
             record.flags := scan.record.flags, nodePartCount := 1 }
    | 1 => { record.targetNode := scan.record.targetNode, record.currentNode := trimSpace part,
             record.flags := scan.record.flags, nodePartCount := 2 }
    | _ => scan

def parseRecord (value : GoString) : ShardRecord :=
  ((value.splitOn comma).foldl Scan.part ⟨⟨[], [], []⟩, 0⟩).record

def parseShardInfo (value : GoString) (modRevision : Nat) : ShardInfo :=
  ⟨parseRecord value, modRevision⟩

def formatShardInfo (info : ShardRecord) : GoString :=
  info.flags.foldl (fun result flag =>
    if trimSpace flag ≠ [] then result ++ lit ",f=" ++ trimSpace flag else result)
    (info.targetNode ++ [comma] ++ info.currentNode)

/-- An address that survives being a part of a value: no comma, no outer white space, no
`f=` in front. The empty string stands for no node. -/
def CleanAddress (address : GoString) : Prop :=
  comma ∉ address ∧ trimSpace address = address ∧ hasPrefix address flagPrefix = false

def CleanFlag (flag : GoString) : Prop :=
  flag ≠ [] ∧ comma ∉ flag ∧ trimSpace flag = flag

instance (address : GoString) : Decidable (CleanAddress address) := by
  unfold CleanAddress
  infer_instance

instance (flag : GoString) : Decidable (CleanFlag flag) := by
  unfold CleanFlag
  infer_instance

structure ShardRecord.WellFormed (record : ShardRecord) : Prop where
  target : CleanAddress record.targetNode
  current : CleanAddress record.currentNode
  flags : ∀ flag ∈ record.flags, CleanFlag flag

instance (record : ShardRecord) : Decidable record.WellFormed :=
  decidable_of_iff (_ ∧ _ ∧ _)
    ⟨fun h => ⟨h.1, h.2.1, h.2.2⟩, fun h => ⟨h.target, h.current, h.flags⟩⟩

/-- A record that a value can hold. A flag may have outer white space. -/
structure ShardRecord.Readable (record : ShardRecord) : Prop where
  target : CleanAddress record.targetNode
  current : CleanAddress record.currentNode
  flags : ∀ flag ∈ record.flags, comma ∉ flag

theorem cleanAddress_nil : CleanAddress [] := by decide

theorem ShardInfo.zero_wellFormed : ShardInfo.zero.WellFormed :=
  ⟨cleanAddress_nil, cleanAddress_nil, by simp [ShardInfo.zero]⟩

private theorem formatShardInfo_eq_intercalate {record : ShardRecord} (h : record.WellFormed) :
    formatShardInfo record = [comma].intercalate
      (record.targetNode :: record.currentNode :: record.flags.map (flagPrefix ++ ·)) := by
  have hflags : ∀ (flags : List GoString) (result : GoString),
      (∀ flag ∈ flags, CleanFlag flag) →
      flags.foldl (fun result flag =>
        if trimSpace flag ≠ [] then result ++ lit ",f=" ++ trimSpace flag else result) result =
      result ++ (flags.map fun flag => comma :: (flagPrefix ++ flag)).flatten := by
    intro flags
    induction flags with
    | nil => simp
    | cons flag flags ih =>
      intro result hclean
      obtain ⟨hne, -, htrim⟩ := hclean flag List.mem_cons_self
      rw [List.foldl_cons, htrim, if_pos hne,
        ih _ fun other hother => hclean other (List.mem_cons_of_mem _ hother)]
      simp [show lit ",f=" = comma :: flagPrefix from rfl]
  have htail : ∀ (parts : List GoString) (head : GoString),
      [comma].intercalate (head :: parts) = head ++ (parts.map (comma :: ·)).flatten := by
    intro parts
    induction parts with
    | nil => simp [List.intercalate]
    | cons part parts ih =>
      intro head
      rw [List.intercalate_cons_cons, ih]
      simp
  rw [formatShardInfo, hflags _ _ h.flags, htail]
  simp [List.map_map, Function.comp_def]

private theorem foldl_part_flags {flags : List GoString} (hclean : ∀ flag ∈ flags, CleanFlag flag)
    (scan : Scan) : (flags.map (flagPrefix ++ ·)).foldl Scan.part scan =
      { scan with record.flags := scan.record.flags ++ flags } := by
  induction flags generalizing scan with
  | nil => simp
  | cons flag flags ih =>
    obtain ⟨hne, -, htrim⟩ := hclean flag List.mem_cons_self
    have hpart : scan.part (flagPrefix ++ flag) =
        { scan with record.flags := scan.record.flags ++ [flag] } := by
      have htext : trimSpace (flagPrefix ++ flag) = flagPrefix ++ flag := trimSpace_flag htrim
      have hflag : hasPrefix (flagPrefix ++ flag) flagPrefix = true :=
        hasPrefix_append _ _
      rw [Scan.part, htext, if_pos hflag, List.drop_left]
      simp [hne]
    rw [List.map_cons, List.foldl_cons, hpart,
      ih fun other hother => hclean other (List.mem_cons_of_mem _ hother)]
    simp

@[simp] theorem parseRecord_formatShardInfo {record : ShardRecord} (h : record.WellFormed) :
    parseRecord (formatShardInfo record) = record := by
  have hparts : (formatShardInfo record).splitOn comma =
      record.targetNode :: record.currentNode :: record.flags.map (flagPrefix ++ ·) := by
    rw [formatShardInfo_eq_intercalate h]
    refine List.splitOn_intercalate comma ?_ (by simp)
    intro part hpart
    simp only [List.mem_cons, List.mem_map] at hpart
    rcases hpart with rfl | rfl | ⟨flag, hflag, rfl⟩
    · exact h.target.1
    · exact h.current.1
    · have := (h.flags flag hflag).2.1
      simpa [show flagPrefix = [102, 61] from rfl, show comma = 44 from rfl] using this
  rw [parseRecord, hparts, List.foldl_cons, List.foldl_cons, foldl_part_flags h.flags]
  simp [Scan.part, h.target.2.1, h.target.2.2, h.current.2.1, h.current.2.2]

private theorem notMem_of_mem_splitOn {value part : GoString} (h : part ∈ value.splitOn comma) :
    comma ∉ part := by
  induction value generalizing part with
  | nil =>
    rw [List.mem_singleton.mp h]
    exact List.not_mem_nil
  | cons b value ih =>
    rw [List.splitOn, List.splitOnP_cons_eq_if_modifyHead] at h
    split at h
    · rcases List.mem_cons.mp h with rfl | h
      · exact List.not_mem_nil
      · exact ih h
    · rename_i hb
      cases hparts : value.splitOnP (· == comma) with
      | nil =>
        rw [hparts] at h
        contradiction
      | cons first rest =>
        have hfirst : first ∈ value.splitOn comma := by
          rw [List.splitOn, hparts]
          exact List.mem_cons_self
        rw [hparts, List.modifyHead_cons] at h
        rcases List.mem_cons.mp h with rfl | hrest
        · rw [List.mem_cons, not_or]
          exact ⟨fun hsame => hb (beq_iff_eq.mpr hsame.symm), ih hfirst⟩
        · apply ih
          rw [List.splitOn, hparts]
          exact List.mem_cons_of_mem _ hrest

theorem mem_flags {value flag : GoString} : flag ∈ (parseRecord value).flags ↔
    flag ≠ [] ∧ ∃ part ∈ value.splitOn comma, trimSpace part = flagPrefix ++ flag := by
  have hfold : ∀ (parts : List GoString) (scan : Scan),
      flag ∈ (parts.foldl Scan.part scan).record.flags ↔ flag ∈ scan.record.flags ∨
        flag ≠ [] ∧ ∃ part ∈ parts, trimSpace part = flagPrefix ++ flag := by
    intro parts
    induction parts with
    | nil => simp
    | cons part parts ih =>
      intro scan
      have hpart : flag ∈ (scan.part part).record.flags ↔ flag ∈ scan.record.flags ∨
          flag ≠ [] ∧ trimSpace part = flagPrefix ++ flag := by
        unfold Scan.part
        split
        · rename_i hflag
          obtain ⟨rest, hrest⟩ := List.isPrefixOf_iff_prefix.mp hflag
          rw [← hrest, List.drop_left]
          by_cases hempty : rest = []
          · simp [hempty]
          · simp only [ne_eq, hempty, not_false_eq_true, if_true, List.mem_append,
              List.mem_singleton, List.append_cancel_left_eq]
            exact or_congr_right ⟨fun h => ⟨h ▸ hempty, h.symm⟩, fun h => h.2.symm⟩
        · rename_i hnode
          have hother : trimSpace part ≠ flagPrefix ++ flag := fun h =>
            hnode (h ▸ hasPrefix_append _ _)
          split <;> simp [hother]
      rw [List.foldl_cons, ih, hpart, List.exists_mem_cons_iff, and_or_left, or_assoc]
  rw [parseRecord, hfold]
  simp

theorem parseRecord_readable (value : GoString) : (parseRecord value).Readable := by
  have hcomma : ∀ part ∈ value.splitOn comma, comma ∉ trimSpace part :=
    fun part hpart h => notMem_of_mem_splitOn hpart (mem_of_mem_trimSpace h)
  have hfold : ∀ (parts : List GoString) (scan : Scan), (∀ part ∈ parts, comma ∉ trimSpace part) →
      CleanAddress scan.record.targetNode → CleanAddress scan.record.currentNode →
      CleanAddress (parts.foldl Scan.part scan).record.targetNode ∧
        CleanAddress (parts.foldl Scan.part scan).record.currentNode := by
    intro parts
    induction parts with
    | nil => exact fun scan _ htarget hcurrent => ⟨htarget, hcurrent⟩
    | cons part parts ih =>
      intro scan hparts htarget hcurrent
      rw [List.forall_mem_cons] at hparts
      rw [List.foldl_cons]
      unfold Scan.part
      split
      · dsimp only
        split
        · exact ih _ hparts.2 htarget hcurrent
        · exact ih _ hparts.2 htarget hcurrent
      · rename_i hnode
        have hpart : CleanAddress (trimSpace part) :=
          ⟨hparts.1, trimSpace_trimSpace part, Bool.eq_false_iff.mpr hnode⟩
        split
        · exact ih _ hparts.2 hpart hcurrent
        · exact ih _ hparts.2 htarget hpart
        · exact ih _ hparts.2 htarget hcurrent
  obtain ⟨htarget, hcurrent⟩ := hfold (value.splitOn comma) ⟨⟨[], [], []⟩, 0⟩ hcomma
    cleanAddress_nil cleanAddress_nil
  refine ⟨htarget, hcurrent, fun flag hflag => ?_⟩
  obtain ⟨-, part, hpart, htrim⟩ := mem_flags.mp hflag
  exact fun h => hcomma part hpart (htrim ▸ List.mem_append_right _ h)

/-- No part of the value is `f=` followed by white space, without its own outer white space. -/
def Gapless (value : GoString) : Prop :=
  ∀ part ∈ value.splitOn comma, ∀ space ∈ spaces, ¬ flagPrefix ++ space <+: trimSpace part

instance (value : GoString) : Decidable (Gapless value) := by
  unfold Gapless
  infer_instance

theorem gapless_iff {value : GoString} :
    Gapless value ↔ ∀ flag ∈ (parseRecord value).flags, trimSpace flag = flag := by
  constructor
  · intro h flag hflag
    obtain ⟨-, part, hpart, htrim⟩ := mem_flags.mp hflag
    refine trimSpace_eq_self_iff.mpr fun space hspace => ⟨fun hmatch => ?_, fun hmatch => ?_⟩
    · apply h part hpart space hspace
      rw [htrim]
      exact (List.prefix_append_right_inj _).mpr hmatch
    · apply not_suffix_trimSpace part space hspace
      rw [htrim]
      exact hmatch.trans (List.suffix_append _ _)
  · rintro h part hpart space hspace ⟨rest, hrest⟩
    have hne : space ≠ [] := by
      rintro rfl
      exact absurd hspace (by decide)
    have hflag : space ++ rest ∈ (parseRecord value).flags :=
      mem_flags.mpr ⟨by simp [hne], part, hpart, by rw [← hrest, List.append_assoc]⟩
    exact (trimSpace_eq_self_iff.mp (h _ hflag) space hspace).1 (List.prefix_append _ _)

theorem parseRecord_wellFormed {value : GoString} (h : Gapless value) :
    (parseRecord value).WellFormed := by
  obtain ⟨htarget, hcurrent, hflags⟩ := parseRecord_readable value
  exact ⟨htarget, hcurrent, fun flag hflag =>
    ⟨(mem_flags.mp hflag).1, hflags flag hflag, gapless_iff.mp h flag hflag⟩⟩

theorem shard_records_survive_storage (info : ShardInfo) (h : info.WellFormed) :
    parseShardInfo (formatShardInfo info.toShardRecord) info.modRevision = info := by
  rw [parseShardInfo, parseRecord_formatShardInfo h]

/-- A shard without an owner and with a flag that starts with `f=`, twice. -/
theorem shard_records_survive_storage_unclaimed :
    (ShardInfo.mk ⟨lit "a:1", [], [lit "f=x", lit "f=x"]⟩ 7).WellFormed ∧
      parseShardInfo (formatShardInfo ⟨lit "a:1", [], [lit "f=x", lit "f=x"]⟩) 7 =
        ⟨⟨lit "a:1", [], [lit "f=x", lit "f=x"]⟩, 7⟩ := by
  have hwell : (ShardInfo.mk ⟨lit "a:1", [], [lit "f=x", lit "f=x"]⟩ 7).WellFormed :=
    ⟨by decide, by decide, by decide⟩
  exact ⟨hwell, shard_records_survive_storage _ hwell⟩

/-! ### Rewriting a stored value -/

/-- The record that `formatShardInfo` writes: the parser keeps white space after `f=`, and the
formatter drops it. -/
def ShardRecord.trimmed (record : ShardRecord) : ShardRecord :=
  { record with flags := (record.flags.map trimSpace).filter (· ≠ []) }

@[simp] theorem formatShardInfo_trimmed (record : ShardRecord) :
    formatShardInfo record.trimmed = formatShardInfo record := by
  rw [formatShardInfo, formatShardInfo, ShardRecord.trimmed, List.foldl_filter, List.foldl_map]
  refine List.foldl_ext _ _ _ fun result flag _ => ?_
  rw [trimSpace_trimSpace]
  by_cases hflag : trimSpace flag = []
  · simp [hflag]
  · simp [hflag]

theorem parseRecord_formatShardInfo_trimmed {record : ShardRecord} (h : record.Readable) :
    parseRecord (formatShardInfo record) = record.trimmed := by
  have hwell : record.trimmed.WellFormed := by
    refine ⟨h.target, h.current, fun flag hflag => ?_⟩
    obtain ⟨hmem, hne⟩ := List.mem_filter.mp hflag
    obtain ⟨raw, hraw, rfl⟩ := List.mem_map.mp hmem
    exact ⟨of_decide_eq_true hne, fun h' => h.flags raw hraw (mem_of_mem_trimSpace h'),
      trimSpace_trimSpace raw⟩
  rw [← formatShardInfo_trimmed, parseRecord_formatShardInfo hwell]

theorem ShardRecord.Readable.withCurrentNode {info : ShardInfo} (h : info.Readable)
    {node : GoString} (hnode : CleanAddress node) : (info.withCurrentNode node).Readable :=
  ⟨h.target, hnode, h.flags⟩

namespace ShardInfo

/-- What is read of a record once it is stored. -/
def reread (info : ShardInfo) : ShardInfo :=
  parseShardInfo (formatShardInfo info.toShardRecord) info.modRevision

variable {info : ShardInfo}

theorem zero_readable : zero.Readable := ⟨cleanAddress_nil, cleanAddress_nil, nofun⟩

theorem reread_readable (info : ShardInfo) : info.reread.Readable := parseRecord_readable _

theorem reread_targetNode (h : info.Readable) : info.reread.targetNode = info.targetNode := by
  rw [reread, parseShardInfo, parseRecord_formatShardInfo_trimmed h, ShardRecord.trimmed]

theorem reread_currentNode (h : info.Readable) : info.reread.currentNode = info.currentNode := by
  rw [reread, parseShardInfo, parseRecord_formatShardInfo_trimmed h, ShardRecord.trimmed]

end ShardInfo

theorem trimmed_flags_eq_iff {record : ShardRecord} (hflags : ∀ flag ∈ record.flags, flag ≠ []) :
    record.trimmed.flags = record.flags ↔ ∀ flag ∈ record.flags, trimSpace flag = flag := by
  constructor
  · intro h flag hflag
    rw [← h] at hflag
    obtain ⟨raw, -, rfl⟩ := List.mem_map.mp (List.mem_filter.mp hflag).1
    exact trimSpace_trimSpace raw
  · intro h
    have hmap : record.flags.map trimSpace = record.flags :=
      (List.map_congr_left h).trans (List.map_id _)
    rw [ShardRecord.trimmed, hmap]
    exact List.filter_eq_self.mpr fun flag hflag => decide_eq_true (hflags flag hflag)

/-- A value keeps its meaning when it is read and written again, and its flags when a node takes,
leaves or is assigned the shard, unless it has white space between an `f=` and a flag. -/
theorem rewriting_keeps_the_record_iff (value : GoString) :
    (parseRecord (formatShardInfo (parseRecord value)) = parseRecord value ↔ Gapless value) ∧
    ∀ rev node, CleanAddress node →
      ((parseRecord (formatShardInfo
          ((parseShardInfo value rev).withCurrentNode node).toShardRecord)).flags =
          (parseRecord value).flags ↔ Gapless value) ∧
      ((parseRecord (formatShardInfo
          ((parseShardInfo value rev).withTargetNode node).toShardRecord)).flags =
          (parseRecord value).flags ↔ Gapless value) := by
  have hread := parseRecord_readable value
  have hflags : (parseRecord value).trimmed.flags = (parseRecord value).flags ↔ Gapless value := by
    rw [gapless_iff]
    exact trimmed_flags_eq_iff fun flag hflag => (mem_flags.mp hflag).1
  refine ⟨?_, fun rev node hnode => ⟨?_, ?_⟩⟩
  · rw [parseRecord_formatShardInfo_trimmed hread, ← hflags]
    exact ⟨congrArg ShardRecord.flags,
      congrArg fun flags => { parseRecord value with flags := flags }⟩
  · rw [parseRecord_formatShardInfo_trimmed ⟨by exact hread.target, hnode, by exact hread.flags⟩]
    exact hflags
  · rw [parseRecord_formatShardInfo_trimmed ⟨hnode, by exact hread.current, by exact hread.flags⟩]
    exact hflags

/-- A hand-written record, with white space everywhere but after an `f=`, taken by `b`. -/
theorem rewriting_keeps_the_record_iff_spaced :
    Gapless (lit " f=pinned , a ,,f= ") ∧
      (parseRecord (formatShardInfo ((parseShardInfo (lit " f=pinned , a ,,f= ") 3).withCurrentNode
        (lit "b")).toShardRecord)).flags = [pinned] := by
  have hgapless : Gapless (lit " f=pinned , a ,,f= ") := by decide
  have hrewrite := (rewriting_keeps_the_record_iff (lit " f=pinned , a ,,f= ")).2 3 (lit "b")
    (by decide)
  exact ⟨hgapless, (hrewrite.1.mpr hgapless).trans (by decide)⟩

/-- A flag was written with a space after `f=`. The shard is not pinned; when its record is
written again it is. -/
theorem rewriting_pins_a_shard :
    (parseShardInfo (lit "a,a,f= pinned") 1).hasFlag pinned = false ∧
      (parseShardInfo (formatShardInfo (parseRecord (lit "a,a,f= pinned"))) 2).hasFlag pinned =
        true := by
  decide

end Goverse.Consensus
