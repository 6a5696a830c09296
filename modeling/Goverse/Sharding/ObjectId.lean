import Goverse.GoString

/-! Object IDs: the parser of `util/objectid`, the shard of an ID, the shard lock an operation on
an ID takes, and the IDs `util/uniqueid` makes. -/
namespace Goverse.Sharding

open GoString

inductive ObjectIDType where
  | regular | fixedShard | fixedNode
  deriving DecidableEq, Repr

structure ParsedObjectID where
  type : ObjectIDType
  fullID : GoString
  shardID : Int
  nodeAddress : GoString
  objectPart : GoString
  deriving DecidableEq, Repr

def ParsedObjectID.isFixedNodeFormat (parsed : ParsedObjectID) : Bool :=
  parsed.type = .fixedNode

/-- One constructor for each `fmt.Errorf` of the parser, with the values it prints. -/
inductive ParseError where
  | emptyObjectID
  | shardWithoutNumber (objectID : GoString)
  | invalidShardNumber (objectID shardIDStr : GoString)
  | emptyNodeAddress (objectID : GoString)
  | shardWithoutSlash (objectID : GoString)
  | shardOutOfRange (objectID : GoString) (shardID : Int) (numShards : Nat)
  deriving DecidableEq, Repr

def shardPrefix : GoString := lit "shard#"

def parseObjectID (objectID : GoString) : Except ParseError ParsedObjectID :=
  if objectID = [] then .error .emptyObjectID
  else if objectID.contains slash then
    match objectID.cut slash with
    | (head, objectPart) =>
      if hasPrefix head shardPrefix then
        if head.length ≤ shardPrefix.length then .error (.shardWithoutNumber objectID)
        else
          match atoi (head.drop shardPrefix.length) with
          | none => .error (.invalidShardNumber objectID (head.drop shardPrefix.length))
          | some shardID => .ok ⟨.fixedShard, objectID, shardID, [], objectPart⟩
      else if head = [] then .error (.emptyNodeAddress objectID)
      else .ok ⟨.fixedNode, objectID, 0, head, objectPart⟩
  else if hasPrefix objectID shardPrefix then .error (.shardWithoutSlash objectID)
  else .ok ⟨.regular, objectID, 0, [], objectID⟩

def validateObjectID (objectID : GoString) (numShards : Nat) :
    Except ParseError ParsedObjectID :=
  match parseObjectID objectID with
  | .error e => .error e
  | .ok parsed =>
    if parsed.type = .fixedShard ∧ (parsed.shardID < 0 ∨ numShards ≤ parsed.shardID) then
      .error (.shardOutOfRange objectID parsed.shardID numShards)
    else .ok parsed

/-- The 32-bit FNV-1a hash. -/
def fnv32a (bytes : GoString) : UInt32 :=
  bytes.foldl (fun hash b => (hash ^^^ UInt32.ofNat b.toNat) * 16777619) 2166136261

def fixedShardOf (objectID : GoString) (numShards : Nat) : Option Int :=
  if hasPrefix objectID shardPrefix ∧ 6 < objectID.index slash then
    (atoi ((objectID.take (objectID.index slash).toNat).drop 6)).filter fun shardID =>
      0 ≤ shardID ∧ shardID < numShards
  else none

def getShardID (objectID : GoString) (numShards : Nat) : Int :=
  (fixedShardOf objectID numShards).getD ((fnv32a objectID).toNat % numShards : Nat)

def shardLockKey (shardID : Int) : GoString := itoa shardID

/-- The key whose read lock `ShardLock.AcquireRead` takes; none for an ID with a slash. -/
def acquireRead (numShards : Nat) (objectID : GoString) : Option GoString :=
  if objectID.contains slash then none else some (shardLockKey (getShardID objectID numShards))

/-- Everything the parser can return. -/
inductive Parsed (objectID : GoString) : ParsedObjectID → Prop
  | regular (hslash : slash ∉ objectID) : Parsed objectID ⟨.regular, objectID, 0, [], objectID⟩
  | fixedShard {shardID : Int} (hslash : slash ∈ objectID)
      (hhead : hasPrefix (objectID.cut slash).1 shardPrefix = true)
      (hlength : shardPrefix.length < (objectID.cut slash).1.length)
      (hnumber : atoi ((objectID.cut slash).1.drop shardPrefix.length) = some shardID) :
      Parsed objectID ⟨.fixedShard, objectID, shardID, [], (objectID.cut slash).2⟩
  | fixedNode (hslash : slash ∈ objectID) (hne : (objectID.cut slash).1 ≠ []) :
      Parsed objectID ⟨.fixedNode, objectID, 0, (objectID.cut slash).1, (objectID.cut slash).2⟩

theorem parseObjectID_cases {objectID : GoString} {parsed : ParsedObjectID}
    (h : parseObjectID objectID = .ok parsed) : Parsed objectID parsed := by
  unfold parseObjectID at h
  split at h
  · contradiction
  · split at h
    · rename_i hslash
      rw [List.contains_iff_mem] at hslash
      dsimp only at h
      split at h
      · rename_i hhead
        split at h
        · contradiction
        · rename_i hlength
          split at h
          · contradiction
          · rename_i shardID hnumber
            cases h
            exact .fixedShard hslash hhead (Nat.lt_of_not_le hlength) hnumber
      · split at h
        · contradiction
        · rename_i hne
          cases h
          exact .fixedNode hslash hne
    · rename_i hslash
      rw [List.contains_iff_mem] at hslash
      split at h
      · contradiction
      · cases h
        exact .regular hslash

theorem validateObjectID_ok {objectID : GoString} {numShards : Nat} {parsed : ParsedObjectID}
    (h : validateObjectID objectID numShards = .ok parsed) : Parsed objectID parsed ∧
      (parsed.type = .fixedShard → 0 ≤ parsed.shardID ∧ parsed.shardID < numShards) := by
  unfold validateObjectID at h
  split at h
  · contradiction
  · rename_i other hother
    split at h
    · contradiction
    · rename_i hrange
      cases h
      refine ⟨parseObjectID_cases hother, fun htype => ?_⟩
      rw [not_and, not_or] at hrange
      have := hrange htype
      omega

theorem contains_slash_of_validateObjectID {objectID : GoString} {numShards : Nat}
    {parsed : ParsedObjectID} (h : validateObjectID objectID numShards = .ok parsed) :
    objectID.contains slash = true ↔ parsed.type ≠ .regular := by
  rw [List.contains_iff_mem]
  cases (validateObjectID_ok h).1 with
  | regular hslash => exact iff_of_false hslash (by simp)
  | fixedShard hslash => exact iff_of_true hslash (by simp)
  | fixedNode hslash => exact iff_of_true hslash (by simp)

private theorem fixedShardOf_eq {objectID : GoString} (hslash : slash ∈ objectID)
    (numShards : Nat) : fixedShardOf objectID numShards =
      if hasPrefix objectID shardPrefix ∧ 6 < (objectID.cut slash).1.length then
        (atoi ((objectID.cut slash).1.drop 6)).filter fun (shardID : Int) =>
          0 ≤ shardID ∧ shardID < numShards
      else none := by
  have htake : objectID.take (objectID.idxOf slash) = (objectID.cut slash).1 := by
    rw [cut, List.takeWhile_eq_take_findIdx_not, List.idxOf]
    simp [bne]
  have hlength : (objectID.cut slash).1.length = objectID.idxOf slash := by
    rw [← htake, List.length_take]
    exact Nat.min_eq_left (Nat.le_of_lt (List.idxOf_lt_length_of_mem hslash))
  have hindex : objectID.index slash = (objectID.idxOf slash : Int) := by
    rw [index, if_pos hslash]
  rw [fixedShardOf, hindex, Int.toNat_natCast, htake, hlength]
  simp

theorem getShardID_of_validateObjectID {objectID : GoString} {numShards : Nat}
    {parsed : ParsedObjectID} (h : validateObjectID objectID numShards = .ok parsed)
    (htype : parsed.type = .fixedShard) : getShardID objectID numShards = parsed.shardID := by
  obtain ⟨hparsed, hrange⟩ := validateObjectID_ok h
  have hrange := hrange htype
  cases hparsed with
  | regular | fixedNode => contradiction
  | fixedShard hslash hhead hlength hnumber =>
    have hbelow : hasPrefix objectID shardPrefix = true :=
      List.isPrefixOf_iff_prefix.mpr
        ((List.isPrefixOf_iff_prefix.mp hhead).trans (List.takeWhile_prefix _))
    rw [getShardID, fixedShardOf_eq hslash, if_pos ⟨hbelow, hlength⟩]
    rw [show shardPrefix.length = 6 from rfl] at hnumber
    rw [hnumber, Option.filter_some, if_pos (decide_eq_true hrange)]
    rfl

theorem getShardID_mem_range {numShards : Nat} (hn : 0 < numShards) (objectID : GoString) :
    0 ≤ getShardID objectID numShards ∧ getShardID objectID numShards < numShards := by
  unfold getShardID
  cases hfixed : fixedShardOf objectID numShards with
  | none =>
    have := Nat.mod_lt (fnv32a objectID).toNat hn
    simp only [Option.getD_none]
    omega
  | some shardID =>
    unfold fixedShardOf at hfixed
    split at hfixed
    · obtain ⟨-, hrange⟩ := Option.filter_eq_some_iff.mp hfixed
      simpa using hrange
    · contradiction

/-! ### IDs with a shard -/

@[simp] theorem cut_append {head : GoString} (h : slash ∉ head) (rest : GoString) :
    cut (head ++ slash :: rest) slash = (head, rest) := by
  have hhead : ∀ b ∈ head, (b != slash) = true :=
    fun b hb => bne_iff_ne.mpr fun heq => h (heq ▸ hb)
  rw [cut, List.takeWhile_append_of_pos hhead, List.dropWhile_append_of_pos hhead]
  simp

theorem validateObjectID_fixedShard {numShards : Nat} (hint : numShards < 2 ^ 63) {shardID : Int}
    (hmin : 0 ≤ shardID) (hmax : shardID < numShards) (objectPart : GoString) :
    validateObjectID (shardPrefix ++ itoa shardID ++ slash :: objectPart) numShards =
      .ok ⟨.fixedShard, shardPrefix ++ itoa shardID ++ slash :: objectPart, shardID, [],
        objectPart⟩ := by
  obtain ⟨n, rfl⟩ := Int.eq_ofNat_of_zero_le hmin
  have hslash : slash ∉ shardPrefix ++ itoa n := by
    rw [List.mem_append, not_or]
    exact ⟨by decide, fun h => absurd (isDigit_of_mem_formatNat h) (by decide)⟩
  have hcut := cut_append hslash objectPart
  have hhead : hasPrefix (shardPrefix ++ itoa n) shardPrefix = true :=
        hasPrefix_append _ _
  have hlength : ¬ (shardPrefix ++ itoa n).length ≤ shardPrefix.length := by
    have := List.length_pos_iff.mpr (formatNat_ne_nil n)
    rw [List.length_append]
    change ¬ _ + (formatNat n).length ≤ _
    omega
  have hnumber : atoi (itoa n) = some (n : Int) := atoi_itoa (by omega)
  have hparse : parseObjectID (shardPrefix ++ itoa n ++ slash :: objectPart) = .ok
      ⟨.fixedShard, shardPrefix ++ itoa n ++ slash :: objectPart, n, [], objectPart⟩ := by
    rw [parseObjectID, if_neg (by simp), if_pos (by simp), hcut]
    dsimp only
    rw [if_pos hhead, if_neg hlength, List.drop_left, hnumber]
  rw [validateObjectID, hparse]
  exact if_neg (by simp; omega)

end Goverse.Sharding
