import Goverse.Lib.Base64
import Goverse.Sharding.ObjectId

/-! The IDs of `util/uniqueid`, with the encoder that `UniqueId` writes its sixteen bytes to. The
result is taken from the buffer before the deferred `Close` runs, so a byte is missing from it.
An ID that is made for a shard ends in one of these. -/
namespace Goverse.UniqueId

open GoString Sharding Lib

def base64Alphabet : GoString :=
  lit "ABCDEFGHIJKLMNOPQRSTUVWXYZabcdefghijklmnopqrstuvwxyz0123456789-_"

/-- `base64.URLEncoding` -/
def urlEncoding : Base64 UInt8 where
  digit i := base64Alphabet.getD i 0
  padding := 61
  digit_injective := by decide +kernel

/-- `binary.BigEndian.PutUint64` -/
def putUint64 (ts : UInt64) : List UInt8 :=
  (List.range 8).map fun i => UInt8.ofNat (ts.toNat >>> (8 * (7 - i)))

def block (ts : UInt64) (random : Fin 8 → UInt8) : List UInt8 :=
  putUint64 ts ++ List.ofFn random

/-- The encoder of `UniqueId` when the result is taken. -/
def encoder (ts : UInt64) (random : Fin 8 → UInt8) : Base64.Encoder UInt8 :=
  Base64.Encoder.new.write urlEncoding (block ts random)

def uniqueId (ts : UInt64) (random : Fin 8 → UInt8) : GoString := (encoder ts random).out

/-- What is in the buffer after the deferred `Close`, when nobody reads it any more. -/
def closed (ts : UInt64) (random : Fin 8 → UInt8) : GoString :=
  (encoder ts random).close urlEncoding

variable (ts ts' : UInt64) (random random' : Fin 8 → UInt8)

private theorem eq_of_bytes_eq {k m n : Nat} (hm : m < 256 ^ k) (hn : n < 256 ^ k)
    (h : ∀ i < k, m / 256 ^ i % 256 = n / 256 ^ i % 256) : m = n := by
  induction k generalizing m n with
  | zero => omega
  | succ k ih =>
    have hlow : m % 256 = n % 256 := by simpa using h 0 (by omega)
    have hhigh : m / 256 = n / 256 := by
      apply ih (Nat.div_lt_of_lt_mul (by omega)) (Nat.div_lt_of_lt_mul (by omega))
      intro i hi
      rw [Nat.div_div_eq_div_mul, Nat.div_div_eq_div_mul, ← Nat.pow_succ']
      exact h (i + 1) (by omega)
    omega

@[simp] theorem putUint64_inj {ts ts' : UInt64} : putUint64 ts = putUint64 ts' ↔ ts = ts' := by
  refine ⟨fun h => ?_, congrArg putUint64⟩
  apply UInt64.toNat_inj.mp
  apply eq_of_bytes_eq (k := 8) ts.toNat_lt ts'.toNat_lt
  intro i hi
  have hbyte := List.map_inj_left.mp h (7 - i) (List.mem_range.mpr (by omega))
  rw [← UInt8.toNat_inj, UInt8.toNat_ofNat', UInt8.toNat_ofNat', Nat.shiftRight_eq_div_pow,
    Nat.shiftRight_eq_div_pow, Nat.pow_mul, show 7 - (7 - i) = i by omega] at hbyte
  exact hbyte

@[simp] theorem length_putUint64 : (putUint64 ts).length = 8 := by
  rw [putUint64, List.length_map, List.length_range]

@[simp] theorem length_block : (block ts random).length = 16 := by
  rw [block, List.length_append, length_putUint64, List.length_ofFn]

@[simp] theorem take_block :
    (block ts random).take 15 = putUint64 ts ++ List.ofFn fun i : Fin 7 => random i.castSucc := by
  have hrandom : (List.ofFn random).take 7 = List.ofFn fun i : Fin 7 => random i.castSucc := by
    rw [List.ofFn_succ', List.concat_eq_append, List.take_left' (List.length_ofFn)]
  rw [block, show 15 = (putUint64 ts).length + 7 by rw [length_putUint64],
    List.take_length_add_append, hrandom]

theorem append_ofFn_inj {n : Nat} {ts ts' : UInt64} {bytes bytes' : Fin n → UInt8} :
    putUint64 ts ++ List.ofFn bytes = putUint64 ts' ++ List.ofFn bytes' ↔
      ts = ts' ∧ bytes = bytes' := by
  constructor
  · intro h
    obtain ⟨hts, hbytes⟩ := List.append_inj h (by rw [length_putUint64, length_putUint64])
    exact ⟨putUint64_inj.mp hts, List.ofFn_injective hbytes⟩
  · rintro ⟨rfl, rfl⟩
    rfl

private theorem uniqueId_inj : uniqueId ts random = uniqueId ts' random' ↔
    ts = ts' ∧ ∀ i : Fin 7, random i.castSucc = random' i.castSucc := by
  rw [uniqueId, uniqueId, encoder, encoder, Base64.Encoder.write_out, Base64.Encoder.write_out,
    Base64.groups_eq_iff (by rw [length_block, length_block]), length_block, length_block,
    take_block, take_block, append_ofFn_inj, funext_iff]

private theorem closed_inj :
    closed ts random = closed ts' random' ↔ ts = ts' ∧ random = random' := by
  rw [closed, closed, encoder, encoder, Base64.Encoder.close_write, Base64.Encoder.close_write,
    Base64.encode_inj (by rw [length_block, length_block]), block, block, append_ofFn_inj]

private theorem not_mem_uniqueId {x : UInt8} (h : ∀ i, x ≠ urlEncoding.digit i) :
    x ∉ uniqueId ts random := by
  intro hmem
  rw [uniqueId, encoder, Base64.Encoder.write_out] at hmem
  obtain ⟨i, hi⟩ := Base64.mem_groups hmem
  exact h i hi

private theorem parseObjectID_regular {objectID : GoString} (hne : objectID ≠ [])
    (hslash : slash ∉ objectID) (hhash : 35 ∉ objectID) :
    parseObjectID objectID = .ok ⟨.regular, objectID, 0, [], objectID⟩ := by
  have hshard : hasPrefix objectID shardPrefix = false := by
    rw [Bool.eq_false_iff]
    intro h
    exact hhash ((List.isPrefixOf_iff_prefix.mp h).subset (by decide))
  rw [parseObjectID, if_neg hne, if_neg (by simpa using hslash), if_neg (by simp [hshard])]

@[simp] theorem length_uniqueId : (uniqueId ts random).length = 20 := by
  rw [uniqueId, encoder, Base64.Encoder.write_out, Base64.length_groups, length_block]

/-- An ID tells the time and the random bytes without the last one, which only the buffer that is
written at `Close` has. -/
theorem ids_tell_all_but_one_byte :
    (uniqueId ts random = uniqueId ts' random' ↔
      ts = ts' ∧ ∀ i : Fin 7, random i.castSucc = random' i.castSucc) ∧
    (closed ts random = closed ts' random' ↔ ts = ts' ∧ random = random') ∧
    slash ∉ uniqueId ts random ∧ 35 ∉ uniqueId ts random ∧
    parseObjectID (uniqueId ts random) =
      .ok ⟨.regular, uniqueId ts random, 0, [], uniqueId ts random⟩ := by
  have hslash := not_mem_uniqueId ts random (x := slash) (by decide +kernel)
  have hhash := not_mem_uniqueId ts random (x := 35) (by decide +kernel)
  have hne : uniqueId ts random ≠ [] := by
    rw [← List.length_pos_iff, length_uniqueId]
    decide
  exact ⟨uniqueId_inj ts ts' random random', closed_inj ts ts' random random', hslash, hhash,
    parseObjectID_regular hne hslash hhash⟩

/-- Two inputs that differ in the last random byte give one ID. -/
theorem last_random_byte_is_lost :
    ∃ random random' : Fin 8 → UInt8, random ≠ random' ∧
      uniqueId 1700000000000000 random = uniqueId 1700000000000000 random' := by
  refine ⟨fun _ => 0, fun i => if i = 7 then 1 else 0, ?_, ?_⟩
  · intro h
    exact absurd (congrFun h 7) (by decide)
  · decide +kernel

end Goverse.UniqueId

namespace Goverse.Sharding

open GoString UniqueId

/-- None is the panic for a shard that is out of range. -/
def createObjectIDOnShard (shardID : Int) (numShards : Nat) (ts : UInt64)
    (random : Fin 8 → UInt8) : Option GoString :=
  if shardID < 0 ∨ numShards ≤ shardID then none
  else some (shardPrefix ++ itoa shardID ++ slash :: uniqueId ts random)

theorem createObjectIDOnShard_accepted {numShards : Nat} (hint : numShards < 2 ^ 63)
    {shardID : Int} (hmin : 0 ≤ shardID) (hmax : shardID < numShards) (ts : UInt64)
    (random : Fin 8 → UInt8) :
    ∃ objectID, createObjectIDOnShard shardID numShards ts random = some objectID ∧
      validateObjectID objectID numShards =
        .ok ⟨.fixedShard, objectID, shardID, [], uniqueId ts random⟩ :=
  ⟨_, if_neg (by omega), validateObjectID_fixedShard hint hmin hmax _⟩

end Goverse.Sharding
