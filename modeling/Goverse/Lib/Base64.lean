import Mathlib.Algebra.GroupWithZero.Nat
import Mathlib.Data.List.Basic

/-! Base64 with an encoder that is written to in pieces. A group of three bytes goes out when it is
complete; the bytes of an incomplete one are held back until the encoder is closed. -/
namespace Goverse.Lib

structure Base64 (α : Type*) where
  digit : Fin 64 → α
  padding : α
  digit_injective : Function.Injective digit

namespace Base64

variable {α : Type*} (code : Base64 α)

def number (a b c : UInt8) : Nat := a.toNat * 65536 + b.toNat * 256 + c.toNat

/-- Digit `i` to the base 64, from the lowest. -/
def digitAt (n i : Nat) : α := code.digit (Fin.ofNat 64 (n / 64 ^ i))

def group (a b c : UInt8) : List α :=
  [3, 2, 1, 0].map (code.digitAt (number a b c))

/-- The whole groups of an input. -/
def groups : List UInt8 → List α
  | a :: b :: c :: rest => code.group a b c ++ groups rest
  | _ => []

def encode : List UInt8 → List α
  | [] => []
  | [a] => [code.digitAt (number a 0 0) 3, code.digitAt (number a 0 0) 2, code.padding,
      code.padding]
  | [a, b] => [code.digitAt (number a b 0) 3, code.digitAt (number a b 0) 2,
      code.digitAt (number a b 0) 1, code.padding]
  | a :: b :: c :: rest => code.group a b c ++ encode rest

/-- `out` is what the underlying writer has got. -/
structure Encoder (α : Type*) where
  out : List α
  buf : List UInt8
  buf_lt : buf.length < 3

namespace Encoder

def new : Encoder α := ⟨[], [], by decide⟩

def writeByte (enc : Encoder α) (x : UInt8) : Encoder α :=
  match enc.buf with
  | [] => ⟨enc.out, [x], by simp⟩
  | [a] => ⟨enc.out, [a, x], by simp⟩
  | a :: b :: _ => ⟨enc.out ++ code.group a b x, [], by decide⟩

def write (enc : Encoder α) (p : List UInt8) : Encoder α := p.foldl (writeByte code) enc

/-- What the underlying writer has got once the encoder is closed. -/
def close (enc : Encoder α) : List α := enc.out ++ code.encode enc.buf

/-- A byte that is written is read off later as if it had been there from the start, by whatever
treats whole groups alike. -/
private theorem writeByte_out {f : List UInt8 → List α}
    (hf : ∀ a b c rest, f (a :: b :: c :: rest) = code.group a b c ++ f rest)
    (enc : Encoder α) (x : UInt8) (p : List UInt8) :
    (enc.writeByte code x).out ++ f ((enc.writeByte code x).buf ++ p) =
      enc.out ++ f (enc.buf ++ x :: p) := by
  obtain ⟨out, buf, hlt⟩ := enc
  match buf, hlt with
  | [], _ => rfl
  | [a], _ => rfl
  | [a, b], _ =>
    change (out ++ code.group a b x) ++ f p = out ++ f (a :: b :: x :: p)
    rw [hf, List.append_assoc]

theorem write_out_append {f : List UInt8 → List α}
    (hf : ∀ a b c rest, f (a :: b :: c :: rest) = code.group a b c ++ f rest)
    (enc : Encoder α) (p : List UInt8) :
    (enc.write code p).out ++ f (enc.write code p).buf = enc.out ++ f (enc.buf ++ p) := by
  induction p generalizing enc with
  | nil => rw [List.append_nil]; rfl
  | cons x p ih => exact (ih (enc.writeByte code x)).trans (writeByte_out code hf enc x p)

@[simp] theorem groups_buf (enc : Encoder α) : code.groups enc.buf = [] := by
  obtain ⟨out, buf, hlt⟩ := enc
  match buf, hlt with
  | [], _ => rfl
  | [a], _ => rfl
  | [a, b], _ => rfl

@[simp] theorem write_out (p : List UInt8) :
    ((new : Encoder α).write code p).out = code.groups p := by
  have h := write_out_append code (f := code.groups) (fun _ _ _ _ => rfl) new p
  rw [groups_buf, List.append_nil] at h
  exact h

@[simp] theorem close_write (p : List UInt8) :
    ((new : Encoder α).write code p).close code = code.encode p :=
  write_out_append code (fun _ _ _ _ => rfl) new p

end Encoder

variable {code}

@[simp] theorem digitAt_inj {m n i : Nat} : code.digitAt m i = code.digitAt n i ↔
    m / 64 ^ i % 64 = n / 64 ^ i % 64 := by
  rw [digitAt, digitAt, code.digit_injective.eq_iff, Fin.ext_iff]
  rfl

private theorem number_inj {a b c a' b' c' : UInt8} (h : number a b c = number a' b' c') :
    a = a' ∧ b = b' ∧ c = c' := by
  have := a.toNat_lt
  have := b.toNat_lt
  have := c.toNat_lt
  have := a'.toNat_lt
  have := b'.toNat_lt
  have := c'.toNat_lt
  simp only [number] at h
  refine ⟨UInt8.toNat_inj.mp ?_, UInt8.toNat_inj.mp ?_, UInt8.toNat_inj.mp ?_⟩ <;> omega

private theorem number_lt (a b c : UInt8) : number a b c < 16777216 := by
  have := a.toNat_lt
  have := b.toNat_lt
  have := c.toNat_lt
  simp only [number]
  omega

private theorem group_inj {a b c a' b' c' : UInt8} (h : code.group a b c = code.group a' b' c') :
    a = a' ∧ b = b' ∧ c = c' := by
  have hlt := number_lt a b c
  have hlt' := number_lt a' b' c'
  simp only [group, List.map_cons, List.map_nil, List.cons.injEq, digitAt_inj] at h
  apply number_inj
  omega

theorem group_append_eq_iff {a b c a' b' c' : UInt8} {u v : List α} :
    code.group a b c ++ u = code.group a' b' c' ++ v ↔ (a = a' ∧ b = b' ∧ c = c') ∧ u = v := by
  constructor
  · intro h
    obtain ⟨hgroup, hrest⟩ := List.append_inj h (by simp [group])
    exact ⟨group_inj hgroup, hrest⟩
  · rintro ⟨⟨rfl, rfl, rfl⟩, rfl⟩
    rfl

/-- The whole groups tell all but the bytes after them. -/
theorem groups_eq_iff {s t : List UInt8} (hlength : s.length = t.length) :
    code.groups s = code.groups t ↔
      s.take (s.length / 3 * 3) = t.take (t.length / 3 * 3) := by
  match s, t with
  | a :: b :: c :: s, a' :: b' :: c' :: t =>
    have hwhole (n : Nat) : (n + 1 + 1 + 1) / 3 * 3 = n / 3 * 3 + 1 + 1 + 1 := by omega
    rw [groups, groups, group_append_eq_iff, groups_eq_iff (by simpa using hlength)]
    simp only [List.length_cons, hwhole, List.take_succ_cons, List.cons.injEq, and_assoc]
  | [], [] => simp [groups]
  | [a], [a'] => simp [groups]
  | [a, b], [a', b'] => simp [groups]

/-- The bytes of an incomplete group are told by the digits that are not padding. -/
private theorem encode_one_inj {a a' : UInt8} (h : code.encode [a] = code.encode [a']) :
    a = a' := by
  have := a.toNat_lt
  have := a'.toNat_lt
  simp only [encode, List.cons.injEq, digitAt_inj, number, UInt8.toNat_zero] at h
  apply UInt8.toNat_inj.mp
  omega

private theorem encode_two_inj {a b a' b' : UInt8} (h : code.encode [a, b] = code.encode [a', b']) :
    a = a' ∧ b = b' := by
  have := a.toNat_lt
  have := b.toNat_lt
  have := a'.toNat_lt
  have := b'.toNat_lt
  simp only [encode, List.cons.injEq, digitAt_inj, number, UInt8.toNat_zero] at h
  constructor <;> apply UInt8.toNat_inj.mp <;> omega

theorem encode_inj {s t : List UInt8} (hlength : s.length = t.length) :
    code.encode s = code.encode t ↔ s = t := by
  refine ⟨fun h => ?_, congrArg code.encode⟩
  match s, t with
  | a :: b :: c :: s, a' :: b' :: c' :: t =>
    rw [encode, encode, group_append_eq_iff, encode_inj (by simpa using hlength)] at h
    obtain ⟨⟨rfl, rfl, rfl⟩, rfl⟩ := h
    rfl
  | [], [] => rfl
  | [a], [a'] => rw [encode_one_inj h]
  | [a, b], [a', b'] => rw [(encode_two_inj h).1, (encode_two_inj h).2]

@[simp] theorem length_groups (s : List UInt8) : (code.groups s).length = s.length / 3 * 4 := by
  match s with
  | a :: b :: c :: rest =>
    rw [groups, List.length_append, length_groups rest]
    simp only [group, List.length_map, List.length_cons, List.length_nil]
    omega
  | [] => simp [groups]
  | [a] => simp [groups]
  | [a, b] => simp [groups]

theorem mem_groups {s : List UInt8} {x : α} (h : x ∈ code.groups s) : ∃ i, x = code.digit i := by
  induction s using groups.induct with
  | case1 a b c rest ih =>
    rw [groups, List.mem_append] at h
    rcases h with h | h
    · obtain ⟨i, -, rfl⟩ := List.mem_map.mp h
      exact ⟨_, rfl⟩
    · exact ih h
  | case2 s hshort =>
    rw [groups.eq_2 code s hshort] at h
    contradiction

end Base64

end Goverse.Lib
