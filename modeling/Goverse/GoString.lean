import Mathlib.Data.Nat.Digits.Lemmas

/-! Strings of the source are byte strings. A literal of the source is ASCII, so
`lit` reads it byte by byte. The functions of `strings` and `strconv` that the source
calls have their names. -/
namespace Goverse

abbrev GoString := List UInt8

instance : LawfulBEq GoString := inferInstance

def lit (s : String) : GoString :=
  s.toList.map fun c => UInt8.ofNat c.toNat

namespace GoString

def hasPrefix (s head : GoString) : Bool := head.isPrefixOf s

@[simp] theorem hasPrefix_append (head rest : GoString) : hasPrefix (head ++ rest) head = true :=
  List.isPrefixOf_iff_prefix.mpr (List.prefix_append _ _)

@[simp] theorem hasPrefix_append_append (head s rest : GoString) :
    hasPrefix (head ++ s) (head ++ rest) = hasPrefix s rest := by
  rw [Bool.eq_iff_iff, hasPrefix, hasPrefix, List.isPrefixOf_iff_prefix, List.isPrefixOf_iff_prefix,
    List.prefix_append_right_inj]

theorem eq_append_of_hasPrefix {key head : GoString} (h : hasPrefix key head = true) :
    key = head ++ key.drop head.length := by
  obtain ⟨rest, rfl⟩ := List.isPrefixOf_iff_prefix.mp h
  rw [List.drop_left]

def slash : UInt8 := 47

def comma : UInt8 := 44

/-- `strings.Index(s, "/")` for a separator of one byte, -1 when there is none. -/
def index (s : GoString) (sep : UInt8) : Int :=
  if sep ∈ s then (s.idxOf sep : Int) else -1

/-- The two parts of `strings.SplitN(s, sep, 2)` when `s` contains `sep`. -/
def cut (s : GoString) (sep : UInt8) : GoString × GoString :=
  (s.takeWhile (· != sep), (s.dropWhile (· != sep)).drop 1)

section Decimal

def isDigit (b : UInt8) : Bool := 48 ≤ b.toNat && b.toNat ≤ 57

def decimal (s : GoString) : Option Nat :=
  if s ≠ [] ∧ s.all isDigit then some (s.foldl (fun n b => n * 10 + (b.toNat - 48)) 0) else none

/-- `strconv.Atoi`: an optional sign, then digits, within 64 bits. -/
def atoi : GoString → Option Int
  | 45 :: digits => (decimal digits).bind fun n => if n ≤ 2 ^ 63 then some (-(n : Int)) else none
  | 43 :: digits => (decimal digits).bind fun n => if n < 2 ^ 63 then some (n : Int) else none
  | digits => (decimal digits).bind fun n => if n < 2 ^ 63 then some (n : Int) else none

def formatNat (n : Nat) : GoString :=
  if n = 0 then [48] else (Nat.digits 10 n).reverse.map fun d => UInt8.ofNat (48 + d)

/-- `strconv.Itoa`, also `%d` of `fmt.Sprintf`. -/
def itoa : Int → GoString
  | .ofNat n => formatNat n
  | .negSucc n => 45 :: formatNat (n + 1)

@[simp] theorem toNat_digit {d : Nat} (hd : d < 10) : (UInt8.ofNat (48 + d)).toNat = 48 + d := by
  simp only [UInt8.toNat_ofNat']
  omega

theorem formatNat_ne_nil (n : Nat) : formatNat n ≠ [] := by
  unfold formatNat
  split
  · nofun
  · rename_i hn
    simpa [Nat.digits_eq_nil_iff_eq_zero] using hn

theorem isDigit_of_mem_formatNat {n : Nat} {b : UInt8} (hb : b ∈ formatNat n) :
    isDigit b = true := by
  unfold formatNat at hb
  split at hb
  · simp only [List.mem_singleton] at hb
    subst hb
    rfl
  · obtain ⟨d, hd, rfl⟩ := List.mem_map.mp hb
    have hlt : d < 10 := Nat.digits_lt_base (by decide) (List.mem_reverse.mp hd)
    simp only [isDigit, toNat_digit hlt, Bool.and_eq_true, decide_eq_true_eq]
    omega

@[simp] theorem decimal_formatNat (n : Nat) : decimal (formatNat n) = some n := by
  have hvalue : (formatNat n).foldl (fun n b => n * 10 + (b.toNat - 48)) 0 = n := by
    unfold formatNat
    split
    · rename_i hn
      subst hn
      rfl
    · rw [List.foldl_map, List.foldl_reverse]
      calc (Nat.digits 10 n).foldr (fun d m => m * 10 + ((UInt8.ofNat (48 + d)).toNat - 48)) 0
          = (Nat.digits 10 n).foldr (fun d m => d + 10 * m) 0 := by
            refine List.foldr_ext _ _ _ fun d hd m => ?_
            rw [toNat_digit (Nat.digits_lt_base (by decide) hd)]
            omega
        _ = Nat.ofDigits 10 (Nat.digits 10 n) := by
            rw [Nat.ofDigits_eq_foldr]
            rfl
        _ = n := Nat.ofDigits_digits 10 n
  rw [decimal, if_pos ⟨formatNat_ne_nil n, List.all_eq_true.mpr fun b => isDigit_of_mem_formatNat⟩,
    hvalue]

@[simp] theorem atoi_itoa {n : Nat} (hn : n < 2 ^ 63) : atoi (itoa n) = some (n : Int) := by
  have hunsigned : ∀ s : GoString, (∀ b ∈ s, isDigit b = true) →
      atoi s = (decimal s).bind fun n => if n < 2 ^ 63 then some (n : Int) else none := by
    intro s hs
    unfold atoi
    split
    · exact absurd (hs 45 (by simp)) (by decide)
    · exact absurd (hs 43 (by simp)) (by decide)
    · rfl
  change atoi (formatNat n) = _
  rw [hunsigned _ fun b => isDigit_of_mem_formatNat, decimal_formatNat, Option.bind_some, if_pos hn]

private theorem formatNat_injective : Function.Injective formatNat := by
  intro a b h
  have hvalue := congrArg decimal h
  rw [decimal_formatNat, decimal_formatNat] at hvalue
  exact Option.some.inj hvalue

theorem itoa_injective : Function.Injective itoa := by
  have hsign : ∀ (n : Nat) (s : GoString), formatNat n ≠ 45 :: s := by
    intro n s h
    have hdigit : isDigit 45 = true := by
      apply isDigit_of_mem_formatNat (n := n)
      rw [h]
      exact List.mem_cons_self
    contradiction
  intro a b h
  cases a with
  | ofNat n =>
    cases b with
    | ofNat m => rw [formatNat_injective h]
    | negSucc m => exact absurd h (hsign n _)
  | negSucc n =>
    cases b with
    | ofNat m => exact absurd h.symm (hsign m _)
    | negSucc m =>
      have hsame := formatNat_injective (List.cons.inj h).2
      rw [Nat.succ.inj hsame]

end Decimal

section Trim

/-- The UTF-8 encodings of the runes that `unicode.IsSpace` accepts. -/
def spaces : List GoString :=
  [[9], [10], [11], [12], [13], [32], [0xC2, 0x85], [0xC2, 0xA0], [0xE1, 0x9A, 0x80],
    [0xE2, 0x80, 0x80], [0xE2, 0x80, 0x81], [0xE2, 0x80, 0x82], [0xE2, 0x80, 0x83],
    [0xE2, 0x80, 0x84], [0xE2, 0x80, 0x85], [0xE2, 0x80, 0x86], [0xE2, 0x80, 0x87],
    [0xE2, 0x80, 0x88], [0xE2, 0x80, 0x89], [0xE2, 0x80, 0x8A], [0xE2, 0x80, 0xA8],
    [0xE2, 0x80, 0xA9], [0xE2, 0x80, 0xAF], [0xE2, 0x81, 0x9F], [0xE3, 0x80, 0x80]]

/-- Drop leading occurrences of the given strings, at most `fuel` of them. -/
def strip (heads : List GoString) : Nat → GoString → GoString
  | 0, s => s
  | fuel + 1, s =>
    match heads.find? (·.isPrefixOf s) with
    | some head => strip heads fuel (s.drop head.length)
    | none => s

def trimLeft (s : GoString) : GoString := strip spaces s.length s

def trimRight (s : GoString) : GoString :=
  (strip (spaces.map List.reverse) s.length s.reverse).reverse

def trimSpace (s : GoString) : GoString := trimRight (trimLeft s)

theorem strip_suffix (heads : List GoString) (fuel : Nat) (s : GoString) :
    strip heads fuel s <:+ s := by
  induction fuel generalizing s with
  | zero => exact List.suffix_rfl
  | succ fuel ih =>
    rw [strip]
    split
    · exact (ih _).trans (List.drop_suffix _ s)
    · exact List.suffix_rfl

theorem strip_eq_self {heads : List GoString} {s : GoString} (fuel : Nat)
    (h : ∀ head ∈ heads, ¬ head <+: s) : strip heads fuel s = s := by
  cases fuel with
  | zero => rfl
  | succ fuel =>
    have hnone : heads.find? (·.isPrefixOf s) = none := by
      refine List.find?_eq_none.mpr fun head hhead hmatch => ?_
      exact h head hhead (List.isPrefixOf_iff_prefix.mp hmatch)
    rw [strip, hnone]

theorem not_prefix_strip {heads : List GoString} (hheads : ∀ head ∈ heads, head ≠ [])
    {fuel : Nat} {s : GoString} (hfuel : s.length ≤ fuel) :
    ∀ head ∈ heads, ¬ head <+: strip heads fuel s := by
  induction fuel generalizing s with
  | zero =>
    intro head hhead hmatch
    rw [List.eq_nil_of_length_eq_zero (Nat.le_zero.mp hfuel)] at hmatch
    exact hheads head hhead (List.prefix_nil.mp hmatch)
  | succ fuel ih =>
    rw [strip]
    split
    · rename_i head hfind
      have := List.length_pos_iff.mpr (hheads head (List.mem_of_find?_eq_some hfind))
      apply ih
      rw [List.length_drop]
      omega
    · rename_i hnone
      intro head hhead hmatch
      exact List.find?_eq_none.mp hnone head hhead (List.isPrefixOf_iff_prefix.mpr hmatch)

theorem trimRight_isPrefix (s : GoString) : trimRight s <+: s := by
  rw [← List.reverse_suffix, trimRight, List.reverse_reverse]
  exact strip_suffix _ _ _

theorem mem_of_mem_trimSpace {s : GoString} {b : UInt8} (h : b ∈ trimSpace s) : b ∈ s :=
  (strip_suffix _ _ s).subset ((trimRight_isPrefix _).subset h)

theorem not_prefix_trimSpace (s : GoString) : ∀ space ∈ spaces, ¬ space <+: trimSpace s :=
  fun space hspace h => not_prefix_strip (by decide) (Nat.le_refl _) space hspace
    (h.trans (trimRight_isPrefix _))

theorem not_suffix_trimSpace (s : GoString) : ∀ space ∈ spaces, ¬ space <:+ trimSpace s := by
  intro space hspace h
  rw [trimSpace, trimRight, ← List.reverse_prefix, List.reverse_reverse] at h
  exact not_prefix_strip (by decide) (by simp) _ (List.mem_map_of_mem hspace) h

theorem trimSpace_eq_self_iff {s : GoString} :
    trimSpace s = s ↔ ∀ space ∈ spaces, ¬ space <+: s ∧ ¬ space <:+ s := by
  constructor
  · intro h space hspace
    rw [← h]
    exact ⟨not_prefix_trimSpace s space hspace, not_suffix_trimSpace s space hspace⟩
  · intro h
    rw [trimSpace, trimLeft, strip_eq_self _ fun space hspace => (h space hspace).1, trimRight,
      strip_eq_self, List.reverse_reverse]
    intro head hhead hmatch
    obtain ⟨space, hspace, rfl⟩ := List.mem_map.mp hhead
    exact (h space hspace).2 (List.reverse_prefix.mp hmatch)

@[simp] theorem trimSpace_trimSpace (s : GoString) : trimSpace (trimSpace s) = trimSpace s :=
  trimSpace_eq_self_iff.mpr fun space hspace =>
    ⟨not_prefix_trimSpace s space hspace, not_suffix_trimSpace s space hspace⟩

theorem trimSpace_flag {flag : GoString} (h : trimSpace flag = flag) :
    trimSpace (102 :: 61 :: flag) = 102 :: 61 :: flag := by
  refine trimSpace_eq_self_iff.mpr fun space hspace => ⟨fun hmatch => ?_, fun hmatch => ?_⟩
  · revert space
    simp only [spaces, List.forall_mem_cons, List.cons_prefix_cons]
    simp
  · have hletters : ∀ space ∈ spaces, 61 ∉ space ∧ 102 ∉ space := by decide
    simp only [List.suffix_cons_iff] at hmatch
    rcases hmatch with heq | heq | hmatch
    · exact (hletters space hspace).2 (by simp [heq])
    · exact (hletters space hspace).1 (by simp [heq])
    · exact (trimSpace_eq_self_iff.mp h space hspace).2 hmatch

end Trim
end GoString
end Goverse
