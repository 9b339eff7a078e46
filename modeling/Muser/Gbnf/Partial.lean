import Muser.Gbnf.Matcher

/-! # Characters that have begun

The bytes that wait are the start of some characters, which are all characters of an interval. The
interval is read off the bytes, less the values that are no characters.
-/

namespace Muser.Gbnf

open Utf8 MatchBranch

/-- The bytes are the start of the character's bytes, and not all of them. -/
def Begun (bytes : Bytes) (character : Char) : Prop := ∃ tail, tail ≠ [] ∧ encode character = bytes ++ tail

variable {bytes : Bytes} {value remaining minimum base width : ℕ}

theorem following_truncated {count low high value length : ℕ}
    (ends : following (count + 1) low high value length bytes = .truncated) :
    bytes = [] ∨ ∃ byte tail, bytes = byte :: tail ∧ low ≤ byte.toNat ∧ byte.toNat ≤ high ∧
      following count 0x80 0xBF (value * 64 + byte.toNat % 64) (length + 1) tail = .truncated := by
  cases bytes with
  | nil => exact .inl rfl
  | cons byte tail =>
    rw [following] at ends
    split at ends
    · next inside => exact .inr ⟨byte, tail, rfl, inside.1, inside.2, ends⟩
    · cases ends

theorem push_bits (value byte : ℕ) : (value <<< 6) ||| (byte &&& 0x3F) = value * 64 + byte % 64 := by
  have low : byte &&& 0x3F = byte % 64 := Nat.and_two_pow_sub_one_eq_mod byte 6
  rw [low, ← Nat.shiftLeft_add_eq_or_of_lt (show byte % 64 < 2 ^ 6 by lia), Nat.shiftLeft_eq]

theorem fill_bits (value count : ℕ) :
    (value <<< count) ||| ((1 <<< count) - 1) = value * 2 ^ count + (2 ^ count - 1) := by
  have positive := Nat.two_pow_pos count
  rw [Nat.one_shiftLeft, ← Nat.shiftLeft_add_eq_or_of_lt (by omega), Nat.shiftLeft_eq]

/-- The values whose first bits are known are an interval, as long as surrogates cut it at one end. -/
theorem scalarRange_eq (widthEq : 2 ^ (6 * remaining) = width)
    (baseEq : value * width = base) (small : base ≤ 0x10FFFF) (plain : minimum ≤ 0x10FFFF)
    (reaches : minimum < base + width)
    (sides : max base minimum ≤ 0xDFFF → 0xD800 < base + width → max base minimum < 0xD800 ∧ base + width ≤ 0xE000) :
    ∃ lower upper, scalarRange value remaining minimum = some (lower, upper) ∧ lower ≤ upper ∧
      ∀ found, (lower ≤ found ∧ found ≤ upper) ↔
        found.isValidChar ∧ minimum ≤ found ∧ base ≤ found ∧ found < base + width := by
  have positive : 0 < width := widthEq ▸ Nat.two_pow_pos _
  rw [scalarRange, fill_bits, Nat.shiftLeft_eq, widthEq, baseEq]
  simp only [Nat.isValidChar]
  by_cases crossing : max base minimum ≤ 0xDFFF ∧ 0xD800 ≤ min (base + (width - 1)) 0x10FFFF
  · have below : max base minimum < 0xD800 := by omega
    rw [if_pos crossing, if_pos below]
    exact ⟨_, _, if_pos (Nat.le_of_lt_succ below), Nat.le_of_lt_succ below, fun found => by rw [max_le_iff]; omega⟩
  · rw [if_neg crossing]
    have ordered : max base minimum ≤ min (base + (width - 1)) 0x10FFFF := by
      simp only [max_le_iff, le_min_iff]
      omega
    refine ⟨_, _, if_pos ordered, ordered, fun found => ?_⟩
    rw [max_le_iff, le_min_iff] at *
    omega

/-- An interval of the characters that have begun with some bytes. -/
structure Spans (bytes : Bytes) (lower upper : ℕ) : Prop where
  some_ : lower ≤ upper
  valid : ∀ value, lower ≤ value → value ≤ upper → value.isValidChar
  begun : ∀ character, Begun bytes character ↔ lower ≤ character.toNat ∧ character.toNat ≤ upper

/-- A number whose first digits are known lies in an interval. -/
theorem div_eq_iff_between {found : ℕ} (positive : 0 < width) :
    found / width = value ↔ value * width ≤ found ∧ found < value * width + width := by
  rw [Nat.div_eq_iff positive, Nat.le_sub_one_iff_lt (Nat.add_pos_right _ positive)]

section Begun

variable {first first' : UInt8} {rest : Bytes} {character : Char} {count count' bits bits' minimum' found : ℕ}

/-- A first byte, how many bytes follow it, the bits that it gives, and the least character of so many bytes. -/
inductive Announces (first : UInt8) : ℕ → ℕ → ℕ → Prop
  | two {bits : ℕ} (low : 2 ≤ bits) (small : bits < 32) (is : first.toNat = bits + 0xC0) : Announces first 1 bits 0x80
  | three {bits : ℕ} (small : bits < 16) (is : first.toNat = bits + 0xE0) : Announces first 2 bits 0x800
  | four {bits : ℕ} (small : bits ≤ 4) (is : first.toNat = bits + 0xF0) : Announces first 3 bits 0x10000

theorem Announces.leadBits_eq (leads : Announces first count bits minimum) :
    leadBits first.toNat = some (count + 1, bits, minimum) := by
  rw [MatchBranch.leadBits]
  cases leads with
  | two low small is => rw [if_pos (by lia), is, show _ &&& 0x1F = _ from Nat.and_two_pow_sub_one_eq_mod _ 5]; congr; lia
  | three small is =>
    rw [if_neg (by lia), if_pos (by lia), is, show _ &&& 0x0F = _ from Nat.and_two_pow_sub_one_eq_mod _ 4]; congr; lia
  | four small is =>
    rw [if_neg (by lia), if_neg (by lia), if_pos (by lia), is, show _ &&& 0x07 = _ from Nat.and_two_pow_sub_one_eq_mod _ 3]
    congr; lia

/-- A character of several bytes has one kind of first byte. -/
theorem Announces.same (leads : Announces first count (found / 64 ^ count) minimum)
    (leads' : Announces first' count' (found / 64 ^ count') minimum')
    (large : minimum ≤ found) (large' : minimum' ≤ found) : first = first' ∧ count = count' := by
  rw [← UInt8.toNat_inj]
  cases leads <;> cases leads' <;> simp only [Nat.reducePow] at * <;> constructor <;> lia

theorem Announces.unique (leads : Announces first count bits minimum) (leads' : Announces first count' bits' minimum') :
    count = count' ∧ bits = bits' ∧ minimum = minimum' := by
  cases leads <;> cases leads' <;> lia

/-- The last digits of a number, as the bytes that follow carry them. -/
def trail : ℕ → ℕ → List ℕ
  | 0, _ => []
  | count + 1, value => (value / 64 ^ count % 64 + 0x80) :: trail count value

/-- The bytes of a character that is not ASCII. -/
theorem encode_wide (large : 0x80 ≤ character.toNat) : ∃ first tail count minimum, encode character = first :: tail ∧
    Announces first count (character.toNat / 64 ^ count) minimum ∧ minimum ≤ character.toNat ∧ tail.length = count ∧
    tail.map UInt8.toNat = trail count character.toNat := by
  have valid := toNat_valid character
  have bytes := encoded character
  generalize encode character = whole at bytes
  cases bytes with
  | one small => lia
  | two _ small is second => exact ⟨_, _, 1, _, rfl, .two (by lia) (by lia) is, large, rfl, by simp [trail, second]⟩
  | three large small is second third =>
    exact ⟨_, _, 2, _, rfl, .three (by lia) is, large, rfl, by simp [trail, second, third]⟩
  | four large is second third fourth =>
    exact ⟨_, _, 3, _, rfl, .four (by lia) is, large, rfl, by simp [trail, second, third, fourth]⟩

def pushDigit (value : ℕ) (byte : UInt8) : ℕ := value * 64 + byte.toNat % 64

theorem foldl_pushDigit_div (rest : Bytes) (value : ℕ) : rest.foldl pushDigit value / 64 ^ rest.length = value := by
  induction rest generalizing value with
  | nil => exact Nat.div_one value
  | cons byte rest ih =>
    rw [List.foldl_cons, List.length_cons, pow_succ, ← Nat.div_div_eq_div_mul, ih, pushDigit]
    lia

theorem div_of_foldl (few : rest.length ≤ count) (whole : found / 64 ^ (count - rest.length) = rest.foldl pushDigit bits) :
    found / 64 ^ count = bits := by
  have back := congrArg (· / 64 ^ rest.length) whole
  rwa [foldl_pushDigit_div, Nat.div_div_eq_div_mul, ← pow_add, Nat.sub_add_cancel few] at back

/-- Bytes follow the first of a character when they carry its next digits. -/
theorem prefix_trail_iff (few : rest.length ≤ count) (continuing : ∀ byte ∈ rest, 0x80 ≤ byte.toNat ∧ byte.toNat ≤ 0xBF) :
    rest.map UInt8.toNat <+: trail count found ↔
      found / 64 ^ (count - rest.length) = rest.foldl pushDigit (found / 64 ^ count) := by
  induction rest generalizing count with
  | nil => simp
  | cons byte rest ih =>
    obtain ⟨count, rfl⟩ := Nat.exists_eq_add_of_le' (Nat.le_trans (Nat.succ_pos _) few)
    obtain ⟨⟨low, high⟩, continuing⟩ := List.forall_mem_cons.mp continuing
    have split : found / 64 ^ (count + 1) = found / 64 ^ count / 64 := by rw [pow_succ, Nat.div_div_eq_div_mul]
    rw [List.map_cons, trail, List.cons_prefix_cons, ih (Nat.le_of_succ_le_succ few) continuing, List.length_cons,
      Nat.add_sub_add_right,
      List.foldl_cons, pushDigit, split]
    constructor
    · rintro ⟨digit, rest_⟩
      rw [rest_, show found / 64 ^ count / 64 * 64 + byte.toNat % 64 = found / 64 ^ count by lia]
    · intro whole
      have same := div_of_foldl (Nat.le_of_succ_le_succ few) whole
      exact ⟨by lia, by rw [whole, ← same]⟩

/-- The characters that begin with some bytes are those whose first digits these carry. -/
theorem begun_iff (leads : Announces first count bits minimum) (few : rest.length < count)
    (continuing : ∀ byte ∈ rest, 0x80 ≤ byte.toNat ∧ byte.toNat ≤ 0xBF) : Begun (first :: rest) character ↔
      minimum ≤ character.toNat ∧ character.toNat / 64 ^ (count - rest.length) = rest.foldl pushDigit bits := by
  have ascii : 0x80 ≤ minimum := by cases leads <;> decide
  constructor
  · rintro ⟨tail, -, whole⟩
    rw [List.cons_append] at whole
    have wide : 0x80 ≤ character.toNat := by
      have bytes := encoded character
      rw [whole] at bytes
      generalize rest ++ tail = back at bytes
      cases bytes with
      | one small is => cases leads <;> lia
      | two large | three large | four large => exact Nat.le_trans (by decide) large
    obtain ⟨front, back, count', minimum', is, leads', large, -, digits⟩ := encode_wide wide
    obtain ⟨rfl, rfl⟩ := List.cons.inj (is.symm.trans whole)
    obtain ⟨rfl, rfl, rfl⟩ := leads.unique leads'
    refine ⟨large, (prefix_trail_iff few.le continuing).mp ?_⟩
    rw [← digits]
    exact (List.prefix_append rest tail).map _
  · rintro ⟨large, whole⟩
    obtain rfl := div_of_foldl few.le whole
    obtain ⟨front, back, count', minimum', is, leads', large', length, digits⟩ := encode_wide (ascii.trans large)
    obtain ⟨rfl, rfl⟩ := leads.same leads' large large'
    have starts := (prefix_trail_iff few.le continuing).mpr whole
    rw [← digits] at starts
    obtain ⟨tail, rfl⟩ := (List.prefix_map_iff_of_injective fun _ _ => UInt8.toNat_inj.mp).mp starts
    refine ⟨tail, ?_, is⟩
    rintro rfl
    rw [List.append_nil] at length
    exact few.ne length

end Begun

/-- The interval of the characters that have begun, from the bits their first bytes give. -/
theorem spans_of_announces {first : UInt8} {count bits : ℕ} (leads : Announces first count bits minimum) (rest : Bytes)
    (few : rest.length < count) (continuing : ∀ byte ∈ rest, 0x80 ≤ byte.toNat ∧ byte.toNat ≤ 0xBF)
    (widthEq : 64 ^ (count - rest.length) = width) (baseEq : rest.foldl pushDigit bits * width = base)
    (small : base ≤ 0x10FFFF)
    (reaches : minimum < base + width)
    (sides : max base minimum ≤ 0xDFFF → 0xD800 < base + width → max base minimum < 0xD800 ∧ base + width ≤ 0xE000) :
    ∃ lower upper, incompleteUtf8ScalarRange (first :: rest) = some (lower, upper) ∧ Spans (first :: rest) lower upper := by
  have range : incompleteUtf8ScalarRange (first :: rest) =
      scalarRange (rest.foldl pushDigit bits) (count - rest.length) minimum := by
    have none_ : ¬(count + 1 ≤ (first :: rest).length ∨
        (rest.any fun byte => !(0x80 ≤ byte.toNat && byte.toNat ≤ 0xBF)) = true) := by
      rw [List.length_cons]
      rintro (long | wrong)
      · omega
      · obtain ⟨byte, member, outside⟩ := List.any_eq_true.mp wrong
        have inside := continuing byte member
        simp [inside] at outside
    rw [incompleteUtf8ScalarRange, leads.leadBits_eq]
    refine (if_neg none_).trans ?_
    rw [List.length_cons, Nat.add_sub_add_right, show pushDigit = _ from funext₂ fun value byte =>
      (push_bits value byte.toNat).symm]
  have plain : minimum ≤ 0x10FFFF := by cases leads <;> decide
  obtain ⟨lower, upper, is, some_, inside⟩ :=
    scalarRange_eq (by rw [pow_mul]; exact widthEq) baseEq small plain reaches sides
  refine ⟨lower, upper, range.trans is, some_, fun value low high => ((inside value).mp ⟨low, high⟩).1, fun character => ?_⟩
  rw [begun_iff leads few continuing, inside, widthEq, div_eq_iff_between (widthEq ▸ Nat.pow_pos (by decide)), baseEq]
  exact (and_iff_right character.valid).symm

/-- Bytes that end in the middle of a character have an interval of characters. -/
theorem spans_of_truncated (some_ : bytes ≠ []) (ends : decode bytes = .truncated) :
    bytes.length ≤ 3 ∧ ∃ lower upper, incompleteUtf8ScalarRange bytes = some (lower, upper) ∧ Spans bytes lower upper := by
  cases bytes with
  | nil => exact absurd rfl some_
  | cons first rest =>
    rw [decode] at ends
    split at ends
    · cases ends
    · next wide =>
      cases announced : lead first.toNat with
      | none =>
        rw [announced] at ends
        cases ends
      | some found =>
        rw [announced] at ends
        rcases lead_some announced with ⟨low, high, rfl⟩ | ⟨low, high, rfl⟩ | ⟨low, high, rfl⟩ <;>
          dsimp only at ends
        · have leads : Announces first 1 (first.toNat - 0xC0) 0x80 := .two (by lia) (by lia) (by lia)
          rcases following_truncated ends with rfl | ⟨second, tail, rfl, low₂, high₂, ends⟩
          · refine ⟨by simp, spans_of_announces leads [] (by simp) (by simp) (show 64 ^ 1 = 64 from rfl)
              (by rw [List.foldl_nil]) ?_ ?_ ?_⟩ <;> lia
          · cases ends
        · have leads : Announces first 2 (first.toNat - 0xE0) 0x800 := .three (by lia) (by lia)
          rcases following_truncated ends with rfl | ⟨second, tail, rfl, low₂, high₂, ends⟩
          · refine ⟨by simp, spans_of_announces leads [] (by simp) (by simp) (show 64 ^ 2 = 4096 from rfl)
              (by rw [List.foldl_nil]) ?_ ?_ ?_⟩ <;> lia
          · have bounds : 0x80 ≤ second.toNat ∧ second.toNat ≤ 0xBF ∧ (first.toNat = 0xE0 → 0xA0 ≤ second.toNat) ∧
                (first.toNat = 0xED → second.toNat ≤ 0x9F) := by
              split_ifs at low₂ high₂ <;> lia
            rcases following_truncated ends with rfl | ⟨third, tail, rfl, low₃, high₃, ends⟩
            · refine ⟨by simp, spans_of_announces leads [second] (by simp) (by simp; lia) (show 64 ^ 1 = 64 from rfl)
                rfl ?_ ?_ ?_⟩ <;>
                simp [pushDigit] <;> lia
            · cases ends
        · have leads : Announces first 3 (first.toNat - 0xF0) 0x10000 := .four (by lia) (by lia)
          rcases following_truncated ends with rfl | ⟨second, tail, rfl, low₂, high₂, ends⟩
          · refine ⟨by simp, spans_of_announces leads [] (by simp) (by simp) (show 64 ^ 3 = 262144 from rfl)
              (by rw [List.foldl_nil]) ?_ ?_ ?_⟩ <;> lia
          · have bounds : 0x80 ≤ second.toNat ∧ second.toNat ≤ 0xBF ∧ (first.toNat = 0xF0 → 0x90 ≤ second.toNat) ∧
                (first.toNat = 0xF4 → second.toNat ≤ 0x8F) := by
              split_ifs at low₂ high₂ <;> lia
            rcases following_truncated ends with rfl | ⟨third, tail, rfl, low₃, high₃, ends⟩
            · refine ⟨by simp, spans_of_announces leads [second] (by simp) (by simp; lia)
                (show 64 ^ 2 = 4096 from rfl) rfl ?_ ?_ ?_⟩ <;>
                simp [pushDigit] <;> lia
            · rcases following_truncated ends with rfl | ⟨fourth, tail, rfl, low₄, high₄, ends⟩
              · refine ⟨by simp, spans_of_announces leads [second,
                  third] (by simp) (by simp; lia) (show 64 ^ 1 = 64 from rfl) rfl ?_ ?_ ?_⟩ <;>
                  simp [pushDigit] <;> lia
              · cases ends

end Muser.Gbnf
