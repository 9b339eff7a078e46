import Muser.Lib.Bytes
import Mathlib.Tactic.Ring

/-! # Decoding UTF-8

The bytes of characters, and a decoder that tells bytes that cannot be text from bytes that end in
the middle of a character. What a decoder returns for a character's bytes is that character, and
whatever it returns came from the character's bytes.
-/

namespace Muser.Utf8

/-- What a first byte announces: how many bytes follow it, the bounds of the next one, and the bits
of the character it carries. -/
structure Lead where
  following : ℕ
  low : ℕ
  high : ℕ
  bits : ℕ

def lead (byte : ℕ) : Option Lead :=
  if 0xC2 ≤ byte ∧ byte ≤ 0xDF then some ⟨1, 0x80, 0xBF, byte - 0xC0⟩
  else if 0xE0 ≤ byte ∧ byte ≤ 0xEF then
    -- Neither a longer form of a shorter character nor a surrogate.
    some ⟨2, if byte = 0xE0 then 0xA0 else 0x80, if byte = 0xED then 0x9F else 0xBF, byte - 0xE0⟩
  else if 0xF0 ≤ byte ∧ byte ≤ 0xF4 then
    some ⟨3, if byte = 0xF0 then 0x90 else 0x80, if byte = 0xF4 then 0x8F else 0xBF, byte - 0xF0⟩
  else none

inductive Decoded where
  | character (value : ℕ) (rest : Bytes)
  | truncated
  | malformed (length : ℕ)
deriving DecidableEq

/-- The bytes that follow a first byte. -/
def following : ℕ → ℕ → ℕ → ℕ → ℕ → Bytes → Decoded
  | 0, _, _, value, _, rest => .character value rest
  | _ + 1, _, _, _, _, [] => .truncated
  | count + 1, low, high, value, length, byte :: rest =>
    if low ≤ byte.toNat ∧ byte.toNat ≤ high then
      following count 0x80 0xBF (value * 64 + byte.toNat % 64) (length + 1) rest
    else .malformed length

/-- The first character of some bytes. -/
def decode : Bytes → Decoded
  | [] => .truncated
  | byte :: rest =>
    if byte.toNat < 0x80 then .character byte.toNat rest
    else match lead byte.toNat with
      | none => .malformed 1
      | some first => following first.following first.low first.high first.bits 1 rest

/-- The bytes of a character. -/
abbrev encode (character : Char) : Bytes := String.utf8EncodeChar character

/-- The bytes of a text. -/
def encodeAll (characters : List Char) : Bytes := characters.flatMap encode

theorem toNat_valid (character : Char) :
    character.toNat < 0xD800 ∨ (0xDFFF < character.toNat ∧ character.toNat < 0x110000) := character.valid

theorem encode_eq (character : Char) : encode character =
    if character.toNat ≤ 0x7F then [UInt8.ofNat character.toNat]
    else if character.toNat ≤ 0x7FF then
      [UInt8.ofNat (character.toNat / 64 % 32 + 0xC0), UInt8.ofNat (character.toNat % 64 + 0x80)]
    else if character.toNat ≤ 0xFFFF then
      [UInt8.ofNat (character.toNat / 4096 % 16 + 0xE0), UInt8.ofNat (character.toNat / 64 % 64 + 0x80),
        UInt8.ofNat (character.toNat % 64 + 0x80)]
    else
      [UInt8.ofNat (character.toNat / 262144 % 8 + 0xF0), UInt8.ofNat (character.toNat / 4096 % 64 + 0x80),
        UInt8.ofNat (character.toNat / 64 % 64 + 0x80), UInt8.ofNat (character.toNat % 64 + 0x80)] := rfl

/-- The bytes of a character by their numbers. -/
inductive Encoded (value : ℕ) : Bytes → Prop
  | one {first : UInt8} (small : value < 0x80) (firstEq : first.toNat = value) : Encoded value [first]
  | two {first second : UInt8} (large : 0x80 ≤ value) (small : value < 0x800) (firstEq : first.toNat = value / 64 + 0xC0)
      (secondEq : second.toNat = value % 64 + 0x80) : Encoded value [first, second]
  | three {first second third : UInt8} (large : 0x800 ≤ value) (small : value < 0x10000)
      (firstEq : first.toNat = value / 4096 + 0xE0) (secondEq : second.toNat = value / 64 % 64 + 0x80)
      (thirdEq : third.toNat = value % 64 + 0x80) : Encoded value [first, second, third]
  | four {first second third fourth : UInt8} (large : 0x10000 ≤ value) (firstEq : first.toNat = value / 262144 + 0xF0)
      (secondEq : second.toNat = value / 4096 % 64 + 0x80) (thirdEq : third.toNat = value / 64 % 64 + 0x80)
      (fourthEq : fourth.toNat = value % 64 + 0x80) : Encoded value [first, second, third, fourth]

section Digits

variable {x y z w : ℕ}

/-- Two digits of a number, of which the second is below 64. -/
theorem digits (x : ℕ) (y_small : y < 64) : (x * 64 + y) / 64 = x ∧ (x * 64 + y) % 64 = y := by
  omega

theorem div_digits (value : ℕ) : value / 64 * 64 + value % 64 = value := Nat.div_add_mod' value 64

/-- A byte that follows carries a digit. -/
theorem trailing {byte : ℕ} (low : 0x80 ≤ byte) (high : byte ≤ 0xBF) : ∃ digit, digit < 64 ∧ byte = digit + 0x80 ∧
    byte % 64 = digit := by
  obtain ⟨digit, rfl⟩ := Nat.exists_eq_add_of_le' low
  exact ⟨digit, by omega, rfl, by omega⟩

theorem trailing_mod (small : x < 64) : (x + 0x80) % 64 = x := by omega

theorem Encoded.of_two {first second : UInt8} (first_ : first.toNat = x + 0xC0) (second_ : second.toNat = y + 0x80)
    (x_low : 2 ≤ x) (x_high : x < 32) (y_small : y < 64) : Encoded (x * 64 + y) [first, second] := by
  obtain ⟨front, last⟩ := digits x y_small
  refine .two ?_ ?_ (by rw [front, first_]) (by rw [last, second_])
  all_goals omega

theorem Encoded.of_three {first second third : UInt8} (first_ : first.toNat = x + 0xE0) (second_ : second.toNat = y + 0x80)
    (third_ : third.toNat = z + 0x80) (low : 32 ≤ x * 64 + y) (x_high : x < 16) (y_small : y < 64) (z_small : z < 64) :
    Encoded ((x * 64 + y) * 64 + z) [first, second, third] := by
  obtain ⟨front, last⟩ := digits (x * 64 + y) z_small
  obtain ⟨front', last'⟩ := digits x y_small
  refine .three ?_ ?_ ?_ (by rw [front, last', second_]) (by rw [last, third_])
  · omega
  · omega
  · rw [show 4096 = 64 * 64 from rfl, ← Nat.div_div_eq_div_mul, front, front', first_]

theorem Encoded.of_four {first second third fourth : UInt8} (first_ : first.toNat = x + 0xF0)
    (second_ : second.toNat = y + 0x80)
    (third_ : third.toNat = z + 0x80) (fourth_ : fourth.toNat = w + 0x80) (low : 16 ≤ x * 64 + y) (y_small : y < 64)
    (z_small : z < 64)
    (w_small : w < 64) : Encoded (((x * 64 + y) * 64 + z) * 64 + w) [first, second, third, fourth] := by
  obtain ⟨front, last⟩ := digits ((x * 64 + y) * 64 + z) w_small
  obtain ⟨front', last'⟩ := digits (x * 64 + y) z_small
  obtain ⟨front'', last''⟩ := digits x y_small
  refine .four ?_ ?_ ?_ (by rw [front, last', third_]) (by rw [last, fourth_])
  · omega
  · rw [show 262144 = 64 * 64 * 64 from rfl, ← Nat.div_div_eq_div_mul, ← Nat.div_div_eq_div_mul, front, front',
      front'', first_]
  · rw [show 4096 = 64 * 64 from rfl, ← Nat.div_div_eq_div_mul, front, front', last'', second_]

end Digits

theorem encoded (character : Char) : Encoded character.toNat (encode character) := by
  have valid := toNat_valid character
  rw [encode_eq]
  split_ifs with one two three
  · exact .one (by omega) (by rw [UInt8.toNat_ofNat']; omega)
  · exact .two (by omega) (by omega) (by rw [UInt8.toNat_ofNat']; omega) (by rw [UInt8.toNat_ofNat']; omega)
  · exact .three (by omega) (by omega) (by rw [UInt8.toNat_ofNat']; omega) (by rw [UInt8.toNat_ofNat']; omega)
      (by rw [UInt8.toNat_ofNat']; omega)
  · exact .four (by omega) (by rw [UInt8.toNat_ofNat']; omega) (by rw [UInt8.toNat_ofNat']; omega)
      (by rw [UInt8.toNat_ofNat']; omega) (by rw [UInt8.toNat_ofNat']; omega)

variable {value : ℕ} {bytes : Bytes}

/-- Bytes with a character's numbers are its bytes. -/
theorem Encoded.eq {bytes bytes' : Bytes} (left : Encoded value bytes) (right : Encoded value bytes') :
    bytes = bytes' := by
  have same : ∀ {byte byte' : UInt8} {number : ℕ}, byte.toNat = number → byte'.toNat = number → byte = byte' :=
    fun is is' => UInt8.toNat_inj.mp (is.trans is'.symm)
  cases left with
  | one small first =>
    cases right with
    | one _ first' => rw [same first first']
    | two | three | four => lia
  | two large small first second =>
    cases right with
    | two _ _ first' second' => rw [same first first', same second second']
    | one | three | four => lia
  | three large small first second third =>
    cases right with
    | three _ _ first' second' third' => rw [same first first', same second second', same third third']
    | one | two | four => lia
  | four large first second third fourth =>
    cases right with
    | four _ first' second' third' fourth' =>
      rw [same first first', same second second', same third third', same fourth fourth']
    | one | two | three => lia

theorem encode_ne_nil (character : Char) : encode character ≠ [] := by
  intro none
  have bytes := encoded character
  rw [none] at bytes
  exact nomatch bytes

/-- The bytes of a character start with its first byte and no shorter part of them decodes. -/
theorem decode_encode (character : Char) (rest : Bytes) :
    decode (encode character ++ rest) = .character character.toNat rest := by
  have valid := toNat_valid character
  have bytes := encoded character
  generalize encode character = front at bytes
  generalize character.toNat = value at valid bytes
  cases bytes with
  | @one first small firstEq =>
    rw [List.singleton_append, decode, if_pos (firstEq ▸ small), firstEq]
  | @two first second large small firstEq secondEq =>
    clear valid
    obtain ⟨x, y, y_small, rfl⟩ : ∃ x y, y < 64 ∧ value = x * 64 + y :=
      ⟨_, _, Nat.mod_lt value (by decide), (div_digits value).symm⟩
    rw [(digits x y_small).1] at firstEq
    rw [(digits x y_small).2] at secondEq
    simp only [List.cons_append, List.nil_append, decode, firstEq, lead]
    rw [if_neg (Nat.not_lt.mpr (Nat.le_add_left_of_le (by decide))), if_pos (by omega)]
    simp only [following, secondEq]
    rw [if_pos ⟨Nat.le_add_left .., by omega⟩, Nat.add_sub_cancel, trailing_mod y_small]
  | @three first second third large small firstEq secondEq thirdEq =>
    obtain ⟨v, z, z_small, rfl⟩ : ∃ v z, z < 64 ∧ value = v * 64 + z :=
      ⟨_, _, Nat.mod_lt value (by decide), (div_digits value).symm⟩
    obtain ⟨x, y, y_small, rfl⟩ : ∃ x y, y < 64 ∧ v = x * 64 + y := ⟨_, _, Nat.mod_lt v (by decide), (div_digits v).symm⟩
    obtain ⟨front, last⟩ := digits (x * 64 + y) z_small
    rw [show 4096 = 64 * 64 from rfl, ← Nat.div_div_eq_div_mul, front, (digits x y_small).1] at firstEq
    rw [front, (digits x y_small).2] at secondEq
    rw [last] at thirdEq
    clear front last
    simp only [List.cons_append, List.nil_append, decode, firstEq, lead]
    rw [if_neg (Nat.not_lt.mpr (Nat.le_add_left_of_le (by decide))),
      if_neg (fun two => absurd two.2 (Nat.not_le.mpr (Nat.lt_add_left x (by decide)))),
      if_pos ⟨Nat.le_add_left .., by omega⟩]
    simp only [following, secondEq, thirdEq]
    rw [if_pos (by constructor <;> split <;> omega), if_pos ⟨Nat.le_add_left .., by omega⟩, Nat.add_sub_cancel,
      trailing_mod y_small,
      trailing_mod z_small]
  | @four first second third fourth large firstEq secondEq thirdEq fourthEq =>
    obtain ⟨u, w, w_small, rfl⟩ : ∃ u w, w < 64 ∧ value = u * 64 + w :=
      ⟨_, _, Nat.mod_lt value (by decide), (div_digits value).symm⟩
    obtain ⟨v, z, z_small, rfl⟩ : ∃ v z, z < 64 ∧ u = v * 64 + z := ⟨_, _, Nat.mod_lt u (by decide), (div_digits u).symm⟩
    obtain ⟨x, y, y_small, rfl⟩ : ∃ x y, y < 64 ∧ v = x * 64 + y := ⟨_, _, Nat.mod_lt v (by decide), (div_digits v).symm⟩
    obtain ⟨front, last⟩ := digits ((x * 64 + y) * 64 + z) w_small
    obtain ⟨front', last'⟩ := digits (x * 64 + y) z_small
    rw [show 262144 = 64 * 64 * 64 from rfl, ← Nat.div_div_eq_div_mul, ← Nat.div_div_eq_div_mul, front, front',
      (digits x y_small).1] at firstEq
    rw [show 4096 = 64 * 64 from rfl, ← Nat.div_div_eq_div_mul, front, front', (digits x y_small).2] at secondEq
    rw [front, last'] at thirdEq
    rw [last] at fourthEq
    clear front last front' last'
    simp only [List.cons_append, List.nil_append, decode, firstEq, lead]
    rw [if_neg (Nat.not_lt.mpr (Nat.le_add_left_of_le (by decide))),
      if_neg (fun two => absurd two.2 (Nat.not_le.mpr (Nat.lt_add_left x (by decide)))),
      if_neg (fun three => absurd three.2 (Nat.not_le.mpr (Nat.lt_add_left x (by decide)))),
        if_pos ⟨Nat.le_add_left .., by omega⟩]
    simp only [following, secondEq, thirdEq, fourthEq]
    rw [if_pos (by constructor <;> split <;> omega), if_pos ⟨Nat.le_add_left .., by omega⟩,
      if_pos ⟨Nat.le_add_left .., by omega⟩,
      Nat.add_sub_cancel, trailing_mod y_small, trailing_mod z_small, trailing_mod w_small]

theorem following_append {count low high value length : ℕ} (ended : following count low high value length bytes ≠ .truncated)
    (more : Bytes) : following count low high value length (bytes ++ more) =
      match following count low high value length bytes with
      | .character value rest => .character value (rest ++ more)
      | other => other := by
  induction bytes generalizing count low high value length with
  | nil =>
    cases count with
    | zero => rfl
    | succ count => exact absurd rfl ended
  | cons byte bytes ih =>
    cases count with
    | zero => rfl
    | succ count =>
      rw [List.cons_append, following, following]
      rw [following] at ended
      split
      · next inside =>
        rw [if_pos inside] at ended
        exact ih ended
      · rfl

/-- What a decoder found does not depend on what comes behind. -/
theorem decode_append (ended : decode bytes ≠ .truncated) (more : Bytes) :
    decode (bytes ++ more) =
      match decode bytes with
      | .character value rest => .character value (rest ++ more)
      | other => other := by
  cases bytes with
  | nil => exact absurd rfl ended
  | cons byte bytes =>
    rw [List.cons_append, decode, decode]
    rw [decode] at ended
    split
    · rfl
    · next wide =>
      rw [if_neg wide] at ended
      cases is : lead byte.toNat with
      | none => rfl
      | some first =>
        rw [is] at ended
        exact following_append ended more

/-- The start of a character's bytes is not decoded. -/
theorem decode_of_encode_eq_append {character : Char} {bytes tail : Bytes} (whole : encode character = bytes ++ tail)
    (some_ : tail ≠ []) : decode bytes = .truncated := by
  by_contra ended
  have decoded := decode_encode character []
  rw [List.append_nil, whole, decode_append ended] at decoded
  cases is : decode bytes with
  | truncated => exact ended is
  | malformed length =>
    rw [is] at decoded
    cases decoded
  | character value rest =>
    rw [is] at decoded
    injection decoded with _ empty
    exact some_ (List.append_eq_nil_iff.mp empty).2

theorem lead_some {byte : ℕ} {first : Lead} (is : lead byte = some first) :
    (0xC2 ≤ byte ∧ byte ≤ 0xDF ∧ first = ⟨1, 0x80, 0xBF, byte - 0xC0⟩) ∨
      (0xE0 ≤ byte ∧ byte ≤ 0xEF ∧
        first = ⟨2, if byte = 0xE0 then 0xA0 else 0x80, if byte = 0xED then 0x9F else 0xBF, byte - 0xE0⟩) ∨
      (0xF0 ≤ byte ∧ byte ≤ 0xF4 ∧
        first = ⟨3, if byte = 0xF0 then 0x90 else 0x80, if byte = 0xF4 then 0x8F else 0xBF, byte - 0xF0⟩) := by
  unfold lead at is
  split at is
  · next two =>
    cases is
    exact .inl ⟨two.1, two.2, rfl⟩
  · split at is
    · next three =>
      cases is
      exact .inr (.inl ⟨three.1, three.2, rfl⟩)
    · split at is
      · next four =>
        cases is
        exact .inr (.inr ⟨four.1, four.2, rfl⟩)
      · cases is

theorem following_character {count low high value length found : ℕ} {bytes rest : Bytes}
    (is : following (count + 1) low high value length bytes = .character found rest) :
    ∃ byte tail, bytes = byte :: tail ∧ low ≤ byte.toNat ∧ byte.toNat ≤ high ∧
      following count 0x80 0xBF (value * 64 + byte.toNat % 64) (length + 1) tail = .character found rest := by
  cases bytes with
  | nil => cases is
  | cons byte tail =>
    rw [following] at is
    split at is
    · next inside => exact ⟨byte, tail, rfl, inside.1, inside.2, is⟩
    · cases is

theorem toNat_ofNat (valid : value.isValidChar) : (Char.ofNat value).toNat = value := by
  rw [Char.ofNat, dif_pos valid]
  rfl

/-- Bytes with the numbers of a value's bytes are those of its character. -/
theorem Encoded.character {value : ℕ} {bytes : Bytes} (bytes_ : Encoded value bytes) (valid : value.isValidChar) :
    ∃ character : Char, character.toNat = value ∧ bytes = encode character := by
  refine ⟨Char.ofNat value, toNat_ofNat valid, bytes_.eq ?_⟩
  have other := encoded (Char.ofNat value)
  rwa [toNat_ofNat valid] at other

theorem valid_three {x y z : ℕ} (x_high : x < 16) (y_small : y < 64) (z_small : z < 64) (apart : x = 13 → y < 32) :
    ((x * 64 + y) * 64 + z).isValidChar := by
  rw [Nat.isValidChar]
  omega

theorem valid_four {x y z w : ℕ} (low : 16 ≤ x * 64 + y) (high : x * 64 + y < 272) (z_small : z < 64) (w_small : w < 64) :
    (((x * 64 + y) * 64 + z) * 64 + w).isValidChar := by
  rw [Nat.isValidChar]
  omega

/-- Whatever is decoded came from the bytes of a character. -/
theorem decode_character {bytes rest : Bytes} (is : decode bytes = .character value rest) :
    ∃ character : Char, character.toNat = value ∧ bytes = encode character ++ rest := by
  have found : ∃ front, Encoded value front ∧ value.isValidChar ∧ bytes = front ++ rest := by
    cases bytes with
    | nil => cases is
    | cons byte bytes =>
      rw [decode] at is
      split at is
      · next ascii =>
        cases is
        exact ⟨[byte], .one ascii rfl, .inl (Nat.lt_trans ascii (by decide)), rfl⟩
      · next wide =>
        cases announced : lead byte.toNat with
        | none =>
          rw [announced] at is
          cases is
        | some first =>
          rw [announced] at is
          rcases lead_some announced with ⟨low, high, rfl⟩ | ⟨low, high, rfl⟩ | ⟨low, high,
            rfl⟩ <;> dsimp only at is <;> clear announced wide
          · obtain ⟨second, tail, rfl, low₂, high₂, is⟩ := following_character is
            cases is
            obtain ⟨x, first_⟩ := Nat.exists_eq_add_of_le' (Nat.le_trans (by decide : 0xC0 ≤ 0xC2) low)
            obtain ⟨y, y_small, second_, digit⟩ := trailing low₂ high₂
            rw [digit, first_, Nat.add_sub_cancel]
            rw [first_] at low high
            clear low₂ high₂ digit
            have x_low : 2 ≤ x := Nat.le_of_add_le_add_right (show 2 + 0xC0 ≤ x + 0xC0 from low)
            have x_high : x < 32 := Nat.lt_of_add_lt_add_right (Nat.lt_succ_of_le high)
            exact ⟨[byte, second], .of_two first_ second_ x_low x_high y_small, .inl (by omega), rfl⟩
          · obtain ⟨second, tail, rfl, low₂, high₂, is⟩ := following_character is
            obtain ⟨third, tail, rfl, low₃, high₃, is⟩ := following_character is
            cases is
            obtain ⟨x, first_⟩ := Nat.exists_eq_add_of_le' low
            obtain ⟨low₂, high₂, low', high'⟩ : 0x80 ≤ second.toNat ∧ second.toNat ≤ 0xBF ∧
              (byte.toNat = 0xE0 → 0xA0 ≤ second.toNat) ∧
                (byte.toNat = 0xED → second.toNat ≤ 0x9F) := by
              clear low₃ high₃ low high first_
              split_ifs at low₂ high₂ <;> lia
            obtain ⟨y, y_small, second_, digit₂⟩ := trailing low₂ high₂
            obtain ⟨z, z_small, third_, digit₃⟩ := trailing low₃ high₃
            rw [digit₂, digit₃, first_, Nat.add_sub_cancel]
            rw [first_] at high low' high'
            rw [second_] at low' high'
            clear low low₂ high₂ low₃ high₃ digit₂ digit₃
            have x_high : x < 16 := Nat.lt_of_add_lt_add_right (Nat.lt_succ_of_le high)
            exact ⟨[byte, second, third], .of_three first_ second_ third_ (by omega) x_high y_small z_small,
              valid_three x_high y_small z_small (by omega), rfl⟩
          · obtain ⟨second, tail, rfl, low₂, high₂, is⟩ := following_character is
            obtain ⟨third, tail, rfl, low₃, high₃, is⟩ := following_character is
            obtain ⟨fourth, tail, rfl, low₄, high₄, is⟩ := following_character is
            cases is
            obtain ⟨x, first_⟩ := Nat.exists_eq_add_of_le' low
            obtain ⟨low₂, high₂, low', high'⟩ : 0x80 ≤ second.toNat ∧ second.toNat ≤ 0xBF ∧
              (byte.toNat = 0xF0 → 0x90 ≤ second.toNat) ∧
                (byte.toNat = 0xF4 → second.toNat ≤ 0x8F) := by
              clear low₃ high₃ low₄ high₄ low high first_
              split_ifs at low₂ high₂ <;> lia
            obtain ⟨y, y_small, second_, digit₂⟩ := trailing low₂ high₂
            obtain ⟨z, z_small, third_, digit₃⟩ := trailing low₃ high₃
            obtain ⟨w, w_small, fourth_, digit₄⟩ := trailing low₄ high₄
            rw [digit₂, digit₃, digit₄, first_, Nat.add_sub_cancel]
            rw [first_] at high low' high'
            rw [second_] at low' high'
            clear low low₂ high₂ low₃ high₃ low₄ high₄ digit₂ digit₃ digit₄
            have low : 16 ≤ x * 64 + y := by omega
            exact ⟨[byte, second, third, fourth], .of_four first_ second_ third_ fourth_ low y_small z_small w_small,
              valid_four low (by omega) z_small w_small, rfl⟩
  obtain ⟨front, bytes_, valid, rfl⟩ := found
  obtain ⟨character, rfl, rfl⟩ := bytes_.character valid
  exact ⟨character, rfl, rfl⟩

/-- Why bytes are no text: how many bytes of it are, and how many after them are wrong, unless there
are too few of them. -/
structure Utf8Error where
  validUpTo : ℕ
  errorLen : Option ℕ
deriving DecidableEq

/-- Decode at most so many characters. -/
def scan : ℕ → ℕ → Bytes → Except Utf8Error (List Char)
  | _, _, [] => .ok []
  | 0, position, _ => .error ⟨position, none⟩
  | count + 1, position, bytes =>
    match decode bytes with
    | .character value rest => do
      let characters ← scan count (position + (bytes.length - rest.length)) rest
      .ok (Char.ofNat value :: characters)
    | .truncated => .error ⟨position, none⟩
    | .malformed length => .error ⟨position, some length⟩

/-- The characters of some bytes, if they are a text. -/
def fromUtf8 (bytes : Bytes) : Except Utf8Error (List Char) := scan bytes.length 0 bytes

/-- Bytes that do not start with the bytes of a character. -/
def Stuck (bytes : Bytes) : Prop := ∀ value rest, decode bytes ≠ .character value rest

theorem stuck_nil : Stuck [] := nofun

theorem encodeAll_cons (character : Char) (characters : List Char) :
    encodeAll (character :: characters) = encode character ++ encodeAll characters := List.flatMap_cons

theorem encodeAll_append (front back : List Char) : encodeAll (front ++ back) = encodeAll front ++ encodeAll back :=
  List.flatMap_append

/-- Bytes are those of some characters and of what does not decode, in one way. -/
theorem encodeAll_append_inj {characters others : List Char} {rest rest' : Bytes} (stuck : Stuck rest)
    (stuck' : Stuck rest') (same : encodeAll characters ++ rest = encodeAll others ++ rest') :
    characters = others ∧ rest = rest' := by
  induction characters generalizing others with
  | nil =>
    cases others with
    | nil => exact ⟨rfl, same⟩
    | cons other others =>
      rw [encodeAll_cons, List.append_assoc] at same
      have decoded := decode_encode other (encodeAll others ++ rest')
      rw [← same] at decoded
      exact absurd decoded (stuck _ _)
  | cons character characters ih =>
    cases others with
    | nil =>
      rw [encodeAll_cons, List.append_assoc] at same
      have decoded := decode_encode character (encodeAll characters ++ rest)
      rw [same] at decoded
      exact absurd decoded (stuck' _ _)
    | cons other others =>
      rw [encodeAll_cons, encodeAll_cons, List.append_assoc, List.append_assoc] at same
      have decoded := decode_encode character (encodeAll characters ++ rest)
      rw [same, decode_encode] at decoded
      injection decoded with values rests
      have is : other = character := Char.toNat_inj.mp values
      subst is
      obtain ⟨rfl, rfl⟩ := ih rests.symm
      exact ⟨rfl, rfl⟩

theorem encodeAll_injective : Function.Injective encodeAll := by
  intro characters others same
  exact (encodeAll_append_inj stuck_nil stuck_nil (congrArg (· ++ []) same)).1

/-- What a decoder makes of some bytes: characters, and what does not decode. -/
inductive Reads (bytes : Bytes) : List Char → Bytes → Except Utf8Error (List Char) → Prop
  | whole {characters} (is : bytes = encodeAll characters) : Reads bytes characters [] (.ok characters)
  | truncated {characters rest} (is : bytes = encodeAll characters ++ rest) (some_ : rest ≠ [])
      (ends : decode rest = .truncated) : Reads bytes characters rest (.error ⟨(encodeAll characters).length, none⟩)
  | malformed {characters rest length} (is : bytes = encodeAll characters ++ rest)
      (wrong : decode rest = .malformed length) :
      Reads bytes characters rest (.error ⟨(encodeAll characters).length, some length⟩)

theorem scan_reads {count position : ℕ} {bytes : Bytes} (enough : bytes.length ≤ count) :
    ∃ characters rest, bytes = encodeAll characters ++ rest ∧
      ((rest = [] ∧ scan count position bytes = .ok characters) ∨
        (rest ≠ [] ∧ decode rest = .truncated ∧
          scan count position bytes = .error ⟨position + (encodeAll characters).length, none⟩) ∨
        ∃ length, decode rest = .malformed length ∧
          scan count position bytes = .error ⟨position + (encodeAll characters).length, some length⟩) := by
  induction count generalizing position bytes with
  | zero =>
    obtain rfl := List.length_eq_zero_iff.mp (Nat.le_zero.mp enough)
    exact ⟨[], [], rfl, .inl ⟨rfl, rfl⟩⟩
  | succ count ih =>
    cases bytes with
    | nil => exact ⟨[], [], rfl, .inl ⟨rfl, rfl⟩⟩
    | cons byte bytes =>
      rw [scan]
      · cases is : decode (byte :: bytes) with
        | truncated => exact ⟨[], byte :: bytes, rfl, .inr (.inl ⟨List.cons_ne_nil _ _, is, rfl⟩)⟩
        | malformed length => exact ⟨[], byte :: bytes, rfl, .inr (.inr ⟨length, is, rfl⟩)⟩
        | character value rest =>
          obtain ⟨character, rfl, whole⟩ := decode_character is
          have lengths := congrArg List.length whole
          rw [List.length_append] at lengths
          have shorter : rest.length ≤ count := by
            have := List.length_pos_of_ne_nil (encode_ne_nil character)
            lia
          have read : (byte :: bytes).length - rest.length = (encode character).length := by lia
          obtain ⟨characters, left, rfl, found⟩ := @ih (position + (encode character).length) rest shorter
          refine ⟨character :: characters, left, by rw [whole, encodeAll_cons, List.append_assoc], ?_⟩
          dsimp only
          rw [read, Char.ofNat_toNat, encodeAll_cons, List.length_append, ← Nat.add_assoc]
          rcases found with ⟨rfl, found⟩ | ⟨some_, ends, found⟩ | ⟨length, wrong, found⟩
          · rw [found]
            exact .inl ⟨rfl, rfl⟩
          · rw [found]
            exact .inr (.inl ⟨some_, ends, rfl⟩)
          · rw [found]
            exact .inr (.inr ⟨length, wrong, rfl⟩)
      · exact fun empty => absurd empty (List.cons_ne_nil _ _)

theorem fromUtf8_reads (bytes : Bytes) : ∃ characters rest, Reads bytes characters rest (fromUtf8 bytes) := by
  obtain ⟨characters, rest, is, found⟩ := @scan_reads bytes.length 0 bytes le_rfl
  refine ⟨characters, rest, ?_⟩
  rw [fromUtf8]
  rcases found with ⟨rfl, found⟩ | ⟨some_, ends, found⟩ | ⟨length, wrong, found⟩
  · rw [found]
    exact .whole (is.trans (List.append_nil _))
  · rw [found, Nat.zero_add]
    exact .truncated is some_ ends
  · rw [found, Nat.zero_add]
    exact .malformed is wrong

theorem Reads.stuck {bytes rest : Bytes} {characters : List Char} {answer : Except Utf8Error (List Char)}
    (reads : Reads bytes characters rest answer) : bytes = encodeAll characters ++ rest ∧ Stuck rest := by
  cases reads with
  | whole is => exact ⟨is.trans (List.append_nil _).symm, stuck_nil⟩
  | truncated is _ ends => exact ⟨is, fun value rest => by rw [ends]; nofun⟩
  | malformed is wrong => exact ⟨is, fun value rest => by rw [wrong]; nofun⟩

/-- The bytes of a text are decoded to it. -/
theorem fromUtf8_encodeAll (characters : List Char) : fromUtf8 (encodeAll characters) = .ok characters := by
  obtain ⟨others, rest, reads⟩ := fromUtf8_reads (encodeAll characters)
  obtain ⟨whole, stuck⟩ := reads.stuck
  obtain ⟨rfl, rfl⟩ := encodeAll_append_inj stuck_nil stuck ((List.append_nil _).trans whole)
  generalize fromUtf8 (encodeAll characters) = answer at reads
  cases reads with
  | whole => rfl
  | truncated _ some_ => exact absurd rfl some_
  | malformed _ wrong => cases wrong

/-- Bytes that are decoded are those of the text. -/
theorem encodeAll_of_fromUtf8 {characters : List Char} (is : fromUtf8 bytes = .ok characters) :
    encodeAll characters = bytes := by
  obtain ⟨others, rest, reads⟩ := fromUtf8_reads bytes
  rw [is] at reads
  cases reads with
  | whole whole => exact whole.symm

theorem encodeAll_eq_nil {characters : List Char} (none : encodeAll characters = []) : characters = [] := by
  cases characters with
  | nil => rfl
  | cons character characters =>
    rw [encodeAll_cons, List.append_eq_nil_iff] at none
    exact absurd none.1 (encode_ne_nil character)

end Muser.Utf8
