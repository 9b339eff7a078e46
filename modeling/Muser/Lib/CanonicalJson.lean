import Muser.Lib.Bytes
import Mathlib.Tactic.IntervalCases
import Mathlib.Tactic.SplitIfs

/-! # Canonical compact JSON

Values are rendered without whitespace, with the escapes of a compact JSON writer. An object lists
its members in the order in which they are written: a serializer with sorted keys lists them in
key order. The text of a value determines the value, also when other text follows it, so a digest
that is injective on texts is injective on values.
-/

namespace Muser

inductive Json where
  | null
  | bool (value : Bool)
  | num (value : ℕ)
  | str (text : String)
  | arr (items : List Json)
  | obj (members : List (String × Json))

namespace Json

/-- One lowercase hexadecimal digit. -/
def hexDigit (digit : ℕ) : UInt8 :=
  if digit < 10 then UInt8.ofNat (48 + digit) else UInt8.ofNat (87 + digit)

/-- The bytes written for a control byte. -/
def escapeControl (byte : UInt8) : Bytes :=
  if byte = 0x08 then [0x5c, 0x62]
  else if byte = 0x0c then [0x5c, 0x66]
  else if byte = 0x0a then [0x5c, 0x6e]
  else if byte = 0x0d then [0x5c, 0x72]
  else if byte = 0x09 then [0x5c, 0x74]
  else [0x5c, 0x75, 0x30, 0x30, hexDigit (byte.toNat / 16), hexDigit (byte.toNat % 16)]

/-- The bytes written for one byte of a text inside quotes. -/
def escape (byte : UInt8) : Bytes :=
  if byte.toNat < 0x20 then escapeControl byte
  else if byte.toNat = 0x22 then [0x5c, 0x22]
  else if byte.toNat = 0x5c then [0x5c, 0x5c]
  else [byte]

def quote (text : String) : Bytes := 0x22 :: ((utf8 text).flatMap escape ++ [0x22])

/-- Decimal digits, most significant first. -/
def digits (value : ℕ) : Bytes := (Nat.toDigits 10 value).map fun digit => UInt8.ofNat digit.toNat

mutual

/-- The compact text of a value. -/
def render : Json → Bytes
  | .null => [0x6e, 0x75, 0x6c, 0x6c]
  | .bool true => [0x74, 0x72, 0x75, 0x65]
  | .bool false => [0x66, 0x61, 0x6c, 0x73, 0x65]
  | .num value => digits value
  | .str text => quote text
  | .arr items => 0x5b :: (renderItems items ++ [0x5d])
  | .obj members => 0x7b :: (renderMembers members ++ [0x7d])

def renderItems : List Json → Bytes
  | [] => []
  | [item] => item.render
  | item :: next :: rest => item.render ++ 0x2c :: renderItems (next :: rest)

def renderMembers : List (String × Json) → Bytes
  | [] => []
  | [(key, value)] => quote key ++ 0x3a :: value.render
  | (key, value) :: next :: rest => quote key ++ 0x3a :: (value.render ++ 0x2c :: renderMembers (next :: rest))

end

/-- The byte that an escape stands for, read from the front of a text. -/
def unescape : Bytes → UInt8
  | 0x5c :: 0x75 :: _ :: _ :: high :: low :: _ => unhex high * 16 + unhex low
  | 0x5c :: 0x62 :: _ => 0x08
  | 0x5c :: 0x66 :: _ => 0x0c
  | 0x5c :: 0x6e :: _ => 0x0a
  | 0x5c :: 0x72 :: _ => 0x0d
  | 0x5c :: 0x74 :: _ => 0x09
  | 0x5c :: byte :: _ => byte
  | byte :: _ => byte
  | [] => 0
where
  unhex (byte : UInt8) : UInt8 := if byte ≤ 0x39 then byte - 48 else byte - 87

variable {byte : UInt8} {rest rest' : Bytes}

theorem escape_plain (control : ¬byte.toNat < 0x20) (mark : byte ≠ 0x22) (slash : byte ≠ 0x5c) :
    escape byte = [byte] := by
  have notMark : ¬byte.toNat = 0x22 := fun same => mark (UInt8.toNat_inj.mp same)
  have notSlash : ¬byte.toNat = 0x5c := fun same => slash (UInt8.toNat_inj.mp same)
  rw [escape, if_neg control, if_neg notMark, if_neg notSlash]

theorem unescape_escape (byte : UInt8) (rest : Bytes) : unescape (escape byte ++ rest) = byte := by
  by_cases control : byte.toNat < 0x20
  · generalize value : byte.toNat = code at control
    obtain rfl : byte = UInt8.ofNat code := by rw [← value, UInt8.ofNat_toNat]
    interval_cases code <;> rfl
  · by_cases mark : byte = 0x22
    · subst mark
      rfl
    · by_cases slash : byte = 0x5c
      · subst slash
        rfl
      · rw [escape_plain control mark slash]
        unfold unescape
        split <;> simp_all

theorem escape_append_inj {left right : UInt8}
    (same : escape left ++ rest = escape right ++ rest') : left = right ∧ rest = rest' := by
  have bytes : left = right := by
    rw [← unescape_escape left rest, same, unescape_escape]
  subst bytes
  exact ⟨rfl, List.append_cancel_left same⟩

theorem escape_ne_quote : escape byte ++ rest ≠ 0x22 :: rest' := by
  unfold escape escapeControl
  split_ifs <;> simp_all [← UInt8.toNat_inj]

/-- Quoted text determines the text, whatever follows it. -/
theorem quote_append_inj {left right : String}
    (same : quote left ++ rest = quote right ++ rest') : left = right ∧ rest = rest' := by
  have contents : ∀ (left right : Bytes), left.flatMap escape ++ 0x22 :: rest = right.flatMap escape ++ 0x22 :: rest' →
      left = right ∧ rest = rest' := by
    intro left
    induction left with
    | nil =>
      intro right same
      cases right with
      | nil => simpa using same
      | cons byte right =>
        rw [List.flatMap_cons, List.append_assoc] at same
        exact absurd same.symm escape_ne_quote
    | cons byte left ih =>
      intro right same
      cases right with
      | nil =>
        rw [List.flatMap_cons, List.append_assoc] at same
        exact absurd same escape_ne_quote
      | cons byte' right =>
        rw [List.flatMap_cons, List.flatMap_cons, List.append_assoc, List.append_assoc] at same
        obtain ⟨rfl, tails⟩ := escape_append_inj same
        obtain ⟨rfl, rests⟩ := ih right tails
        exact ⟨rfl, rests⟩
  have inner := contents (utf8 left) (utf8 right) (by simpa [quote] using same)
  exact ⟨utf8_injective inner.1, inner.2⟩

/-- What may follow a value inside a text: nothing, or a byte that no number continues with. -/
def Stops (rest : Bytes) : Prop := ∀ byte ∈ rest.head?, ¬(0x30 ≤ byte ∧ byte ≤ 0x39)

private theorem digit_toNat_lt {value : ℕ} {digit : Char} (member : digit ∈ Nat.toDigits 10 value) :
    48 ≤ digit.toNat ∧ digit.toNat ≤ 57 := by
  have isDigit := Nat.isDigit_of_mem_toDigits (by decide) (by decide) member
  rwa [Char.isDigit_iff_toNat] at isDigit

private theorem digit_byte_toNat {digit : Char} (small : digit.toNat ≤ 57) :
    (UInt8.ofNat digit.toNat).toNat = digit.toNat := by
  apply UInt8.toNat_ofNat_of_lt'
  change digit.toNat < 256
  lia

theorem digits_digit {value : ℕ} (member : byte ∈ digits value) : 0x30 ≤ byte ∧ byte ≤ 0x39 := by
  obtain ⟨digit, present, rfl⟩ := List.mem_map.mp member
  have range := digit_toNat_lt present
  rw [UInt8.le_iff_toNat_le, UInt8.le_iff_toNat_le, digit_byte_toNat range.2]
  exact range

theorem digits_injective : Function.Injective digits := by
  intro left right same
  have pointwise : ∀ (left right : List Char), (∀ digit ∈ left, digit.toNat ≤ 57) → (∀ digit ∈ right, digit.toNat ≤ 57) →
      left.map (fun digit => UInt8.ofNat digit.toNat) = right.map (fun digit => UInt8.ofNat digit.toNat) →
      left = right := by
    intro left
    induction left with
    | nil => intro right _ _ same; simpa using same.symm
    | cons digit left ih =>
      intro right small small' same
      cases right with
      | nil => simp at same
      | cons digit' right =>
        simp only [List.map_cons, List.cons.injEq] at same
        have heads : digit.toNat = digit'.toNat := by
          rw [← digit_byte_toNat (small digit (by simp)), same.1, digit_byte_toNat (small' digit' (by simp))]
        rw [Char.toNat_inj.mp heads, ih right (fun item member => small item (by simp [member]))
          (fun item member => small' item (by simp [member])) same.2]
  have chars := pointwise _ _ (fun _ member => (digit_toNat_lt member).2) (fun _ member => (digit_toNat_lt member).2) same
  rw [← Nat.ofDigitChars_ten_toDigits (n := left), chars, Nat.ofDigitChars_ten_toDigits]

theorem digits_ne_nil (value : ℕ) : digits value ≠ [] := by
  simp [digits]

/-- Two runs of accepted bytes, each followed by a byte that is not accepted, agree throughout. -/
theorem run_append_inj {accepted : UInt8 → Prop} {left right rest rest' : Bytes} (leftRun : ∀ byte ∈ left, accepted byte)
    (rightRun : ∀ byte ∈ right, accepted byte) (stop : ∀ byte ∈ rest.head?, ¬accepted byte)
    (stop' : ∀ byte ∈ rest'.head?, ¬accepted byte) (same : left ++ rest = right ++ rest') :
    left = right ∧ rest = rest' := by
  induction left generalizing right with
  | nil =>
    cases right with
    | nil => exact ⟨rfl, same⟩
    | cons byte right =>
      have starts : byte ∈ rest.head? := by simp_all
      exact absurd (rightRun byte (by simp)) (stop byte starts)
  | cons byte left ih =>
    cases right with
    | nil =>
      have starts : byte ∈ rest'.head? := by simp [← (show _ = rest' from same)]
      exact absurd (leftRun byte (by simp)) (stop' byte starts)
    | cons byte' right =>
      simp only [List.cons_append, List.cons.injEq] at same
      obtain ⟨rfl, tails⟩ := same
      obtain ⟨rfl, rests⟩ := ih (fun item member => leftRun item (by simp [member]))
        (fun item member => rightRun item (by simp [member])) tails
      exact ⟨rfl, rests⟩

/-- The shape of a value, as its first byte shows it. -/
def shape : Json → ℕ
  | .null => 1
  | .bool true => 2
  | .bool false => 3
  | .num _ => 0
  | .str _ => 4
  | .arr _ => 5
  | .obj _ => 6

/-- The shape a first byte announces; closing brackets and separators announce none. -/
def shapeOf (byte : UInt8) : ℕ :=
  if byte = 0x6e then 1 else if byte = 0x74 then 2 else if byte = 0x66 then 3 else if byte = 0x22 then 4
  else if byte = 0x5b then 5 else if byte = 0x7b then 6 else if 0x30 ≤ byte ∧ byte ≤ 0x39 then 0 else 7

theorem render_starts (value : Json) : ∃ byte tail, value.render = byte :: tail ∧ shapeOf byte = value.shape := by
  cases value with
  | null => exact ⟨_, _, rfl, by decide⟩
  | bool value => cases value <;> exact ⟨_, _, rfl, by decide⟩
  | num value =>
    obtain ⟨byte, tail, starts⟩ := List.exists_cons_of_ne_nil (digits_ne_nil value)
    have member : byte ∈ digits value := by simp [starts]
    have range := digits_digit member
    refine ⟨byte, tail, by rw [render, starts], ?_⟩
    unfold shapeOf
    split_ifs <;> simp_all [shape]
  | str text => exact ⟨_, _, by rw [render, quote], rfl⟩
  | arr items | obj members => exact ⟨_, _, by rw [render], rfl⟩

theorem shape_eq_of_render {left right : Json}
    (same : left.render ++ rest = right.render ++ rest') : left.shape = right.shape := by
  obtain ⟨byte, tail, starts, announced⟩ := render_starts left
  obtain ⟨byte', tail', starts', announced'⟩ := render_starts right
  rw [starts, starts', List.cons_append, List.cons_append, List.cons.injEq] at same
  rw [← announced, ← announced', same.1]

theorem render_ne_of_shapeOf {value : Json} (none : shapeOf byte = 7) :
    value.render ++ rest ≠ byte :: rest' := by
  obtain ⟨first, tail, starts, announced⟩ := render_starts value
  intro same
  rw [starts, List.cons_append, List.cons.injEq] at same
  rw [same.1, none] at announced
  cases value with
  | bool value => cases value <;> simp [shape] at announced
  | _ => simp [shape] at announced

theorem stops_cons {rest : Bytes} (separator : shapeOf byte = 7) : Stops (byte :: rest) := by
  intro first starts
  obtain rfl : byte = first := by simpa using starts
  intro range
  unfold shapeOf at separator
  split_ifs at separator <;> lia

mutual

/-- The text of a value determines the value and what follows it. -/
theorem render_append_inj : ∀ (left right : Json) {rest rest' : Bytes}, Stops rest → Stops rest' →
    left.render ++ rest = right.render ++ rest' → left = right ∧ rest = rest'
  | .null, right, rest, rest', stop, stop', same => by
    have shapes := shape_eq_of_render same
    match right with
    | .null => exact ⟨rfl, List.append_cancel_left same⟩
    | .bool true | .bool false | .num _ | .str _ | .arr _ | .obj _ => simp [shape] at shapes
  | .bool true, right, rest, rest', stop, stop', same => by
    have shapes := shape_eq_of_render same
    match right with
    | .bool true => exact ⟨rfl, List.append_cancel_left same⟩
    | .null | .bool false | .num _ | .str _ | .arr _ | .obj _ => simp [shape] at shapes
  | .bool false, right, rest, rest', stop, stop', same => by
    have shapes := shape_eq_of_render same
    match right with
    | .bool false => exact ⟨rfl, List.append_cancel_left same⟩
    | .null | .bool true | .num _ | .str _ | .arr _ | .obj _ => simp [shape] at shapes
  | .num value, right, rest, rest', stop, stop', same => by
    have shapes := shape_eq_of_render same
    match right with
    | .num value' =>
      rw [render, render] at same
      obtain ⟨texts, rests⟩ := run_append_inj (fun _ => digits_digit) (fun _ => digits_digit) stop stop' same
      rw [digits_injective texts]
      exact ⟨rfl, rests⟩
    | .null | .bool true | .bool false | .str _ | .arr _ | .obj _ => simp [shape] at shapes
  | .str text, right, rest, rest', stop, stop', same => by
    have shapes := shape_eq_of_render same
    match right with
    | .str text' =>
      rw [render, render] at same
      obtain ⟨rfl, rests⟩ := quote_append_inj same
      exact ⟨rfl, rests⟩
    | .null | .bool true | .bool false | .num _ | .arr _ | .obj _ => simp [shape] at shapes
  | .arr items, right, rest, rest', stop, stop', same => by
    have shapes := shape_eq_of_render same
    match right with
    | .arr items' =>
      rw [render, render, List.cons_append, List.cons_append, List.append_assoc, List.append_assoc,
        List.cons.injEq] at same
      obtain ⟨rfl, rests⟩ := renderItems_append_inj items items' same.2
      exact ⟨rfl, by simpa using rests⟩
    | .null | .bool true | .bool false | .num _ | .str _ | .obj _ => simp [shape] at shapes
  | .obj members, right, rest, rest', stop, stop', same => by
    have shapes := shape_eq_of_render same
    match right with
    | .obj members' =>
      rw [render, render, List.cons_append, List.cons_append, List.append_assoc, List.append_assoc,
        List.cons.injEq] at same
      obtain ⟨rfl, rests⟩ := renderMembers_append_inj members members' same.2
      exact ⟨rfl, by simpa using rests⟩
    | .null | .bool true | .bool false | .num _ | .str _ | .arr _ => simp [shape] at shapes

theorem renderItems_append_inj : ∀ (left right : List Json) {rest rest' : Bytes},
    renderItems left ++ ([0x5d] ++ rest) = renderItems right ++ ([0x5d] ++ rest') → left = right ∧ rest = rest'
  | [], [], rest, rest', same => by simpa [renderItems] using same
  | [], [item], rest, rest', same => by
    rw [renderItems, renderItems] at same
    exact absurd same.symm (render_ne_of_shapeOf (by decide))
  | [], item :: next :: tail, rest, rest', same => by
    rw [renderItems, renderItems, List.append_assoc] at same
    exact absurd same.symm (render_ne_of_shapeOf (by decide))
  | [item], [], rest, rest', same => by
    rw [renderItems, renderItems] at same
    exact absurd same (render_ne_of_shapeOf (by decide))
  | item :: next :: tail, [], rest, rest', same => by
    rw [renderItems, renderItems, List.append_assoc] at same
    exact absurd same (render_ne_of_shapeOf (by decide))
  | [item], [item'], rest, rest', same => by
    rw [renderItems, renderItems] at same
    obtain ⟨rfl, rests⟩ := render_append_inj item item' (stops_cons (by decide)) (stops_cons (by decide)) same
    exact ⟨rfl, by simpa using rests⟩
  | [item], item' :: next :: tail, rest, rest', same => by
    rw [renderItems, renderItems, List.append_assoc] at same
    obtain ⟨_, rests⟩ := render_append_inj item item' (stops_cons (by decide)) (stops_cons (by decide)) same
    simp at rests
  | item :: next :: tail, [item'], rest, rest', same => by
    rw [renderItems, renderItems, List.append_assoc] at same
    obtain ⟨_, rests⟩ := render_append_inj item item' (stops_cons (by decide)) (stops_cons (by decide)) same
    simp at rests
  | item :: next :: tail, item' :: next' :: tail', rest, rest', same => by
    rw [renderItems, renderItems, List.append_assoc, List.append_assoc] at same
    obtain ⟨rfl, rests⟩ := render_append_inj item item' (stops_cons (by decide)) (stops_cons (by decide)) same
    rw [List.cons_append, List.cons_append, List.cons.injEq] at rests
    obtain ⟨tails, ends⟩ := renderItems_append_inj (next :: tail) (next' :: tail') rests.2
    exact ⟨by rw [tails], ends⟩

theorem renderMembers_append_inj : ∀ (left right : List (String × Json)) {rest rest' : Bytes},
    renderMembers left ++ ([0x7d] ++ rest) = renderMembers right ++ ([0x7d] ++ rest') → left = right ∧ rest = rest'
  | [], [], rest, rest', same => by simpa [renderMembers] using same
  | [], [(key, value)], rest, rest', same => by
    simp [renderMembers, quote] at same
  | [], (key, value) :: next :: tail, rest, rest', same => by
    simp [renderMembers, quote] at same
  | [(key, value)], [], rest, rest', same => by
    simp [renderMembers, quote] at same
  | (key, value) :: next :: tail, [], rest, rest', same => by
    simp [renderMembers, quote] at same
  | [(key, value)], [(key', value')], rest, rest', same => by
    rw [renderMembers, renderMembers, List.append_assoc, List.append_assoc] at same
    obtain ⟨rfl, values⟩ := quote_append_inj same
    simp only [List.cons_append, List.cons.injEq, true_and, List.nil_append] at values
    obtain ⟨rfl, rests⟩ := render_append_inj value value' (stops_cons (by decide)) (stops_cons (by decide)) values
    exact ⟨rfl, by simpa using rests⟩
  | [(key, value)], (key', value') :: next :: tail, rest, rest', same => by
    rw [renderMembers, renderMembers, List.append_assoc, List.append_assoc] at same
    obtain ⟨rfl, values⟩ := quote_append_inj same
    simp only [List.cons_append, List.cons.injEq, List.append_assoc, true_and, List.nil_append] at values
    obtain ⟨_, rests⟩ := render_append_inj value value' (stops_cons (by decide)) (stops_cons (by decide)) values
    simp at rests
  | (key, value) :: next :: tail, [(key', value')], rest, rest', same => by
    rw [renderMembers, renderMembers, List.append_assoc, List.append_assoc] at same
    obtain ⟨rfl, values⟩ := quote_append_inj same
    simp only [List.cons_append, List.cons.injEq, List.append_assoc, true_and, List.nil_append] at values
    obtain ⟨_, rests⟩ := render_append_inj value value' (stops_cons (by decide)) (stops_cons (by decide)) values
    simp at rests
  | (key, value) :: next :: tail, (key', value') :: next' :: tail', rest, rest', same => by
    rw [renderMembers, renderMembers, List.append_assoc, List.append_assoc] at same
    obtain ⟨rfl, values⟩ := quote_append_inj same
    simp only [List.cons_append, List.cons.injEq, List.append_assoc, true_and, List.nil_append] at values
    obtain ⟨rfl, rests⟩ := render_append_inj value value' (stops_cons (by decide)) (stops_cons (by decide)) values
    obtain ⟨tails, ends⟩ := renderMembers_append_inj (next :: tail) (next' :: tail') (List.cons.inj rests).2
    exact ⟨by rw [tails], ends⟩

end

theorem render_injective : Function.Injective render := by
  intro left right same
  have nothing : Stops [] := by simp [Stops]
  have padded : left.render ++ [] = right.render ++ [] := by simpa using same
  exact (render_append_inj left right nothing nothing padded).1

end Json

/-- Values with a canonical JSON form. -/
class ToJson (α : Type) where
  toJson : α → Json

export ToJson (toJson)

instance : ToJson String := ⟨.str⟩
instance : ToJson Bool := ⟨.bool⟩
instance : ToJson UInt8 := ⟨fun value => .num value.toNat⟩
instance : ToJson UInt32 := ⟨fun value => .num value.toNat⟩
instance : ToJson UInt64 := ⟨fun value => .num value.toNat⟩
instance {α : Type} [ToJson α] : ToJson (List α) := ⟨fun items => .arr (items.map toJson)⟩
instance {α : Type} [ToJson α] : ToJson (Option α) := ⟨fun value => (value.map toJson).getD .null⟩

/-- The bytes that are hashed, authenticated and stored for a value. -/
def canonical {α : Type} [ToJson α] (value : α) : Bytes := (toJson value).render

/-- Types whose JSON form determines the value. -/
class LawfulToJson (α : Type) [ToJson α] : Prop where
  toJson_injective : Function.Injective (toJson : α → Json)

@[simp] theorem toJson_inj {α : Type} [ToJson α] [LawfulToJson α] {left right : α} :
    toJson left = toJson right ↔ left = right :=
  LawfulToJson.toJson_injective.eq_iff

instance : LawfulToJson String := ⟨fun _ _ same => Json.str.inj same⟩
instance : LawfulToJson Bool := ⟨fun _ _ same => Json.bool.inj same⟩
instance : LawfulToJson UInt32 := ⟨fun _ _ same => UInt32.toNat_inj.mp (Json.num.inj same)⟩
instance : LawfulToJson UInt64 := ⟨fun _ _ same => UInt64.toNat_inj.mp (Json.num.inj same)⟩

instance {α : Type} [ToJson α] [LawfulToJson α] : LawfulToJson (List α) :=
  ⟨fun _ _ same => List.map_injective_iff.mpr LawfulToJson.toJson_injective (Json.arr.inj same)⟩

theorem canonical_injective {α : Type} [ToJson α] [LawfulToJson α] :
    Function.Injective (canonical : α → Bytes) :=
  Json.render_injective.comp LawfulToJson.toJson_injective

example : canonical ["a\"b", "c"] =
    [0x5b, 0x22, 0x61, 0x5c, 0x22, 0x62, 0x22, 0x2c, 0x22, 0x63, 0x22, 0x5d] := by decide

end Muser
