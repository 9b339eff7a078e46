import Muser.Tokenizer.Control
import Muser.Tokenizer.Segments

/-! # The special tokens of a text

Which special tokens a text is encoded with, and in which order: those that it spells, where they are looked for,
and those that the tables name for ordinary text. A tokenizer whose tables avoid them has none of the second kind.
-/

namespace Muser.Bpe

open Text

variable {tokenizer : BpeTokenizer}

namespace BpeTokenizer

/-- The token is one of the special tokens. -/
def special (tokenizer : BpeTokenizer) (id : ℕ) : Bool := tokenizer.specialTokens.any (·.2 == id)

/-- The special tokens that the tables name for a text that is encoded as ordinary text. -/
def strays (tokenizer : BpeTokenizer) (text : Text) : List ℕ :=
  ((tokenizer.encodeSegment text []).toOption.getD []).filter tokenizer.special

end BpeTokenizer

def Segment.specials (tokenizer : BpeTokenizer) : Segment → List ℕ
  | .special id => [id]
  | .text plain => tokenizer.strays plain

/-- The special tokens of a text, in order. -/
def BpeTokenizer.spelled (tokenizer : BpeTokenizer) (text : Text) (parseSpecial : Bool) : List ℕ :=
  ((tokenizer.segmentsOf text parseSpecial).getD []).flatMap (Segment.specials tokenizer)

section Encoding

/-- What is encoded is added to what there is. -/
theorem encodeFrom_append (text : Text) (steps position : ℕ) (result : List ℕ) :
    tokenizer.encodeFrom text steps position result = (tokenizer.encodeFrom text steps position []).map (result ++ ·) := by
  induction steps generalizing position result with
  | zero => simp [BpeTokenizer.encodeFrom, Except.map]
  | succ steps ih =>
    simp only [BpeTokenizer.encodeFrom]
    split
    · simp [Except.map]
    · split
      · rename_i found is
        cases tokenizer.encodeWord found.asStr with
        | error failure => rfl
        | ok ids =>
          change tokenizer.encodeFrom text steps found.stop (result ++ ids) =
            (tokenizer.encodeFrom text steps found.stop ([] ++ ids)).map (result ++ ·)
          rw [ih, ih found.stop ([] ++ ids)]
          cases tokenizer.encodeFrom text steps found.stop [] <;> simp [Except.map]
      · cases tokenizer.byteToken _ with
        | error failure => rfl
        | ok id =>
          change tokenizer.encodeFrom text steps (position + 1) (result ++ [id]) =
            (tokenizer.encodeFrom text steps (position + 1) ([] ++ [id])).map (result ++ ·)
          rw [ih, ih (position + 1) ([] ++ [id])]
          cases tokenizer.encodeFrom text steps (position + 1) [] <;> simp [Except.map]

variable {id : ℕ} {segments : List Segment} {text : Text} {parseSpecial : Bool}

theorem special_of_mem {token : Text} (mem : (token, id) ∈ tokenizer.specialTokens) :
    tokenizer.special id = true := List.any_eq_true.mpr ⟨_, mem, beq_self_eq_true id⟩

/-- Each special segment is one of the special tokens. -/
theorem special_of_splitUpTo {rounds : ℕ}
    (is : tokenizer.splitUpTo rounds text = some segments) (mem : .special id ∈ segments) :
    tokenizer.special id = true := by
  induction rounds generalizing text segments with
  | zero =>
    cases text with
    | nil =>
      cases is
      cases mem
    | cons first rest => cases is
  | succ rounds ih =>
    cases text with
    | nil =>
      cases is
      cases mem
    | cons first rest =>
      rw [BpeTokenizer.splitUpTo] at is
      split at is
      · cases is
        simp at mem
      · rename_i before after other found
        obtain ⟨others, split_, is⟩ := Option.bind_eq_some_iff.mp is
        cases is
        rcases List.mem_append.mp mem with front | back
        · split at front
          · cases front
          · simp at front
        · rcases List.mem_cons.mp back with same | back
          · cases same
            obtain ⟨token, among, -⟩ := firstSpecial_found found
            exact special_of_mem among
          · exact ih split_ back

theorem special_of_segmentsOf
    (are : tokenizer.segmentsOf text parseSpecial = some segments) (mem : .special id ∈ segments) :
    tokenizer.special id = true := by
  rw [BpeTokenizer.segmentsOf] at are
  split at are
  · rw [BpeTokenizer.splitSpecialTokens] at are
    split at are
    · cases are
      simp at mem
    · exact special_of_splitUpTo are mem
  · cases are
    simp at mem

/-- The special tokens of what a segment adds. -/
theorem filter_pushSegment {result ids : List ℕ} {segment : Segment}
    (is_special : ∀ id, segment = .special id → tokenizer.special id = true)
    (pushed : tokenizer.pushSegment result segment = .ok ids) :
    ids.filter tokenizer.special = result.filter tokenizer.special ++ segment.specials tokenizer := by
  cases segment with
  | special id =>
    cases pushed
    simp [Segment.specials, is_special id rfl]
  | text plain =>
    rw [BpeTokenizer.pushSegment, BpeTokenizer.encodeSegment, encodeFrom_append] at pushed
    rw [Segment.specials, BpeTokenizer.strays, BpeTokenizer.encodeSegment]
    cases own : tokenizer.encodeFrom (tokenizer.effective plain) (tokenizer.effective plain).size 0 [] with
    | error failure =>
      rw [own] at pushed
      cases pushed
    | ok more =>
      rw [own] at pushed
      cases pushed
      exact List.filter_append ..

theorem filter_encodeSegments {result ids : List ℕ}
    (are_special : ∀ id, .special id ∈ segments → tokenizer.special id = true)
    (encoded : segments.foldlM tokenizer.pushSegment result = .ok ids) :
    ids.filter tokenizer.special =
      result.filter tokenizer.special ++ segments.flatMap (Segment.specials tokenizer) := by
  induction segments generalizing result with
  | nil =>
    cases encoded
    simp
  | cons segment rest ih =>
    rw [List.foldlM_cons] at encoded
    obtain ⟨middle, pushed, encoded⟩ := bind_eq_ok_iff.mp encoded
    rw [ih (fun id mem => are_special id (List.mem_cons_of_mem _ mem)) encoded,
      filter_pushSegment (fun id same => are_special id (same ▸ List.mem_cons_self)) pushed,
      List.flatMap_cons, List.append_assoc]

/-- A text that is encoded has segments. -/
theorem segmentsOf_isSome {ids : List ℕ} (encoded : tokenizer.tryEncodeWithOptions text parseSpecial = some (.ok ids)) :
    ∃ segments, tokenizer.segmentsOf text parseSpecial = some segments := by
  cases parseSpecial with
  | false => exact ⟨_, rfl⟩
  | true =>
    rw [BpeTokenizer.tryEncodeWithOptions] at encoded
    split at encoded
    · rename_i empty
      rw [empty, BpeTokenizer.segmentsOf, if_pos rfl, BpeTokenizer.splitSpecialTokens]
      split
      · exact ⟨_, rfl⟩
      · exact ⟨[], rfl⟩
    · simp only [Bool.not_true, Bool.false_eq_true, if_false, Option.map_eq_some_iff] at encoded
      obtain ⟨segments, is, -⟩ := encoded
      exact ⟨segments, is⟩

/-- The special tokens among those that a text is encoded with. -/
theorem filter_encoded {ids : List ℕ} (encoded : tokenizer.tryEncodeWithOptions text parseSpecial = some (.ok ids)) :
    ids.filter tokenizer.special = tokenizer.spelled text parseSpecial := by
  obtain ⟨segments, are⟩ := segmentsOf_isSome encoded
  rw [filter_encodeSegments (fun _ mem => special_of_segmentsOf are mem) (encoded_segments are encoded),
    BpeTokenizer.spelled, are]
  rfl

end Encoding

section Vocabulary

variable {compile : String → PreRegex} {vocab : List Text} {merges : List (Text × Text)} {preType : String}
  {tokenTypes : List ℤ}

theorem not_le_of_there {α : Type} {items : List α} {item : α} {id : ℕ} (there : items[id]? = some item) :
    ¬items.length ≤ id :=
  Nat.not_le.mpr (List.getElem?_eq_some_iff.mp there).1

/-- Every table names tokens of the vocabulary. -/
theorem avoids_outside : (BpeTokenizer.new compile vocab merges preType tokenTypes).Avoids (vocab.length ≤ ·) where
  byte byte id is := by
    obtain ⟨character, -, is⟩ := token_of_byteTokens is
    exact not_le_of_there (vocab_of_tokenToId is)
  fallback byte id is := by
    obtain ⟨token, there, -⟩ := fallback_of_entry is
    exact not_le_of_there there
  char character id is := not_le_of_there (vocab_of_charTokens is).1
  merge pair priority id is := by
    obtain ⟨_, _, -, -, there⟩ := vocab_of_merge is
    exact not_le_of_there there

theorem twoByte_inside {word : Text} {id : ℕ}
    (is : (BpeTokenizer.new compile vocab merges preType tokenTypes).qwenExactTwoByteTokenId word = some id) :
    ¬vocab.length ≤ id := by
  rw [BpeTokenizer.qwenExactTwoByteTokenId] at is
  split at is
  · cases is
  · dsimp only at is
    split at is
    · cases is
    · have there := not_le_of_there (decoded_of_twoByte is).1
      rw [decodedBytes, List.length_mapIdx] at there
      exact there

theorem pushSegment_inside {result ids : List ℕ} {segment : Segment}
    (is_special : ∀ id, segment = .special id → (BpeTokenizer.new compile vocab merges preType tokenTypes).special id = true)
    (pushed : (BpeTokenizer.new compile vocab merges preType tokenTypes).pushSegment result segment = .ok ids)
    (inside : ∀ id ∈ result, ¬vocab.length ≤ id) : ∀ id ∈ ids, ¬vocab.length ≤ id := by
  cases segment with
  | special id =>
    cases pushed
    obtain ⟨⟨token, other⟩, mem, same⟩ := List.any_eq_true.mp (is_special id rfl)
    rw [beq_iff_eq] at same
    dsimp only at same
    subst same
    rw [List.forall_mem_append, List.forall_mem_singleton]
    exact ⟨inside, not_le_of_there (vocab_of_specials mem).1⟩
  | text plain => exact (avoids_outside.encodeFrom pushed).mpr ⟨inside, fun word _ id is => twoByte_inside is⟩

/-- What a text is encoded with are tokens of the vocabulary. -/
theorem encoded_inside {text : Text} {parseSpecial : Bool} {ids : List ℕ}
    (encoded : (BpeTokenizer.new compile vocab merges preType tokenTypes).tryEncodeWithOptions text parseSpecial =
      some (.ok ids)) : ∀ id ∈ ids, id < vocab.length := by
  obtain ⟨segments, are⟩ := segmentsOf_isSome encoded
  have folded : ∀ (segments : List Segment) (result ids : List ℕ),
      (∀ id, .special id ∈ segments → (BpeTokenizer.new compile vocab merges preType tokenTypes).special id = true) →
      segments.foldlM (BpeTokenizer.new compile vocab merges preType tokenTypes).pushSegment result = .ok ids →
      (∀ id ∈ result, ¬vocab.length ≤ id) → ∀ id ∈ ids, ¬vocab.length ≤ id := by
    intro segments
    induction segments with
    | nil =>
      intro result ids _ is inside
      cases is
      exact inside
    | cons segment rest ih =>
      intro result ids are_special is inside
      rw [List.foldlM_cons] at is
      obtain ⟨middle, pushed, is⟩ := bind_eq_ok_iff.mp is
      exact ih middle ids (fun id mem => are_special id (List.mem_cons_of_mem _ mem)) is
        (pushSegment_inside (fun id same => are_special id (same ▸ List.mem_cons_self)) pushed inside)
  exact fun id mem => Nat.not_le.mp (folded segments [] ids (fun _ mem => special_of_segmentsOf are mem)
    (encoded_segments are encoded) (fun _ mem => (List.not_mem_nil mem).elim) id mem)

end Vocabulary

end Muser.Bpe
