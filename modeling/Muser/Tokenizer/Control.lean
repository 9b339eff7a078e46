import Muser.Tokenizer.Tables

/-! # Control tokens in untrusted text

The byte, character, fallback and merge tables name no control token when no control token is a single character
and no merge makes one. The two-byte table of the Qwen vocabularies is built from every token of two bytes, and
names a control token that is one.
-/

namespace Muser.Bpe

open Text

/-- The token is declared a control token. -/
def Control (tokenTypes : List ℤ) (id : ℕ) : Prop := tokenTypes[id]? = some 3

instance (tokenTypes : List ℤ) (id : ℕ) : Decidable (Control tokenTypes id) :=
  inferInstanceAs (Decidable (tokenTypes[id]? = some 3))

namespace BpeTokenizer

/-- Nothing that a byte, a character or a merge of the tokenizer names satisfies `Bad`. -/
structure Avoids (tokenizer : BpeTokenizer) (Bad : ℕ → Prop) : Prop where
  byte : ∀ byte id, tokenizer.byteToToken byte = some id → ¬ Bad id
  fallback : ∀ byte id, tokenizer.byteToFallback byte = some id → ¬ Bad id
  char : ∀ character id, tokenizer.charToToken character = some id → ¬ Bad id
  merge : ∀ pair priority id, tokenizer.mergeTable pair = some (priority, id) → ¬ Bad id

variable {tokenizer : BpeTokenizer} {Bad : ℕ → Prop}

theorem Avoids.byteToken (avoids : tokenizer.Avoids Bad) {byte : UInt8} {id : ℕ} (is : tokenizer.byteToken byte = .ok id) :
    ¬ Bad id := by
  simp only [BpeTokenizer.byteToken] at is
  split at is
  · cases is
    exact avoids.byte _ _ ‹_›
  · split at is <;> cases is
    exact avoids.fallback _ _ ‹_›

variable {ids : List ℕ}

theorem Avoids.byteTokens (avoids : tokenizer.Avoids Bad) {bytes : Bytes}
    (are : bytes.mapM tokenizer.byteToken = .ok ids) : ∀ id ∈ ids, ¬ Bad id := by
  intro id mem
  obtain ⟨byte, -, is⟩ := exists_of_mem_mapM are mem
  exact avoids.byteToken is

theorem Avoids.charIds (avoids : tokenizer.Avoids Bad) {character : Char}
    (are : tokenizer.charIds character = .ok ids) : ∀ id ∈ ids, ¬ Bad id := by
  simp only [BpeTokenizer.charIds] at are
  split at are
  · rename_i id is
    cases are
    intro other mem
    rw [List.mem_singleton.mp mem]
    exact avoids.char _ _ is
  · exact avoids.byteTokens are

theorem Avoids.wordIds (avoids : tokenizer.Avoids Bad) {word : Text}
    (are : tokenizer.wordIds word = .ok ids) : ∀ id ∈ ids, ¬ Bad id := by
  simp only [BpeTokenizer.wordIds] at are
  split at are
  · obtain ⟨parts, collected, is⟩ := bind_eq_ok_iff.mp are
    cases is
    intro id mem
    obtain ⟨part, among, mem⟩ := List.mem_flatten.mp mem
    obtain ⟨character, -, is⟩ := exists_of_mem_mapM collected among
    exact avoids.charIds is id mem
  · exact avoids.byteTokens are

/-- The tokens of a word avoid what the tables avoid, unless the word is in the two-byte table. -/
theorem Avoids.encodeWord (avoids : tokenizer.Avoids Bad) {word : Text} (are : tokenizer.encodeWord word = .ok ids) :
    (∀ id ∈ ids, ¬ Bad id) ↔ ∀ id, tokenizer.qwenExactTwoByteTokenId word = some id → ¬ Bad id := by
  simp only [BpeTokenizer.encodeWord] at are
  split at are
  · rename_i id is
    cases are
    simp [is]
  · rename_i none_
    simp only [none_, reduceCtorEq, false_implies, implies_true, iff_true]
    cases collected : tokenizer.wordIds word with
    | error failure =>
      rw [collected] at are
      cases are
    | ok parts =>
      rw [collected] at are
      cases are
      exact forall_mem_bpeMergeIds (fun _ _ _ rule => avoids.merge _ _ _ rule) (avoids.wordIds collected)

theorem Avoids.encodeFrom (avoids : tokenizer.Avoids Bad) {text : Text} {steps position : ℕ} {result ids : List ℕ}
    (are : tokenizer.encodeFrom text steps position result = .ok ids) :
    (∀ id ∈ ids, ¬ Bad id) ↔ (∀ id ∈ result, ¬ Bad id) ∧ ∀ word ∈ tokenizer.wordsFrom text steps position, ∀ id,
      tokenizer.qwenExactTwoByteTokenId word = some id → ¬ Bad id := by
  induction steps generalizing position result with
  | zero =>
    cases are
    simp [wordsFrom]
  | succ steps ih =>
    rw [BpeTokenizer.encodeFrom] at are
    split at are
    · rename_i past
      cases are
      simp [wordsFrom, past]
    · rename_i inside
      split at are
      · rename_i found is_found
        obtain ⟨part, is, are⟩ := bind_eq_ok_iff.mp are
        simp only [wordsFrom, inside, is_found]
        rw [ih are, List.forall_mem_append, List.forall_mem_cons, avoids.encodeWord is, and_assoc]
      · rename_i unfound
        obtain ⟨id, is, are⟩ := bind_eq_ok_iff.mp are
        simp only [wordsFrom, inside, unfound]
        rw [ih are, List.forall_mem_append, List.forall_mem_singleton, and_iff_left (avoids.byteToken is)]

end BpeTokenizer

section Vocabulary

variable {compile : String → PreRegex} {vocab : List Text} {merges : List (Text × Text)} {preType : String}
  {tokenTypes : List ℤ}

/-- A fallback token is declared a fallback token, or is not declared. -/
theorem not_control_of_fallback {token : Text} {id : ℕ} {byte : UInt8}
    (is : byteFallbackByte token tokenTypes[id]? = some byte) : ¬ Control tokenTypes id := by
  intro control
  rw [control] at is
  cases is

theorem avoids_control (single : ∀ id token, vocab[id]? = some token → Control tokenTypes id → token.length ≠ 1)
    (unmerged : ∀ pair priority id, (BpeTokenizer.new compile vocab merges preType tokenTypes).mergeTable pair =
      some (priority, id) → ¬ Control tokenTypes id) :
    (BpeTokenizer.new compile vocab merges preType tokenTypes).Avoids (Control tokenTypes) where
  byte byte id is := by
    obtain ⟨character, -, is⟩ := token_of_byteTokens is
    exact fun control => single id [character] (vocab_of_tokenToId is) control rfl
  fallback byte id is := by
    obtain ⟨token, -, is⟩ := fallback_of_entry is
    exact not_control_of_fallback is
  char character id is := by
    obtain ⟨there, length⟩ := vocab_of_charTokens is
    exact fun control => single id character there control length
  merge := unmerged

/-- Untrusted text is encoded without a control token exactly when no word of it is in the two-byte table under
a control token. -/
theorem control_free_iff (compile : String → PreRegex) (vocab : List Text) (merges : List (Text × Text)) (preType : String)
    (tokenTypes : List ℤ) (single : ∀ id token, vocab[id]? = some token → Control tokenTypes id → token.length ≠ 1)
    (unmerged : ∀ pair priority id, (BpeTokenizer.new compile vocab merges preType tokenTypes).mergeTable pair =
      some (priority, id) → ¬ Control tokenTypes id) (text : Text) (ids : List ℕ)
    (encoded : (BpeTokenizer.new compile vocab merges preType tokenTypes).tryEncodeWithOptions text false =
      some (.ok ids)) :
    (∀ id ∈ ids, ¬ Control tokenTypes id) ↔
      ∀ word ∈ (BpeTokenizer.new compile vocab merges preType tokenTypes).words text, ∀ id,
        (BpeTokenizer.new compile vocab merges preType tokenTypes).qwenExactTwoByteTokenId word = some id →
          ¬ Control tokenTypes id := by
  have avoids := avoids_control single unmerged
  have segment : (BpeTokenizer.new compile vocab merges preType tokenTypes).encodeSegment text [] = .ok ids := by
    rw [BpeTokenizer.tryEncodeWithOptions] at encoded
    split at encoded
    · rename_i empty
      rw [empty, BpeTokenizer.encodeSegment, BpeTokenizer.effective]
      cases encoded
      split <;> rfl
    · exact Option.some.inj encoded
  rw [avoids.encodeFrom segment, BpeTokenizer.words]
  simp

/-- Two characters, and a control token that is spelled like them. -/
def spelled : List Text := [['(', 'x'], ['('], ['x']]

theorem spelled_single (id : ℕ) (token : Text) (there : spelled[id]? = some token) (control : Control [3, 1, 1] id) :
    token.length ≠ 1 := by
  match id with
  | 0 =>
    cases there
    decide
  | 1 => cases control
  | 2 => cases control
  | _ + 3 => cases there

/-- A plain token of two bytes beside them. -/
def doubled : List Text := spelled ++ [['x', 'x']]

/-- The two-byte table gives the plain token for its text, and the control token for the text that spells it. -/
theorem control_free_iff_doubled : (∀ id ∈ [3], ¬ Control [3, 1, 1, 1] id) ∧
    ∃ word ∈ (BpeTokenizer.new (fun _ => wholeRegex) doubled [] "qwen2" [3, 1, 1, 1]).words ['(', 'x'], ∃ id,
      (BpeTokenizer.new (fun _ => wholeRegex) doubled [] "qwen2" [3, 1, 1, 1]).qwenExactTwoByteTokenId word = some id ∧
        Control [3, 1, 1, 1] id := by
  have single : ∀ id token, doubled[id]? = some token → Control [3, 1, 1, 1] id → token.length ≠ 1 := by
    rintro (_ | _ | _ | _ | id) token there control
    · cases there
      decide
    all_goals cases control
  have free := control_free_iff (fun _ => wholeRegex) doubled [] "qwen2" [3, 1, 1, 1] single fun _ _ _ rule => nomatch rule
  constructor
  · apply (free ['x', 'x'] [3] (by rfl)).mpr
    decide
  · have found := mt (free ['(', 'x'] [0] (by rfl)).mpr (by decide)
    push Not at found
    exact found

/-- The untrusted text that a control token of two bytes is spelled like is encoded to that token. -/
theorem control_from_two_bytes :
    (BpeTokenizer.new (fun _ => wholeRegex) spelled [] "qwen2" [3, 1, 1]).tryEncodeWithOptions ['(', 'x'] false =
        some (.ok [0]) ∧
      Control [3, 1, 1] 0 ∧
      (∀ pair, (BpeTokenizer.new (fun _ => wholeRegex) spelled [] "qwen2" [3, 1, 1]).mergeTable pair = none) ∧
      ∀ id token, spelled[id]? = some token → Control [3, 1, 1] id →
        token.length ≠ 1 ∧ byteFallbackByte token [3, 1, 1][id]? = none := by
  refine ⟨by rfl, rfl, fun _ => rfl, fun id token there control => ⟨spelled_single id token there control, ?_⟩⟩
  rw [control]
  rfl

end Vocabulary

end Muser.Bpe
