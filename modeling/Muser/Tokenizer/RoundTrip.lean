import Muser.Tokenizer.Tables
import Muser.Tokenizer.Lossy

/-! # What a text is decoded to

The bytes of the tokens of a text against the bytes of the text: the routes of the encoder that are read back
as they were written, and those that are read back in another way. What goes wrong inside a word always makes it
longer.
-/

namespace Muser.Bpe

open Text

section Vocabulary

variable {vocab : List Text} {tokenTypes : List ℤ} {isSpm : Bool}

/-- The byte that the token of the vocabulary falls back for, if it is a fallback token. -/
def fallbackAt (vocab : List Text) (tokenTypes : List ℤ) (id : ℕ) : Option UInt8 :=
  (vocab[id]?).bind fun token => byteFallbackByte token tokenTypes[id]?

/-- The bytes of some tokens. -/
def decoded (vocab : List Text) (tokenTypes : List ℤ) (isSpm : Bool) (ids : List ℕ) : Bytes :=
  ids.flatMap fun id => (decodedBytes vocab tokenTypes isSpm)[id]?.getD []

@[simp] theorem decoded_append (front back : List ℕ) : decoded vocab tokenTypes isSpm (front ++ back) =
    decoded vocab tokenTypes isSpm front ++ decoded vocab tokenTypes isSpm back := List.flatMap_append

theorem decoded_cons (id : ℕ) (rest : List ℕ) : decoded vocab tokenTypes isSpm (id :: rest) =
    decoded vocab tokenTypes isSpm [id] ++ decoded vocab tokenTypes isSpm rest := decoded_append [id] rest

variable {id : ℕ} {token : Text} {byte : UInt8}

theorem decoded_ordinary (there : vocab[id]? = some token) (ordinary : fallbackAt vocab tokenTypes id = none) :
    decoded vocab tokenTypes isSpm [id] = ordinaryBytes isSpm token := by
  rw [fallbackAt, there, Option.bind_some] at ordinary
  simp [decoded, decodedBytes, there, ordinary]

theorem decoded_fallback (fallback : fallbackAt vocab tokenTypes id = some byte) :
    decoded vocab tokenTypes isSpm [id] = [byte] := by
  obtain ⟨token, there, is⟩ := Option.bind_eq_some_iff.mp fallback
  simp [decoded, decodedBytes, there, is]

theorem ordinaryBytes_append (front back : Text) :
    ordinaryBytes isSpm (front ++ back) = ordinaryBytes isSpm front ++ ordinaryBytes isSpm back := by
  cases isSpm
  · exact List.map_append
  · exact Utf8.encodeAll_append front back

/-- A fallback token is spelled with more than its byte. -/
theorem length_of_fallback {tokenType : Option ℤ}
    (is : byteFallbackByte token tokenType = some byte) : 4 ≤ token.length := by
  simp only [byteFallbackByte] at is
  split at is
  · cases is
  · split at is
    · cases is
    · rename_i rest found
      rw [isPrefixOf?_eq_some] at found
      split at is
      · cases is
      · rename_i last
        rw [found]
        cases rest with
        | nil => exact absurd (by simp) last
        | cons first others => simp

theorem ordinary_of_single {character : Char} (there : vocab[id]? = some [character]) :
    fallbackAt vocab tokenTypes id = none := by
  rw [fallbackAt, there, Option.bind_some]
  cases is : byteFallbackByte [character] tokenTypes[id]? with
  | none => rfl
  | some byte =>
    have long := length_of_fallback is
    simp at long

theorem length_ordinaryBytes (token : Text) : token.length ≤ (ordinaryBytes isSpm token).length := by
  cases isSpm
  · exact (List.length_map _).ge
  · have each : ∀ text : Text, text.length ≤ size text := by
      intro text
      induction text with
      | nil => exact Nat.zero_le _
      | cons first rest ih =>
        have := first.utf8Size_pos
        rw [size_cons, List.length_cons]
        omega
    exact each token

end Vocabulary

section Characters

private theorem characters_evaluated : (gpt2ByteUnicodePairs.map (·.2.toNat)).IsChain (· < ·) ∧
    ∀ pair ∈ gpt2ByteUnicodePairs, pair.2.toNat < 128 → pair.1.toNat = pair.2.toNat := by
  decide +kernel

/-- The characters of the table are in their order. -/
theorem ascending_characters : (gpt2ByteUnicodePairs.map (·.2.toNat)).IsChain (· < ·) :=
  characters_evaluated.1

theorem nodup_characters : (gpt2ByteUnicodePairs.map (·.2)).Nodup := by
  have sorted := List.isChain_iff_pairwise.mp ascending_characters
  rw [List.pairwise_map] at sorted
  rw [List.Nodup, List.pairwise_map]
  exact sorted.imp fun less same => Nat.ne_of_lt less (congrArg Char.toNat same)

variable {character : Char} {byte : UInt8}

/-- The characters of the bytes are read back as the bytes. -/
theorem unicodeToByte_of_mem (mem : (byte, character) ∈ gpt2ByteUnicodePairs) :
    gpt2UnicodeToByte character = some byte := by
  rw [gpt2UnicodeToByte, Option.map_eq_some_iff]
  cases found : gpt2ByteUnicodePairs.find? (·.2 = character) with
  | none => exact absurd (List.find?_eq_none.mp found _ mem) (by simp)
  | some pair =>
    have same : pair.2 = character := by simpa using List.find?_some found
    have only := List.inj_on_of_nodup_map nodup_characters (List.mem_of_find?_eq_some found) mem same
    exact ⟨pair, rfl, congrArg Prod.fst only⟩

/-- The character of a byte is that ASCII character, or none. -/
theorem ascii_of_mem (mem : (byte, character) ∈ gpt2ByteUnicodePairs)
    (ascii : character.toNat < 128) : byte.toNat = character.toNat :=
  characters_evaluated.2 _ mem ascii

/-- A byte below 128 among the bytes of a character is the character. -/
theorem eq_of_mem_encode (mem : byte ∈ Utf8.encode character) (small : byte.toNat < 128) :
    byte.toNat = character.toNat := by
  have bytes := Utf8.encoded character
  generalize Utf8.encode character = encoding at mem bytes
  cases bytes with
  | one _ first =>
    rw [List.mem_singleton.mp mem, first]
  | two _ _ first second =>
    simp only [List.mem_cons, List.not_mem_nil, or_false] at mem
    rcases mem with rfl | rfl <;> lia
  | three _ _ first second third =>
    simp only [List.mem_cons, List.not_mem_nil, or_false] at mem
    rcases mem with rfl | rfl | rfl <;> lia
  | four _ first second third fourth =>
    simp only [List.mem_cons, List.not_mem_nil, or_false] at mem
    rcases mem with rfl | rfl | rfl | rfl <;> lia

theorem length_encode (large : 128 ≤ character.toNat) : 2 ≤ (Utf8.encode character).length := by
  have bytes := Utf8.encoded character
  generalize Utf8.encode character = encoding at bytes
  cases bytes with
  | one small => omega
  | two => exact Nat.le_refl 2
  | three => exact Nat.le_succ 2
  | four => exact Nat.le_add_right 2 2

end Characters

section Words

variable {compile : String → PreRegex} {vocab : List Text} {merges : List (Text × Text)} {preType : String}
  {tokenTypes : List ℤ}

variable {tokenizer : BpeTokenizer} {id : ℕ} {ids : List ℕ}

variable {byte : UInt8} {character : Char} {bytes : Bytes} {word : Text}

/-- The byte token of a vocabulary of byte characters is read back as the byte. -/
theorem decoded_byteToken (is : tokenizer = .new compile vocab merges preType tokenTypes)
    (bytewise : tokenizer.isSpmBpe = false) (found : tokenizer.byteToken byte = .ok id) :
    decoded vocab tokenTypes tokenizer.isSpmBpe [id] = [byte] := by
  subst is
  simp only [BpeTokenizer.byteToken] at found
  split at found
  · rename_i token is_token
    cases found
    obtain ⟨character, mem, is⟩ := token_of_byteTokens is_token
    have there := vocab_of_tokenToId is
    rw [decoded_ordinary there (ordinary_of_single there), bytewise]
    simp [ordinaryBytes, unicodeToByte_of_mem mem]
  · split at found <;> cases found
    obtain ⟨token, there, is⟩ := fallback_of_entry ‹_›
    apply decoded_fallback
    rw [fallbackAt, there, Option.bind_some, is]

/-- A character of raw text that is read back: it has a token, or none of its bytes has one but for a fallback. -/
def ReadsChar (tokenizer : BpeTokenizer) (character : Char) : Prop :=
  tokenizer.charToToken [character] = none → ∀ byte ∈ Utf8.encode character, tokenizer.byteToToken byte = none

theorem charTokens_of_tokenToId (is : tokenToId vocab [character] = some id) :
    charTokens vocab true [character] ≠ none := by
  have mem : ([character], id) ∈ vocab.zipIdx.filter (·.1.length = 1) :=
    List.mem_filter.mpr ⟨mem_of_lastOf is, by simp⟩
  cases last : lastOf (vocab.zipIdx.filter (·.1.length = 1)) [character] with
  | some found => simp [charTokens, last]
  | none =>
    simp only [lastOf, Option.map_eq_none_iff, List.find?_eq_none, List.mem_reverse] at last
    exact absurd (last _ mem) (by simp)

/-- A byte of raw text is read back as itself when it has only a fallback, and else as a character, which is longer
unless the byte is that character. -/
theorem length_byteToken (is : tokenizer = .new compile vocab merges preType tokenTypes)
    (raw : tokenizer.isSpmBpe = true) (found : tokenizer.byteToken byte = .ok id) :
    (tokenizer.byteToToken byte = none → decoded vocab tokenTypes tokenizer.isSpmBpe [id] = [byte]) ∧
      1 ≤ (decoded vocab tokenTypes tokenizer.isSpmBpe [id]).length ∧
      (tokenizer.byteToToken byte ≠ none → (∀ character, character.toNat = byte.toNat →
        character.toNat < 128 → tokenizer.charToToken [character] = none) →
          2 ≤ (decoded vocab tokenTypes tokenizer.isSpmBpe [id]).length) := by
  subst is
  simp only [BpeTokenizer.byteToken] at found
  split at found
  · rename_i token is_token
    cases found
    obtain ⟨character, mem, is⟩ := token_of_byteTokens is_token
    have there := vocab_of_tokenToId is
    rw [decoded_ordinary there (ordinary_of_single there), raw]
    simp only [ordinaryBytes, if_true, Utf8.encodeAll_cons]
    refine ⟨fun none_ => ?_, ?_, fun _ untokened => ?_⟩
    · rw [is_token] at none_
      cases none_
    · have := List.length_pos_of_ne_nil (Utf8.encode_ne_nil character)
      rw [List.length_append]
      lia
    · have large : 128 ≤ character.toNat := by
        by_contra ascii
        have same := ascii_of_mem mem (by lia)
        have absent : charTokens vocab (detectSpm vocab preType) [character] = none :=
          untokened character same.symm (by lia)
        rw [show detectSpm vocab preType = true from raw] at absent
        exact charTokens_of_tokenToId is absent
      have := length_encode large
      rw [List.length_append]
      lia
  · rename_i none_
    split at found <;> cases found
    obtain ⟨token, there, is⟩ := fallback_of_entry ‹_›
    have read : decoded vocab tokenTypes (BpeTokenizer.new compile vocab merges preType tokenTypes).isSpmBpe [id] =
        [byte] := by
      apply decoded_fallback
      rw [fallbackAt, there, Option.bind_some, is]
    rw [read]
    exact ⟨fun _ => rfl, Nat.le_refl 1, fun some_ => absurd none_ some_⟩

/-- Bytes of raw text that have only fallbacks are read back, and others are read back as more. -/
theorem length_byteTokens (is : tokenizer = .new compile vocab merges preType tokenTypes)
    (raw : tokenizer.isSpmBpe = true) (found : bytes.mapM tokenizer.byteToken = .ok ids) :
    ((∀ byte ∈ bytes, tokenizer.byteToToken byte = none) → decoded vocab tokenTypes tokenizer.isSpmBpe ids = bytes) ∧
      bytes.length ≤ (decoded vocab tokenTypes tokenizer.isSpmBpe ids).length ∧
      (∀ byte ∈ bytes, tokenizer.byteToToken byte ≠ none → (∀ character, character.toNat = byte.toNat →
        character.toNat < 128 → tokenizer.charToToken [character] = none) →
          bytes.length < (decoded vocab tokenTypes tokenizer.isSpmBpe ids).length) := by
  have each := forall₂_of_mapM_eq_ok found
  clear found
  induction each with
  | nil => exact ⟨fun _ => rfl, Nat.le_refl _, fun _ mem => nomatch mem⟩
  | @cons byte id bytes ids one _ ih =>
    obtain ⟨same, some_, longer⟩ := length_byteToken is raw one
    obtain ⟨same', atLeast, longer'⟩ := ih
    rw [decoded_cons, List.length_append, List.length_cons]
    refine ⟨fun fall => ?_, by lia, fun other mem token untokened => ?_⟩
    · rw [same (fall byte (List.mem_cons_self ..)), same' fun other mem => fall other (List.mem_cons_of_mem _ mem)]
      rfl
    · rcases List.mem_cons.mp mem with rfl | mem
      · have := longer token untokened
        lia
      · have := longer' other mem token untokened
        lia

theorem length_charIds (is : tokenizer = .new compile vocab merges preType tokenTypes)
    (raw : tokenizer.isSpmBpe = true) (found : tokenizer.charIds character = .ok ids) :
    (ReadsChar tokenizer character → decoded vocab tokenTypes tokenizer.isSpmBpe ids = Utf8.encode character) ∧
      (¬ ReadsChar tokenizer character →
        (Utf8.encode character).length < (decoded vocab tokenTypes tokenizer.isSpmBpe ids).length) := by
  simp only [BpeTokenizer.charIds] at found
  split at found
  · rename_i id is_token
    cases found
    have reads : ReadsChar tokenizer character := fun none_ => by
      rw [is_token] at none_
      cases none_
    refine ⟨fun _ => ?_, fun not_ => absurd reads not_⟩
    have there : vocab[id]? = some [character] := by
      subst is
      exact (vocab_of_charTokens is_token).1
    rw [decoded_ordinary there (ordinary_of_single there), raw]
    exact List.append_nil _
  · rename_i none_
    obtain ⟨same, -, longer⟩ := length_byteTokens is raw found
    refine ⟨fun reads => same (reads none_), fun not_ => ?_⟩
    simp only [ReadsChar, none_, true_implies] at not_
    push Not at not_
    obtain ⟨byte, mem, token⟩ := not_
    refine longer byte mem token fun other isByte small => ?_
    have whole : other = character := Char.toNat_inj.mp (isByte.trans (eq_of_mem_encode mem (isByte ▸ small)))
    rw [whole, none_]

theorem decoded_bytes (is : tokenizer = .new compile vocab merges preType tokenTypes)
    (bytewise : tokenizer.isSpmBpe = false)
    (found : bytes.mapM tokenizer.byteToken = .ok ids) : decoded vocab tokenTypes tokenizer.isSpmBpe ids = bytes := by
  have each := forall₂_of_mapM_eq_ok found
  clear found
  induction each with
  | nil => rfl
  | cons one _ ih =>
    rw [decoded_cons, decoded_byteToken is bytewise one, ih]
    rfl

/-- The characters of a word are read back one by one. -/
def ReadsChars (tokenizer : BpeTokenizer) (word : Text) : Prop :=
  tokenizer.isSpmBpe = true → ∀ character ∈ word, ReadsChar tokenizer character

theorem length_wordIds (is : tokenizer = .new compile vocab merges preType tokenTypes)
    (found : tokenizer.wordIds word = .ok ids) :
    (ReadsChars tokenizer word → decoded vocab tokenTypes tokenizer.isSpmBpe ids = Utf8.encodeAll word) ∧
      (¬ ReadsChars tokenizer word → size word < (decoded vocab tokenTypes tokenizer.isSpmBpe ids).length) := by
  rw [BpeTokenizer.wordIds] at found
  split at found
  · rename_i raw
    obtain ⟨parts, collected, rfl⟩ : ∃ parts, word.mapM tokenizer.charIds = .ok parts ∧ parts.flatten = ids := by
      obtain ⟨parts, collected, same⟩ := bind_eq_ok_iff.mp found
      exact ⟨parts, collected, Except.ok.inj same⟩
    have each := forall₂_of_mapM_eq_ok collected
    clear found collected
    simp only [ReadsChars, raw, true_implies]
    have both : ((∀ character ∈ word, ReadsChar tokenizer character) →
        decoded vocab tokenTypes true parts.flatten = Utf8.encodeAll word) ∧
        size word ≤ (decoded vocab tokenTypes true parts.flatten).length ∧
        ((∃ character ∈ word, ¬ ReadsChar tokenizer character) →
          size word < (decoded vocab tokenTypes true parts.flatten).length) := by
      induction each with
      | nil => exact ⟨fun _ => rfl, Nat.le_refl _, fun some_ => absurd some_.choose_spec.1 List.not_mem_nil⟩
      | @cons character part word parts one _ ih =>
        obtain ⟨same, longer⟩ := length_charIds is raw one
        rw [raw] at same longer
        obtain ⟨same', atLeast, longer'⟩ := ih
        have here : (Utf8.encode character).length ≤ (decoded vocab tokenTypes true part).length := by
          by_cases reads : ReadsChar tokenizer character
          · rw [same reads]
          · exact (longer reads).le
        rw [List.flatten_cons, decoded_append, List.length_append, Utf8.encodeAll_cons,
          show size (character :: word) = (Utf8.encode character).length + size word by
            rw [size, Utf8.encodeAll_cons, List.length_append, size]]
        refine ⟨fun reads => ?_, by lia, fun some_ => ?_⟩
        · rw [same (reads character (List.mem_cons_self ..)),
            same' fun other mem => reads other (List.mem_cons_of_mem _ mem)]
        · obtain ⟨other, mem, not_⟩ := some_
          rcases List.mem_cons.mp mem with rfl | mem
          · have := longer not_
            lia
          · have := longer' ⟨other, mem, not_⟩
            lia
    refine ⟨both.1, fun not_ => both.2.2 ?_⟩
    push Not at not_
    exact not_
  · rename_i bytewise
    rw [Bool.not_eq_true] at bytewise
    refine ⟨fun _ => decoded_bytes is bytewise found, fun not_ => absurd (fun raw => ?_) not_⟩
    rw [bytewise] at raw
    cases raw

/-- No merge of a word takes a fallback token. -/
def JoinsUpTo (tokenizer : BpeTokenizer) (vocab : List Text) (tokenTypes : List ℤ) : ℕ → List ℕ → Prop
  | 0, _ => True
  | rounds + 1, ids =>
    match tokenizer.bestPair ids with
    | none => True
    | some (index, _, merged) =>
      (∀ id, ids[index]? = some id ∨ ids[index + 1]? = some id → fallbackAt vocab tokenTypes id = none) ∧
        JoinsUpTo tokenizer vocab tokenTypes rounds (BpeTokenizer.mergeAt ids index merged)

theorem length_decoded_operand (tokenTypes : List ℤ) (isSpm : Bool) {token : Text} (there : vocab[id]? = some token) :
    (fallbackAt vocab tokenTypes id = none → decoded vocab tokenTypes isSpm [id] = ordinaryBytes isSpm token) ∧
      (fallbackAt vocab tokenTypes id ≠ none →
        (decoded vocab tokenTypes isSpm [id]).length < (ordinaryBytes isSpm token).length) := by
  refine ⟨decoded_ordinary there, fun fallback => ?_⟩
  obtain ⟨byte, is⟩ := Option.ne_none_iff_exists'.mp fallback
  rw [decoded_fallback is, List.length_singleton]
  rw [fallbackAt, there, Option.bind_some] at is
  have long := length_of_fallback is
  have spelled : token.length ≤ (ordinaryBytes isSpm token).length := length_ordinaryBytes token
  omega

/-- A merge of ordinary tokens is read back as they are, and one that takes a fallback token as more. -/
theorem length_merge (isSpm : Bool) {left right priority merged : ℕ}
    (rule : lastOf (mergeEntries vocab merges) (left, right) = some (priority, merged))
    (ordinary : fallbackAt vocab tokenTypes merged = none) :
    (fallbackAt vocab tokenTypes left = none ∧ fallbackAt vocab tokenTypes right = none →
      decoded vocab tokenTypes isSpm [merged] = decoded vocab tokenTypes isSpm [left, right]) ∧
    (¬ (fallbackAt vocab tokenTypes left = none ∧ fallbackAt vocab tokenTypes right = none) →
      (decoded vocab tokenTypes isSpm [left, right]).length < (decoded vocab tokenTypes isSpm [merged]).length) := by
  obtain ⟨front, back, isLeft, isRight, isMerged⟩ := vocab_of_merge rule
  obtain ⟨same, shorter⟩ := length_decoded_operand tokenTypes isSpm isLeft
  obtain ⟨same', shorter'⟩ := length_decoded_operand tokenTypes isSpm isRight
  rw [decoded_ordinary isMerged ordinary, ordinaryBytes_append, decoded_cons left [right]]
  refine ⟨fun ⟨left_, right_⟩ => by rw [same left_, same' right_], fun not_ => ?_⟩
  rw [List.length_append, List.length_append]
  by_cases left_ : fallbackAt vocab tokenTypes left = none
  · have := shorter' fun right_ => not_ ⟨left_, right_⟩
    rw [same left_]
    omega
  · have := shorter left_
    by_cases right_ : fallbackAt vocab tokenTypes right = none
    · rw [same' right_]
      omega
    · have := shorter' right_
      omega

theorem length_mergeUpTo (is : tokenizer = .new compile vocab merges preType tokenTypes)
    (isSpm : Bool) (unmerged : ∀ pair priority id, tokenizer.mergeTable pair = some (priority, id) →
      fallbackAt vocab tokenTypes id = none) (rounds : ℕ) (ids : List ℕ) :
    (JoinsUpTo tokenizer vocab tokenTypes rounds ids →
      decoded vocab tokenTypes isSpm (tokenizer.mergeUpTo rounds ids) = decoded vocab tokenTypes isSpm ids) ∧
    (decoded vocab tokenTypes isSpm ids).length ≤ (decoded vocab tokenTypes isSpm (tokenizer.mergeUpTo rounds ids)).length ∧
    (¬ JoinsUpTo tokenizer vocab tokenTypes rounds ids → (decoded vocab tokenTypes isSpm ids).length <
      (decoded vocab tokenTypes isSpm (tokenizer.mergeUpTo rounds ids)).length) := by
  induction rounds generalizing ids with
  | zero => exact ⟨fun _ => rfl, Nat.le_refl _, fun not_ => absurd trivial not_⟩
  | succ rounds ih =>
    cases best : tokenizer.bestPair ids with
    | none =>
      simp [BpeTokenizer.mergeUpTo, JoinsUpTo, best]
    | some pair =>
      obtain ⟨index, priority, merged⟩ := pair
      simp only [BpeTokenizer.mergeUpTo, JoinsUpTo, best]
      obtain ⟨left, right, isLeft, isRight, rule⟩ := BpeTokenizer.bestPair_spec best
      have ordinary := unmerged _ _ _ rule
      rw [is] at rule
      obtain ⟨same, longer⟩ := length_merge isSpm rule ordinary
      obtain ⟨whole, after⟩ := BpeTokenizer.mergeAt_eq isLeft isRight merged
      obtain ⟨same', atLeast, longer'⟩ := ih (BpeTokenizer.mergeAt ids index merged)
      have operands : (∀ id, ids[index]? = some id ∨ ids[index + 1]? = some id → fallbackAt vocab tokenTypes id = none) ↔
          fallbackAt vocab tokenTypes left = none ∧ fallbackAt vocab tokenTypes right = none := by
        rw [isLeft, isRight]
        constructor
        · exact fun all => ⟨all left (.inl rfl), all right (.inr rfl)⟩
        · rintro ⟨left_, right_⟩ id (is_left | is_right)
          · cases is_left
            exact left_
          · cases is_right
            exact right_
      have before : decoded vocab tokenTypes isSpm ids = decoded vocab tokenTypes isSpm (ids.take index) ++
          (decoded vocab tokenTypes isSpm [left, right] ++ decoded vocab tokenTypes isSpm (ids.drop (index + 2))) := by
        conv_lhs => rw [whole]
        rw [decoded_append, show left :: right :: ids.drop (index + 2) = [left, right] ++ ids.drop (index + 2) from rfl,
          decoded_append]
      have later : decoded vocab tokenTypes isSpm (BpeTokenizer.mergeAt ids index merged) =
          decoded vocab tokenTypes isSpm (ids.take index) ++
          (decoded vocab tokenTypes isSpm [merged] ++ decoded vocab tokenTypes isSpm (ids.drop (index + 2))) := by
        rw [after, decoded_append, decoded_cons merged]
      rw [operands]
      have grows : (decoded vocab tokenTypes isSpm ids).length ≤
          (decoded vocab tokenTypes isSpm (BpeTokenizer.mergeAt ids index merged)).length := by
        rw [before, later]
        simp only [List.length_append]
        by_cases clean : fallbackAt vocab tokenTypes left = none ∧ fallbackAt vocab tokenTypes right = none
        · rw [same clean]
        · have := longer clean
          lia
      refine ⟨fun both => ?_, grows.trans atLeast, fun not_ => ?_⟩
      · obtain ⟨clean, joins⟩ := both
        rw [same' joins, later, before, same clean]
      · by_cases clean : fallbackAt vocab tokenTypes left = none ∧ fallbackAt vocab tokenTypes right = none
        · exact grows.trans_lt (longer' fun joins => not_ ⟨clean, joins⟩)
        · refine lt_of_lt_of_le ?_ atLeast
          rw [before, later]
          simp only [List.length_append]
          have := longer clean
          lia

/-- A word that is read back: it is in the two-byte table, or its characters are and no merge takes a fallback token. -/
def ReadsWord (tokenizer : BpeTokenizer) (vocab : List Text) (tokenTypes : List ℤ) (word : Text) : Prop :=
  tokenizer.qwenExactTwoByteTokenId word = none → ReadsChars tokenizer word ∧
    ∀ ids, tokenizer.wordIds word = .ok ids → JoinsUpTo tokenizer vocab tokenTypes ids.length ids

theorem length_encodeWord (is : tokenizer = .new compile vocab merges preType tokenTypes)
    (unmerged : ∀ pair priority id, tokenizer.mergeTable pair = some (priority, id) →
      fallbackAt vocab tokenTypes id = none) (found : tokenizer.encodeWord word = .ok ids) :
    (ReadsWord tokenizer vocab tokenTypes word →
      decoded vocab tokenTypes tokenizer.isSpmBpe ids = Utf8.encodeAll word) ∧
    (¬ ReadsWord tokenizer vocab tokenTypes word →
      size word < (decoded vocab tokenTypes tokenizer.isSpmBpe ids).length) := by
  rw [BpeTokenizer.encodeWord] at found
  split at found
  · rename_i id exact_
    cases found
    have reads : ReadsWord tokenizer vocab tokenTypes word := fun none_ => by
      rw [exact_] at none_
      cases none_
    refine ⟨fun _ => ?_, fun not_ => absurd reads not_⟩
    simp only [BpeTokenizer.qwenExactTwoByteTokenId] at exact_
    split at exact_
    · cases exact_
    · split at exact_
      · cases exact_
      · subst is
        have there := (decoded_of_twoByte exact_).1
        rw [decoded, List.flatMap_singleton]
        exact congrArg (·.getD []) there
  · rename_i none_
    cases collected : tokenizer.wordIds word with
    | error failure =>
      rw [collected] at found
      cases found
    | ok parts =>
      rw [collected] at found
      cases found
      obtain ⟨same, longer⟩ := length_wordIds is collected
      obtain ⟨same', atLeast, longer'⟩ := length_mergeUpTo is tokenizer.isSpmBpe unmerged parts.length parts
      have reads : ReadsWord tokenizer vocab tokenTypes word ↔
          ReadsChars tokenizer word ∧ JoinsUpTo tokenizer vocab tokenTypes parts.length parts := by
        simp only [ReadsWord, none_, true_implies, collected, Except.ok.injEq, forall_eq']
      rw [reads, BpeTokenizer.bpeMergeIds]
      refine ⟨fun ⟨chars, joins⟩ => (same' joins).trans (same chars), fun not_ => ?_⟩
      by_cases chars : ReadsChars tokenizer word
      · have grows := longer' fun joins => not_ ⟨chars, joins⟩
        rw [same chars] at grows
        exact grows
      · exact (longer chars).trans_le atLeast

end Words

section Segments

variable {compile : String → PreRegex} {vocab : List Text} {merges : List (Text × Text)} {preType : String}
  {tokenTypes : List ℤ}

/-- The matches of the expression cover a text one after another. -/
def PreRegex.Covers (regex : PreRegex) : Prop := ∀ before rest : Text, rest ≠ [] →
  ∃ found, regex.findFromPos (before ++ rest) (size before) = some found ∧ found.start = size before

/-- The next match is a word at the front of what is left. -/
theorem PreRegex.Covers.next {regex : PreRegex} (covers : regex.Covers) (before : Text) {rest : Text} (some_ : rest ≠ []) :
    ∃ found tail, regex.findFromPos (before ++ rest) (size before) = some found ∧ rest = found.asStr ++ tail ∧
      found.stop = size (before ++ found.asStr) ∧ found.asStr ≠ [] := by
  obtain ⟨found, is, starts⟩ := covers before rest some_
  obtain ⟨front, tail, whole, counted, stops⟩ := append_of_slice (regex.slice_eq _ _ _ is)
  have same : front = before := by
    have first := sliceTo_append front (found.asStr ++ tail)
    have second := sliceTo_append before rest
    rw [whole, counted.trans starts |>.symm] at second
    exact Option.some.inj (first.symm.trans second)
  subst same
  refine ⟨found, tail, is, List.append_cancel_left whole, ?_, regex.nonempty _ _ _ is⟩
  rw [size_append, ← stops, counted]

theorem size_pos {text : Text} (some_ : text ≠ []) : 0 < size text :=
  Nat.pos_of_ne_zero fun none_ => some_ (size_eq_zero.mp none_)

theorem length_encodeFrom {tokenizer : BpeTokenizer} (is : tokenizer = .new compile vocab merges preType tokenTypes)
    (covers : tokenizer.preRegex.Covers) (unmerged : ∀ pair priority id, tokenizer.mergeTable pair = some (priority, id) →
      fallbackAt vocab tokenTypes id = none) {steps : ℕ} {before rest : Text} (enough : size rest ≤ steps)
    {result ids : List ℕ} (found : tokenizer.encodeFrom (before ++ rest) steps (size before) result = .ok ids) :
    ∃ new, ids = result ++ new ∧
      ((∀ word ∈ tokenizer.wordsFrom (before ++ rest) steps (size before), ReadsWord tokenizer vocab tokenTypes word) →
        decoded vocab tokenTypes tokenizer.isSpmBpe new = Utf8.encodeAll rest) ∧
      (¬ (∀ word ∈ tokenizer.wordsFrom (before ++ rest) steps (size before), ReadsWord tokenizer vocab tokenTypes word) →
        size rest < (decoded vocab tokenTypes tokenizer.isSpmBpe new).length) := by
  induction steps generalizing before rest result with
  | zero =>
    obtain rfl := size_eq_zero.mp (Nat.le_zero.mp enough)
    cases found
    exact ⟨[], (List.append_nil _).symm, fun _ => rfl, fun not_ => absurd (fun _ mem => nomatch mem) not_⟩
  | succ steps ih =>
    rcases eq_or_ne rest [] with rfl | some_
    · have past : (Utf8.encodeAll (before ++ []))[size before]? = none := by
        rw [List.append_nil]
        exact List.getElem?_eq_none (Nat.le_refl _)
      rw [BpeTokenizer.encodeFrom, past] at found
      cases found
      rw [BpeTokenizer.wordsFrom, past]
      exact ⟨[], (List.append_nil _).symm, fun _ => rfl, fun not_ => absurd (fun _ mem => nomatch mem) not_⟩
    · obtain ⟨word, tail, is_word, rfl, stops, nonempty⟩ := covers.next before some_
      have inside : ∃ byte, (Utf8.encodeAll (before ++ (word.asStr ++ tail)))[size before]? = some byte := by
        have bound : size before < (Utf8.encodeAll (before ++ (word.asStr ++ tail))).length := by
          have positive := size_pos nonempty
          change size before < size (before ++ (word.asStr ++ tail))
          rw [size_append, size_append]
          lia
        exact ⟨_, List.getElem?_eq_getElem bound⟩
      obtain ⟨byte, is_byte⟩ := inside
      rw [BpeTokenizer.encodeFrom, is_byte] at found
      simp only [is_word] at found
      obtain ⟨part, is_part, found⟩ := bind_eq_ok_iff.mp found
      rw [stops, ← List.append_assoc] at found
      have less : size tail ≤ steps := by
        have positive := size_pos nonempty
        rw [size_append] at enough
        lia
      obtain ⟨new, rfl, same', longer'⟩ := ih less found
      obtain ⟨same, longer⟩ := length_encodeWord is unmerged is_part
      have words : tokenizer.wordsFrom (before ++ (word.asStr ++ tail)) (steps + 1) (size before) =
          word.asStr :: tokenizer.wordsFrom (before ++ word.asStr ++ tail) steps (size (before ++ word.asStr)) := by
        rw [BpeTokenizer.wordsFrom, is_byte]
        simp only [is_word]
        rw [stops, List.append_assoc]
      rw [words, List.forall_mem_cons]
      refine ⟨part ++ new, List.append_assoc .., fun ⟨reads, others⟩ => ?_, fun not_ => ?_⟩
      · rw [decoded_append, same reads, same' others, Utf8.encodeAll_append]
      · rw [decoded_append, List.length_append, size_append]
        by_cases reads : ReadsWord tokenizer vocab tokenTypes word.asStr
        · have grows := longer' fun others => not_ ⟨reads, others⟩
          rw [same reads]
          exact Nat.add_lt_add_left grows _
        · have grows := longer reads
          by_cases others : ∀ word' ∈ tokenizer.wordsFrom (before ++ word.asStr ++ tail) steps (size (before ++ word.asStr)),
              ReadsWord tokenizer vocab tokenTypes word'
          · rw [same' others]
            exact Nat.add_lt_add_right grows _
          · exact Nat.add_lt_add grows (longer' others)

end Segments

end Muser.Bpe
