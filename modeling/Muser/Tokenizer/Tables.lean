import Muser.Tokenizer.Bpe

/-! # The tables of the tokenizer

What an entry of each table says about the vocabulary, and what the merges of a word and the words of a text
are.
-/

namespace Muser.Bpe

open Text

section Maps

variable {κ ν : Type} [DecidableEq κ] {entries : List (κ × ν)} {key : κ} {value : ν}

theorem mem_of_lastOf (is : lastOf entries key = some value) : (key, value) ∈ entries := by
  simp only [lastOf, Option.map_eq_some_iff] at is
  obtain ⟨⟨other, found⟩, is, rfl⟩ := is
  have same : other = key := by simpa using List.find?_some is
  rw [← same]
  exact List.mem_reverse.mp (List.mem_of_find?_eq_some is)

theorem mem_of_firstOf (is : firstOf entries key = some value) : (key, value) ∈ entries := by
  simp only [firstOf, Option.map_eq_some_iff] at is
  obtain ⟨⟨other, found⟩, is, rfl⟩ := is
  have same : other = key := by simpa using List.find?_some is
  rw [← same]
  exact List.mem_of_find?_eq_some is

end Maps

/-- The expression that finds all that is left of a text. -/
def wholeRegex : PreRegex where
  findFromPos text position :=
    match text.sliceFrom position with
    | some (first :: rest) => some ⟨position, position + size (first :: rest), first :: rest⟩
    | _ => none
  slice_eq text position found is := by
    split at is <;> cases is
    rename_i first rest left
    obtain ⟨front, rfl, rfl⟩ := append_of_sliceFrom left
    simpa using slice_append front (first :: rest) []
  later text position found is := by
    split at is <;> cases is
    exact Nat.le_refl position
  nonempty text position found is := by
    split at is <;> cases is
    exact fun empty => nomatch empty

section Offers

variable {Entry Offer : Type}

/-- What a search over a list ends with is what some entry of the list offers. -/
theorem foldl_offered (offers : Entry → Offer → Prop) {step : Option Offer → Entry → Option Offer} {entries : List Entry}
    {offer : Offer} (steps : ∀ best entry, step best entry = best ∨ ∃ offer,
      offers entry offer ∧ step best entry = some offer)
    (is : entries.foldl step none = some offer) : ∃ entry ∈ entries, offers entry offer := by
  have chosen : ∀ best, entries.foldl step best = some offer → best = some offer ∨ ∃ entry ∈ entries,
      offers entry offer := by
    clear is
    induction entries with
    | nil => exact fun best is => .inl is
    | cons entry rest ih =>
      intro best is
      rw [List.foldl_cons] at is
      rcases ih _ is with first | ⟨other, mem, found⟩
      · rcases steps best entry with same | ⟨other, found, here⟩
        · exact .inl (same.symm.trans first)
        · rw [here] at first
          cases first
          exact .inr ⟨entry, List.mem_cons_self .., found⟩
      · exact .inr ⟨other, List.mem_cons_of_mem _ mem, found⟩
  exact (chosen none is).resolve_left (Option.some_ne_none offer).symm

end Offers

section Tables

variable {vocab : List Text} {merges : List (Text × Text)} {preType : String} {tokenTypes : List ℤ}

variable {id : ℕ} {byte : UInt8} {isSpm : Bool}

theorem vocab_of_tokenToId {token : Text} (is : tokenToId vocab token = some id) : vocab[id]? = some token :=
  List.mem_zipIdx_iff_getElem?.mp (mem_of_lastOf is)

/-- What a merge rule says: its two tokens and the token of their texts. -/
theorem vocab_of_merge {left right priority merged : ℕ}
    (is : lastOf (mergeEntries vocab merges) (left, right) = some (priority, merged)) :
    ∃ front back, vocab[left]? = some front ∧ vocab[right]? = some back ∧ vocab[merged]? = some (front ++ back) := by
  have mem := mem_of_lastOf is
  simp only [mergeEntries, List.mem_filterMap, Prod.exists] at mem
  obtain ⟨front, back, place, -, is⟩ := mem
  split at is
  · rename_i left' right' merged' isLeft isRight isMerged
    cases is
    exact ⟨front, back, vocab_of_tokenToId isLeft, vocab_of_tokenToId isRight, vocab_of_tokenToId isMerged⟩
  · cases is

/-- A byte token is the character of the byte. -/
theorem token_of_byteTokens (is : byteTokens vocab byte = some id) :
    ∃ character, (byte, character) ∈ gpt2ByteUnicodePairs ∧ tokenToId vocab [character] = some id := by
  simp only [byteTokens, Option.bind_eq_some_iff] at is
  obtain ⟨⟨other, character⟩, found, is⟩ := is
  have same : other = byte := by simpa using List.find?_some found
  rw [← same]
  exact ⟨character, List.mem_of_find?_eq_some found, is⟩

theorem fallback_of_entry (is : firstOf (fallbackEntries vocab tokenTypes) byte = some id) :
    ∃ token, vocab[id]? = some token ∧ byteFallbackByte token tokenTypes[id]? = some byte := by
  have mem := mem_of_firstOf is
  simp only [fallbackEntries, List.mem_filterMap, Prod.exists, List.mem_zipIdx_iff_getElem?, fallbackBytes,
    List.getElem?_mapIdx, Option.map_eq_some_iff] at mem
  obtain ⟨found, place, ⟨token, there, is⟩, byte', isByte, same⟩ := mem
  cases same
  exact ⟨token, there, is.trans isByte⟩

/-- A character token is that character. -/
theorem vocab_of_charTokens {character : Text}
    (is : charTokens vocab isSpm character = some id) : vocab[id]? = some character ∧ character.length = 1 := by
  simp only [charTokens] at is
  split at is
  · split at is
    · rename_i found isFound
      cases is
      have mem := mem_of_lastOf isFound
      simp only [List.mem_filter, decide_eq_true_eq] at mem
      exact ⟨List.mem_zipIdx_iff_getElem?.mp mem.1, mem.2⟩
    · split at is
      · rename_i among
        simp only [List.any_eq_true, decide_eq_true_eq] at among
        obtain ⟨byte, -, rfl⟩ := among
        exact ⟨vocab_of_tokenToId is, rfl⟩
      · cases is
  · cases is

theorem decoded_of_twoByte {bytes : Bytes}
    (is : firstOf (twoByteEntries vocab preType tokenTypes isSpm) bytes = some id) :
    (decodedBytes vocab tokenTypes isSpm)[id]? = some bytes ∧ bytes.length = 2 := by
  have mem := mem_of_firstOf is
  simp only [twoByteEntries] at mem
  split at mem
  · simp only [List.mem_filter, decide_eq_true_eq] at mem
    exact ⟨List.mem_zipIdx_iff_getElem?.mp mem.1, mem.2⟩
  · cases mem

end Tables

namespace BpeTokenizer

/-- The words that the pre-tokenizer finds from a position, in the steps of the encoder. -/
def wordsFrom (tokenizer : BpeTokenizer) (text : Text) : ℕ → ℕ → List Text
  | 0, _ => []
  | steps + 1, position =>
    match (Utf8.encodeAll text)[position]? with
    | none => []
    | some _ =>
      match tokenizer.preRegex.findFromPos text position with
      | some found => found.asStr :: wordsFrom tokenizer text steps found.stop
      | none => wordsFrom tokenizer text steps (position + 1)

/-- The words of a segment. -/
def words (tokenizer : BpeTokenizer) (text : Text) : List Text :=
  tokenizer.wordsFrom (tokenizer.effective text) (size (tokenizer.effective text)) 0

variable {tokenizer : BpeTokenizer}

/-- The best pair is a pair of neighbours that the merge table has. -/
theorem bestPair_spec {ids : List ℕ} {index priority merged : ℕ}
    (is : tokenizer.bestPair ids = some (index, priority, merged)) :
    ∃ left right, ids[index]? = some left ∧ ids[index + 1]? = some right ∧
      tokenizer.mergeTable (left, right) = some (priority, merged) := by
  rw [bestPair] at is
  have chosen := foldl_offered (fun (entry : (ℕ × ℕ) × ℕ) (offer : ℕ × ℕ × ℕ) => offer.1 = entry.2 ∧
    tokenizer.mergeTable entry.1 = some (offer.2.1, offer.2.2)) (fun best entry => ?_) is
  · obtain ⟨⟨⟨left, right⟩, place⟩, mem, same, found⟩ := chosen
    cases same
    rw [List.mem_zipIdx_iff_getElem?, List.getElem?_zip_eq_some, List.getElem?_tail] at mem
    exact ⟨left, right, mem.1, mem.2, found⟩
  · obtain ⟨sought, place⟩ := entry
    dsimp only
    split
    · exact .inl rfl
    · rename_i found
      split
      · exact .inr ⟨_, ⟨rfl, found⟩, rfl⟩
      · exact .inl rfl

/-- The list around a merge. -/
theorem mergeAt_eq {ids : List ℕ} {index left right : ℕ} (isLeft : ids[index]? = some left)
    (isRight : ids[index + 1]? = some right) (merged : ℕ) :
    ids = ids.take index ++ left :: right :: ids.drop (index + 2) ∧
      mergeAt ids index merged = ids.take index ++ merged :: ids.drop (index + 2) := by
  obtain ⟨bound, isLeft⟩ := List.getElem?_eq_some_iff.mp isLeft
  obtain ⟨bound', isRight⟩ := List.getElem?_eq_some_iff.mp isRight
  have whole : ids = ids.take index ++ left :: right :: ids.drop (index + 2) := by
    conv_lhs => rw [← List.take_append_drop index ids, List.drop_eq_getElem_cons bound,
      List.drop_eq_getElem_cons bound', isLeft, isRight]
  refine ⟨whole, ?_⟩
  have length : (ids.take index).length = index := List.length_take_of_le bound.le
  rw [mergeAt]
  conv_lhs => rw [whole]
  rw [List.set_append_right _ _ length.le, length, Nat.sub_self, List.set_cons_zero,
    List.eraseIdx_append_of_length_le (by omega), length, Nat.add_sub_cancel_left, List.eraseIdx_cons_succ,
    List.eraseIdx_cons_zero]

/-- What holds of every token of a word and of everything that a rule merges to holds of the merged word. -/
theorem forall_mem_bpeMergeIds {P : ℕ → Prop} {ids : List ℕ}
    (produced : ∀ pair priority merged, tokenizer.mergeTable pair = some (priority, merged) → P merged)
    (all : ∀ id ∈ ids, P id) : ∀ id ∈ tokenizer.bpeMergeIds ids, P id := by
  have rounds : ∀ count (ids : List ℕ), (∀ id ∈ ids, P id) → ∀ id ∈ tokenizer.mergeUpTo count ids, P id := by
    intro count
    induction count with
    | zero => exact fun _ all => all
    | succ count ih =>
      intro ids all
      rw [mergeUpTo]
      split
      · exact all
      · rename_i index priority merged best
        obtain ⟨left, right, isLeft, isRight, rule⟩ := bestPair_spec best
        apply ih
        rw [(mergeAt_eq isLeft isRight merged).2]
        intro id mem
        rcases List.mem_append.mp mem with front | mem
        · exact all id (List.mem_of_mem_take front)
        · rcases List.mem_cons.mp mem with rfl | back
          · exact produced _ _ _ rule
          · exact all id (List.mem_of_mem_drop back)
  exact rounds _ _ all

end BpeTokenizer

end Muser.Bpe
