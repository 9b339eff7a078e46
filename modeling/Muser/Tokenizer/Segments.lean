import Muser.Tokenizer.RoundTrip

/-! # The round trip of a text

The segments of a text, its special tokens among them, and from them when the tokens of a text are decoded to the
text.
-/

namespace Muser.Bpe

open Text

variable {compile : String → PreRegex} {vocab : List Text} {merges : List (Text × Text)} {preType : String}
  {tokenTypes : List ℤ} {tokenizer : BpeTokenizer}

section Splitting

variable {remaining before after : Text} {id : ℕ} {text : Text} {rounds : ℕ}

/-- What is found first is one of the special tokens. -/
theorem firstSpecial_found (is : tokenizer.firstSpecial remaining = some (before, after, id)) :
    ∃ token, (token, id) ∈ tokenizer.specialTokens ∧ splitOnce token remaining = some (before, after) := by
  rw [BpeTokenizer.firstSpecial] at is
  have chosen := foldl_offered (fun (entry : Text × ℕ) (offer : Text × Text × ℕ) => offer.2.2 = entry.2 ∧
    splitOnce entry.1 remaining = some (offer.1, offer.2.1)) (fun best entry => ?_) is
  · obtain ⟨⟨token, place⟩, mem, same, found⟩ := chosen
    cases same
    exact ⟨token, mem, found⟩
  · obtain ⟨sought, place⟩ := entry
    dsimp only
    split
    · exact .inl rfl
    · rename_i found
      split
      · exact .inr ⟨_, ⟨rfl, found⟩, rfl⟩
      · exact .inl rfl

/-- A special token is found where it stands. -/
theorem firstSpecial_spec
    (is : tokenizer.firstSpecial remaining = some (before, after, id))
    (nonempty : ∀ entry ∈ tokenizer.specialTokens, entry.1 ≠ []) :
    ∃ token, (token, id) ∈ tokenizer.specialTokens ∧ remaining = before ++ token ++ after := by
  obtain ⟨token, mem, found⟩ := firstSpecial_found is
  exact ⟨token, mem, ((splitOnce_eq_some (nonempty (token, id) mem)).mp found).1⟩

/-- The text of a segment. -/
def Segment.asText (vocab : List Text) : Segment → Text
  | .text plain => plain
  | .special id => vocab[id]?.getD []

theorem splitUpTo_spec (nonempty : ∀ entry ∈ tokenizer.specialTokens, entry.1 ≠ [])
    (named : ∀ token id, (token, id) ∈ tokenizer.specialTokens → vocab[id]? = some token)
    {segments : List Segment} (is : tokenizer.splitUpTo rounds text = some segments) :
    text = segments.flatMap (Segment.asText vocab) ∧
      ∀ id, .special id ∈ segments → ∃ token, (token, id) ∈ tokenizer.specialTokens := by
  induction rounds generalizing text segments with
  | zero =>
    cases text with
    | nil =>
      cases is
      exact ⟨rfl, fun _ mem => nomatch mem⟩
    | cons first rest => cases is
  | succ rounds ih =>
    cases text with
    | nil =>
      cases is
      exact ⟨rfl, fun _ mem => nomatch mem⟩
    | cons first rest =>
      rw [BpeTokenizer.splitUpTo] at is
      split at is
      · cases is
        exact ⟨(List.append_nil _).symm, fun id mem => by simp at mem⟩
      · rename_i before after id found
        obtain ⟨token, mem, whole⟩ := firstSpecial_spec found nonempty
        obtain ⟨others, split_, is⟩ := Option.bind_eq_some_iff.mp is
        cases is
        obtain ⟨same, specials⟩ := ih split_
        have here : Segment.asText vocab (.special id) = token := by
          rw [Segment.asText, named token id mem]
          rfl
        refine ⟨?_, fun other among => ?_⟩
        · rw [List.flatMap_append, List.flatMap_cons, here, whole, ← same]
          split
          · rename_i empty
            rw [empty]
            rfl
          · simp [Segment.asText]
        · rcases List.mem_append.mp among with front | back
          · split at front
            · cases front
            · simp at front
          · rcases List.mem_cons.mp back with same_ | back
            · cases same_
              exact ⟨token, mem⟩
            · exact specials other back

/-- With no empty special token every text is split. -/
theorem splitUpTo_isSome (nonempty : ∀ entry ∈ tokenizer.specialTokens, entry.1 ≠ [])
    (enough : text.length ≤ rounds) : (tokenizer.splitUpTo rounds text).isSome := by
  induction rounds generalizing text with
  | zero =>
    obtain rfl := List.length_eq_zero_iff.mp (Nat.le_zero.mp enough)
    rfl
  | succ rounds ih =>
    cases text with
    | nil => rfl
    | cons first rest =>
      rw [BpeTokenizer.splitUpTo]
      split
      · rfl
      · rename_i before after id found
        obtain ⟨token, mem, whole⟩ := firstSpecial_spec found nonempty
        have length := congrArg List.length whole
        rw [List.length_append, List.length_append] at length
        have some_ := List.length_pos_of_ne_nil (nonempty _ mem)
        have shorter : after.length ≤ rounds := by
          dsimp only at some_
          omega
        obtain ⟨segments, is⟩ := Option.isSome_iff_exists.mp (ih shorter)
        rw [is]
        rfl

end Splitting

section Specials

theorem vocab_of_specials {token : Text} {id : ℕ} (mem : (token, id) ∈ specials vocab tokenTypes) :
    vocab[id]? = some token ∧ isSpecial tokenTypes id token = true := by
  rw [specials, List.mem_insertionSort, List.mem_filter] at mem
  exact ⟨List.mem_zipIdx_iff_getElem?.mp mem.1, mem.2⟩

/-- A special token is no fallback token. -/
theorem ordinary_of_special {token : Text} {id : ℕ} (there : vocab[id]? = some token)
    (special : isSpecial tokenTypes id token = true) : fallbackAt vocab tokenTypes id = none := by
  rw [fallbackAt, there, Option.bind_some]
  simp only [isSpecial] at special
  split at special
  · rename_i declared is
    rw [is, byteFallbackByte, if_pos]
    simp only [Bool.or_eq_true, beq_iff_eq] at special
    simp only [Option.any_some, decide_eq_true_eq]
    omega
  · rename_i undeclared
    simp only [Bool.and_eq_true] at special
    have starts := startsWith_iff.mp special.1
    obtain ⟨rest, rfl⟩ := starts
    have other : ['<', '0', 'x'].isPrefixOf? (['<', '|'] ++ rest) = none := rfl
    simp only [undeclared, byteFallbackByte, Option.any_none, other]
    rfl

/-- The bytes of an ASCII token are read as they are. -/
theorem ordinaryBytes_ascii {token : Text} {isSpm : Bool} (ascii : isSpm = false → Ascii token) :
    ordinaryBytes isSpm token = Utf8.encodeAll token := by
  cases isSpm with
  | true => rfl
  | false =>
    rw [encodeAll_ascii (ascii rfl)]
    refine List.map_congr_left fun character mem => ?_
    cases found : gpt2UnicodeToByte character with
    | none => rfl
    | some byte =>
      simp only [gpt2UnicodeToByte, Option.map_eq_some_iff] at found
      obtain ⟨⟨other, character'⟩, found, rfl⟩ := found
      have same : character' = character := by simpa using List.find?_some found
      have number := ascii_of_mem (List.mem_of_find?_eq_some found) (same ▸ ascii rfl character mem)
      rw [Option.getD_some, ← same, ← number]
      exact UInt8.ofNat_toNat.symm

end Specials

section Marks

/-- Word marks are read as blanks. -/
def unmark (text : Text) : Text := text.map fun character => if character = wordMark then ' ' else character

def mark (text : Text) : Text := text.map fun character => if character = ' ' then wordMark else character

theorem unmark_of_not_mem {text : Text} (unmarked : wordMark ∉ text) : unmark text = text := by
  refine (List.map_congr_left fun character mem => ?_).trans (List.map_id text)
  have other : character ≠ wordMark := fun same => unmarked (same ▸ mem)
  exact if_neg other

theorem unmark_mark {text : Text} (unmarked : wordMark ∉ text) : unmark (mark text) = text := by
  rw [unmark, mark, List.map_map]
  refine (List.map_congr_left fun character mem => ?_).trans (List.map_id text)
  have other : character ≠ wordMark := fun same => unmarked (same ▸ mem)
  by_cases blank : character = ' '
  · simp [blank]
  · simp [blank, other]

theorem blank_not_mem_mark (text : Text) : ' ' ∉ mark text := by
  intro mem
  obtain ⟨character, -, same⟩ := List.mem_map.mp mem
  split at same
  · exact absurd same (by decide)
  · exact absurd same ‹_›

/-- Texts that are read alike: the one that marks every blank has the most bytes. -/
theorem size_le_of_unmark {text other : Text} (same : unmark text = unmark other) (marked : ' ' ∉ other) :
    size text ≤ size other := by
  induction text generalizing other with
  | nil => exact Nat.zero_le _
  | cons first rest ih =>
    cases other with
    | nil => cases same
    | cons first' rest' =>
      simp only [unmark, List.map_cons, List.cons.injEq] at same
      have tails := ih same.2 fun mem => marked (List.mem_cons_of_mem _ mem)
      have some_ : first' ≠ ' ' := fun blank => marked (blank ▸ List.mem_cons_self ..)
      have heads : first.utf8Size ≤ first'.utf8Size := by
        have alike := same.1
        split at alike <;> split at alike
        · rw [‹first = wordMark›, ‹first' = wordMark›]
        · exact absurd alike.symm some_
        · rw [alike, ‹first' = wordMark›]
          decide
        · rw [alike]
      rw [size_cons, size_cons]
      omega

end Marks

section Segments

/-- What the tokens of a segment are read back as when all goes well. -/
def Segment.written (tokenizer : BpeTokenizer) (vocab : List Text) : Segment → Text
  | .text plain => tokenizer.effective plain
  | .special id => vocab[id]?.getD []

/-- A segment whose words are read back. -/
def Segment.Reads (tokenizer : BpeTokenizer) (vocab : List Text) (tokenTypes : List ℤ) : Segment → Prop
  | .text plain => ∀ word ∈ tokenizer.words plain, ReadsWord tokenizer vocab tokenTypes word
  | .special _ => True

/-- A special token of a vocabulary of byte characters is read back when it is ASCII. -/
def Segment.Plain (tokenizer : BpeTokenizer) (vocab : List Text) : Segment → Prop
  | .text _ => True
  | .special id => tokenizer.isSpmBpe = false → Ascii (vocab[id]?.getD [])

/-- A special token of a vocabulary of raw text without a blank. -/
def Segment.Unblank (tokenizer : BpeTokenizer) (vocab : List Text) : Segment → Prop
  | .text _ => True
  | .special id => tokenizer.isSpmBpe = true → ' ' ∉ vocab[id]?.getD []

theorem length_encodeSegment (is : tokenizer = .new compile vocab merges preType tokenTypes)
    (covers : tokenizer.preRegex.Covers) (unmerged : ∀ pair priority id, tokenizer.mergeTable pair = some (priority, id) →
      fallbackAt vocab tokenTypes id = none) {text : Text} {result ids : List ℕ}
    (found : tokenizer.encodeSegment text result = .ok ids) :
    ∃ new, ids = result ++ new ∧
      (Segment.Reads tokenizer vocab tokenTypes (.text text) →
        decoded vocab tokenTypes tokenizer.isSpmBpe new = Utf8.encodeAll (tokenizer.effective text)) ∧
      (¬ Segment.Reads tokenizer vocab tokenTypes (.text text) →
        size (tokenizer.effective text) < (decoded vocab tokenTypes tokenizer.isSpmBpe new).length) := by
  have front : tokenizer.encodeFrom ([] ++ tokenizer.effective text) (size (tokenizer.effective text)) (size []) result =
      .ok ids := found
  exact length_encodeFrom is covers unmerged (Nat.le_refl _) front

variable {segments : List Segment}

theorem length_encodeSegments (is : tokenizer = .new compile vocab merges preType tokenTypes)
    (covers : tokenizer.preRegex.Covers) (unmerged : ∀ pair priority id, tokenizer.mergeTable pair = some (priority, id) →
      fallbackAt vocab tokenTypes id = none)
    (named : ∀ id, .special id ∈ segments → ∃ token, (token, id) ∈ tokenizer.specialTokens)
    (plain : ∀ segment ∈ segments, segment.Plain tokenizer vocab) {result ids : List ℕ}
    (found : segments.foldlM tokenizer.pushSegment result = .ok ids) :
    ∃ new, ids = result ++ new ∧
      ((∀ segment ∈ segments, segment.Reads tokenizer vocab tokenTypes) →
        decoded vocab tokenTypes tokenizer.isSpmBpe new =
          Utf8.encodeAll (segments.flatMap (Segment.written tokenizer vocab))) ∧
      (¬ (∀ segment ∈ segments, segment.Reads tokenizer vocab tokenTypes) →
        size (segments.flatMap (Segment.written tokenizer vocab)) <
          (decoded vocab tokenTypes tokenizer.isSpmBpe new).length) := by
  induction segments generalizing result with
  | nil =>
    cases found
    exact ⟨[], (List.append_nil _).symm, fun _ => rfl, fun not_ => absurd (fun _ mem => nomatch mem) not_⟩
  | cons segment rest ih =>
    rw [List.foldlM_cons] at found
    obtain ⟨middle, first, found⟩ := bind_eq_ok_iff.mp found
    obtain ⟨others, rfl, same', longer'⟩ := ih (fun id mem => named id (List.mem_cons_of_mem _ mem))
      (fun other mem => plain other (List.mem_cons_of_mem _ mem)) found
    obtain ⟨new, rfl, same, longer⟩ : ∃ new, middle = result ++ new ∧
        (segment.Reads tokenizer vocab tokenTypes →
          decoded vocab tokenTypes tokenizer.isSpmBpe new = Utf8.encodeAll (segment.written tokenizer vocab)) ∧
        (¬ segment.Reads tokenizer vocab tokenTypes →
          size (segment.written tokenizer vocab) < (decoded vocab tokenTypes tokenizer.isSpmBpe new).length) := by
      cases segment with
      | text text => exact length_encodeSegment is covers unmerged first
      | special id =>
        cases first
        refine ⟨[id], rfl, fun _ => ?_, fun not_ => absurd trivial not_⟩
        obtain ⟨token, mem⟩ := named id (List.mem_cons_self ..)
        rw [is] at mem
        obtain ⟨there, special⟩ := vocab_of_specials mem
        have ascii := plain (.special id) (List.mem_cons_self ..)
        simp only [Segment.Plain, there, Option.getD_some] at ascii
        rw [decoded_ordinary there (ordinary_of_special there special), ordinaryBytes_ascii ascii, Segment.written, there]
        rfl
    refine ⟨new ++ others, List.append_assoc .., ?_, ?_⟩
    · rw [List.forall_mem_cons]
      rintro ⟨reads, all⟩
      rw [decoded_append, same reads, same' all, List.flatMap_cons, Utf8.encodeAll_append]
    · rw [List.forall_mem_cons, decoded_append, List.length_append, List.flatMap_cons, size_append]
      intro not_
      by_cases reads : segment.Reads tokenizer vocab tokenTypes
      · have grows := longer' fun all => not_ ⟨reads, all⟩
        rw [same reads]
        exact Nat.add_lt_add_left grows _
      · have grows := longer reads
        by_cases all : ∀ other ∈ rest, other.Reads tokenizer vocab tokenTypes
        · rw [same' all]
          exact Nat.add_lt_add_right grows _
        · exact Nat.add_lt_add grows (longer' all)

/-- The segments that the encoder makes of a text. -/
def BpeTokenizer.segmentsOf (tokenizer : BpeTokenizer) (text : Text) (parseSpecial : Bool) : Option (List Segment) :=
  if parseSpecial then tokenizer.splitSpecialTokens text else some [.text text]

theorem nonempty_of_vocab (nonempty : ∀ token ∈ vocab, token ≠ []) :
    ∀ entry ∈ specials vocab tokenTypes, entry.1 ≠ [] := by
  rintro ⟨token, id⟩ mem
  exact nonempty token (List.mem_of_getElem? (vocab_of_specials mem).1)

theorem segmentsOf_spec (is : tokenizer = .new compile vocab merges preType tokenTypes)
    (nonempty : ∀ token ∈ vocab, token ≠ []) (text : Text) (parseSpecial : Bool) :
    ∃ segments, tokenizer.segmentsOf text parseSpecial = some segments ∧
      text = segments.flatMap (Segment.asText vocab) ∧
      ∀ id, .special id ∈ segments → ∃ token, (token, id) ∈ tokenizer.specialTokens := by
  have whole : text = [Segment.text text].flatMap (Segment.asText vocab) := (List.append_nil _).symm
  have none_ : ∀ id, .special id ∈ [Segment.text text] → ∃ token, (token, id) ∈ tokenizer.specialTokens :=
    fun id mem => by simp at mem
  cases parseSpecial with
  | false => exact ⟨_, rfl, whole, none_⟩
  | true =>
    simp only [BpeTokenizer.segmentsOf, if_true, BpeTokenizer.splitSpecialTokens]
    split
    · exact ⟨_, rfl, whole, none_⟩
    · have some_ : ∀ entry ∈ tokenizer.specialTokens, entry.1 ≠ [] := by
        rw [is]
        exact nonempty_of_vocab nonempty
      obtain ⟨segments, split_⟩ := Option.isSome_iff_exists.mp (splitUpTo_isSome some_ (Nat.le_refl text.length))
      refine ⟨segments, split_, splitUpTo_spec some_ (fun token id mem => ?_) split_⟩
      rw [is] at mem
      exact (vocab_of_specials mem).1

theorem encoded_segments {text : Text} {parseSpecial : Bool} {ids : List ℕ}
    (are : tokenizer.segmentsOf text parseSpecial = some segments)
    (encoded : tokenizer.tryEncodeWithOptions text parseSpecial = some (.ok ids)) :
    segments.foldlM tokenizer.pushSegment [] = .ok ids := by
  have empty : ∀ steps, tokenizer.encodeFrom [] steps 0 [] = .ok [] := by
    intro steps
    cases steps <;> rfl
  rw [BpeTokenizer.tryEncodeWithOptions] at encoded
  split at encoded
  · rename_i none_
    cases encoded
    subst none_
    have silent : tokenizer.encodeSegment [] [] = .ok [] := by
      rw [BpeTokenizer.encodeSegment, BpeTokenizer.effective]
      split <;> exact empty _
    have plain : [Segment.text []].foldlM tokenizer.pushSegment [] = .ok [] := by
      rw [List.foldlM_cons, BpeTokenizer.pushSegment, silent]
      rfl
    rw [BpeTokenizer.segmentsOf] at are
    split at are
    · rw [BpeTokenizer.splitSpecialTokens] at are
      split at are <;> cases are
      · exact plain
      · rfl
    · cases are
      exact plain
  · cases parseSpecial with
    | false =>
      cases are
      rw [List.foldlM_cons, BpeTokenizer.pushSegment, Option.some.inj encoded]
      rfl
    | true =>
      simp only [BpeTokenizer.segmentsOf, if_true] at are
      simp only [Bool.not_true, Bool.false_eq_true, if_false, are, Option.map_some, Option.some.injEq] at encoded
      exact encoded

theorem unmark_written (raw : tokenizer.isSpmBpe = true)
    (unmarked : wordMark ∉ segments.flatMap (Segment.asText vocab)) :
    unmark (segments.flatMap (Segment.written tokenizer vocab)) = segments.flatMap (Segment.asText vocab) := by
  induction segments with
  | nil => rfl
  | cons segment rest ih =>
    rw [List.flatMap_cons, List.mem_append, not_or] at unmarked
    rw [List.flatMap_cons, List.flatMap_cons, unmark, List.map_append]
    refine congrArg₂ (· ++ ·) ?_ (ih unmarked.2)
    cases segment with
    | text plain =>
      simp only [Segment.written, BpeTokenizer.effective, raw, if_true]
      exact unmark_mark unmarked.1
    | special id => exact unmark_of_not_mem unmarked.1

theorem written_of_bytewise (bytewise : tokenizer.isSpmBpe = false) (segments : List Segment) :
    segments.flatMap (Segment.written tokenizer vocab) = segments.flatMap (Segment.asText vocab) := by
  refine congrArg (segments.flatMap ·) (funext fun segment => ?_)
  cases segment with
  | text plain => simp [Segment.written, BpeTokenizer.effective, bytewise, Segment.asText]
  | special id => rfl

theorem blank_not_mem_written (raw : tokenizer.isSpmBpe = true)
    (unblank : ∀ segment ∈ segments, segment.Unblank tokenizer vocab) :
    ' ' ∉ segments.flatMap (Segment.written tokenizer vocab) := by
  intro mem
  obtain ⟨segment, among, mem⟩ := List.mem_flatMap.mp mem
  cases segment with
  | text plain =>
    simp only [Segment.written, BpeTokenizer.effective, raw, if_true] at mem
    exact blank_not_mem_mark plain mem
  | special id => exact unblank _ among raw mem

/-- The tokens of a text are decoded to it when its special tokens and its words are read back; and where the
special tokens are, only then. -/
theorem decodeAll_encode (compile : String → PreRegex) (vocab : List Text) (merges : List (Text × Text)) (preType : String)
    (tokenTypes : List ℤ) (nonempty : ∀ token ∈ vocab, token ≠ [])
    (covers : (compile (pattern preType (detectSpm vocab preType))).Covers)
    (unmerged : ∀ pair priority id, (BpeTokenizer.new compile vocab merges preType tokenTypes).mergeTable pair =
      some (priority, id) → fallbackAt vocab tokenTypes id = none)
    (text : Text) (parseSpecial : Bool) (unmarked : detectSpm vocab preType = true → wordMark ∉ text) (ids : List ℕ)
    (encoded : (BpeTokenizer.new compile vocab merges preType tokenTypes).tryEncodeWithOptions text parseSpecial =
      some (.ok ids)) :
    ∃ segments, (BpeTokenizer.new compile vocab merges preType tokenTypes).segmentsOf text parseSpecial = some segments ∧
      ((∀ segment ∈ segments, segment.Plain (.new compile vocab merges preType tokenTypes) vocab ∧
          segment.Reads (.new compile vocab merges preType tokenTypes) vocab tokenTypes) →
        (BpeTokenizer.new compile vocab merges preType tokenTypes).decodeAll ids = text) ∧
      ((∀ segment ∈ segments, segment.Plain (.new compile vocab merges preType tokenTypes) vocab ∧
          segment.Unblank (.new compile vocab merges preType tokenTypes) vocab) →
        (BpeTokenizer.new compile vocab merges preType tokenTypes).decodeAll ids = text →
          ∀ segment ∈ segments, segment.Reads (.new compile vocab merges preType tokenTypes) vocab tokenTypes) := by
  generalize is : BpeTokenizer.new compile vocab merges preType tokenTypes = tokenizer at *
  have covers : tokenizer.preRegex.Covers := by
    rw [← is]
    exact covers
  have unmarked : tokenizer.isSpmBpe = true → wordMark ∉ text := by
    rw [← is]
    exact unmarked
  obtain ⟨segments, are, whole, named⟩ := segmentsOf_spec is.symm nonempty text parseSpecial
  have found := encoded_segments are encoded
  have answer : tokenizer.decodeAll ids =
      if tokenizer.isSpmBpe then unmark (Reply.fromUtf8Lossy (decoded vocab tokenTypes tokenizer.isSpmBpe ids))
      else Reply.fromUtf8Lossy (decoded vocab tokenTypes tokenizer.isSpmBpe ids) := by
    rw [← is]
    rfl
  refine ⟨segments, are, fun both => ?_, fun both same => ?_⟩
  · obtain ⟨new, rfl, back, -⟩ := length_encodeSegments is.symm covers unmerged named
      (fun segment mem => (both segment mem).1) found
    rw [answer, back fun segment mem => (both segment mem).2, Reply.fromUtf8Lossy_encodeAll]
    split
    · rename_i raw
      have absent := unmarked raw
      rw [whole] at absent
      rw [unmark_written raw absent, ← whole]
    · rename_i bytewise
      rw [Bool.not_eq_true] at bytewise
      rw [written_of_bytewise bytewise, ← whole]
  · by_contra not_
    obtain ⟨new, rfl, -, longer⟩ := length_encodeSegments is.symm covers unmerged named
      (fun segment mem => (both segment mem).1) found
    have grows := longer not_
    have lossy := Reply.length_le_fromUtf8Lossy (decoded vocab tokenTypes tokenizer.isSpmBpe ids)
    rw [answer] at same
    split at same
    · rename_i raw
      have absent := unmarked raw
      rw [whole] at absent
      have alike : unmark (Reply.fromUtf8Lossy (decoded vocab tokenTypes tokenizer.isSpmBpe ids)) =
          unmark (segments.flatMap (Segment.written tokenizer vocab)) := by
        rw [same, unmark_written raw absent, ← whole]
      have most := size_le_of_unmark alike (blank_not_mem_written raw fun segment mem => (both segment mem).2)
      omega
    · rename_i bytewise
      rw [Bool.not_eq_true] at bytewise
      rw [written_of_bytewise bytewise, ← whole, ← same] at grows
      omega

end Segments

section Inputs

theorem wholeRegex_covers : wholeRegex.Covers := by
  intro before rest some_
  cases rest with
  | nil => exact absurd rfl some_
  | cons first rest =>
    refine ⟨⟨size before, size before + size (first :: rest), first :: rest⟩, ?_, rfl⟩
    simp only [wholeRegex, sliceFrom_append]

/-- A special token, two letters that merge, and the bytes of an accented one. -/
def mixedVocab : List Text :=
  [['<', 'e', '>'], ['a'], ['b'], ['a', 'b'], ['<', '0', 'x', 'C', '3', '>'], ['<', '0', 'x', 'A', '9', '>']]

def mixedTypes : List ℤ := [3, 1, 1, 1, 6, 6]

def mixedTokenizer : BpeTokenizer := .new (fun _ => wholeRegex) mixedVocab [(['a'], ['b'])] "gemma4" mixedTypes

def mixedText : Text := ['a', 'b', '<', 'e', '>', 'é']

private theorem mixed_evaluated :
    mixedTokenizer.tryEncodeWithOptions mixedText true = some (.ok [3, 0, 4, 5]) ∧
      mixedTokenizer.segmentsOf mixedText true = some [.text ['a', 'b'], .special 0, .text ['é']] ∧
      mixedTokenizer.words ['a', 'b'] = [['a', 'b']] ∧ mixedTokenizer.words ['é'] = [['é']] ∧
      (mixedTokenizer.charToToken ['a']).isSome ∧ (mixedTokenizer.charToToken ['b']).isSome ∧
      (∀ byte ∈ Utf8.encode 'é', mixedTokenizer.byteToToken byte = none) ∧
      mixedTokenizer.wordIds ['a', 'b'] = .ok [1, 2] ∧ mixedTokenizer.wordIds ['é'] = .ok [4, 5] ∧
      mixedTokenizer.bestPair [1, 2] = some (0, 0, 3) ∧ mixedTokenizer.bestPair [3] = none ∧
      mixedTokenizer.bestPair [4, 5] = none ∧ wordMark ∉ mixedText := by
  decide +kernel

theorem decodeAll_encode_mixed : mixedTokenizer.tryEncodeWithOptions mixedText true = some (.ok [3, 0, 4, 5]) ∧
    mixedTokenizer.decodeAll [3, 0, 4, 5] = mixedText := by
  obtain ⟨encoded, are, ab, accented, a, b, bare, letters, bytes, joined, stands, apart, unmarked⟩ := mixed_evaluated
  have single : ∀ token ∈ mixedVocab, token ≠ [] := by simp [mixedVocab]
  have ordinary : ∀ pair priority id, mixedTokenizer.mergeTable pair = some (priority, id) →
      fallbackAt mixedVocab mixedTypes id = none := by
    intro pair priority id rule
    have entries : mergeEntries mixedVocab [(['a'], ['b'])] = [((1, 2), 0, 3)] := rfl
    have mem := mem_of_lastOf rule
    rw [entries, List.mem_singleton] at mem
    cases mem
    rfl
  have joins : JoinsUpTo mixedTokenizer mixedVocab mixedTypes 2 [1, 2] := by
    rw [JoinsUpTo, joined]
    refine ⟨fun id here => ?_, ?_⟩
    · rcases here with here | here <;> cases here <;> rfl
    · rw [JoinsUpTo, show BpeTokenizer.mergeAt [1, 2] 0 3 = [3] from rfl, stands]
      trivial
  have lies : JoinsUpTo mixedTokenizer mixedVocab mixedTypes 2 [4, 5] := by
    rw [JoinsUpTo, apart]
    trivial
  obtain ⟨segments, are', back, -⟩ := decodeAll_encode (fun _ => wholeRegex) mixedVocab [(['a'], ['b'])] "gemma4" mixedTypes
    single wholeRegex_covers ordinary mixedText true (fun _ => unmarked) [3, 0, 4, 5] encoded
  cases are.symm.trans are'
  refine ⟨encoded, back fun segment mem => ?_⟩
  simp only [List.mem_cons, List.not_mem_nil, or_false] at mem
  rcases mem with rfl | rfl | rfl
  · refine ⟨trivial, fun word among _ => ⟨fun _ character mem none_ => ?_, fun ids collected => ?_⟩⟩
    · obtain rfl : word = ['a', 'b'] := List.mem_singleton.mp (ab ▸ among)
      simp only [List.mem_cons, List.not_mem_nil, or_false] at mem
      rcases mem with rfl | rfl
      · cases Option.isSome_iff_ne_none.mp a none_
      · cases Option.isSome_iff_ne_none.mp b none_
    · obtain rfl : word = ['a', 'b'] := List.mem_singleton.mp (ab ▸ among)
      cases letters.symm.trans collected
      exact joins
  · refine ⟨fun bytewise => ?_, trivial⟩
    cases bytewise
  · refine ⟨trivial, fun word among _ => ?_⟩
    obtain rfl : word = ['é'] := List.mem_singleton.mp (accented ▸ among)
    refine ⟨fun _ character mem _ => ?_, fun ids collected => ?_⟩
    · obtain rfl := List.mem_singleton.mp mem
      exact bare
    · cases bytes.symm.trans collected
      exact lies

/-- Raw text without a character whose first byte is spelled like another character. -/
def euroVocab : List Text :=
  [[Char.ofNat 0xE2], ['<', '0', 'x', 'E', '2', '>'], ['<', '0', 'x', '8', '2', '>'], ['<', '0', 'x', 'A', 'C', '>']]

/-- Every text that a tokenizer of this kind encodes is decoded to itself. -/
def RoundTrips (compile : String → PreRegex) (vocab : List Text) (merges : List (Text × Text)) (preType : String)
    (tokenTypes : List ℤ) : Prop :=
  (∀ token ∈ vocab, token ≠ []) → (compile (pattern preType (detectSpm vocab preType))).Covers →
    (∀ pair priority id, (BpeTokenizer.new compile vocab merges preType tokenTypes).mergeTable pair =
      some (priority, id) → fallbackAt vocab tokenTypes id = none) →
    ∀ text parseSpecial ids, (detectSpm vocab preType = true → wordMark ∉ text) →
      (BpeTokenizer.new compile vocab merges preType tokenTypes).tryEncodeWithOptions text parseSpecial = some (.ok ids) →
        (BpeTokenizer.new compile vocab merges preType tokenTypes).decodeAll ids = text

/-- The only rule makes the last of three tokens, which is no fallback token. -/
def literalVocab : List Text := [['<', '0', 'x', '4', '1', '>'], ['b'], ['<', '0', 'x', '4', '1', '>', 'b']]

def literalMerges : List (Text × Text) := [(['<', '0', 'x', '4', '1', '>'], ['b'])]

set_option maxRecDepth 4000 in
/-- A character outside the vocabulary, an accented special token, and a merge with a fallback token. -/
theorem not_roundTrips : ¬ RoundTrips (fun _ => wholeRegex) euroVocab [] "gemma4" [1, 6, 6, 6] ∧
    ¬ RoundTrips (fun _ => wholeRegex) [[Char.ofNat 0xE9]] [] "default" [3] ∧
    ¬ RoundTrips (fun _ => wholeRegex) literalVocab literalMerges "default" [6, 1, 1] := by
  refine ⟨fun trips => ?_, fun trips => ?_, fun trips => ?_⟩
  · have nonempty : ∀ token ∈ euroVocab, token ≠ [] := by simp [euroVocab]
    have unruled : ∀ pair priority id, (BpeTokenizer.new (fun _ => wholeRegex) euroVocab [] "gemma4" [1, 6, 6, 6]).mergeTable
        pair = some (priority, id) → fallbackAt euroVocab [1, 6, 6, 6] id = none := fun _ _ _ rule => nomatch rule
    have encoded : (BpeTokenizer.new (fun _ => wholeRegex) euroVocab [] "gemma4" [1, 6, 6, 6]).tryEncodeWithOptions
        [Char.ofNat 0x20AC] true = some (.ok [0, 2, 3]) := by rfl
    have back := trips nonempty wholeRegex_covers unruled [Char.ofNat 0x20AC] true [0, 2, 3] (fun _ => by decide) encoded
    revert back
    decide +kernel
  · have back := trips (by decide) wholeRegex_covers (fun _ _ _ rule => nomatch rule) [Char.ofNat 0xE9] true [0]
      (fun _ => by decide) rfl
    revert back
    decide
  · have ordinary : ∀ pair priority id, (BpeTokenizer.new (fun _ => wholeRegex) literalVocab
        literalMerges "default" [6, 1, 1]).mergeTable pair = some (priority, id) →
        fallbackAt literalVocab [6, 1, 1] id = none := by
      rintro ⟨left, right⟩ priority id rule
      have mem := mem_of_lastOf rule
      have entries : mergeEntries literalVocab literalMerges = [((0, 1), 0, 2)] := rfl
      rw [entries, List.mem_singleton] at mem
      cases mem
      rfl
    have back := trips (by simp [literalVocab]) wholeRegex_covers ordinary ['A', 'b'] true [2] (fun _ => by decide) rfl
    revert back
    decide

end Inputs

end Muser.Bpe
