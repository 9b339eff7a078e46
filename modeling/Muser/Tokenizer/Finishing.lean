import Muser.Tokenizer.Segments

/-! # The loops that finish

A derivation is a run of a loop to its end. The merges and the words always come to an end; the search for
special tokens does unless it finds an empty one, which it then finds for ever.
-/

namespace Muser.Bpe

open Text

namespace BpeTokenizer

variable (tokenizer : BpeTokenizer)

/-- A run of the merges. -/
inductive MergeRun : List ℕ → List ℕ → Prop where
  | done {ids : List ℕ} (none_ : tokenizer.bestPair ids = none) : MergeRun ids ids
  | merge {ids out : List ℕ} {index priority merged : ℕ} (best : tokenizer.bestPair ids = some (index, priority, merged))
      (later : MergeRun (mergeAt ids index merged) out) : MergeRun ids out

/-- A run over the words of a text from a position, up to its end or the first byte without a token. -/
inductive EncodeRun (text : Text) : ℕ → List ℕ → Except TokenizerError (List ℕ) → Prop where
  | done {position : ℕ} {result : List ℕ} (past : (Utf8.encodeAll text)[position]? = none) :
      EncodeRun text position result (.ok result)
  | word {position : ℕ} {result ids : List ℕ} {byte : UInt8} {found : Match} {out : Except TokenizerError (List ℕ)}
      (there : (Utf8.encodeAll text)[position]? = some byte) (is : tokenizer.preRegex.findFromPos text position = some found)
      (encoded : tokenizer.encodeWord found.asStr = .ok ids) (later : EncodeRun text found.stop (result ++ ids) out) :
      EncodeRun text position result out
  | wordError {position : ℕ} {result : List ℕ} {byte : UInt8} {found : Match} {error : TokenizerError}
      (there : (Utf8.encodeAll text)[position]? = some byte) (is : tokenizer.preRegex.findFromPos text position = some found)
      (refused : tokenizer.encodeWord found.asStr = .error error) : EncodeRun text position result (.error error)
  | byte {position id : ℕ} {result : List ℕ} {byte : UInt8} {out : Except TokenizerError (List ℕ)}
      (there : (Utf8.encodeAll text)[position]? = some byte) (is : tokenizer.preRegex.findFromPos text position = none)
      (encoded : tokenizer.byteToken byte = .ok id) (later : EncodeRun text (position + 1) (result ++ [id]) out) :
      EncodeRun text position result out
  | byteError {position : ℕ} {result : List ℕ} {byte : UInt8} {error : TokenizerError}
      (there : (Utf8.encodeAll text)[position]? = some byte) (is : tokenizer.preRegex.findFromPos text position = none)
      (refused : tokenizer.byteToken byte = .error error) : EncodeRun text position result (.error error)

/-- A run of the search for special tokens. -/
inductive SplitRun : Text → List Segment → Prop where
  | done : SplitRun [] []
  | rest {remaining : Text} (some_ : remaining ≠ []) (none_ : tokenizer.firstSpecial remaining = none) :
      SplitRun remaining [.text remaining]
  | found {remaining before after : Text} {id : ℕ} {segments : List Segment} (some_ : remaining ≠ [])
      (first : tokenizer.firstSpecial remaining = some (before, after, id)) (later : SplitRun after segments) :
      SplitRun remaining ((if before = [] then [] else [.text before]) ++ .special id :: segments)

/-- The text is split, by a run where there are special tokens. -/
def Splits (text : Text) (segments : List Segment) : Prop :=
  if tokenizer.specialTokens = [] then segments = [.text text] else tokenizer.SplitRun text segments

variable {tokenizer}

theorem mergeRun_mergeUpTo {rounds : ℕ} {ids : List ℕ} (enough : ids.length ≤ rounds) :
    tokenizer.MergeRun ids (tokenizer.mergeUpTo rounds ids) := by
  induction rounds generalizing ids with
  | zero =>
    obtain rfl := List.length_eq_zero_iff.mp (Nat.le_zero.mp enough)
    exact .done rfl
  | succ rounds ih =>
    rw [mergeUpTo]
    split
    · next none_ => exact .done none_
    · next index priority merged best =>
      obtain ⟨left, right, isLeft, isRight, -⟩ := bestPair_spec best
      apply MergeRun.merge best (ih _)
      obtain ⟨inside, -⟩ := List.getElem?_eq_some_iff.mp isRight
      rw [mergeAt, List.length_eraseIdx_of_lt (by rwa [List.length_set]), List.length_set]
      omega

theorem stop_of_match {text : Text} {position : ℕ} {found : Match}
    (is : tokenizer.preRegex.findFromPos text position = some found) :
    position < found.stop := by
  obtain ⟨_, _, -, -, stops⟩ := append_of_slice (tokenizer.preRegex.slice_eq _ _ _ is)
  have from_ := tokenizer.preRegex.later _ _ _ is
  have positive := size_pos (tokenizer.preRegex.nonempty _ _ _ is)
  omega

theorem encodeRun_encodeFrom {text : Text} {steps position : ℕ} (enough : size text ≤ position + steps) (result : List ℕ) :
    tokenizer.EncodeRun text position result (tokenizer.encodeFrom text steps position result) := by
  induction steps generalizing position result with
  | zero => exact .done (List.getElem?_eq_none enough)
  | succ steps ih =>
    rw [encodeFrom]
    split
    · next past => exact .done past
    · next byte there =>
      split
      · next found is =>
        have moved := stop_of_match is
        cases encoded : tokenizer.encodeWord found.asStr with
        | error error => exact .wordError there is encoded
        | ok ids => exact .word there is encoded (ih (by omega) _)
      · next is =>
        cases encoded : tokenizer.byteToken byte with
        | error error => exact .byteError there is encoded
        | ok id => exact .byte there is encoded (ih (by omega) _)

end BpeTokenizer

/-- A text that the longest of the special tokens at its head use up, one after another. -/
inductive Covered (specials : List (Text × ℕ)) : Text → Prop where
  | nil : Covered specials []
  | token {token rest : Text} {id : ℕ} (some_ : token ≠ []) (mem : (token, id) ∈ specials)
      (longest : ∀ other ∈ specials, other.1 <+: token ++ rest →
        size other.1 ≤ size token) (covered : Covered specials rest) :
      Covered specials (token ++ rest)

section Splitting

variable {tokenizer : BpeTokenizer} {remaining : Text}

variable {token after : Text} {segments : List Segment} {text : Text}

theorem splitOnce_of_prefix (some_ : token ++ after ≠ []) : splitOnce token (token ++ after) = some ([], after) := by
  obtain ⟨first, rest, is⟩ := List.exists_cons_of_ne_nil some_
  rw [is, splitOnce, isPrefixOf?_eq_some.mpr is.symm]

theorem eq_of_splitOnce {token before after : Text} (found : splitOnce token remaining = some (before, after)) :
    remaining = before ++ token ++ after := by
  rcases eq_or_ne token [] with rfl | some_
  · cases remaining with
    | nil | cons first rest =>
      cases found
      rfl
  · exact ((splitOnce_eq_some some_).mp found).1

/-- One turn of the search. -/
def betterSpecial (remaining : Text) (best : Option (Text × Text × ℕ)) (entry : Text × ℕ) : Option (Text × Text × ℕ) :=
  match splitOnce entry.1 remaining with
  | none => best
  | some (before, after) =>
    if best.all fun (earlier, _, _) => size before < size earlier then some (before, after, entry.2) else best

theorem firstSpecial_eq : tokenizer.firstSpecial remaining =
    tokenizer.specialTokens.foldl (betterSpecial remaining) none := rfl

/-- Once something is found at the head, it stays. -/
theorem head_stays (entries : List (Text × ℕ)) (after : Text) (id : ℕ) :
    entries.foldl (betterSpecial remaining) (some ([], after, id)) = some ([], after, id) := by
  induction entries with
  | nil => rfl
  | cons entry entries ih =>
    have stays : betterSpecial remaining (some ([], after, id)) entry = some ([], after, id) := by
      rw [betterSpecial]
      split
      · rfl
      · exact if_neg (by simp [size, Utf8.encodeAll])
    rw [List.foldl_cons, stays, ih]

/-- The first in the list of those at the head is found, whatever comes before it. -/
theorem head_found {front back : List (Text × ℕ)} {id : ℕ} (is : remaining = token ++ after) (some_ : remaining ≠ [])
    (others : ∀ entry ∈ front, ¬entry.1 <+: remaining) {best : Option (Text × Text × ℕ)}
    (later : ∀ offer, best = some offer → offer.1 ≠ []) :
    (front ++ (token, id) :: back).foldl (betterSpecial remaining) best = some ([], after, id) := by
  induction front generalizing best with
  | nil =>
    have taken : betterSpecial remaining best (token, id) = some ([], after, id) := by
      subst is
      rw [betterSpecial, splitOnce_of_prefix some_]
      apply if_pos
      rw [Option.all_eq_true]
      intro offer is
      exact decide_eq_true (size_pos (later offer is))
    rw [List.nil_append, List.foldl_cons, taken, head_stays]
  | cons entry front ih =>
    rw [List.forall_mem_cons] at others
    rw [List.cons_append, List.foldl_cons]
    apply ih others.2
    intro offer is
    rw [betterSpecial] at is
    split at is
    · exact later offer is
    · next before rest found =>
      split at is
      · cases is
        rintro rfl
        exact others.1 ⟨rest, (eq_of_splitOnce found).symm⟩
      · exact later offer is

/-- Of the special tokens at the head, the longest is found when the longest come first. -/
theorem firstSpecial_head (sorted : tokenizer.specialTokens.Pairwise fun left right => size right.1 ≤ size left.1)
    (some_ : remaining ≠ [])
    {entry : Text × ℕ} (mem : entry ∈ tokenizer.specialTokens) (head : entry.1 <+: remaining) :
    ∃ token after id, (token, id) ∈ tokenizer.specialTokens ∧ remaining = token ++ after ∧
      tokenizer.firstSpecial remaining = some ([], after, id) ∧
      ∀ other ∈ tokenizer.specialTokens, other.1 <+: remaining → size other.1 ≤ size token := by
  obtain ⟨⟨token, id⟩, found⟩ : ∃ first,
    tokenizer.specialTokens.find? (fun entry => decide (entry.1 <+: remaining)) = some first := by
    apply Option.isSome_iff_exists.mp
    rw [List.find?_isSome]
    exact ⟨entry, mem, decide_eq_true head⟩
  obtain ⟨is, front, back, listed, others⟩ := List.find?_eq_some_iff_append.mp found
  obtain ⟨after, is⟩ := of_decide_eq_true is
  have others : ∀ entry ∈ front, ¬entry.1 <+: remaining := fun entry among => by simpa using others entry among
  refine ⟨token, after, id, List.mem_of_find?_eq_some found, is.symm, ?_, ?_⟩
  · rw [firstSpecial_eq, listed]
    exact head_found is.symm some_ others fun _ none_ => nomatch none_
  · intro other among starts
    rw [listed] at among sorted
    rcases List.mem_append.mp among with early | late
    · exact absurd starts (others other early)
    · rcases List.mem_cons.mp late with rfl | late
      · exact Nat.le_refl _
      · exact (List.pairwise_cons.mp (List.pairwise_append.mp sorted).2.1).1 other late

/-- Two texts at one head of one size. -/
theorem eq_of_prefix {left right : Text} (isLeft : left <+: remaining) (isRight : right <+: remaining)
    (same : size left = size right) :
    left = right := by
  rcases List.prefix_or_prefix_of_prefix isLeft isRight with ⟨rest, is⟩ | ⟨rest, is⟩ <;>
  · have sizes := congrArg size is
    rw [size_append] at sizes
    obtain rfl : rest = [] := size_eq_zero.mp (by omega)
    rw [← is, List.append_nil]

theorem SplitRun.flatMap_eq {vocab : List Text}
    (named : ∀ token id, (token, id) ∈ tokenizer.specialTokens → vocab[id]? = some token)
    (run : tokenizer.SplitRun text segments) :
    segments.flatMap (Segment.asText vocab) = text := by
  induction run with
  | done => rfl
  | rest => exact List.append_nil _
  | @found remaining before after id segments some_ first later ih =>
    obtain ⟨token, mem, found⟩ := firstSpecial_found first
    have front : (if before = [] then [] else [Segment.text before]).flatMap (Segment.asText vocab) = before := by
      split
      · next empty => exact empty.symm
      · exact List.append_nil _
    rw [List.flatMap_append, List.flatMap_cons, ih, front, Segment.asText, named token id mem, Option.getD_some,
      eq_of_splitOnce found,
      List.append_assoc]

theorem splitRun_splitUpTo {rounds : ℕ} (is : tokenizer.splitUpTo rounds text = some segments) :
    tokenizer.SplitRun text segments := by
  induction rounds generalizing text segments with
  | zero =>
    cases text with
    | nil =>
      cases is
      exact .done
    | cons first rest => cases is
  | succ rounds ih =>
    cases text with
    | nil =>
      cases is
      exact .done
    | cons first rest =>
      rw [BpeTokenizer.splitUpTo] at is
      split at is
      · next none_ =>
        cases is
        exact .rest (List.cons_ne_nil _ _) none_
      · next before after id found =>
        obtain ⟨others, split_, is⟩ := Option.bind_eq_some_iff.mp is
        cases is
        exact .found (List.cons_ne_nil _ _) found (ih split_)

/-- The search comes to an end where no special token is empty, or the text is used up before an empty one is the longest. -/
theorem exists_splitRun_iff (sorted : tokenizer.specialTokens.Pairwise fun left right => size right.1 ≤ size left.1)
    (text : Text) :
    (∃ segments, tokenizer.SplitRun text segments) ↔
      (∀ entry ∈ tokenizer.specialTokens, entry.1 ≠ []) ∨ Covered tokenizer.specialTokens text := by
  constructor
  · rintro ⟨segments, run⟩
    rw [or_iff_not_imp_left]
    intro empty
    simp only [ne_eq, not_forall, not_not] at empty
    obtain ⟨entry, mem, empty⟩ := empty
    have head : ∀ remaining, entry.1 <+: remaining := fun remaining => empty ▸ List.nil_prefix
    induction run with
    | done => exact .nil
    | @rest remaining some_ none_ =>
      obtain ⟨_, _, _, -, -, found, -⟩ := firstSpecial_head sorted some_ mem (head remaining)
      rw [none_] at found
      cases found
    | @found remaining before after id segments some_ first later ih =>
      obtain ⟨token, rest, place, among, rfl, found, longest⟩ := firstSpecial_head sorted some_ mem (head remaining)
      rw [first] at found
      cases found
      rcases eq_or_ne token [] with rfl | nonempty
      · exact ih
      · exact .token nonempty among longest ih
  · rintro (nonempty | covered)
    · obtain ⟨segments, is⟩ := Option.isSome_iff_exists.mp (splitUpTo_isSome nonempty (Nat.le_refl text.length))
      exact ⟨segments, splitRun_splitUpTo is⟩
    · induction covered with
      | nil => exact ⟨_, .done⟩
      | @token token rest id some_ mem longest covered ih =>
        obtain ⟨segments, run⟩ := ih
        have whole : token ++ rest ≠ [] := fun empty => some_ (List.append_eq_nil_iff.mp empty).1
        obtain ⟨first, after, place, among, is, found, most⟩ := firstSpecial_head sorted whole mem (List.prefix_append _ _)
        have same := eq_of_prefix (List.prefix_append token rest) ⟨after, is.symm⟩
          (Nat.le_antisymm (most _ mem (List.prefix_append _ _)) (longest _ among ⟨after, is.symm⟩))
        rw [← same, List.append_cancel_left_eq] at is
        subst is
        exact ⟨_, .found whole found run⟩

end Splitting

/-- The loops come to an end on a text, and the segments say it. -/
def Finishes (tokenizer : BpeTokenizer) (vocab : List Text) (text : Text) (parseSpecial : Bool) : Prop :=
  (parseSpecial = true → ∃ segments, tokenizer.Splits text segments ∧ segments.flatMap (Segment.asText vocab) = text) ∧
  (∀ part result, tokenizer.EncodeRun (tokenizer.effective part) 0 result (tokenizer.encodeSegment part result)) ∧
  ∀ ids, tokenizer.MergeRun ids (tokenizer.bpeMergeIds ids)

section Tables

variable (compile : String → PreRegex) (vocab : List Text) (merges : List (Text × Text)) (preType : String)
  (tokenTypes : List ℤ)

theorem specials_sorted : (specials vocab tokenTypes).Pairwise fun left right => size right.1 ≤ size left.1 := by
  have : Std.Total fun left right : Text × ℕ => size right.1 ≤ size left.1 := ⟨fun left right => Nat.le_total _ _⟩
  have : IsTrans (Text × ℕ) fun left right => size right.1 ≤ size left.1 :=
    ⟨fun _ _ _ first second => Nat.le_trans second first⟩
  exact List.pairwise_insertionSort _ _

theorem specials_nonempty_iff : (∀ entry ∈ specials vocab tokenTypes, entry.1 ≠ []) ↔
    ∀ id, vocab[id]? = some [] → isSpecial tokenTypes id [] = false := by
  constructor
  · intro nonempty id there
    by_contra special
    rw [Bool.not_eq_false] at special
    refine nonempty ([], id) ?_ rfl
    rw [specials, List.mem_insertionSort, List.mem_filter]
    exact ⟨List.mem_zipIdx_iff_getElem?.mpr there, special⟩
  · rintro ordinary ⟨token, id⟩ mem rfl
    obtain ⟨there, special⟩ := vocab_of_specials mem
    rw [ordinary id there] at special
    cases special

/-- The words and the merges come to an end whatever the tables say. -/
theorem finishes_iff_splits (tokenizer : BpeTokenizer) (text : Text) (parseSpecial : Bool) :
    Finishes tokenizer vocab text parseSpecial ↔
      (parseSpecial = true → ∃ segments, tokenizer.Splits text segments ∧
        segments.flatMap (Segment.asText vocab) = text) := by
  refine and_iff_left ⟨fun part result => ?_, fun ids => ?_⟩
  · exact BpeTokenizer.encodeRun_encodeFrom (Nat.le_add_left _ _) result
  · exact BpeTokenizer.mergeRun_mergeUpTo (Nat.le_refl _)

theorem exists_splits_iff (text : Text) :
    (∃ segments, (BpeTokenizer.new compile vocab merges preType tokenTypes).Splits text segments ∧
        segments.flatMap (Segment.asText vocab) = text) ↔
      (∀ entry ∈ specials vocab tokenTypes, entry.1 ≠ []) ∨ Covered (specials vocab tokenTypes) text := by
  by_cases plain : specials vocab tokenTypes = []
  · refine iff_of_true ⟨[.text text], ?_, List.append_nil _⟩ (.inl fun entry mem => ?_)
    · rw [BpeTokenizer.Splits, if_pos (show (BpeTokenizer.new compile vocab merges preType tokenTypes).specialTokens =
        [] from plain)]
    · rw [plain] at mem
      cases mem
  · have runs := @exists_splitRun_iff (.new compile vocab merges preType tokenTypes) (specials_sorted vocab tokenTypes) text
    rw [show specials vocab tokenTypes = (BpeTokenizer.new compile vocab merges preType tokenTypes).specialTokens
      from rfl] at plain ⊢
    simp only [BpeTokenizer.Splits, if_neg plain, ← runs]
    constructor
    · rintro ⟨segments, run, -⟩
      exact ⟨segments, run⟩
    · rintro ⟨segments, run⟩
      exact ⟨segments, run, SplitRun.flatMap_eq (fun token id mem => (vocab_of_specials mem).1) run⟩

/-- Tokenization finishes where no special token is empty, or the text is used up before an empty one is found. -/
theorem tokenization_finishes_iff (text : Text) (parseSpecial : Bool) :
    Finishes (.new compile vocab merges preType tokenTypes) vocab text parseSpecial ↔
      parseSpecial = false ∨ (∀ id, vocab[id]? = some [] → isSpecial tokenTypes id [] = false) ∨
        Covered (specials vocab tokenTypes) text := by
  rw [finishes_iff_splits, exists_splits_iff, specials_nonempty_iff]
  cases parseSpecial with
  | false => simp
  | true => simp

end Tables

/-- An empty control token is found for ever in a text that no special token begins. -/
theorem empty_control_token_repeats :
    ¬∀ (vocab : List Text) (tokenTypes : List ℤ) (text : Text),
      Finishes (.new (fun _ => wholeRegex) vocab [] "default" tokenTypes) vocab text true := by
  intro finishes
  have split := (finishes_iff_splits _ _ _ _).mp (finishes [[], ['a']] [3, 1] ['a']) rfl
  rcases (exists_splits_iff _ _ _ _ _ _).mp split with nonempty | covered
  · exact absurd rfl (nonempty ([], 0) (by decide))
  · have only : specials [[], ['a']] [3, 1] = [([], 0)] := by decide
    rw [only] at covered
    generalize is : ['a'] = text at covered
    cases covered with
    | nil => cases is
    | token some_ mem =>
      cases List.mem_singleton.mp mem
      exact some_ rfl

end Muser.Bpe
