import Muser.Reply.Filtering

/-! # What is lost of a reply at its end

The text of a reply should be the whole text of its tokens, up to the first stop word in it. The filter
of stop words holds back the end of the text, and the detokenizer the bytes of a character that is not
whole. Only a reply that ends at the limit of tokens says what they held back.
-/

namespace Muser.Reply

open Text StopFilter

/-- What the tokens of a reply say and how it ends, from the tokens alone. -/
structure Speech where
  exit : Exit
  text : Text
  detokenizer : StreamingDetokenizer

section Speech

variable (tokenizer : Tokenizer) (request : TextRequest)

/-- The pieces of the tokens up to one that ends the reply; an end token has none. -/
def speak (detokenizer : StreamingDetokenizer) (text : Text) : List Selected → Speech
  | [] => ⟨.limit, text, detokenizer⟩
  | selected :: others =>
    if !request.ignoreEos && request.eos.contains selected.token then ⟨.eos, text, detokenizer⟩
    else
      let (piece, detokenizer) := detokenizer.pushToken tokenizer selected.token
      if Heard request.stops (text ++ piece) then ⟨.word, text ++ piece, detokenizer⟩
      else if request.tools && selected.completesCall then ⟨.call, text ++ piece, detokenizer⟩
      else if piece.contains '\n' && request.timed && selected.late then ⟨.time, text ++ piece, detokenizer⟩
      else speak detokenizer (text ++ piece) others

def speech (selected : List Selected) : Speech := speak tokenizer request ⟨[]⟩ [] selected

/-- The characters of the bytes that are left at the end. -/
def Speech.rest (speech : Speech) : Text := (speech.detokenizer.flush tokenizer).1

/-- The whole text of the tokens, with the bytes that are left. -/
def Speech.whole (speech : Speech) : Text := speech.text ++ speech.rest tokenizer

/-- The end of the text that the filter holds back. -/
def Speech.heldBack (stops : List Text) (speech : Speech) : Text :=
  speech.text.drop (takeBytes (size speech.text - held stops) speech.text).length

/-- Where nothing is lost: at the limit of tokens, at a stop word that the bytes left give no earlier one
to, or where a stop word starts what is held back or nothing is. -/
def Speech.Complete (stops : List Text) (speech : Speech) : Prop :=
  speech.exit = .limit ∨
    (speech.exit = .word ∧ untilStop stops (speech.whole tokenizer) = untilStop stops speech.text) ∨
    (speech.exit ≠ .word ∧ untilStop stops (speech.heldBack stops ++ speech.rest tokenizer) = [])

end Speech

variable {tokenizer : Tokenizer} {request : TextRequest} {stops : List Text} {said : Saying} {text : Text}

/-- What has been said on the token-by-token path, with the filter behind it. -/
structure Spoke (stops : List Text) (text : Text) (said : Saying) : Prop where
  filters : Filters stops text said.stopFilter said.text
  fragments : said.fragments.flatten = said.text

theorem spoke_start (stops : List Text) : Spoke stops [] (.start stops) := ⟨filters_new stops, rfl⟩

/-- What the tokens said, where the reply is at its end. -/
structure Ended (stops : List Text) (speech : Speech) (exit : Exit) (said : Saying) : Prop where
  exit : exit = speech.exit
  detokenizer : said.detokenizer = speech.detokenizer
  fragments : said.fragments.flatten = said.text
  word : speech.exit = .word → said.text = untilStop stops speech.text
  other : speech.exit ≠ .word → Filters stops speech.text said.stopFilter said.text

variable (tokenizer) in
theorem sayTokens_ended (spoke : Spoke request.stops text said) (selected : List Selected) :
    Ended request.stops (speak tokenizer request said.detokenizer text selected)
      (sayTokens tokenizer request said selected).1
      (sayTokens tokenizer request said selected).2 := by
  induction selected generalizing said text with
  | nil => exact ⟨rfl, rfl, spoke.fragments, nofun, fun _ => spoke.filters⟩
  | cons first others ih =>
    rw [speak, sayTokens, sayToken]
    cases eos : !request.ignoreEos && request.eos.contains first.token with
    | true =>
      refine ⟨rfl, rfl, ?_, nofun, fun _ => spoke.filters⟩
      exact (List.flatten_append.trans (List.append_nil _)).trans spoke.fragments
    | false =>
      generalize said.detokenizer.pushToken tokenizer first.token = pushed
      obtain ⟨piece, detokenizer⟩ := pushed
      have fragments : (said.fragments ++ [(said.stopFilter.push piece).1]).flatten = said.text ++
          (said.stopFilter.push piece).1 := by
        rw [List.flatten_append, spoke.fragments, List.flatten_singleton]
      by_cases heard : Heard request.stops (text ++ piece)
      · obtain ⟨matched, before⟩ := spoke.filters.push_heard heard
        simp only [Bool.false_eq_true, if_false, if_pos heard, matched, if_true]
        exact ⟨rfl, rfl, fragments, fun _ => before, fun other => absurd rfl other⟩
      · obtain ⟨matched, filters⟩ := spoke.filters.push_silent heard
        simp only [Bool.false_eq_true, if_false, if_neg heard, matched]
        cases call : request.tools && first.completesCall with
        | true => exact ⟨rfl, rfl, fragments, nofun, fun _ => filters⟩
        | false =>
          cases late : piece.contains '\n' && request.timed && first.late with
          | true => exact ⟨rfl, rfl, fragments, nofun, fun _ => filters⟩
          | false =>
            have after : Spoke request.stops (text ++ piece)
                ⟨detokenizer, (said.stopFilter.push piece).2.2, said.text ++ (said.stopFilter.push piece).1,
                  said.fragments ++ [(said.stopFilter.push piece).1], said.tokens ++ [first.token]⟩ := ⟨filters, fragments⟩
            exact ih after

/-! ## The end of a reply -/

@[simp] theorem say_text (said : Saying) (safe : Text) : (said.say safe).text = said.text ++ safe := by
  rw [Saying.say]
  split
  · next nothing => rw [nothing, List.append_nil]
  · rfl

@[simp] theorem say_fragments (said : Saying) (safe : Text) :
    (said.say safe).fragments.flatten = said.fragments.flatten ++ safe := by
  rw [Saying.say]
  split
  · next nothing => rw [nothing, List.append_nil]
  · rw [List.flatten_append, List.flatten_singleton]

@[simp] theorem say_stopFilter (said : Saying) (safe : Text) : (said.say safe).stopFilter = said.stopFilter := by
  rw [Saying.say]
  split
  · rfl
  · rfl

variable (tokenizer) in
/-- What is said once the limit is reached is what was held back, up to a stop word. -/
theorem flushSaying_limit (filters : Filters stops text said.stopFilter before) :
    ∃ rest, before ++ rest = untilStop stops (text ++ (said.detokenizer.flush tokenizer).1) ∧
      (flushSaying tokenizer .limit said).text = said.text ++ rest ∧
      (flushSaying tokenizer .limit said).fragments.flatten = said.fragments.flatten ++ rest := by
  rw [flushSaying, if_pos rfl]
  generalize said.detokenizer.flush tokenizer = flushed
  obtain ⟨tail, detokenizer⟩ := flushed
  by_cases heard : Heard stops (text ++ tail)
  · obtain ⟨matched, is⟩ := filters.push_heard heard
    simp only [matched, if_true]
    exact ⟨(said.stopFilter.push tail).1, is, say_text _ _, say_fragments _ _⟩
  · obtain ⟨matched, after⟩ := filters.push_silent heard
    simp only [matched, Bool.false_eq_true, if_false]
    refine ⟨(said.stopFilter.push tail).1 ++ (said.stopFilter.push tail).2.2.pending, ?_, ?_⟩
    · rw [← List.append_assoc, after.parts, untilStop_of_not_heard heard]
    · simp [StopFilter.finish]

variable {exit : Exit}

theorem flushSaying_of_ne (other : exit ≠ .limit) : flushSaying tokenizer exit said = said := by
  rw [flushSaying, if_neg other]

/-- What the filter holds back of a text. -/
theorem Ended.heldBack {speech : Speech} (ended : Ended stops speech exit said) (other : speech.exit ≠ .word) :
    speech.heldBack stops = said.stopFilter.pending := by
  have filters := ended.other other
  rw [Speech.heldBack, ← filters.through, ← filters.parts, List.drop_left]

/-- At the end of the token-by-token path. -/
theorem Ended.said_iff {speech : Speech} (ended : Ended stops speech exit said) :
    ((flushSaying tokenizer exit said).text = untilStop stops (speech.whole tokenizer) ∧
        (flushSaying tokenizer exit said).fragments.flatten = untilStop stops (speech.whole tokenizer)) ↔
      speech.Complete tokenizer stops := by
  rw [Speech.Complete, ended.exit]
  by_cases limit : speech.exit = .limit
  · have filters := ended.other (by rw [limit]; nofun)
    obtain ⟨rest, is, text, flat⟩ := flushSaying_limit tokenizer filters
    rw [limit, text, flat, ended.fragments, is, ended.detokenizer]
    exact iff_of_true ⟨rfl, rfl⟩ (.inl rfl)
  · rw [flushSaying_of_ne limit, ended.fragments, and_self_iff, or_iff_right limit]
    by_cases word : speech.exit = .word
    · rw [ended.word word, and_iff_right word, or_iff_left fun both => both.1 word, eq_comm]
    · have filters := ended.other word
      rw [or_iff_right fun both => word both.1, and_iff_right word, ended.heldBack word, Speech.whole,
        filters.untilStop_append]
      exact List.self_eq_append_right

/-- Where nothing looks for stop words, there are none, and nothing ends the reply before the limit. -/
theorem not_heard_of_gpuGreedy (greedy : request.gpuGreedy = true) (text : Text) : ¬Heard request.stops text := by
  rw [TextRequest.gpuGreedy, Bool.and_eq_true, Bool.and_eq_true, Bool.and_eq_true, Option.all_eq_true] at greedy
  rintro ⟨stop, mem, nonempty, -⟩
  rw [TextRequest.stops] at mem
  cases field : request.stop with
  | none =>
    rw [field] at mem
    cases mem
  | some values =>
    have empty := greedy.1.1.2 values field
    rw [field] at mem
    cases values with
    | one value =>
      rw [List.mem_singleton.mp (show stop ∈ [value] from mem)] at nonempty
      exact nonempty (List.isEmpty_iff.mp empty)
    | many values =>
      have nothing : values = [] := List.isEmpty_iff.mp empty
      rw [nothing] at mem
      cases (show stop ∈ ([] : List Text) from mem)

variable (tokenizer) in
theorem speak_of_gpuGreedy (greedy : request.gpuGreedy = true) (said : Saying)
    (same : said.fragments.flatten = said.text) (selected : List Selected) :
    speak tokenizer request said.detokenizer said.text selected =
        ⟨.limit, (sayGreedily tokenizer said selected).text, (sayGreedily tokenizer said selected).detokenizer⟩ ∧
      (sayGreedily tokenizer said selected).stopFilter = said.stopFilter ∧
      (sayGreedily tokenizer said selected).fragments.flatten = (sayGreedily tokenizer said selected).text := by
  have options := greedy
  simp only [TextRequest.gpuGreedy, Bool.and_eq_true, Bool.not_eq_true'] at options
  obtain ⟨⟨⟨⟨-, ignoreEos⟩, -⟩, tools⟩, timed⟩ := options
  induction selected generalizing said with
  | nil => exact ⟨rfl, rfl, same⟩
  | cons first others ih =>
    rw [speak, sayGreedily, ignoreEos, tools, timed, Bool.not_true, Bool.false_and, if_neg Bool.false_ne_true]
    generalize said.detokenizer.pushToken tokenizer first.token = pushed
    obtain ⟨piece, detokenizer⟩ := pushed
    dsimp only
    rw [if_neg (not_heard_of_gpuGreedy greedy _), Bool.false_and, Bool.and_false, Bool.false_and, if_neg Bool.false_ne_true]
    have fragments : (said.fragments ++ [piece]).flatten = said.text ++ piece := by
      rw [List.flatten_append, same, List.flatten_singleton]
    exact ih ⟨detokenizer, said.stopFilter, said.text ++ piece, said.fragments ++ [piece],
      said.tokens ++ [first.token]⟩ fragments

/-- The text of a reply is the whole text of its tokens, up to the first stop word, and so are its fragments. -/
def Faithful (tokenizer : Tokenizer) (request : TextRequest) (selected : List Selected) : Prop :=
  (generateText tokenizer request selected).1 =
    untilStop request.stops ((speech tokenizer request selected).whole tokenizer) ∧
    (generateText tokenizer request selected).2.flatten =
      untilStop request.stops ((speech tokenizer request selected).whole tokenizer)

theorem faithful_reply_iff (selected : List Selected) :
    Faithful tokenizer request selected ↔ (speech tokenizer request selected).Complete tokenizer request.stops := by
  rw [Faithful, generateText, sayReply, speech]
  cases greedy : request.gpuGreedy with
  | true =>
    obtain ⟨spoken, filter, fragments⟩ := speak_of_gpuGreedy tokenizer greedy (.start request.stops) rfl selected
    have filters : Filters request.stops [] (sayGreedily tokenizer (.start request.stops) selected).stopFilter [] := by
      rw [filter]
      exact filters_new request.stops
    obtain ⟨rest, is, text, flat⟩ := flushSaying_limit tokenizer filters
    have spoken' : speak tokenizer request ⟨[]⟩ [] selected = _ := spoken
    rw [untilStop_of_not_heard (not_heard_of_gpuGreedy greedy _), List.nil_append, List.nil_append] at is
    rw [spoken', untilStop_of_not_heard (not_heard_of_gpuGreedy greedy _)]
    refine iff_of_true ⟨?_, ?_⟩ (.inl rfl)
    · exact text.trans (congrArg _ is)
    · exact flat.trans (congrArg₂ _ fragments is)
  | false =>
    have ended := sayTokens_ended tokenizer (spoke_start request.stops) selected
    generalize sayTokens tokenizer request (.start request.stops) selected = reached at ended
    obtain ⟨exit, said⟩ := reached
    simp only [Bool.false_eq_true, if_false]
    exact ended.said_iff

/-- A vocabulary of one word and an end token. -/
def hiTokenizer : Tokenizer := ⟨fun token => if token = 0 then [0x68, 0x69] else [], fun _ => [], false⟩

/-- The filter waits for a longer stop word when the end token comes. -/
theorem end_token_loses_word :
    ¬Faithful hiTokenizer ⟨false, [1], some (.many [['S', 'T', 'O', 'P']]), false, false, false⟩ [⟨0, false, false⟩,
      ⟨1, false, false⟩] := by
  rintro ⟨text, -⟩
  revert text
  decide

end Muser.Reply
