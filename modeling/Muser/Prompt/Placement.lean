import Muser.Prompt.Prefill
import Muser.Tokenizer.Specials

/-! # What a prompt is made of

A prompt that is prepared has the tokens of the runs of text between its images: the parts that are cut out of
the rendered text, with the contents between them. Its special tokens are those of the runs.
-/

namespace Muser.Prompt

open Text Bpe

variable {Image : Type} {runtime : InferenceRuntime Image}

/-- The runs of the parts of a rendered text with the contents between them, after the runs that are pending. -/
def runsOf : List Text → List Insertion → List Run → List Run
  | [], _, pending => pending
  | gap :: _, [], pending => push pending gap true
  | gap :: gaps, .text body :: rest, pending => runsOf gaps rest (push (push pending gap true) body false)
  | gap :: gaps, .image _ :: rest, pending => push pending gap true ++ runsOf gaps rest []

def Building.ids (building : Building Image) : List ℕ := building.segments.flatMap PreparedSegment.ids

def PreparedPrefill.ids (prepared : PreparedPrefill Image) : List ℕ := prepared.segments.flatMap PreparedSegment.ids

variable {runs : List Run} {tokens : List ℕ} {inserted : List (Text × Insertion)} {prepared : PreparedPrefill Image}

theorem takeTokens_eq_ok :
    runtime.takeTokens runs = .ok tokens ↔ ∃ parts, runs.mapM runtime.encodeWithOptions = .ok parts ∧
      tokens = parts.flatten := by
  rw [InferenceRuntime.takeTokens, bind_eq_ok_iff]
  simp only [Except.ok.injEq, eq_comm]

theorem takeTokens_append {runs more : List Run} {tokens others : List ℕ} (taken : runtime.takeTokens runs = .ok tokens)
    (taken' : runtime.takeTokens more = .ok others) : runtime.takeTokens (runs ++ more) = .ok (tokens ++ others) := by
  obtain ⟨parts, collected, rfl⟩ := takeTokens_eq_ok.mp taken
  obtain ⟨parts', collected', rfl⟩ := takeTokens_eq_ok.mp taken'
  refine takeTokens_eq_ok.mpr ⟨parts ++ parts', ?_, List.flatten_append.symm⟩
  rw [List.mapM_append, collected, collected']
  rfl

/-- The segment that tokens become, unless there are none. -/
def segmentOf (tokens : List ℕ) : List (PreparedSegment Image) := if tokens = [] then [] else [.tokens tokens]

theorem ids_segmentOf (tokens : List ℕ) :
    (segmentOf tokens : List (PreparedSegment Image)).flatMap PreparedSegment.ids = tokens := by
  rw [segmentOf]
  split
  · rename_i none_
    rw [none_]
    rfl
  · exact List.append_nil tokens

/-- The pending runs become tokens. -/
theorem flush_eq_ok {building flushed : Building Image} (is : runtime.flushTextSegment building = .ok flushed) :
    ∃ tokens, runtime.takeTokens building.pending = .ok tokens ∧ flushed.segments = building.segments ++ segmentOf tokens ∧
      flushed.pending = [] := by
  rw [InferenceRuntime.flushTextSegment] at is
  split at is
  · rename_i empty
    cases is
    exact ⟨[], by rw [empty]; rfl, (List.append_nil _).symm, empty⟩
  · obtain ⟨tokens, taken, is⟩ := bind_eq_ok_iff.mp is
    refine ⟨tokens, taken, ?_⟩
    split at is
    · rename_i none_
      cases is
      exact ⟨by rw [segmentOf, if_pos none_, List.append_nil], rfl⟩
    · rename_i some_
      cases is
      exact ⟨by rw [segmentOf, if_neg some_], rfl⟩

theorem insertImage_eq_ok {url : Text} {building inserted : Building Image}
    (is : runtime.insertImage url building = .ok inserted) :
    ∃ encoded image count, runtime.preparedImage url = .ok (encoded, image, count) ∧
      inserted.segments = building.segments ++ [.image encoded image count] ∧ inserted.pending = building.pending := by
  obtain ⟨⟨encoded, image, count⟩, prepared, is⟩ := bind_eq_ok_iff.mp is
  cases is
  exact ⟨encoded, image, count, prepared, rfl, rfl⟩

/-- The rendered text is cut at its markers, and the tokens are those of the runs of its parts. -/
theorem insertAll_eq_ok {cursor : Text} {building final : Building Image}
    (is : runtime.insertAll cursor inserted building = .ok final) :
    ∃ gaps tokens, cuts cursor (inserted.map (·.1)) = some gaps ∧
      runtime.takeTokens (runsOf gaps (inserted.map (·.2)) building.pending) = .ok tokens ∧
      final.ids = building.ids ++ tokens := by
  induction inserted generalizing cursor building with
  | nil =>
    obtain ⟨tokens, taken, segments, -⟩ := flush_eq_ok is
    refine ⟨[cursor], tokens, rfl, taken, ?_⟩
    rw [Building.ids, segments, List.flatMap_append, ids_segmentOf]
    rfl
  | cons first rest ih =>
    obtain ⟨sentinel, insertion⟩ := first
    rw [InferenceRuntime.insertAll] at is
    split at is
    · cases is
    · rename_i before after found
      obtain ⟨middle, inserted, is⟩ := bind_eq_ok_iff.mp is
      obtain ⟨gaps, tokens, cut, taken, ids⟩ := ih is
      have cut' : cuts cursor (sentinel :: rest.map (·.1)) = some (before :: gaps) := by
        rw [cuts, found, Option.bind_some, cut]
        rfl
      cases insertion with
      | text body =>
        cases inserted
        exact ⟨before :: gaps, tokens, cut', taken, ids⟩
      | image url =>
        obtain ⟨flushed, flush, image⟩ := bind_eq_ok_iff.mp inserted
        obtain ⟨front, taken', segments', none_⟩ := flush_eq_ok flush
        obtain ⟨encoded, image, count, -, segments, pending⟩ := insertImage_eq_ok image
        have same : middle.ids = building.ids ++ front := by
          rw [Building.ids, segments, segments', List.flatMap_append, List.flatMap_append, ids_segmentOf]
          exact List.append_nil _
        rw [pending, none_] at taken
        refine ⟨before :: gaps, front ++ tokens, cut', takeTokens_append taken' taken, ?_⟩
        rw [ids, same, List.append_assoc]

/-- The special tokens of runs, in order. -/
def specialsOf (tokenizer : BpeTokenizer) (runs : List Run) : List ℕ :=
  runs.flatMap fun run => tokenizer.spelled run.1 run.2

theorem filter_takeTokens (taken : runtime.takeTokens runs = .ok tokens) :
    tokens.filter runtime.tokenizer.special = specialsOf runtime.tokenizer runs := by
  obtain ⟨parts, collected, rfl⟩ := takeTokens_eq_ok.mp taken
  have each := forall₂_of_mapM_eq_ok collected
  clear collected taken
  induction each with
  | nil => rfl
  | cons encoded _ ih =>
    rw [List.flatten_cons, List.filter_append, ih, specialsOf, specialsOf, List.flatMap_cons]
    refine congrArg (· ++ _) (filter_encoded ?_)
    rw [InferenceRuntime.encodeWithOptions] at encoded
    split at encoded <;> cases encoded
    assumption

/-- The special tokens of a prompt, in order. -/
def PreparedPrefill.specials (tokenizer : BpeTokenizer) (prepared : PreparedPrefill Image) : List ℕ :=
  prepared.ids.filter tokenizer.special

theorem begun_pending {begun : Building Image} (is : runtime.begun = .ok begun) : begun.pending = [] := by
  rw [InferenceRuntime.begun] at is
  split at is
  · split at is <;> cases is
    rfl
  · cases is
    rfl

variable {request : PrefillRequest}

/-- A prompt that is prepared was begun, rendered and inserted into. -/
theorem buildPrefill_steps (built : runtime.buildPrefill request = .ok prepared) :
    ∃ begun text inserted final, runtime.begun = .ok begun ∧ runtime.rendered request = .ok (text, inserted) ∧
      runtime.insertAll text inserted begun = .ok final ∧ prepared.segments = final.segments ∧
      prepared.witnesses = final.segments.flatMap PreparedSegment.witnesses := by
  obtain ⟨begun, isBegun, built⟩ := bind_eq_ok_iff.mp built
  obtain ⟨⟨text, inserted⟩, rendered, built⟩ := bind_eq_ok_iff.mp built
  obtain ⟨final, all, built⟩ := bind_eq_ok_iff.mp built
  obtain ⟨-, built⟩ := check_eq_ok_iff.mp built
  obtain ⟨remote, -, built⟩ := bind_eq_ok_iff.mp built
  cases built
  refine ⟨begun, text, inserted, final, isBegun, ?_, all, rfl, rfl⟩
  cases is : runtime.rendered request with
  | error failure =>
    rw [is] at rendered
    cases rendered
  | ok both =>
    rw [is] at rendered
    cases rendered
    rfl

/-- A prompt begins as every prompt does, and goes on with the runs that its rendered text is cut into. -/
theorem buildPrefill_eq_ok (built : runtime.buildPrefill request = .ok prepared) :
    ∃ begun text inserted gaps, runtime.begun = .ok begun ∧ runtime.rendered request = .ok (text, inserted) ∧
      cuts text (inserted.map (·.1)) = some gaps ∧
      prepared.specials runtime.tokenizer =
        begun.ids.filter runtime.tokenizer.special ++
          specialsOf runtime.tokenizer (runsOf gaps (inserted.map (·.2)) []) := by
  obtain ⟨begun, text, inserted, final, isBegun, rendered, all, segments, -⟩ := buildPrefill_steps built
  obtain ⟨gaps, tokens, cut, taken, ids⟩ := insertAll_eq_ok all
  rw [begun_pending isBegun] at taken
  refine ⟨begun, text, inserted, gaps, isBegun, rendered, cut, ?_⟩
  rw [← filter_takeTokens taken, ← List.filter_append, ← ids, PreparedPrefill.specials, PreparedPrefill.ids, segments]
  rfl

theorem rendered_eq_ok {text : Text} (rendered : runtime.rendered request = .ok (text, inserted)) :
    inserted.map (·.1) = (List.range (insertions request.messages).length).map marker ∧
      inserted.map (·.2) = insertions request.messages := by
  obtain ⟨⟨values, own⟩, made, rendered⟩ := bind_eq_ok_iff.mp rendered
  obtain ⟨written, -, rendered⟩ := bind_eq_ok_iff.mp rendered
  cases rendered
  exact ⟨sentinels_eq made, inserted_snd made⟩

end Muser.Prompt
