import Muser.Prompt.Lineage
import Muser.Prompt.Forgery

/-! # Sessions that are continued

A bundle was computed from the prompt of its stored conversation and from what was generated after it. The
witnesses of a prompt tell its tokens apart but not its images, so that a snapshot is of the first positions of a
prompt with its witnesses exactly when the images of the prompt begin with those of the stored conversation.
-/

namespace Muser.Prompt

open Text Bpe

section Witnesses

/-- No token is the witness that is reserved for the rows of images. -/
def Plain (inputs : List PositionInput) : Prop := ∀ id, .token id ∈ inputs → id ≠ Engine.embeddingPositionWitness.toNat

def images (inputs : List PositionInput) : List PositionInput := inputs.filter PositionInput.isImage

theorem Plain.append {inputs more : List PositionInput} (plain : Plain inputs) (plain' : Plain more) :
    Plain (inputs ++ more) :=
  fun id mem => (List.mem_append.mp mem).elim (plain id) (plain' id)

theorem images_append (inputs more : List PositionInput) : images (inputs ++ more) = images inputs ++ images more :=
  List.filter_append ..

theorem images_tokens (ids : List ℕ) : images (ids.map .token) = [] := by
  rw [images, List.filter_eq_nil_iff]
  intro input mem
  obtain ⟨id, -, rfl⟩ := List.mem_map.mp mem
  exact Bool.false_ne_true

theorem images_rows (encoded : Bytes) (count : ℕ) : images (rows encoded count) = rows encoded count := by
  rw [images, List.filter_eq_self]
  intro input mem
  obtain ⟨row, -, rfl⟩ := List.mem_map.mp mem
  rfl

/-- Inputs with the same witnesses have as many image rows, and are the same when these are. -/
theorem same_of_witnesses {inputs inputs' : List PositionInput} (plain : Plain inputs) (plain' : Plain inputs')
    (same : inputs.map PositionInput.witness = inputs'.map PositionInput.witness) :
    (images inputs).length = (images inputs').length ∧ (images inputs = images inputs' → inputs = inputs') := by
  induction inputs generalizing inputs' with
  | nil =>
    rw [List.map_nil, eq_comm, List.map_eq_nil_iff] at same
    subst same
    exact ⟨rfl, fun _ => rfl⟩
  | cons input rest ih =>
    match inputs', same with
    | input' :: rest', same =>
      rw [List.map_cons, List.map_cons, List.cons.injEq] at same
      obtain ⟨lengths, whole⟩ := ih (fun id mem => plain id (List.mem_cons_of_mem _ mem))
        (fun id mem => plain' id (List.mem_cons_of_mem _ mem)) same.2
      match input, input', same.1, plain, plain' with
      | .token id, .token id', is, _, _ =>
        change id = id' at is
        subst is
        exact ⟨lengths, fun is => congrArg _ (whole is)⟩
      | .image encoded row, .image encoded' row', _, _, _ =>
        refine ⟨congrArg (· + 1) lengths, fun is => ?_⟩
        have both : PositionInput.image encoded row :: images rest = .image encoded' row' :: images rest' := is
        rw [List.cons.injEq] at both
        rw [both.1, whole both.2]
      | .token id, .image encoded row, is, plain, _ => exact absurd is (plain id List.mem_cons_self)
      | .image encoded row, .token id, is, _, plain' => exact absurd is.symm (plain' id List.mem_cons_self)

/-- A prompt that begins with the witnesses of some inputs begins with the inputs exactly when its images begin
with theirs. -/
theorem take_eq_iff {inputs prompt : List PositionInput} (plain : Plain inputs) (plain' : Plain prompt)
    (begins : inputs.map PositionInput.witness <+: prompt.map PositionInput.witness) :
    prompt.take inputs.length = inputs ↔ images inputs <+: images prompt := by
  have front : images (prompt.take inputs.length) <+: images prompt := (List.take_prefix _ _).filter _
  have same : inputs.map PositionInput.witness = (prompt.take inputs.length).map PositionInput.witness := by
    rw [List.map_take, ← List.length_map (f := PositionInput.witness), ← List.prefix_iff_eq_take]
    exact begins
  obtain ⟨lengths, whole⟩ := same_of_witnesses plain (fun id mem => plain' id (List.mem_of_mem_take mem)) same
  constructor
  · intro is
    rw [is] at front
    exact front
  · intro is
    refine (whole ?_).symm
    exact (List.prefix_of_prefix_length_le is front lengths.le).eq_of_length lengths

/-- Without images the witnesses are the inputs. -/
theorem take_eq_of_tokens {inputs prompt : List PositionInput} (none_ : images inputs = []) (none_' : images prompt = [])
    (begins : inputs.map PositionInput.witness <+: prompt.map PositionInput.witness) :
    prompt.take inputs.length = inputs := by
  have tokens : ∀ {inputs : List PositionInput},
      images inputs = [] → (inputs.map PositionInput.witness).map .token = inputs := by
    intro inputs empty
    rw [images, List.filter_eq_nil_iff] at empty
    rw [List.map_map]
    conv_rhs => rw [← List.map_id inputs]
    refine List.map_congr_left fun input mem => ?_
    match input, empty input mem with
    | .token id, _ => rfl
    | .image encoded row, absurd_ => exact absurd rfl absurd_
  have front := begins.map PositionInput.token
  rw [tokens none_, tokens none_', List.prefix_iff_eq_take] at front
  exact front.symm

end Witnesses

section Prompts

variable {Image : Type}

/-- The witness of the image rows is outside the vocabulary. -/
structure InferenceRuntime.Reserved (runtime : InferenceRuntime Image) : Prop where
  encoded : ∀ run ids, runtime.encodeWithOptions run = .ok ids → Engine.embeddingPositionWitness.toNat ∉ ids
  bos : runtime.bosTokenId ≠ some Engine.embeddingPositionWitness.toNat

/-- It is outside every vocabulary that is not too large for it. -/
theorem reserved_of_vocab {runtime : InferenceRuntime Image} {compile : String → PreRegex} {vocab : List Text}
    {merges : List (Text × Text)} {preType : String} {tokenTypes : List ℤ}
    (is : runtime.tokenizer = .new compile vocab merges preType tokenTypes)
    (small : vocab.length ≤ Engine.embeddingPositionWitness.toNat)
    (bos : ∀ id, runtime.bosTokenId = some id → id < vocab.length) :
    runtime.Reserved where
  encoded run ids encoded mem := by
    rw [InferenceRuntime.encodeWithOptions, is] at encoded
    split at encoded
    · cases encoded
    · cases encoded
    · rename_i ids' are
      cases encoded
      have inside := encoded_inside are _ mem
      omega
  bos is_bos := by
    have inside := bos _ is_bos
    omega

/-- The rows of what is put in the place of a marker. -/
def InferenceRuntime.rowsOf (runtime : InferenceRuntime Image) : Insertion → List PositionInput
  | .text _ => []
  | .image url =>
    match runtime.preparedImage url with
    | .ok (encoded, _, count) => rows encoded count
    | .error _ => []

/-- The rows of the images of a conversation, in order. -/
def InferenceRuntime.imageRows (runtime : InferenceRuntime Image) (messages : List Message) : List PositionInput :=
  (insertions messages).flatMap runtime.rowsOf

def Building.inputs (building : Building Image) : List PositionInput := building.segments.flatMap PreparedSegment.inputs

theorem inputs_segmentOf (tokens : List ℕ) :
    (segmentOf tokens : List (PreparedSegment Image)).flatMap PreparedSegment.inputs = tokens.map .token := by
  rw [segmentOf]
  split
  · rename_i none_
    rw [none_]
    rfl
  · exact List.append_nil _

variable {runtime : InferenceRuntime Image}

variable {tokens : List ℕ} {prepared : PreparedPrefill Image}

theorem plain_of_takeTokens (reserved : runtime.Reserved) {runs : List Run}
    (taken : runtime.takeTokens runs = .ok tokens) : Plain (tokens.map .token) := by
  obtain ⟨parts, collected, rfl⟩ := takeTokens_eq_ok.mp taken
  intro id mem
  obtain ⟨other, mem, same⟩ := List.mem_map.mp mem
  cases same
  obtain ⟨part, among, mem⟩ := List.mem_flatten.mp mem
  obtain ⟨run, -, encoded⟩ := exists_of_mem_mapM collected among
  rintro rfl
  exact reserved.encoded run part encoded mem

theorem flush_inputs {building flushed : Building Image} (reserved : runtime.Reserved)
    (is : runtime.flushTextSegment building = .ok flushed) :
    images flushed.inputs = images building.inputs ∧ (Plain building.inputs → Plain flushed.inputs) := by
  obtain ⟨tokens, taken, segments, -⟩ := flush_eq_ok is
  have inputs : flushed.inputs = building.inputs ++ tokens.map .token := by
    rw [Building.inputs, segments, List.flatMap_append, inputs_segmentOf]
    rfl
  rw [inputs, images_append, images_tokens, List.append_nil]
  exact ⟨rfl, fun plain => plain.append (plain_of_takeTokens reserved taken)⟩

/-- The images of a prompt are those of its insertions, in order. -/
theorem insertAll_inputs (reserved : runtime.Reserved) {cursor : Text} {inserted : List (Text × Insertion)}
    {building final : Building Image} (is : runtime.insertAll cursor inserted building = .ok final) :
    images final.inputs = images building.inputs ++ (inserted.map (·.2)).flatMap runtime.rowsOf ∧
      (Plain building.inputs → Plain final.inputs) := by
  induction inserted generalizing cursor building with
  | nil =>
    obtain ⟨images_, plain⟩ := flush_inputs reserved is
    exact ⟨by rw [images_]; exact (List.append_nil _).symm, plain⟩
  | cons first rest ih =>
    obtain ⟨sentinel, insertion⟩ := first
    rw [InferenceRuntime.insertAll] at is
    split at is
    · cases is
    · obtain ⟨middle, inserted, is⟩ := bind_eq_ok_iff.mp is
      obtain ⟨images_, plain⟩ := ih is
      cases insertion with
      | text body =>
        cases inserted
        exact ⟨images_, plain⟩
      | image url =>
        obtain ⟨flushed, flush, image⟩ := bind_eq_ok_iff.mp inserted
        obtain ⟨images', plain'⟩ := flush_inputs reserved flush
        obtain ⟨encoded, image, count, prepared, segments, -⟩ := insertImage_eq_ok image
        have inputs : middle.inputs = flushed.inputs ++ rows encoded count := by
          rw [Building.inputs, segments, List.flatMap_append]
          exact congrArg _ (List.append_nil _)
        have own : runtime.rowsOf (.image url) = rows encoded count := by rw [InferenceRuntime.rowsOf, prepared]
        refine ⟨?_, fun before => plain ?_⟩
        · rw [images_, inputs, images_append, images', images_rows, List.map_cons, List.flatMap_cons, own, List.append_assoc]
          rfl
        · rw [inputs]
          refine (plain' before).append fun id mem => ?_
          obtain ⟨row, -, same⟩ := List.mem_map.mp mem
          cases same

theorem witnesses_eq (segment : PreparedSegment Image) : segment.witnesses = segment.inputs.map PositionInput.witness := by
  cases segment with
  | tokens ids =>
    rw [PreparedSegment.witnesses, PreparedSegment.inputs, List.map_map]
    exact (List.map_id ids).symm
  | image encoded image count =>
    rw [PreparedSegment.witnesses, PreparedSegment.inputs, rows, List.map_map]
    change _ = (List.range count).map fun _ => Engine.embeddingPositionWitness.toNat
    rw [List.map_const', List.length_range]

theorem begun_inputs (reserved : runtime.Reserved) {begun : Building Image} (is : runtime.begun = .ok begun) :
    images begun.inputs = [] ∧ Plain begun.inputs := by
  rw [InferenceRuntime.begun] at is
  split at is
  · split at is <;> cases is
    rename_i bos declared
    refine ⟨rfl, fun id mem => ?_⟩
    rintro rfl
    cases List.mem_singleton.mp mem
    exact reserved.bos declared
  · cases is
    exact ⟨rfl, fun id mem => (List.not_mem_nil mem).elim⟩

/-- What a prompt says about its conversation: its witnesses are of its inputs, and its images are the
conversation's. -/
structure Tells (runtime : InferenceRuntime Image) (messages : List Message) (prepared : PreparedPrefill Image) : Prop where
  witnesses : prepared.witnesses = prepared.inputs.map PositionInput.witness
  images : images prepared.inputs = runtime.imageRows messages

theorem tells_of_buildPrefill (reserved : runtime.Reserved) {request : PrefillRequest}
    (built : runtime.buildPrefill request = .ok prepared) :
    Tells runtime request.messages prepared ∧ Plain prepared.inputs := by
  obtain ⟨begun, text, inserted, final, isBegun, rendered, all, segments, witnesses⟩ := buildPrefill_steps built
  obtain ⟨images_, plain⟩ := insertAll_inputs reserved all
  obtain ⟨none_, plain'⟩ := begun_inputs reserved isBegun
  have inputs : prepared.inputs = final.inputs := congrArg (List.flatMap _) segments
  rw [inputs]
  refine ⟨⟨?_, ?_⟩, plain plain'⟩
  · rw [witnesses, inputs, Building.inputs, List.map_flatMap]
    exact List.flatMap_congr fun segment _ => witnesses_eq segment
  · rw [inputs, images_, none_, (rendered_eq_ok rendered).2]
    rfl

theorem tells_of_exact (built : buildExactTokenPrefill tokens = .ok prepared) : Tells runtime [] prepared := by
  obtain ⟨-, built⟩ := check_eq_ok_iff.mp built
  cases built
  have inputs : (⟨[.tokens tokens], tokens, tokens.length, none⟩ : PreparedPrefill Image).inputs = tokens.map .token :=
    List.append_nil _
  refine ⟨?_, ?_⟩
  · rw [inputs, List.map_map]
    exact (List.map_id tokens).symm
  · rw [inputs, images_tokens]
    rfl

end Prompts

section Preparing

variable {Image : Type} {runtime : ServingRuntime Image}

theorem refuse_eq_ok {α : Type} {result : Except ChatError α} {value : α} :
    refuse result = .ok value ↔ result = .ok value := by
  cases result <;> simp [refuse, Except.mapError]

variable {request : ChatRequest}

variable {canonical : CanonicalPrefill Image} {outputReserve : ℕ} {bundle : SessionBundle}

/-- The newest turns that fit are the conversation of their prompt. -/
theorem newestTurns_eq_ok {systems : List Message} {capacity : ℕ} {turns : List (List Message)}
    (is : runtime.newestTurns request systems capacity turns = .ok canonical) :
    runtime.buildPrefill { request.toPrefillRequest with messages := canonical.replayMessages } = .ok canonical.prefill ∧
      canonical.shifted = true := by
  induction turns with
  | nil => cases is
  | cons turn turns ih =>
    rw [ServingRuntime.newestTurns] at is
    obtain ⟨prefill, built, is⟩ := bind_eq_ok_iff.mp is
    split at is
    · cases is
      exact ⟨built, rfl⟩
    · split at is
      · cases is
      · exact ih is

/-- The prompt that is prepared is the prompt of the conversation that is kept for replays: the request's own when
nothing is cut, and none for tokens. -/
theorem prepared_eq_ok (reserved : runtime.Reserved)
    (is : runtime.prepareWithContextPolicy request outputReserve = .ok canonical) :
    Tells runtime.toInferenceRuntime canonical.replayMessages canonical.prefill ∧
      (request.muserPromptTokenIds ≠ none → canonical.replayMessages = []) ∧
      (request.muserPromptTokenIds = none → Plain canonical.prefill.inputs ∧
        (canonical.shifted = false → canonical.replayMessages = request.messages)) := by
  obtain ⟨capacity, -, is⟩ := bind_eq_ok_iff.mp is
  split at is
  · rename_i tokens raw
    rw [raw]
    split at is
    · obtain ⟨-, is⟩ := check_eq_ok_iff.mp is
      obtain ⟨retained, -, is⟩ := bind_eq_ok_iff.mp is
      obtain ⟨prefill, built, is⟩ := bind_eq_ok_iff.mp is
      cases is
      exact ⟨tells_of_exact (refuse_eq_ok.mp built), fun _ => rfl, fun none_ => nomatch none_⟩
    · obtain ⟨prefill, built, is⟩ := bind_eq_ok_iff.mp is
      cases is
      exact ⟨tells_of_exact (refuse_eq_ok.mp built), fun _ => rfl, fun none_ => nomatch none_⟩
  · rename_i chat
    rw [chat]
    obtain ⟨full, built, is⟩ := bind_eq_ok_iff.mp is
    split at is
    · cases is
      obtain ⟨tells, plain⟩ := tells_of_buildPrefill reserved built
      exact ⟨tells, fun some_ => absurd rfl some_, fun _ => ⟨plain, fun _ => rfl⟩⟩
    · obtain ⟨-, is⟩ := check_eq_ok_iff.mp is
      obtain ⟨⟨systems, turns⟩, -, is⟩ := bind_eq_ok_iff.mp is
      obtain ⟨built, shifted⟩ := newestTurns_eq_ok is
      obtain ⟨tells, plain⟩ := tells_of_buildPrefill reserved built
      exact ⟨tells, fun some_ => absurd rfl some_,
        fun _ => ⟨plain, fun unshifted => by rw [shifted] at unshifted; cases unshifted⟩⟩

/-- A snapshot that is accepted as exact is of the first witnesses of the prompt, and the two conversations are of
one kind; while nothing was cut the stored one is the beginning of the request's. -/
theorem validate_eq_true {witnesses : List ℕ} {rawRetainPrefix : ℕ}
    (is : validateSessionLineage bundle request witnesses rawRetainPrefix = .ok true) :
    ∃ plan, planOf bundle.canonicalReplayPlanJson = some plan ∧ bundle.positionWitnesses <+: witnesses ∧
      (request.muserPromptTokenIds ≠ none → plan = []) ∧
      (request.muserPromptTokenIds = none → plan ≠ [] ∧ (bundle.contextEpoch = 0 → plan <+: request.messages)) := by
  rw [validateSessionLineage] at is
  split at is
  · cases is
  · rename_i plan stored
    refine ⟨plan, stored, ?_⟩
    split at is
    · rename_i tokens raw
      obtain ⟨empty, is⟩ := check_eq_ok_iff.mp is
      obtain ⟨-, is⟩ := check_eq_ok_iff.mp is
      rw [reject_eq_ok_iff, Bool.not_eq_false', List.isEmpty_iff] at empty
      rw [Except.ok.injEq, List.isPrefixOf_iff_prefix] at is
      exact ⟨is, fun _ => empty, fun none_ => by rw [raw] at none_; cases none_⟩
    · rename_i chat
      obtain ⟨nonempty, is⟩ := check_eq_ok_iff.mp is
      obtain ⟨⟨previousSystems, _⟩, -, is⟩ := bind_eq_ok_iff.mp is
      obtain ⟨⟨currentSystems, _⟩, -, is⟩ := bind_eq_ok_iff.mp is
      obtain ⟨continued, is⟩ := check_eq_ok_iff.mp is
      rw [reject_eq_ok_iff] at nonempty
      rw [Except.ok.injEq, List.isPrefixOf_iff_prefix] at is
      refine ⟨is, fun some_ => absurd chat some_, fun _ => ⟨fun empty => ?_, fun epoch => ?_⟩⟩
      · rw [empty] at nonempty
        cases nonempty
      · rw [reject_eq_ok_iff, Bool.not_eq_false', extendsPlan, if_pos (.inl epoch), List.isPrefixOf_iff_prefix] at continued
        exact continued

/-- A snapshot is only installed for a prompt that is whole and begins with the snapshot's witnesses. -/
theorem installed_eq_ok {planned : PlannedTurn Image}
    (is : runtime.planTurn (some bundle) request outputReserve = .ok planned) (installs : planned.shifted = false) :
    ∃ prepared, runtime.prepareWithContextPolicy request outputReserve = .ok prepared ∧ prepared.shifted = false ∧
      prepared.prefill = planned.prefill ∧ prepared.replayMessages = planned.replayMessages ∧
      validateSessionLineage bundle request planned.prefill.witnesses runtime.rawRetainPrefix = .ok true := by
  obtain ⟨prepared, isPrepared, is⟩ := bind_eq_ok_iff.mp is
  obtain ⟨shifted, rebuilt, is⟩ := bind_eq_ok_iff.mp is
  obtain ⟨epoch, -, is⟩ := bind_eq_ok_iff.mp is
  cases is
  dsimp only at installs
  rw [installs, refuse_eq_ok] at rebuilt
  obtain ⟨exactFrontier, validated, rebuilt⟩ := bind_eq_ok_iff.mp rebuilt
  split at rebuilt
  · rename_i either
    rw [Except.ok.injEq] at rebuilt
    rw [rebuilt, Bool.false_or] at either
    rw [either] at validated
    exact ⟨prepared, isPrepared, rebuilt, rfl, rfl, validated⟩
  · obtain ⟨-, rebuilt⟩ := check_eq_ok_iff.mp rebuilt
    cases rebuilt

end Preparing

section Runs

variable {Image : Type} {runtime : ServingRuntime Image}

/-- What a bundle that was committed says: its witnesses are of the inputs of its snapshot, and the images among
these are those of its stored conversation. -/
structure Sound (runtime : ServingRuntime Image) (bundle : SessionBundle) : Prop where
  exact : bundle.positionWitnesses = bundle.targetTokens
  witnesses : bundle.targetTokens = bundle.inputs.map PositionInput.witness
  stored : ∃ plan, planOf bundle.canonicalReplayPlanJson = some plan ∧
    images bundle.inputs = runtime.imageRows plan ∧ (plan ≠ [] → Plain bundle.inputs)

/-- The images of the request begin with those of the stored conversation. -/
def SameImages (runtime : ServingRuntime Image) (bundle : SessionBundle) (request : ChatRequest) : Prop :=
  ∀ plan, planOf bundle.canonicalReplayPlanJson = some plan →
    runtime.imageRows plan <+: runtime.imageRows request.messages

variable {request : ChatRequest} {outputReserve : ℕ}

variable {planned : PlannedTurn Image} {bundle : Option SessionBundle}

/-- A snapshot is installed for the inputs that it was computed from exactly when the request's images begin with
those of the stored conversation. -/
theorem Sound.take_eq_iff {bundle : SessionBundle} (sound : Sound runtime bundle) (reserved : runtime.Reserved)
    (is : runtime.planTurn (some bundle) request outputReserve = .ok planned) (installs : planned.shifted = false) :
    planned.prefill.inputs.take bundle.targetTokens.length = bundle.inputs ↔ SameImages runtime bundle request := by
  obtain ⟨prepared, isPrepared, whole, prefill, replay, validated⟩ := installed_eq_ok is installs
  obtain ⟨tells, raw, chat⟩ := prepared_eq_ok reserved isPrepared
  obtain ⟨plan, stored, begins, raw', chat'⟩ := validate_eq_true validated
  obtain ⟨plan', stored', images_, plain⟩ := sound.stored
  rw [stored, Option.some.injEq] at stored'
  subst stored'
  rw [sound.exact, sound.witnesses, ← prefill, tells.witnesses] at begins
  have same : SameImages runtime bundle request ↔ runtime.imageRows plan <+: runtime.imageRows request.messages := by
    rw [SameImages, stored]
    exact ⟨fun all => all plan rfl, fun is plan' same => Option.some.inj same ▸ is⟩
  rw [same, sound.witnesses, List.length_map, ← prefill]
  cases kind : request.muserPromptTokenIds with
  | some tokens =>
    have some_ : request.muserPromptTokenIds ≠ none := fun none_ => by rw [kind] at none_; cases none_
    have none_ : runtime.imageRows plan = [] := by
      rw [raw' some_]
      rfl
    have none_' : images prepared.prefill.inputs = [] := by
      rw [tells.images, raw some_]
      rfl
    rw [none_]
    exact iff_of_true (take_eq_of_tokens (images_.trans none_) none_' begins) (List.nil_prefix)
  | none =>
    obtain ⟨plain', own⟩ := chat kind
    rw [Prompt.take_eq_iff (plain (chat' kind).1) plain' begins, images_, tells.images, own whole]

/-- The bundles that runs of committed turns reach, when each turn that goes on from a snapshot has the images of
the stored conversation first. -/
inductive Reached (runtime : ServingRuntime Image) : SessionBundle → Prop where
  | first {request : ChatRequest} {outputReserve : ℕ} {generated : List ℕ} {bundle : SessionBundle}
      (commit : runtime.commitTurn none request outputReserve generated = .ok bundle)
      (sampled : Engine.embeddingPositionWitness.toNat ∉ generated) : Reached runtime bundle
  | next {previous : SessionBundle} {request : ChatRequest} {outputReserve : ℕ} {generated : List ℕ}
      {bundle : SessionBundle} (reached : Reached runtime previous)
      (commit : runtime.commitTurn (some previous) request outputReserve generated = .ok bundle)
      (sampled : Engine.embeddingPositionWitness.toNat ∉ generated)
      (same : ∀ planned, runtime.planTurn (some previous) request outputReserve = .ok planned →
        planned.shifted = false → SameImages runtime previous request) : Reached runtime bundle

/-- What is committed is computed from the prompt and from what was generated. -/
theorem committed_eq {bundle : Option SessionBundle} {planned : PlannedTurn Image} {generated : List ℕ}
    (witnesses : planned.prefill.witnesses = planned.prefill.inputs.map PositionInput.witness)
    (restored : ∀ previous, ServingRuntime.installed bundle planned = some previous →
      previous.targetTokens = previous.inputs.map PositionInput.witness ∧
        planned.prefill.inputs.take previous.targetTokens.length = previous.inputs) :
    (ServingRuntime.committed bundle planned generated).inputs = planned.prefill.inputs ++ generated.map .token ∧
      (ServingRuntime.committed bundle planned generated).targetTokens =
        (ServingRuntime.committed bundle planned generated).inputs.map PositionInput.witness := by
  have generated_ : generated = (generated.map PositionInput.token).map PositionInput.witness := by
    rw [List.map_map]
    exact (List.map_id generated).symm
  cases is : ServingRuntime.installed bundle planned with
  | none =>
    have inputs : (ServingRuntime.committed bundle planned generated).inputs = planned.prefill.inputs ++
        generated.map .token := by
      simp [ServingRuntime.committed, is]
    refine ⟨inputs, ?_⟩
    rw [inputs, List.map_append, ← witnesses, ← generated_]
    simp [ServingRuntime.committed, is]
  | some previous =>
    obtain ⟨own, same⟩ := restored previous is
    have inputs : (ServingRuntime.committed bundle planned generated).inputs = planned.prefill.inputs ++
        generated.map .token := by
      simp only [ServingRuntime.committed, is, Option.elim_some]
      rw [← same, List.take_append_drop]
    refine ⟨inputs, ?_⟩
    rw [inputs, List.map_append, ← witnesses, ← generated_]
    simp only [ServingRuntime.committed, is, Option.elim_some]
    refine congrArg (· ++ generated) ?_
    conv_lhs => lhs; rw [own, ← same]
    rw [List.map_take, ← witnesses, List.take_append_drop]

theorem planned_eq_ok (is : runtime.planTurn bundle request outputReserve = .ok planned) :
    ∃ prepared, runtime.prepareWithContextPolicy request outputReserve = .ok prepared ∧
      prepared.prefill = planned.prefill ∧ prepared.replayMessages = planned.replayMessages := by
  obtain ⟨prepared, isPrepared, is⟩ := bind_eq_ok_iff.mp is
  obtain ⟨shifted, -, is⟩ := bind_eq_ok_iff.mp is
  obtain ⟨epoch, -, is⟩ := bind_eq_ok_iff.mp is
  cases is
  exact ⟨prepared, isPrepared, rfl, rfl⟩

/-- A turn keeps what a bundle says. -/
theorem sound_of_commit (reserved : runtime.Reserved) {generated : List ℕ} {next : SessionBundle}
    (commit : runtime.commitTurn bundle request outputReserve generated = .ok next)
    (sampled : Engine.embeddingPositionWitness.toNat ∉ generated)
    (before : ∀ previous, bundle = some previous → Sound runtime previous ∧
      ∀ planned, runtime.planTurn bundle request outputReserve = .ok planned → planned.shifted = false →
        SameImages runtime previous request) :
    Sound runtime next := by
  obtain ⟨planned, isPlanned, commit⟩ := bind_eq_ok_iff.mp commit
  cases commit
  obtain ⟨prepared, isPrepared, prefill, replay⟩ := planned_eq_ok isPlanned
  obtain ⟨tells, raw, chat⟩ := prepared_eq_ok reserved isPrepared
  rw [prefill, replay] at tells
  rw [replay] at raw
  rw [prefill] at chat
  obtain ⟨inputs, witnesses⟩ := @committed_eq _ bundle planned generated tells.witnesses
    (fun previous is => by
      rw [ServingRuntime.installed] at is
      split at is
      · cases is
      · rename_i installs
        rw [Bool.not_eq_true] at installs
        obtain ⟨sound, same⟩ := before previous is
        have same := same planned isPlanned installs
        rw [is] at isPlanned
        exact ⟨sound.witnesses, (sound.take_eq_iff reserved isPlanned installs).mpr same⟩)
  refine ⟨rfl, witnesses, planned.replayMessages, planOf_planValue _, ?_, fun nonempty => ?_⟩
  · rw [inputs, images_append, images_tokens, List.append_nil, tells.images]
  · rw [inputs]
    refine Plain.append (chat ?_).1 fun id mem => ?_
    · by_contra some_
      exact nonempty (raw some_)
    · obtain ⟨other, mem, same⟩ := List.mem_map.mp mem
      cases same
      rintro rfl
      exact sampled mem

theorem Reached.sound (reserved : runtime.Reserved) {bundle : SessionBundle}
    (reached : Reached runtime bundle) : Sound runtime bundle := by
  induction reached with
  | first commit sampled => exact sound_of_commit reserved commit sampled fun _ is => nomatch is
  | next _ commit sampled same ih =>
    refine sound_of_commit reserved commit sampled fun previous is => ?_
    cases is
    exact ⟨ih, same⟩

/-- In every run, a snapshot is installed for the inputs that it was computed from exactly when the images of the
request begin with those of the stored conversation. -/
theorem same_inputs_iff (runtime : ServingRuntime Image) (reserved : runtime.Reserved) (bundle : SessionBundle)
    (reached : Reached runtime bundle) (request : ChatRequest) (outputReserve : ℕ) (planned : PlannedTurn Image)
    (is : runtime.planTurn (some bundle) request outputReserve = .ok planned) (installs : planned.shifted = false) :
    planned.prefill.inputs.take bundle.targetTokens.length = bundle.inputs ↔ SameImages runtime bundle request :=
  (reached.sound reserved).take_eq_iff reserved is installs

end Runs

section Pictures

/-- Two images of one byte, as they are sent. -/
def pictures : List (Text × Bytes) := [("AA==".toList, [0]), ("AQ==".toList, [1])]

def digest0 : Bytes := [110, 52, 11, 156, 255, 179, 122, 152, 156, 165, 68, 230, 187, 120, 10, 44, 120, 144, 29, 63, 179, 55,
  56, 118, 133, 17, 163, 6, 23, 175, 160, 29]

def digest1 : Bytes := [75, 245, 18, 47, 52, 69, 84, 197, 59, 222, 46, 187, 140, 210, 183, 227, 209, 96, 10, 214, 49, 195,
  133, 165, 215, 204, 226, 60, 119, 133, 69, 154]

def digests : List (Bytes × Bytes) := [([0], digest0), ([1], digest1),
  (digest0, [20, 6, 224, 88, 129, 226, 153, 54, 119, 102, 211, 19, 226, 108, 5, 86, 78, 201, 27, 247, 33, 211, 23, 38, 189,
    110, 70, 230, 6, 137, 83, 154]),
  (digest1 ++ digest0, [134, 192, 10, 8, 38, 92, 132, 216, 222, 201, 95, 34, 111, 122, 203, 188, 13, 212, 73, 16, 184, 107,
    107, 93, 39, 198, 186, 183, 207, 255, 36, 59]),
  (digest0 ++ digest1, [48, 225, 134, 116, 36, 230, 110, 139, 109, 21, 146, 70, 219, 148, 227, 72, 103, 120,
    19, 111, 126, 56,
    111, 245, 240, 1, 133, 157, 107, 132, 132, 171])]

def hexDigits (byte : UInt8) : Text := (Nat.toDigits 16 (byte.toNat / 16)) ++ Nat.toDigits 16 (byte.toNat % 16)

/-- Every image is one row. -/
def pictureRuntime : ServingRuntime Unit :=
  { sampleRuntime with
    base64Decode := fun payload => (pictures.find? (·.1 == payload)).map (·.2)
    base64Encode := fun bytes => ((pictures.find? (·.2 == bytes)).map (·.1)).getD []
    sha256 := fun bytes => ((digests.find? (·.1 == bytes)).map (·.2)).getD []
    hex := fun bytes => bytes.flatMap hexDigits
    vision := some ⟨fun _ => .ok (), fun _ => .ok 1⟩
    visionIdentity := some ⟨[], []⟩
    maxContext := 5
    contextPolicy := .shift
    rawRetainPrefix := 0 }

def pictureUrl (payload : String) : Text := "data:image/png;base64,".toList ++ payload.toList

def picture (payload : String) : Message :=
  ⟨"user".toList, .parts [.imageUrl (pictureUrl payload)], none, none, none, none, none, none⟩

def long : Message := ⟨"user".toList, .text "aaaa".toList, none, none, none, none, none, none⟩

def chat (messages : List Message) : ChatRequest := ⟨⟨messages, none, false⟩, none⟩

/-- The inputs that two turns are computed from: of the snapshot, and of the positions that it is installed for. -/
def twoTurns (request request' : ChatRequest) : Option (Bool × List PositionInput × List PositionInput) := do
  let bundle ← (pictureRuntime.commitTurn none request 1 []).toOption
  let planned ← (pictureRuntime.planTurn (some bundle) request' 1).toOption
  some (planned.shifted, bundle.inputs, planned.prefill.inputs.take bundle.targetTokens.length)

theorem twoTurns_eq_some {request request' : ChatRequest} {shifted : Bool} {inputs front : List PositionInput}
    (is : twoTurns request request' = some (shifted, inputs, front)) :
    ∃ bundle planned, pictureRuntime.commitTurn none request 1 [] = .ok bundle ∧
      pictureRuntime.planTurn (some bundle) request' 1 = .ok planned ∧ planned.shifted = shifted ∧ bundle.inputs = inputs ∧
      planned.prefill.inputs.take bundle.targetTokens.length = front := by
  obtain ⟨bundle, committed, is⟩ := Option.bind_eq_some_iff.mp is
  obtain ⟨planned, isPlanned, is⟩ := Option.bind_eq_some_iff.mp is
  cases is
  rw [toOption_eq_some_iff] at committed isPlanned
  exact ⟨bundle, planned, committed, isPlanned, rfl, rfl, rfl⟩

private theorem turns_evaluated :
    twoTurns (chat [long, picture "AA=="]) (chat [picture "AA==", picture "AQ=="]) =
        some (false, [.image [0] 0, .token 256], [.image [0] 0, .token 256]) ∧
      twoTurns (chat [long, picture "AA=="]) (chat [picture "AQ==", picture "AA=="]) =
        some (false, [.image [0] 0, .token 256], [.image [1] 0, .token 256]) ∧
      sampleVocab.length ≤ Engine.embeddingPositionWitness.toNat := by
  decide +kernel

theorem pictureRuntime_reserved : pictureRuntime.Reserved := by
  have is : pictureRuntime.tokenizer = .new (fun _ => wholeRegex) sampleVocab [] "default" sampleTypes := rfl
  have none_ : pictureRuntime.bosTokenId = none := rfl
  refine reserved_of_vocab is turns_evaluated.2.2 fun id some_ => ?_
  rw [none_] at some_
  cases some_

theorem same_inputs_iff_pictures : ∃ bundle planned,
    pictureRuntime.commitTurn none (chat [long, picture "AA=="]) 1 [] = .ok bundle ∧
      pictureRuntime.planTurn (some bundle) (chat [picture "AA==", picture "AQ=="]) 1 = .ok planned ∧
      (planned.prefill.inputs.take bundle.targetTokens.length = bundle.inputs ↔
        SameImages pictureRuntime bundle (chat [picture "AA==", picture "AQ=="])) := by
  obtain ⟨bundle, planned, committed, isPlanned, installs, -, -⟩ := twoTurns_eq_some turns_evaluated.1
  exact ⟨bundle, planned, committed, isPlanned, same_inputs_iff pictureRuntime pictureRuntime_reserved bundle
    (.first committed List.not_mem_nil) (chat [picture "AA==", picture "AQ=="]) 1 planned isPlanned installs⟩

/-- After a turn that was cut to its newest image, a conversation with another image in front of that one is taken
for its continuation, and the snapshot of the one image is installed for the other. -/
theorem foreign_after_shift : ∃ bundle planned,
    pictureRuntime.commitTurn none (chat [long, picture "AA=="]) 1 [] = .ok bundle ∧
      pictureRuntime.planTurn (some bundle) (chat [picture "AQ==", picture "AA=="]) 1 = .ok planned ∧
      planned.shifted = false ∧
      validateSessionLineage bundle (chat [picture "AQ==", picture "AA=="]) planned.prefill.witnesses
        pictureRuntime.rawRetainPrefix = .ok true ∧
      bundle.inputs = [.image [0] 0, .token 256] ∧
      planned.prefill.inputs.take bundle.targetTokens.length = [.image [1] 0, .token 256] := by
  obtain ⟨bundle, planned, committed, isPlanned, installs, inputs, front⟩ := twoTurns_eq_some turns_evaluated.2.1
  obtain ⟨-, -, -, -, -, validated⟩ := installed_eq_ok isPlanned installs
  exact ⟨bundle, planned, committed, isPlanned, installs, validated, inputs, front⟩

end Pictures

end Muser.Prompt
