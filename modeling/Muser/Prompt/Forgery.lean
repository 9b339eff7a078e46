import Muser.Prompt.Placement

/-! # Forged prompts

A template writes the fields of a request as they are, and each content once and in order. The contents are kept
apart from the special tokens of the template, but the other fields of a request are part of the text in which
special tokens and markers are looked for.
-/

namespace Muser.Prompt

open Text Atem Bpe

section Fields

inductive MessageField where
  | name
  | toolCallId
  | reasoningContent
  | recipient
deriving DecidableEq

inductive CallField where
  | id
  | kind
  | name
  | arguments
deriving DecidableEq

inductive ToolField where
  | kind
  | name
  | description
  | parameters
deriving DecidableEq

/-- The places of a request that a client writes, its contents apart. -/
inductive Field where
  | message (index : ℕ) (field : MessageField)
  | call (message index : ℕ) (field : CallField)
  | tool (index : ℕ) (field : ToolField)
deriving DecidableEq

def MessageField.value (message : Message) : MessageField → JsonValue
  | .name => nullable (message.name.map .string)
  | .toolCallId => nullable (message.toolCallId.map .string)
  | .reasoningContent => nullable (message.reasoningContent.map .string)
  | .recipient => nullable (message.recipient.map .string)

def CallField.value (fromStr : Text → Option JsonValue) (call : MessageToolCall) : CallField → JsonValue
  | .id => .string call.id
  | .kind => .string call.kind
  | .name => .string call.function.name
  | .arguments => normalizedArguments fromStr call.function.arguments

def ToolField.value (tool : ToolDefinition) : ToolField → JsonValue
  | .kind => .string tool.kind
  | .name => .string tool.function.name
  | .description => nullable (tool.function.description.map .string)
  | .parameters => tool.function.parameters

/-- What the template is given for a field. -/
def Field.value (fromStr : Text → Option JsonValue) (request : PrefillRequest) : Field → JsonValue
  | .message index field => nullable (request.messages[index]?.map fun message => field.value message)
  | .call author index field =>
    nullable (((request.messages[author]?.bind (·.toolCalls)).bind (·[index]?)).map fun call => field.value fromStr call)
  | .tool index field => nullable ((request.tools.getD [])[index]?.map fun tool => field.value tool)

end Fields

section Shapes

def ContentPart.shape : ContentPart → ContentPart
  | .text _ => .text []
  | .imageUrl _ => .imageUrl []

def MessageContent.shape : MessageContent → MessageContent
  | .text _ => .text []
  | .parts items => .parts (items.map ContentPart.shape)
  | .null => .null

def MessageToolCall.shape (_ : MessageToolCall) : MessageToolCall := ⟨[], [], ⟨[], []⟩⟩

def Message.shape (message : Message) : Message :=
  { message with
    content := message.content.shape
    name := message.name.map fun _ => []
    toolCallId := message.toolCallId.map fun _ => []
    toolCalls := message.toolCalls.map (·.map MessageToolCall.shape)
    reasoningContent := message.reasoningContent.map fun _ => []
    recipient := message.recipient.map fun _ => [] }

def ToolDefinition.shape (tool : ToolDefinition) : ToolDefinition :=
  ⟨[], [], tool.function.description.map fun _ => [], .null, tool.function.strict⟩

/-- A request without what its client wrote: requests with one shape differ in the client's strings only. -/
def PrefillRequest.shape (request : PrefillRequest) : PrefillRequest :=
  { request with
    messages := request.messages.map Message.shape
    tools := request.tools.map (·.map ToolDefinition.shape) }

end Shapes

/-- A piece of a rendered text: of the template itself, a field of the request, or the place of a content. -/
inductive Piece where
  | written (text : Text)
  | field (field : Field) (print : JsonValue → Text)
  | content (index : ℕ)

def Piece.text (fromStr : Text → Option JsonValue) (request : PrefillRequest) : Piece → Text
  | .written text => text
  | .field place print => print (place.value fromStr request)
  | .content index => marker index

def Piece.index? : Piece → Option ℕ
  | .content index => some index
  | _ => none

/-- The parts of a text between the places of its contents. -/
def partsOf (write : Piece → Text) : List Piece → List Text
  | [] => [[]]
  | .content _ :: rest => [] :: partsOf write rest
  | piece :: rest => (partsOf write rest).modifyHead (write piece ++ ·)

section Templates

variable {Image : Type} (runtime : InferenceRuntime Image) (layout : PrefillRequest → List Piece)

/-- The template writes each field as it is, a text verbatim, and each content once and in order; where it writes
them depends on the shape of the request only. -/
structure InferenceRuntime.Verbatim : Prop where
  shaped : ∀ request, layout request.shape = layout request
  whole : ∀ request field print, .field field print ∈ layout request → ∀ text, print (.string text) = text
  inOrder : ∀ request, (layout request).filterMap Piece.index? = List.range (insertions request.messages).length
  renders : ∀ request text inserted, runtime.rendered request = .ok (text, inserted) →
    text = (layout request).flatMap (Piece.text runtime.fromStr request)

/-- What the template writes before, between and after the contents of a request. -/
def scaffold (request : PrefillRequest) : List Text := partsOf (Piece.text runtime.fromStr request) (layout request)

/-- Each content of the request is put where the template has its place. -/
def Placed (request : PrefillRequest) : Prop :=
  ∃ text inserted, runtime.rendered request = .ok (text, inserted) ∧
    cuts text (inserted.map (·.1)) = some (scaffold runtime layout request)

/-- No part of the template's text has the marker of the content that follows it. -/
def Unmarked (request : PrefillRequest) : Prop :=
  ∀ index part, (scaffold runtime layout request)[index]? = some part → index < (insertions request.messages).length →
    ¬marker index <:+: part

/-- The special tokens that the template's text spells, with those of the tables for ordinary text. -/
def scaffoldSpecials (request : PrefillRequest) : List ℕ :=
  specialsOf runtime.tokenizer (runsOf (scaffold runtime layout request) (insertions request.messages) [])

end Templates

section Markers

theorem ne_of_digit {character : Char} (digit : character.isDigit = true) : Char.ofNat 0xe000 ≠ character := by
  rintro rfl
  exact absurd digit (by decide)

theorem marker_unbordered (index : ℕ) : Unbordered (marker index) := by
  refine ⟨_, _, rfl, ?_⟩
  rw [List.mem_append, List.mem_append, not_or, not_or]
  refine ⟨by decide, fun mem => ?_, by decide⟩
  rw [Nat.toString_eq_ofList_toDigits, String.toList_ofList] at mem
  exact ne_of_digit (Nat.isDigit_of_mem_toDigits (by decide) (by decide) mem) rfl

variable {write : Piece → Text}

theorem index?_content (index : ℕ) : (Piece.content index).index? = some index := rfl

theorem partsOf_cons {piece : Piece} (other : piece.index? = none) (rest : List Piece) :
    partsOf write (piece :: rest) = (partsOf write rest).modifyHead (write piece ++ ·) := by
  cases piece with
  | content index => cases other
  | written text => rfl
  | field place print => rfl

theorem partsOf_ne_nil (pieces : List Piece) : partsOf write pieces ≠ [] := by
  induction pieces with
  | nil => exact List.cons_ne_nil _ _
  | cons piece rest ih =>
    cases is : piece.index? with
    | none =>
      rw [partsOf_cons is, Ne, List.modifyHead_eq_nil_iff]
      exact ih
    | some index =>
      cases piece <;> cases is
      exact List.cons_ne_nil _ _

theorem partsOf_length (pieces : List Piece) :
    (partsOf write pieces).length = (pieces.filterMap Piece.index?).length + 1 := by
  induction pieces with
  | nil => rfl
  | cons piece rest ih =>
    cases is : piece.index? with
    | none => rw [partsOf_cons is, List.length_modifyHead, ih, List.filterMap_cons_none is]
    | some index =>
      cases piece <;> cases is
      rw [partsOf, List.length_cons, ih, List.filterMap_cons_some (index?_content index), List.length_cons]

theorem weave_modifyHead (front : Text) {gaps : List Text} (some_ : gaps ≠ []) (markers : List Text) :
    weave (gaps.modifyHead (front ++ ·)) markers = front ++ weave gaps markers := by
  match gaps, markers with
  | gap :: gaps, [] => rfl
  | gap :: gaps, marker :: markers => simp [weave]
  | [], _ => exact absurd rfl some_

/-- The text of the pieces is woven of the parts between the contents, with the markers between them. -/
theorem weave_partsOf (pieces : List Piece) (marked : ∀ index, write (.content index) = marker index) :
    weave (partsOf write pieces) ((pieces.filterMap Piece.index?).map marker) = pieces.flatMap write := by
  induction pieces with
  | nil => rfl
  | cons piece rest ih =>
    cases is : piece.index? with
    | none =>
      rw [partsOf_cons is, List.filterMap_cons_none is, weave_modifyHead _ (partsOf_ne_nil rest), ih, List.flatMap_cons]
    | some index =>
      cases piece <;> cases is
      rw [partsOf, List.filterMap_cons_some (index?_content index), List.map_cons, weave, List.nil_append, ih,
        List.flatMap_cons, marked]

end Markers

section Forgery

variable {Image : Type} {runtime : InferenceRuntime Image} {layout : PrefillRequest → List Piece}

/-- The contents are where the template has their places exactly when no part before one has its marker. -/
theorem placed_iff (verbatim : runtime.Verbatim layout) {request : PrefillRequest} {text : Text}
    {inserted : List (Text × Insertion)} (rendered : runtime.rendered request = .ok (text, inserted)) :
    Placed runtime layout request ↔ Unmarked runtime layout request := by
  have here : Placed runtime layout request ↔ cuts text (inserted.map (·.1)) = some (scaffold runtime layout request) := by
    refine ⟨?_, fun cut => ⟨text, inserted, rendered, cut⟩⟩
    rintro ⟨text', inserted', rendered', cut⟩
    rw [rendered] at rendered'
    cases rendered'
    exact cut
  rw [here]
  have marked : ∀ index, Piece.text runtime.fromStr request (.content index) = marker index := fun _ => rfl
  have lengths : (partsOf (Piece.text runtime.fromStr request) (layout request)).length = _ :=
    partsOf_length (layout request)
  rw [verbatim.inOrder, List.length_range] at lengths
  rw [(rendered_eq_ok rendered).1, verbatim.renders request text inserted rendered, ← weave_partsOf _ marked,
    verbatim.inOrder]
  rw [scaffold, cuts_weave_iff]
  · constructor
    · intro absent index part is below
      exact absent (part, marker index) (List.mem_iff_getElem?.mpr
        ⟨index, List.getElem?_zip_eq_some.mpr ⟨is, by simp [below]⟩⟩)
    · rintro unmarked ⟨part, sentinel⟩ mem
      obtain ⟨index, there⟩ := List.mem_iff_getElem?.mp mem
      obtain ⟨is, is'⟩ := List.getElem?_zip_eq_some.mp there
      rw [List.getElem?_map, Option.map_eq_some_iff] at is'
      obtain ⟨same, counted, rfl⟩ := is'
      obtain ⟨below, rfl⟩ := List.getElem?_eq_some_iff.mp counted
      rw [List.getElem_range]
      rw [List.length_range] at below
      exact unmarked _ part is below
  · intro sentinel mem
    obtain ⟨index, -, rfl⟩ := List.mem_map.mp mem
    exact marker_unbordered index
  · rw [lengths, List.length_map, List.length_range]

/-- A prompt whose contents are in their places has the special tokens of the template's text. -/
theorem specials_of_placed {request : PrefillRequest} {prepared : PreparedPrefill Image}
    (built : runtime.buildPrefill request = .ok prepared) (placed : Placed runtime layout request) {begun : Building Image}
    (isBegun : runtime.begun = .ok begun) :
    prepared.specials runtime.tokenizer =
      begun.ids.filter runtime.tokenizer.special ++ scaffoldSpecials runtime layout request := by
  obtain ⟨begun', text, inserted, gaps, isBegun', rendered, cut, specials⟩ := buildPrefill_eq_ok built
  rw [isBegun, Except.ok.injEq] at isBegun'
  subst isBegun'
  obtain ⟨text', inserted', rendered', cut'⟩ := placed
  rw [rendered, Except.ok.injEq, Prod.mk.injEq] at rendered'
  obtain ⟨rfl, rfl⟩ := rendered'
  rw [cut, Option.some.injEq] at cut'
  rw [specials, cut', (rendered_eq_ok rendered).2, scaffoldSpecials]

/-- Two prompts have each content in its place and the same special tokens in the same order exactly when no part
of the template's text before a content has its marker, and the parts spell the same special tokens. -/
theorem unforged_iff (runtime : InferenceRuntime Image) (layout : PrefillRequest → List Piece)
    (verbatim : runtime.Verbatim layout) (request request' : PrefillRequest) (prepared prepared' : PreparedPrefill Image)
    (built : runtime.buildPrefill request = .ok prepared) (built' : runtime.buildPrefill request' = .ok prepared') :
    (Placed runtime layout request ∧ Placed runtime layout request' ∧
        prepared.specials runtime.tokenizer = prepared'.specials runtime.tokenizer) ↔
      (Unmarked runtime layout request ∧ Unmarked runtime layout request' ∧
        scaffoldSpecials runtime layout request = scaffoldSpecials runtime layout request') := by
  obtain ⟨begun, text, inserted, -, isBegun, rendered, -, -⟩ := buildPrefill_eq_ok built
  obtain ⟨-, text', inserted', -, -, rendered', -, -⟩ := buildPrefill_eq_ok built'
  rw [← placed_iff verbatim rendered, ← placed_iff verbatim rendered']
  refine and_congr_right fun placed => and_congr_right fun placed' => ?_
  rw [specials_of_placed built placed isBegun, specials_of_placed built' placed' isBegun, List.append_right_inj]

end Forgery

section Avoiding

variable {Image : Type} {runtime : InferenceRuntime Image} {layout : PrefillRequest → List Piece} {tokenizer : BpeTokenizer}
  {pending : List Run} {request request' : PrefillRequest} {prepared prepared' : PreparedPrefill Image}

theorem spelled_false (plain : ∀ text, tokenizer.strays text = []) (text : Text) : tokenizer.spelled text false = [] :=
  (List.append_nil _).trans (plain text)

theorem spelled_nil (plain : ∀ text, tokenizer.strays text = []) (mode : Bool) : tokenizer.spelled [] mode = [] := by
  cases mode with
  | false => exact spelled_false plain []
  | true =>
    rw [BpeTokenizer.spelled, BpeTokenizer.segmentsOf, if_pos rfl, BpeTokenizer.splitSpecialTokens]
    split
    · exact spelled_false plain []
    · rfl

/-- What the template writes behind a content is a run of its own. -/
theorem specialsOf_push_true (plain : ∀ text, tokenizer.strays text = [])
    (ends : ∀ run ∈ pending.getLast?, run.2 = false) (gap : Text) :
    specialsOf tokenizer (push pending gap true) = specialsOf tokenizer pending ++ tokenizer.spelled gap true := by
  rw [push]
  split
  · rename_i empty
    rw [empty, spelled_nil plain, List.append_nil]
  · split
    · rename_i run mode last
      have ordinary : mode = false := ends _ last
      subst ordinary
      simp [specialsOf]
    · rename_i none_
      rw [List.getLast?_eq_none_iff] at none_
      simp [specialsOf, none_]

/-- A content adds no special token, and is not joined with what the template writes. -/
theorem specialsOf_push_false (plain : ∀ text, tokenizer.strays text = []) {body : Text} (some_ : body ≠ []) :
    specialsOf tokenizer (push pending body false) = specialsOf tokenizer pending ∧
      ∀ run ∈ (push pending body false).getLast?, run.2 = false := by
  rw [push, if_neg some_]
  split
  · rename_i run mode last
    split
    · rename_i ordinary
      subst ordinary
      have whole := List.dropLast_append_getLast? _ last
      constructor
      · conv_rhs => rw [← whole]
        simp [specialsOf, spelled_false plain]
      · simp
    · simp [specialsOf, spelled_false plain]
  · rename_i none_
    rw [List.getLast?_eq_none_iff] at none_
    simp [specialsOf, spelled_false plain, none_]

/-- The contents add no special tokens to those of the template's text. -/
theorem specialsOf_runsOf (plain : ∀ text, tokenizer.strays text = []) (gaps : List Text) (inserted : List Insertion)
    (ends : ∀ run ∈ pending.getLast?, run.2 = false) (texts : ∀ body, .text body ∈ inserted → body ≠ []) :
    specialsOf tokenizer (runsOf gaps inserted pending) = specialsOf tokenizer pending ++
      (gaps.take (inserted.length + 1)).flatMap (tokenizer.spelled · true) := by
  induction gaps generalizing inserted pending with
  | nil => simp [runsOf]
  | cons gap gaps ih =>
    cases inserted with
    | nil => simp [runsOf, specialsOf_push_true plain ends]
    | cons insertion rest =>
      have later : ∀ body, .text body ∈ rest → body ≠ [] := fun body mem => texts body (List.mem_cons_of_mem _ mem)
      cases insertion with
      | text body =>
        obtain ⟨same, ends'⟩ := @specialsOf_push_false _ (push pending gap true) plain _ (texts body List.mem_cons_self)
        rw [runsOf, ih rest ends' later, same, specialsOf_push_true plain ends]
        simp
      | image url =>
        have front := specialsOf_push_true plain ends gap
        have behind := @ih [] rest (by simp) later
        rw [specialsOf] at front behind
        rw [runsOf, specialsOf, List.flatMap_append, front, behind]
        simp [specialsOf]

/-- What a client wrote has no marker, and adds no special token to what the template writes without it. -/
structure Avoiding (runtime : InferenceRuntime Image) (layout : PrefillRequest → List Piece)
    (request : PrefillRequest) : Prop where
  unmarked : Unmarked runtime layout request
  unspelled : (scaffold runtime layout request).map (runtime.tokenizer.spelled · true) =
    (scaffold runtime layout request.shape).map (runtime.tokenizer.spelled · true)
  nonempty : ∀ body, .text body ∈ insertions request.messages → body ≠ []

theorem Avoiding.scaffoldSpecials_eq (avoiding : Avoiding runtime layout request) (verbatim : runtime.Verbatim layout)
    (plain : ∀ text, runtime.tokenizer.strays text = []) : scaffoldSpecials runtime layout request =
      ((scaffold runtime layout request.shape).map (runtime.tokenizer.spelled · true)).flatten := by
  have length : (scaffold runtime layout request).length = (insertions request.messages).length + 1 := by
    rw [scaffold, partsOf_length, verbatim.inOrder, List.length_range]
  rw [scaffoldSpecials, specialsOf_runsOf plain _ _ (by simp) avoiding.nonempty, ← length, List.take_length,
    List.flatMap_def, avoiding.unspelled]
  rfl

/-- Two requests of one shape that avoid markers and special tokens have each content in its place, and the same
special tokens. -/
theorem unforged_of_avoiding (verbatim : runtime.Verbatim layout) (plain : ∀ text, runtime.tokenizer.strays text = [])
    (same : request.shape = request'.shape) (avoiding : Avoiding runtime layout request)
    (avoiding' : Avoiding runtime layout request') (built : runtime.buildPrefill request = .ok prepared)
    (built' : runtime.buildPrefill request' = .ok prepared') :
    Placed runtime layout request ∧ Placed runtime layout request' ∧
      prepared.specials runtime.tokenizer = prepared'.specials runtime.tokenizer := by
  obtain ⟨begun, text, inserted, -, isBegun, rendered, -, -⟩ := buildPrefill_eq_ok built
  obtain ⟨-, text', inserted', -, -, rendered', -, -⟩ := buildPrefill_eq_ok built'
  have placed := (placed_iff verbatim rendered).mpr avoiding.unmarked
  have placed' := (placed_iff verbatim rendered').mpr avoiding'.unmarked
  refine ⟨placed, placed', ?_⟩
  rw [specials_of_placed built placed isBegun, specials_of_placed built' placed' isBegun,
    avoiding.scaffoldSpecials_eq verbatim plain, avoiding'.scaffoldSpecials_eq verbatim plain, same]

end Avoiding

section Sample

/-- Every byte, and a special token. -/
def sampleVocab : List Text := gpt2ByteUnicodePairs.map (fun pair => [pair.2]) ++ ["<e>".toList]

def sampleTypes : List ℤ := List.replicate 256 1 ++ [3]

def shown : JsonValue → Text
  | .string text => text
  | _ => []

def shownContent : JsonValue → Text
  | .string text => text
  | .array items => items.flatMap fun item => shown (nullable (item.get "text".toList))
  | _ => []

/-- A name, a content and the special token that ends it. -/
def sampleMessage (message : JsonValue) : Text :=
  shown (nullable (message.get "name".toList)) ++ (shownContent (nullable (message.get "content".toList)) ++ "<e>".toList)

def sampleTemplate : JsonValue → Option JsonValue → Text → Bool → Except String Text
  | .array messages, none, _, _ => .ok (messages.flatMap sampleMessage)
  | _, _, _, _ => .error "only messages are rendered"

def sampleRuntime : InferenceRuntime Unit where
  tokenizer := .new (fun _ => wholeRegex) sampleVocab [] "default" sampleTypes
  addsBosToken := false
  bosTokenId := none
  template := sampleTemplate
  currentDate := []
  fromStr _ := none
  toJson _ := []
  base64Decode _ := none
  base64Encode _ := []
  sha256 bytes := bytes
  hex _ := []
  vision := none
  visionIdentity := none

def samplePieces : ℕ → ℕ → List Message → List Piece
  | _, _, [] => []
  | index, next, message :: rest =>
    .field (.message index .name) shown :: ((List.range' next message.insertions.length).map .content ++
      .written "<e>".toList :: samplePieces (index + 1) (next + message.insertions.length) rest)

def sampleLayout (request : PrefillRequest) : List Piece := samplePieces 0 0 request.messages

theorem length_insertions_shape (message : Message) : message.shape.insertions.length = message.insertions.length := by
  have renders : message.shape.rendersContent = message.rendersContent := by
    cases calls : message.toolCalls with
    | none | some calls' => simp [Message.rendersContent, Message.shape, calls]
  rw [Message.insertions, Message.insertions, renders]
  split
  · cases is : message.content <;> simp [Message.shape, MessageContent.shape, MessageContent.insertions, is]
  · rfl

theorem samplePieces_shape (index next : ℕ) (messages : List Message) :
    samplePieces index next (messages.map Message.shape) = samplePieces index next messages := by
  induction messages generalizing index next with
  | nil => rfl
  | cons message rest ih => rw [List.map_cons, samplePieces, samplePieces, length_insertions_shape, ih]

theorem samplePieces_index (index next : ℕ) (messages : List Message) :
    (samplePieces index next messages).filterMap Piece.index? = List.range' next (insertions messages).length := by
  induction messages generalizing index next with
  | nil => rfl
  | cons message rest ih =>
    have here : ((List.range' next message.insertions.length).map Piece.content).filterMap Piece.index? =
        List.range' next message.insertions.length := by
      rw [List.filterMap_map]
      exact List.filterMap_some ..
    rw [samplePieces, List.filterMap_cons_none rfl, List.filterMap_append, List.filterMap_cons_none rfl, ih, here,
      insertions, insertions, List.flatMap_cons, List.length_append, List.range'_append_1]

/-- The member of a name among the members of a message. -/
theorem get_name (arguments : Text → JsonValue) (content : JsonValue) (message : Message) :
    nullable ((message.valueWith arguments content).get "name".toList) = nullable (message.name.map .string) := by
  obtain ⟨role, _, name, toolCallId, toolCalls, reasoningContent, recipient, endTurn⟩ := message
  cases name with
  | some name => rfl
  | none => cases toolCallId <;> cases toolCalls <;> cases reasoningContent <;> cases recipient <;> cases endTurn <;> rfl

theorem get_content (arguments : Text → JsonValue) (content : JsonValue) (message : Message) :
    nullable ((message.valueWith arguments content).get "content".toList) = content := rfl

theorem shownContent_guarded (next : ℕ) (message : Message) :
    shownContent (message.guarded next) = (List.range' next message.insertions.length).flatMap marker := by
  rw [Message.guarded, Message.insertions]
  split
  · cases message.content with
    | text body => simp [MessageContent.guarded, MessageContent.insertions, shownContent]
    | null => rfl
    | parts items =>
      rw [MessageContent.guarded, MessageContent.insertions, shownContent, List.length_map, List.flatMap_def,
        List.flatMap_def]
      refine congrArg List.flatten (List.ext_getElem (by simp) fun index here there => ?_)
      simp only [List.getElem_map, List.getElem_mapIdx, List.getElem_range', Nat.one_mul]
      rfl
  · rfl

theorem sampleTemplate_pieces {fromStr : Text → Option JsonValue} {request : PrefillRequest} {index next : ℕ}
    {messages : List Message} (are : request.messages.drop index = messages) {values : List JsonValue}
    {inserted : List (Text × Insertion)} (made : templateMessages fromStr next messages = .ok (values, inserted)) :
    values.flatMap sampleMessage = (samplePieces index next messages).flatMap (Piece.text fromStr request) := by
  induction messages generalizing index next values inserted with
  | nil =>
    cases made
    rfl
  | cons message rest ih =>
    rw [templateMessages] at made
    obtain ⟨-, made⟩ := check_eq_ok_iff.mp made
    obtain ⟨⟨others, more⟩, below, made⟩ := bind_eq_ok_iff.mp made
    cases made
    have here : request.messages[index]? = some message := by
      rw [← List.head?_drop, are]
      rfl
    have later : request.messages.drop (index + 1) = rest := by
      rw [← List.tail_drop, are]
      rfl
    have contents : ((List.range' next message.insertions.length).map Piece.content).flatMap (Piece.text fromStr request) =
        (List.range' next message.insertions.length).flatMap marker := by
      rw [List.flatMap_map]
      rfl
    rw [List.flatMap_cons, samplePieces, List.flatMap_cons, List.flatMap_append, List.flatMap_cons, ih later below, contents,
      sampleMessage, get_name, get_content, shownContent_guarded]
    simp [Piece.text, Field.value, here, MessageField.value, nullable, List.append_assoc]

theorem samplePieces_print (index next : ℕ) (messages : List Message) {field : Field} {print : JsonValue → Text}
    (mem : .field field print ∈ samplePieces index next messages) : print = shown := by
  induction messages generalizing index next with
  | nil => cases mem
  | cons message rest ih =>
    rcases List.mem_cons.mp mem with here | mem
    · cases here
      rfl
    · rcases List.mem_append.mp mem with among | mem
      · obtain ⟨_, -, same⟩ := List.mem_map.mp among
        cases same
      · rcases List.mem_cons.mp mem with same | mem
        · cases same
        · exact ih _ _ mem

theorem sampleRuntime_verbatim : sampleRuntime.Verbatim sampleLayout where
  shaped request := samplePieces_shape 0 0 request.messages
  whole request field print mem text := by
    rw [samplePieces_print 0 0 request.messages mem]
    rfl
  inOrder request := by
    rw [sampleLayout, samplePieces_index, List.range_eq_range']
  renders request text inserted rendered := by
    obtain ⟨⟨values, own⟩, made, rendered⟩ := bind_eq_ok_iff.mp rendered
    obtain ⟨written, is, rendered⟩ := bind_eq_ok_iff.mp rendered
    cases rendered
    rw [InferenceRuntime.renderWithOptions] at is
    cases tools : request.tools with
    | none =>
      rw [tools] at is
      cases is
      exact sampleTemplate_pieces rfl made
    | some tools' =>
      rw [tools] at is
      cases is

/-- One message of a user. -/
def oneMessage (name text : Text) : PrefillRequest :=
  ⟨[⟨"user".toList, .text text, some name, none, none, none, none, none⟩], none, false⟩

def idsOf (request : PrefillRequest) : Option (List ℕ) :=
  (sampleRuntime.buildPrefill request).toOption.map PreparedPrefill.ids

theorem built_of_idsOf {request : PrefillRequest} {ids : List ℕ} (are : idsOf request = some ids) :
    ∃ prepared, sampleRuntime.buildPrefill request = .ok prepared ∧ prepared.ids = ids := by
  obtain ⟨prepared, built, rfl⟩ := Option.map_eq_some_iff.mp are
  exact ⟨prepared, toOption_eq_some_iff.mp built, rfl⟩

private theorem ids_evaluated : idsOf (oneMessage ['n'] ['t']) = some [77, 83, 256] ∧
    idsOf (oneMessage ['n'] ['n']) = some [77, 77, 256] ∧
    idsOf (oneMessage "<e>".toList ['t']) = some [256, 83, 256] ∧
    idsOf (oneMessage (marker 0) ['t']) =
      some [83, 170, 222, 222, 76, 84, 82, 68, 81, 12, 66, 78, 77, 83, 68, 77, 83, 12, 15, 170, 222, 223, 256] ∧
    [77, 83, 256].filter sampleRuntime.tokenizer.special ≠ [256, 83, 256].filter sampleRuntime.tokenizer.special ∧
    scaffoldSpecials sampleRuntime sampleLayout (oneMessage ['n'] ['t']) =
      scaffoldSpecials sampleRuntime sampleLayout (oneMessage ['n'] ['n']) := by
  decide +kernel

theorem oneMessage_unmarked (text : Text) : Unmarked sampleRuntime sampleLayout (oneMessage ['n'] text) := by
  intro index part is below within
  obtain rfl : index = 0 := Nat.lt_one_iff.mp below
  cases is
  exact absurd within.length_le (show ¬(marker 0).length ≤ ['n'].length by decide)

theorem unforged_iff_plain : ∃ prepared prepared',
    sampleRuntime.buildPrefill (oneMessage ['n'] ['t']) = .ok prepared ∧
      sampleRuntime.buildPrefill (oneMessage ['n'] ['n']) = .ok prepared' ∧
      Placed sampleRuntime sampleLayout (oneMessage ['n'] ['t']) ∧
        Placed sampleRuntime sampleLayout (oneMessage ['n'] ['n']) ∧
      prepared.specials sampleRuntime.tokenizer = prepared'.specials sampleRuntime.tokenizer := by
  obtain ⟨prepared, built, -⟩ := built_of_idsOf ids_evaluated.1
  obtain ⟨prepared', built', -⟩ := built_of_idsOf ids_evaluated.2.1
  exact ⟨prepared, prepared', built, built', (unforged_iff sampleRuntime sampleLayout sampleRuntime_verbatim
    (oneMessage ['n'] ['t']) (oneMessage ['n'] ['n']) prepared prepared' built built').mpr
    ⟨oneMessage_unmarked _, oneMessage_unmarked _, ids_evaluated.2.2.2.2.2⟩⟩

/-- A name that is spelled like the special token becomes it, and a name that is the marker of the content has
the content put in its place. -/
theorem forged_by_name :
    sampleRuntime.Verbatim sampleLayout ∧
    (oneMessage ['n'] ['t']).shape = (oneMessage "<e>".toList ['t']).shape ∧
    (oneMessage ['n'] ['t']).shape = (oneMessage (marker 0) ['t']).shape ∧
    ∃ plain special stolen, sampleRuntime.buildPrefill (oneMessage ['n'] ['t']) = .ok plain ∧
      sampleRuntime.buildPrefill (oneMessage "<e>".toList ['t']) = .ok special ∧
      sampleRuntime.buildPrefill (oneMessage (marker 0) ['t']) = .ok stolen ∧
      plain.specials sampleRuntime.tokenizer ≠ special.specials sampleRuntime.tokenizer ∧
      ¬Placed sampleRuntime sampleLayout (oneMessage (marker 0) ['t']) := by
  obtain ⟨plain, built, ids⟩ := built_of_idsOf ids_evaluated.1
  obtain ⟨special, built', ids'⟩ := built_of_idsOf ids_evaluated.2.2.1
  obtain ⟨stolen, built'', -⟩ := built_of_idsOf ids_evaluated.2.2.2.1
  refine ⟨sampleRuntime_verbatim, rfl, rfl, plain, special, stolen, built, built', built'', ?_, ?_⟩
  · rw [PreparedPrefill.specials, PreparedPrefill.specials, ids, ids']
    exact ids_evaluated.2.2.2.2.1
  · obtain ⟨-, text, inserted, -, -, rendered, -, -⟩ := buildPrefill_eq_ok built''
    rw [placed_iff sampleRuntime_verbatim rendered]
    intro unmarked
    exact unmarked 0 (marker 0) rfl Nat.one_pos (List.infix_refl _)

end Sample

end Muser.Prompt
