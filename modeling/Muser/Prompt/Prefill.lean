import Muser.Prompt.Message
import Muser.Lib.Weave
import Muser.Engine.Logits

/-! # The prompt of a request

The template renders the messages with a marker in the place of each content. What is rendered is cut at the
markers, and what stands between them is encoded with its special tokens, the contents without.
-/

namespace Muser.Prompt

open Text Atem Bpe

/-- How the preparation of a prompt ends without one: the tokenizer panics on a byte that it has no token of,
and does not end on an empty special token. -/
inductive Failure where
  | refused (error : ChatError)
  | panic
  | endless
deriving DecidableEq

def refuse {α : Type} (result : Except ChatError α) : Except Failure α := result.mapError .refused

section Rendering

/-- One character of compact JSON: what is written, whether a string is open, and whether it is escaped. -/
def spacingStep (state : Text × Bool × Bool) (character : Char) : Text × Bool × Bool :=
  let (output, inString, escaped) := state
  let output := output ++ [character]
  if inString then
    if escaped then (output, inString, false)
    else if character = '\\' then (output, inString, true)
    else if character = '"' then (output, false, escaped)
    else (output, inString, escaped)
  else if character = '"' then (output, true, escaped)
  else if character = ',' ∨ character = ':' then (output ++ [' '], inString, escaped)
  else (output, inString, escaped)

def pythonJsonSpacing (compact : Text) : Text := (compact.foldl spacingStep ([], false, false)).1

/-- The name and the ordered schema of a tool. -/
def toolSchema (toJson : JsonValue → Text) (tool : JsonValue) : Option (Text × Text) := do
  let function ← tool.get "function".toList
  let name ← (function.get "name".toList).bind JsonValue.asStr
  some (name, pythonJsonSpacing (toJson (.object (entry "name" (.string name) ::
    (optional "description" (function.get "description".toList) ++
      optional "parameters" (function.get "parameters".toList))))))

/-- A line that holds the schema of a tool is written in order; an empty line holds nothing. -/
def restoreLine (fromStr : Text → Option JsonValue) (replacements : List (Text × Text)) (body : Text) : Text :=
  if body = [] then body
  else
    match (fromStr body).filter fun value => (value.get "parameters".toList).isSome with
    | none => body
    | some value =>
      (((value.get "name".toList).bind JsonValue.asStr).bind fun name => lastOf replacements name).getD body

def restoreToolSchemaOrder (fromStr : Text → Option JsonValue) (toJson : JsonValue → Text) (rendered : Text)
    (tools : List JsonValue) : Text :=
  ['\n'].intercalate ((split ['\n'] rendered).map (restoreLine fromStr (tools.filterMap (toolSchema toJson))))

end Rendering

section Images

structure Vision (Image : Type) where
  preprocessBytes : Bytes → Except String Image
  projectedTokenCount : Image → Except String ℕ

structure VisionIdentity where
  projectorSha256 : Text
  preprocessingSha256 : Text
deriving DecidableEq

structure MultimodalIdentityV2 where
  projectorSha256 : Text
  preprocessingSha256 : Text
  imageSequenceSha256 : Text
deriving DecidableEq

inductive PrefillControlSegmentV2 where
  | tokens (tokenIds : List ℕ)
  | image (dataBase64 sha256 : Text) (projectedTokens : ℕ)
deriving DecidableEq

def maxEncodedBytes : ℕ := 48 * 1024 * 1024

def maxDecodedBytes : ℕ := 32 * 1024 * 1024

def decodeImageDataUrl (decode : Text → Option Bytes) (url : Text) : Except ChatError Bytes := do
  reject (maxEncodedBytes < url.size) (.badRequest "image data URL is too large")
  match splitOnce [','] url with
  | none => .error (.badRequest "image_url must be a base64 data:image URL")
  | some (header, payload) => do
    reject (!(startsWith header "data:image/".toList && ";base64".toList.isSuffixOf header))
      (.badRequest "image_url must be a base64 data:image URL")
    match decode payload with
    | none => .error (.badRequest "image_url contains invalid base64")
    | some bytes => do
      reject (maxDecodedBytes < bytes.length) (.badRequest "decoded image is too large")
      .ok bytes

end Images

/-- What the preparation of a prompt uses of the server. The engine of the templates, JSON, base64, hashes and
the vision model are parameters. -/
structure InferenceRuntime (Image : Type) where
  tokenizer : BpeTokenizer
  addsBosToken : Bool
  bosTokenId : Option ℕ
  template : JsonValue → Option JsonValue → Text → Bool → Except String Text
  currentDate : Text
  fromStr : Text → Option JsonValue
  toJson : JsonValue → Text
  base64Decode : Text → Option Bytes
  base64Encode : Bytes → Text
  sha256 : Bytes → Bytes
  hex : Bytes → Text
  vision : Option (Vision Image)
  visionIdentity : Option VisionIdentity

/-- What a prompt is made of. -/
structure PrefillRequest where
  messages : List Message
  tools : Option (List ToolDefinition)
  addGenerationPrompt : Bool

inductive PreparedSegment (Image : Type) where
  | tokens (tokens : List ℕ)
  | image (encoded : Bytes) (preprocessed : Image) (projectedTokens : ℕ)

def PreparedSegment.ids {Image : Type} : PreparedSegment Image → List ℕ
  | .tokens ids => ids
  | .image _ _ _ => []

def PreparedSegment.positions {Image : Type} : PreparedSegment Image → ℕ
  | .tokens ids => ids.length
  | .image _ _ projectedTokens => projectedTokens

def PreparedSegment.witnesses {Image : Type} : PreparedSegment Image → List ℕ
  | .tokens ids => ids
  | .image _ _ projectedTokens => List.replicate projectedTokens Engine.embeddingPositionWitness.toNat

structure PreparedPrefill (Image : Type) where
  segments : List (PreparedSegment Image)
  witnesses : List ℕ
  positions : ℕ
  remoteMultimodal : Option (MultimodalIdentityV2 × List PrefillControlSegmentV2)

/-- A piece of text, and whether special tokens are looked for in it. -/
abbrev Run := Text × Bool

/-- Text is added to the last run when that is of the same kind. -/
def push (runs : List Run) (text : Text) (parseSpecial : Bool) : List Run :=
  if text = [] then runs
  else
    match runs.getLast? with
    | some (run, mode) =>
      if mode = parseSpecial then runs.dropLast ++ [(run ++ text, mode)] else runs ++ [(text, parseSpecial)]
    | none => [(text, parseSpecial)]

/-- What a prompt is prepared of so far. -/
structure Building (Image : Type) where
  segments : List (PreparedSegment Image)
  controlSegments : List PrefillControlSegmentV2
  imageDigests : Bytes
  pending : List Run

namespace InferenceRuntime

variable {Image : Type} (runtime : InferenceRuntime Image)

def renderWithOptions (messages : JsonValue) (tools : Option (List JsonValue)) (addGenerationPrompt : Bool) :
    Except String Text := do
  let rendered ← runtime.template messages (tools.map .array) runtime.currentDate addGenerationPrompt
  match tools with
  | none => .ok rendered
  | some tools => .ok (restoreToolSchemaOrder runtime.fromStr runtime.toJson rendered tools)

def encodeWithOptions (run : Run) : Except Failure (List ℕ) :=
  match runtime.tokenizer.tryEncodeWithOptions run.1 run.2 with
  | none => .error .endless
  | some (.error _) => .error .panic
  | some (.ok ids) => .ok ids

def takeTokens (runs : List Run) : Except Failure (List ℕ) := do
  let parts ← runs.mapM runtime.encodeWithOptions
  .ok parts.flatten

def flushTextSegment (building : Building Image) : Except Failure (Building Image) :=
  if building.pending = [] then .ok building
  else do
    let tokens ← runtime.takeTokens building.pending
    if tokens = [] then .ok { building with pending := [] }
    else .ok { building with
      segments := building.segments ++ [.tokens tokens]
      controlSegments := building.controlSegments ++ [.tokens tokens]
      pending := [] }

/-- The bytes of an image, the image, and how many rows it is projected to. -/
def preparedImage (url : Text) : Except Failure (Bytes × Image × ℕ) :=
  match runtime.vision with
  | none =>
    .error (.refused (.badRequest "image input requires the server to be started with --mmproj"))
  | some vision => do
    let encoded ← refuse (decodeImageDataUrl runtime.base64Decode url)
    let image ← refuse ((vision.preprocessBytes encoded).mapError .badRequest)
    let projectedTokens ← refuse ((vision.projectedTokenCount image).mapError .badRequest)
    .ok (encoded, image, projectedTokens)

/-- The image in the place of a marker. -/
def insertImage (url : Text) (building : Building Image) : Except Failure (Building Image) := do
  let (encoded, image, projectedTokens) ← runtime.preparedImage url
  let digest := runtime.sha256 encoded
  .ok { building with
    segments := building.segments ++ [.image encoded image projectedTokens]
    controlSegments := building.controlSegments ++
      [.image (runtime.base64Encode encoded) (runtime.hex digest) (projectedTokens % 2 ^ 32)]
    imageDigests := building.imageDigests ++ digest }

def insert (building : Building Image) : Insertion → Except Failure (Building Image)
  | .text body => .ok { building with pending := push building.pending body false }
  | .image url => do
    let building ← runtime.flushTextSegment building
    runtime.insertImage url building

/-- Each marker is looked for after the last one, and what stands before it is scaffolding. -/
def insertAll : Text → List (Text × Insertion) → Building Image → Except Failure (Building Image)
  | cursor, [], building => runtime.flushTextSegment { building with pending := push building.pending cursor true }
  | cursor, (sentinel, insertion) :: rest, building =>
    match splitOnce sentinel cursor with
    | none => .error (.refused (.engine "Muse chat template dropped or reordered request content"))
    | some (before, after) => do
      let building ← runtime.insert { building with pending := push building.pending before true } insertion
      insertAll after rest building

/-- The beginning of a prompt. -/
def begun : Except Failure (Building Image) :=
  if runtime.addsBosToken then
    match runtime.bosTokenId with
    | none => .error (.refused (.engine "GGUF requests BOS insertion without a BOS token ID"))
    | some bos => .ok ⟨[.tokens [bos]], [.tokens [bos]], [], []⟩
  else .ok ⟨[], [], [], []⟩

def remoteMultimodal (building : Building Image) :
    Except ChatError (Option (MultimodalIdentityV2 × List PrefillControlSegmentV2)) :=
  if building.imageDigests = [] then .ok none
  else
    match runtime.visionIdentity with
    | none => .error (.engine "vision model is loaded without a release identity")
    | some identity => .ok (some (⟨identity.projectorSha256, identity.preprocessingSha256,
        runtime.hex (runtime.sha256 building.imageDigests)⟩, building.controlSegments))

/-- The text that the template renders of a request, and what is put in the place of its markers. -/
def rendered (request : PrefillRequest) : Except ChatError (Text × List (Text × Insertion)) := do
  let (messages, insertions) ← templateMessages runtime.fromStr 0 request.messages
  let text ← (runtime.renderWithOptions (.array messages) (request.tools.map (·.map ToolDefinition.toValue))
    request.addGenerationPrompt).mapError fun error => .badRequest s!"Muse chat template: {error}"
  .ok (text, insertions)

def buildPrefill (request : PrefillRequest) : Except Failure (PreparedPrefill Image) := do
  let begun ← runtime.begun
  let (text, insertions) ← refuse (runtime.rendered request)
  let building ← runtime.insertAll text insertions begun
  let positions := (building.segments.map PreparedSegment.positions).sum
  refuse (reject (positions = 0) (.badRequest "prompt tokenized to an empty sequence"))
  let remoteMultimodal ← refuse (runtime.remoteMultimodal building)
  .ok { segments := building.segments
        witnesses := building.segments.flatMap PreparedSegment.witnesses
        positions := positions
        remoteMultimodal := remoteMultimodal }

end InferenceRuntime

end Muser.Prompt
