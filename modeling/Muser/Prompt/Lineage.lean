import Muser.Prompt.Placement

/-! # The context policy

A prompt that is too long is refused, or made from the newest turns of the conversation under its system messages,
or of the first and the newest tokens of a prompt that was sent as tokens.
-/

namespace Muser.Prompt

open Text

inductive ContextPolicy where
  | error
  | shift
deriving DecidableEq

/-- The server with the limits of its context. -/
structure ServingRuntime (Image : Type) extends InferenceRuntime Image where
  maxContext : ℕ
  contextPolicy : ContextPolicy
  rawRetainPrefix : ℕ

structure ChatRequest extends PrefillRequest where
  muserPromptTokenIds : Option (List ℕ)

structure CanonicalPrefill (Image : Type) where
  prefill : PreparedPrefill Image
  replayMessages : List Message
  shifted : Bool

def retainedContextCapacity (maxContext outputReserve : ℕ) : Except ChatError ℕ := do
  reject (maxContext < outputReserve)
    (.badRequest s!"output reserve {outputReserve} cannot fit the {maxContext} token context")
  reject (maxContext - outputReserve = 0) (.badRequest "minimum retained context plus output reserve cannot fit")
  .ok (maxContext - outputReserve)

def compactRawPrompt (tokens : List ℕ) (capacity retainPrefix : ℕ) : Except ChatError (List ℕ) := do
  reject (capacity ≤ retainPrefix) (.badRequest
    s!"configured raw prefix {retainPrefix}, a nonempty newest suffix, and output reserve cannot fit")
  .ok (tokens.take retainPrefix ++ tokens.drop (tokens.length - (capacity - retainPrefix)))

/-- One message is put after the turns before it: a user's begins a new one. -/
def addToTurns (turns : List (List Message)) (message : Message) : List (List Message) :=
  if message.role = "user".toList ∨ turns = [] then turns ++ [[message]]
  else turns.modifyLast (· ++ [message])

def completeChatTurns (messages : List Message) : List (List Message) := messages.foldl addToTurns []

def isSystem (message : Message) : Bool := message.role == "system".toList

def shiftChatUnits (messages : List Message) : Except ChatError (List Message × List (List Message)) := do
  reject ((messages.dropWhile isSystem).any isSystem)
    (.badRequest "context shift requires all system messages to precede conversation turns")
  .ok (messages.takeWhile isSystem, completeChatTurns (messages.dropWhile isSystem))

def buildExactTokenPrefill {Image : Type} (tokens : List ℕ) : Except ChatError (PreparedPrefill Image) := do
  reject (tokens = []) (.badRequest "muser_prompt_token_ids must not be empty")
  .ok ⟨[.tokens tokens], tokens, tokens.length, none⟩

namespace ServingRuntime

variable {Image : Type} (runtime : ServingRuntime Image)

/-- The newest turns that fit, under the system messages. -/
def newestTurns (request : ChatRequest) (systems : List Message) (capacity : ℕ) :
    List (List Message) → Except Failure (CanonicalPrefill Image)
  | [] => .error (.refused (.badRequest "system content plus output reserve cannot fit without a complete turn"))
  | turn :: turns => do
    let messages := systems ++ (turn :: turns).flatten
    let prefill ← runtime.buildPrefill { request.toPrefillRequest with messages := messages }
    if prefill.positions ≤ capacity then .ok ⟨prefill, messages, true⟩
    else if turns = [] then
      .error (.refused (.badRequest "system content, newest complete turn, and output reserve cannot fit"))
    else newestTurns request systems capacity turns

def prepareWithContextPolicy (request : ChatRequest) (outputReserve : ℕ) :
    Except Failure (CanonicalPrefill Image) := do
  let capacity ← refuse (retainedContextCapacity runtime.maxContext outputReserve)
  match request.muserPromptTokenIds with
  | some tokens =>
    if capacity < tokens.length then do
      refuse (reject (runtime.contextPolicy = .error)
        (.badRequest s!"raw prompt plus output reserve exceeds context limit {runtime.maxContext}"))
      let retained ← refuse (compactRawPrompt tokens capacity runtime.rawRetainPrefix)
      let prefill ← refuse (buildExactTokenPrefill retained)
      .ok ⟨prefill, [], true⟩
    else do
      let prefill ← refuse (buildExactTokenPrefill tokens)
      .ok ⟨prefill, [], false⟩
  | none => do
    let full ← runtime.buildPrefill request.toPrefillRequest
    if full.positions ≤ capacity then .ok ⟨full, request.messages, false⟩
    else do
      refuse (reject (runtime.contextPolicy = .error)
        (.badRequest s!"chat prompt plus output reserve exceeds context limit {runtime.maxContext}"))
      let (systems, turns) ← refuse (shiftChatUnits request.messages)
      runtime.newestTurns request systems capacity turns

end ServingRuntime

end Muser.Prompt

/-! ## The lineage of a session

A stateful request goes on from the bundle that its session committed last: its snapshot is installed for the
positions of the prompt that have the bundle's witnesses, once the request's conversation extends the stored one.
-/

namespace Muser.Prompt

open Text Atem

/-- What stands at a position of a prompt: a token, or a row of an image. -/
inductive PositionInput where
  | token (id : ℕ)
  | image (encoded : Bytes) (row : ℕ)
deriving DecidableEq

def PositionInput.witness : PositionInput → ℕ
  | .token id => id
  | .image _ _ => Engine.embeddingPositionWitness.toNat

def PositionInput.isImage : PositionInput → Bool
  | .token _ => false
  | .image _ _ => true

def rows (encoded : Bytes) (count : ℕ) : List PositionInput := (List.range count).map (.image encoded)

section Inputs

variable {Image : Type}

def PreparedSegment.inputs : PreparedSegment Image → List PositionInput
  | .tokens ids => ids.map .token
  | .image encoded _ projectedTokens => rows encoded projectedTokens

def PreparedPrefill.inputs (prepared : PreparedPrefill Image) : List PositionInput :=
  prepared.segments.flatMap PreparedSegment.inputs

end Inputs

/-- What a session has committed. What its snapshot was computed from is not part of it. -/
structure SessionBundle where
  positionWitnesses : List ℕ
  targetTokens : List ℕ
  contextEpoch : ℕ
  canonicalReplayPlanJson : JsonValue
  inputs : List PositionInput

section Validation

variable {α : Type} [DecidableEq α]

def windows (width : ℕ) (items : List α) : List (List α) :=
  (List.range (items.length + 1 - width)).map fun start => (items.drop start).take width

def containsContiguous (haystack needle : List α) : Bool :=
  needle.isEmpty || (decide (needle.length ≤ haystack.length) && (windows needle.length haystack).any (· == needle))

/-- Whether the request's conversation extends the stored one. The messages are compared, as what they are
serialized to tells them apart. -/
def extendsPlan (contextEpoch : ℕ) (previousPlan previousSystems current currentSystems : List Message) : Bool :=
  if contextEpoch = 0 ∨ previousPlan.isPrefixOf current then previousPlan.isPrefixOf current
  else previousSystems == currentSystems &&
    containsContiguous (current.drop currentSystems.length) (previousPlan.drop previousSystems.length)

/-- Whether the tokens extend the stored ones. -/
def extendsTokens (contextEpoch rawRetainPrefix : ℕ) (previous tokens : List ℕ) : Bool :=
  if contextEpoch = 0 then previous.isPrefixOf tokens
  else (previous.take (min rawRetainPrefix previous.length)).isPrefixOf tokens &&
    containsContiguous (tokens.drop (min rawRetainPrefix previous.length))
      (previous.drop (min rawRetainPrefix previous.length))

/-- Whether the stored snapshot is of the first positions of the prompt. -/
def validateSessionLineage (bundle : SessionBundle) (request : ChatRequest) (promptWitnesses : List ℕ)
    (rawRetainPrefix : ℕ) : Except ChatError Bool :=
  match planOf bundle.canonicalReplayPlanJson with
  | none => .error (.conflict "stored canonical replay plan is invalid")
  | some previousPlan =>
    let exactFrontier := bundle.positionWitnesses.isPrefixOf promptWitnesses
    match request.muserPromptTokenIds with
    | some tokens => do
      reject (!previousPlan.isEmpty) (.conflict "raw continuation cannot replace a committed chat replay plan")
      reject (!extendsTokens bundle.contextEpoch rawRetainPrefix bundle.targetTokens tokens)
        (.conflict "raw prompt does not extend the committed session frontier")
      .ok exactFrontier
    | none => do
      reject previousPlan.isEmpty (.conflict "chat continuation cannot replace a committed raw replay plan")
      let (previousSystems, _) ← (shiftChatUnits previousPlan).mapError fun _ =>
        .conflict "stored replay plan has non-leading system content"
      let (currentSystems, _) ← shiftChatUnits request.messages
      reject (!extendsPlan bundle.contextEpoch previousPlan previousSystems request.messages currentSystems)
        (.conflict "canonical replay plan does not extend the committed session frontier")
      .ok exactFrontier

end Validation

def nextContextEpoch (previous : ℕ) (rebuilt : Bool) : Except ChatError ℕ := do
  reject (2 ^ 64 ≤ previous + rebuilt.toNat) (.conflict "session context epoch overflow")
  .ok (previous + rebuilt.toNat)

structure PlannedTurn (Image : Type) where
  prefill : PreparedPrefill Image
  replayMessages : List Message
  shifted : Bool
  contextEpoch : ℕ

namespace ServingRuntime

variable {Image : Type} (runtime : ServingRuntime Image)

/-- Whether the context is rebuilt: a prompt that was cut is, and one that does not begin with the snapshot. -/
def rebuilt (bundle : Option SessionBundle) (request : ChatRequest) (prepared : CanonicalPrefill Image) :
    Except ChatError Bool :=
  match bundle with
  | none => .ok prepared.shifted
  | some bundle => do
    let exactFrontier ← validateSessionLineage bundle request prepared.prefill.witnesses runtime.rawRetainPrefix
    if prepared.shifted || exactFrontier then .ok prepared.shifted
    else do
      reject (runtime.contextPolicy = .error)
        (.badRequest "session continuation requires a context rebuild but context policy is error")
      .ok true

def planTurn (bundle : Option SessionBundle) (request : ChatRequest) (outputReserve : ℕ) :
    Except Failure (PlannedTurn Image) := do
  let prepared ← runtime.prepareWithContextPolicy request outputReserve
  let shifted ← refuse (runtime.rebuilt bundle request prepared)
  let contextEpoch ← refuse (nextContextEpoch (bundle.elim 0 (·.contextEpoch)) shifted)
  .ok ⟨prepared.prefill, prepared.replayMessages, shifted, contextEpoch⟩

/-- The bundle of which the snapshot is installed. -/
def installed (bundle : Option SessionBundle) (planned : PlannedTurn Image) : Option SessionBundle :=
  if planned.shifted then none else bundle

/-- What a turn commits that generated these tokens: the snapshot that was installed, the rest of the prompt and
what was generated. -/
def committed (bundle : Option SessionBundle) (planned : PlannedTurn Image) (generated : List ℕ) : SessionBundle :=
  let restored := (installed bundle planned).elim [] (·.targetTokens)
  let history := restored ++ planned.prefill.witnesses.drop restored.length ++ generated
  { positionWitnesses := history
    targetTokens := history
    contextEpoch := planned.contextEpoch
    canonicalReplayPlanJson := planValue planned.replayMessages
    inputs := (installed bundle planned).elim [] (·.inputs) ++ planned.prefill.inputs.drop restored.length ++
      generated.map .token }

def commitTurn (bundle : Option SessionBundle) (request : ChatRequest) (outputReserve : ℕ) (generated : List ℕ) :
    Except Failure SessionBundle := do
  let planned ← runtime.planTurn bundle request outputReserve
  .ok (committed bundle planned generated)

end ServingRuntime

end Muser.Prompt
