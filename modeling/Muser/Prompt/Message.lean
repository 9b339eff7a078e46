import Muser.Atem.Output
import Muser.Tokenizer.Bpe

/-! # The messages of a request

The messages and tools that a client sends, as they are given to the chat template: each text and image of a
content is replaced by a marker, and the arguments of a tool call that hold an object are parsed.
-/

namespace Muser.Prompt

open Text Atem

inductive ChatError where
  | badRequest (message : String)
  | engine (message : String)
  | conflict (message : String)
deriving DecidableEq

structure MessageToolFunction where
  name : Text
  arguments : Text
deriving DecidableEq

structure MessageToolCall where
  id : Text
  kind : Text
  function : MessageToolFunction
deriving DecidableEq

inductive ContentPart where
  | text (text : Text)
  | imageUrl (url : Text)
deriving DecidableEq

inductive MessageContent where
  | text (text : Text)
  | parts (parts : List ContentPart)
  | null
deriving DecidableEq

structure Message where
  role : Text
  content : MessageContent
  name : Option Text
  toolCallId : Option Text
  toolCalls : Option (List MessageToolCall)
  reasoningContent : Option Text
  recipient : Option Text
  endTurn : Option Bool
deriving DecidableEq

structure ToolFunctionDefinition where
  name : Text
  description : Option Text
  parameters : JsonValue
  strict : Option Bool

structure ToolDefinition where
  kind : Text
  function : ToolFunctionDefinition

section Values

def entry (key : String) (value : JsonValue) : Text × JsonValue := (key.toList, value)

/-- A member that is left out when it is absent. -/
def optional (key : String) (value : Option JsonValue) : List (Text × JsonValue) := value.toList.map (entry key)

def nullable (value : Option JsonValue) : JsonValue := value.getD .null

def MessageToolCall.toValue (arguments : Text → JsonValue) (call : MessageToolCall) : JsonValue :=
  .object [entry "id" (.string call.id), entry "type" (.string call.kind),
    entry "function" (.object [entry "name" (.string call.function.name),
      entry "arguments" (arguments call.function.arguments)])]

def ContentPart.toValue : ContentPart → JsonValue
  | .text body => .object [entry "type" (.string "text".toList), entry "text" (.string body)]
  | .imageUrl url =>
    .object [entry "type" (.string "image_url".toList), entry "image_url" (.object [entry "url" (.string url)])]

def MessageContent.toValue : MessageContent → JsonValue
  | .text body => .string body
  | .parts items => .array (items.map ContentPart.toValue)
  | .null => .null

/-- The value of a message with this content, and with the arguments of its calls written so. -/
def Message.valueWith (arguments : Text → JsonValue) (content : JsonValue) (message : Message) : JsonValue :=
  .object ([entry "role" (.string message.role), entry "content" content] ++
    optional "name" (message.name.map .string) ++
    optional "tool_call_id" (message.toolCallId.map .string) ++
    optional "tool_calls" (message.toolCalls.map fun calls => .array (calls.map (·.toValue arguments))) ++
    optional "reasoning_content" (message.reasoningContent.map .string) ++
    optional "recipient" (message.recipient.map .string) ++
    optional "end_turn" (message.endTurn.map .bool))

def Message.toValue (message : Message) : JsonValue := message.valueWith .string message.content.toValue

def ToolDefinition.toValue (tool : ToolDefinition) : JsonValue :=
  .object [entry "type" (.string tool.kind),
    entry "function" (.object [entry "name" (.string tool.function.name),
      entry "description" (nullable (tool.function.description.map .string)),
      entry "parameters" tool.function.parameters, entry "strict" (nullable (tool.function.strict.map .bool))])]

/-- The arguments that the template is given: an object where the text holds one. -/
def normalizedArguments (fromStr : Text → Option JsonValue) (raw : Text) : JsonValue :=
  match fromStr raw with
  | some (.object members) => .object members
  | _ => .string raw

end Values

section Markers

/-- What is put in the place of a marker. -/
inductive Insertion where
  | text (text : Text)
  | image (url : Text)
deriving DecidableEq

def marker (index : ℕ) : Text :=
  Char.ofNat 0xe000 :: ("muser-content-".toList ++ ((toString index).toList ++ [Char.ofNat 0xe001]))

def ContentPart.insertion : ContentPart → Insertion
  | .text body => .text body
  | .imageUrl url => .image url

/-- An assistant's message with tool calls is rendered without its content. -/
def Message.rendersContent (message : Message) : Bool :=
  !(message.role == "assistant".toList && message.toolCalls.any (!·.isEmpty))

def MessageContent.insertions : MessageContent → List Insertion
  | .text body => [.text body]
  | .parts items => items.map ContentPart.insertion
  | .null => []

def Message.insertions (message : Message) : List Insertion :=
  if message.rendersContent then message.content.insertions else []

/-- The content with a marker, counted from the next one, for each of its texts and images. -/
def MessageContent.guarded (next : ℕ) : MessageContent → JsonValue
  | .text _ => .string (marker next)
  | .parts items => .array (items.mapIdx fun offset _ =>
      .object [entry "type" (.string "text".toList), entry "text" (.string (marker (next + offset)))])
  | .null => .null

def Message.guarded (next : ℕ) (message : Message) : JsonValue :=
  if message.rendersContent then message.content.guarded next else .null

def roles : List Text := ["system".toList, "user".toList, "assistant".toList, "tool".toList]

local instance text_lawful : LawfulBEq Text := inferInstance

/-- The messages for the template, and what is put in the place of the markers. -/
def templateMessages (fromStr : Text → Option JsonValue) :
    ℕ → List Message → Except ChatError (List JsonValue × List (Text × Insertion))
  | _, [] => .ok ([], [])
  | next, message :: rest => do
    let role := String.ofList message.role
    reject (message.role ∉ roles) (.badRequest s!"unsupported message role '{role}'")
    let (values, insertions) ← templateMessages fromStr (next + message.insertions.length) rest
    .ok (message.valueWith (normalizedArguments fromStr) (message.guarded next) :: values,
      message.insertions.mapIdx (fun offset insertion => (marker (next + offset), insertion)) ++ insertions)

end Markers

section Facts

variable {fromStr : Text → Option JsonValue} {values : List JsonValue} {inserted : List (Text × Insertion)}

/-- All that the messages have put in the place of markers, in order. -/
def insertions (messages : List Message) : List Insertion := messages.flatMap Message.insertions

variable {messages : List Message}

/-- The markers are counted through all messages. -/
theorem inserted_eq {next : ℕ} (made : templateMessages fromStr next messages = .ok (values, inserted)) :
    inserted = (insertions messages).mapIdx fun offset insertion => (marker (next + offset), insertion) := by
  induction messages generalizing next values inserted with
  | nil =>
    cases made
    rfl
  | cons message rest ih =>
    rw [templateMessages] at made
    obtain ⟨-, made⟩ := check_eq_ok_iff.mp made
    obtain ⟨⟨others, more⟩, below, made⟩ := bind_eq_ok_iff.mp made
    cases made
    rw [ih below, insertions, insertions, List.flatMap_cons, List.mapIdx_append]
    refine congrArg₂ (· ++ ·) rfl (congrArg (List.mapIdx · (rest.flatMap Message.insertions)) ?_)
    funext offset insertion
    rw [Nat.add_assoc, Nat.add_comm offset]

theorem sentinels_eq (made : templateMessages fromStr 0 messages = .ok (values, inserted)) :
    inserted.map (·.1) = (List.range (insertions messages).length).map marker := by
  rw [inserted_eq made]
  apply List.ext_getElem
  · simp
  · intro index here there
    simp

theorem inserted_snd (made : templateMessages fromStr 0 messages = .ok (values, inserted)) :
    inserted.map (·.2) = insertions messages := by
  rw [inserted_eq made]
  apply List.ext_getElem
  · simp
  · intro index here there
    simp

end Facts

end Muser.Prompt

/-! ## Stored conversations

Messages are stored as what they are serialized to, and are read back from it: a JSON text stands here for the
value that it holds. What is read back is what was stored.
-/

namespace Muser.Atem.JsonValue

def asStr : JsonValue → Option Text
  | string text => some text
  | _ => none

def asBool : JsonValue → Option Bool
  | bool value => some value
  | _ => none

def asArray : JsonValue → Option (List JsonValue)
  | array items => some items
  | _ => none

/-- An object with members of these names only, each at most once. -/
def knows (value : JsonValue) (known : List String) : Bool :=
  value.asObject.any fun members =>
    (members.all fun member => known.any (·.toList == member.1)) && decide (members.map (·.1)).Nodup

end Muser.Atem.JsonValue

namespace Muser.Prompt

open Text Atem

section Reading

/-- A member that may be absent or null. -/
def readOptional {α : Type} (read : JsonValue → Option α) : Option JsonValue → Option (Option α)
  | none => some none
  | some .null => some none
  | some value => (read value).map some

def MessageToolFunction.ofValue (value : JsonValue) : Option MessageToolFunction := do
  guard (value.knows ["name", "arguments"])
  let name ← (value.get "name".toList).bind JsonValue.asStr
  let arguments ← (value.get "arguments".toList).bind JsonValue.asStr
  some ⟨name, arguments⟩

def MessageToolCall.ofValue (value : JsonValue) : Option MessageToolCall := do
  guard (value.knows ["id", "type", "function"])
  let id ← (value.get "id".toList).bind JsonValue.asStr
  let kind ← (value.get "type".toList).bind JsonValue.asStr
  let function ← (value.get "function".toList).bind MessageToolFunction.ofValue
  some ⟨id, kind, function⟩

def imageUrlOf (value : JsonValue) : Option Text := do
  guard (value.knows ["url"])
  (value.get "url".toList).bind JsonValue.asStr

def ContentPart.ofValue (value : JsonValue) : Option ContentPart := do
  let kind ← (value.get "type".toList).bind JsonValue.asStr
  if kind = "text".toList then do
    guard (value.knows ["type", "text"])
    let body ← (value.get "text".toList).bind JsonValue.asStr
    some (.text body)
  else if kind = "image_url".toList then do
    guard (value.knows ["type", "image_url"])
    let url ← (value.get "image_url".toList).bind imageUrlOf
    some (.imageUrl url)
  else none

def MessageContent.ofValue : JsonValue → Option MessageContent
  | .string body => some (.text body)
  | .array items => (items.mapM ContentPart.ofValue).map .parts
  | .null => some .null
  | _ => none

def messageKeys : List String :=
  ["role", "content", "name", "tool_call_id", "tool_calls", "reasoning_content", "recipient", "end_turn"]

def Message.ofValue (value : JsonValue) : Option Message := do
  guard (value.knows messageKeys)
  let role ← (value.get "role".toList).bind JsonValue.asStr
  let content ← (value.get "content".toList).bind MessageContent.ofValue
  let name ← readOptional JsonValue.asStr (value.get "name".toList)
  let toolCallId ← readOptional JsonValue.asStr (value.get "tool_call_id".toList)
  let toolCalls ← readOptional (fun calls => calls.asArray.bind (·.mapM MessageToolCall.ofValue))
    (value.get "tool_calls".toList)
  let reasoningContent ← readOptional JsonValue.asStr (value.get "reasoning_content".toList)
  let recipient ← readOptional JsonValue.asStr (value.get "recipient".toList)
  let endTurn ← readOptional JsonValue.asBool (value.get "end_turn".toList)
  some ⟨role, content, name, toolCallId, toolCalls, reasoningContent, recipient, endTurn⟩

/-- The stored conversation. -/
def planOf (stored : JsonValue) : Option (List Message) := stored.asArray.bind (·.mapM Message.ofValue)

def planValue (messages : List Message) : JsonValue := .array (messages.map Message.toValue)

end Reading

section RoundTrip

theorem mapM_map_some {α β : Type} {write : α → β} {read : β → Option α} (inverse : ∀ value, read (write value) = some value)
    (values : List α) : (values.map write).mapM read = some values := by
  induction values with
  | nil => rfl
  | cons value rest ih =>
    rw [List.map_cons, List.mapM_cons, inverse, ih]
    rfl

theorem readOptional_some {α : Type} {write : α → JsonValue} {read : JsonValue → Option α}
    (inverse : ∀ value, read (write value) = some value) (nonnull : ∀ value, write value ≠ .null) (value : Option α) :
    readOptional read (value.map write) = some value := by
  cases value with
  | none => rfl
  | some value =>
    rw [Option.map_some, readOptional, inverse]
    · rfl
    · exact nonnull value

theorem MessageToolCall.ofValue_toValue (call : MessageToolCall) :
    MessageToolCall.ofValue (call.toValue .string) = some call := by
  rfl

theorem ContentPart.ofValue_toValue (part : ContentPart) : ContentPart.ofValue part.toValue = some part := by
  cases part <;> rfl

theorem MessageContent.ofValue_toValue (content : MessageContent) :
    MessageContent.ofValue content.toValue = some content := by
  cases content with
  | text body => rfl
  | null => rfl
  | parts items =>
    rw [MessageContent.toValue, MessageContent.ofValue, mapM_map_some ContentPart.ofValue_toValue]
    rfl

theorem find_entry (key other : String) (value : JsonValue) (rest : List (Text × JsonValue)) :
    (entry key value :: rest).find? (fun member => member.1 == other.toList) =
      if key = other then some (entry key value) else rest.find? fun member => member.1 == other.toList := by
  rw [List.find?_cons, entry]
  split <;> rename_i is <;> simp only [beq_iff_eq, beq_eq_false_iff_ne, String.toList_inj, ne_eq] at is <;> simp [is]

theorem find_optional (key other : String) (value : Option JsonValue) :
    (optional key value).find? (fun member => member.1 == other.toList) =
      if key = other then value.map (entry key) else none := by
  cases value with
  | none => simp [optional]
  | some value => exact find_entry key other value []

/-- The members of a serialized message. -/
theorem valueWith_get (arguments : Text → JsonValue) (content : JsonValue) (message : Message) :
    (message.valueWith arguments content).get "role".toList = some (.string message.role) ∧
    (message.valueWith arguments content).get "content".toList = some content ∧
    (message.valueWith arguments content).get "name".toList = message.name.map .string ∧
    (message.valueWith arguments content).get "tool_call_id".toList = message.toolCallId.map .string ∧
    (message.valueWith arguments content).get "tool_calls".toList =
      message.toolCalls.map (fun calls => .array (calls.map (·.toValue arguments))) ∧
    (message.valueWith arguments content).get "reasoning_content".toList = message.reasoningContent.map .string ∧
    (message.valueWith arguments content).get "recipient".toList = message.recipient.map .string ∧
    (message.valueWith arguments content).get "end_turn".toList = message.endTurn.map .bool := by
  refine ⟨rfl, rfl, ?_, ?_, ?_, ?_, ?_, ?_⟩
  all_goals
    simp only [Message.valueWith, JsonValue.get, JsonValue.asObject, Option.bind_some, List.cons_append, List.nil_append,
      List.find?_append, find_entry, find_optional, String.reduceEq, reduceIte, Option.none_or, Option.or_none]
    rw [Option.map_map]
    simp [Function.comp_def, entry]

theorem optional_keys (key : String) (value : Option JsonValue) :
    ((optional key value).map (·.1)).Sublist [key.toList] := by
  cases value with
  | none => exact List.nil_sublist _
  | some value => exact List.Sublist.refl _

theorem messageKeys_nodup : (messageKeys.map String.toList).Nodup := by decide

/-- A serialized message has members of a message only, each at most once. -/
theorem knows_valueWith (arguments : Text → JsonValue) (content : JsonValue) (message : Message) :
    (message.valueWith arguments content).knows messageKeys = true := by
  have keys : ∀ members, message.valueWith arguments content = .object members →
      (members.map (·.1)).Sublist (messageKeys.map String.toList) := by
    intro members is
    cases is
    simp only [List.map_append]
    exact ((((((List.Sublist.refl _).append (optional_keys _ _)).append (optional_keys _ _)).append
      (optional_keys _ _)).append
      (optional_keys _ _)).append (optional_keys _ _)).append (optional_keys _ _)
  have below := keys _ rfl
  rw [JsonValue.knows, Message.valueWith, JsonValue.asObject, Option.any_some, Bool.and_eq_true, List.all_eq_true,
    decide_eq_true_iff]
  refine ⟨fun member mem => ?_, messageKeys_nodup.sublist below⟩
  obtain ⟨key, among, same⟩ := List.mem_map.mp (below.subset (List.mem_map_of_mem mem))
  exact List.any_eq_true.mpr ⟨key, among, beq_iff_eq.mpr same⟩

theorem Message.ofValue_toValue (message : Message) : Message.ofValue message.toValue = some message := by
  obtain ⟨role, content, name, callId, toolCalls, reasoning, recipient, endTurn⟩ :=
    valueWith_get .string message.content.toValue message
  have string : ∀ value : Option Text, readOptional JsonValue.asStr (value.map .string) = some value :=
    @readOptional_some Text .string JsonValue.asStr (fun _ => rfl) (by intro _ is; cases is)
  have calls : readOptional (fun calls => calls.asArray.bind (·.mapM MessageToolCall.ofValue))
      (message.toolCalls.map fun calls => .array (calls.map (·.toValue .string))) = some message.toolCalls :=
    readOptional_some (fun calls => mapM_map_some MessageToolCall.ofValue_toValue calls) (by intro _ is; cases is) _
  have bool : readOptional JsonValue.asBool (message.endTurn.map .bool) = some message.endTurn :=
    @readOptional_some Bool .bool JsonValue.asBool (fun _ => rfl) (by intro _ is; cases is) _
  rw [Message.ofValue, Message.toValue, knows_valueWith, role, content, name, callId, toolCalls, reasoning,
    recipient, endTurn]
  simp [string, calls, bool, MessageContent.ofValue_toValue, JsonValue.asStr]

/-- What is stored of a conversation is the conversation. -/
theorem planOf_planValue (messages : List Message) : planOf (planValue messages) = some messages :=
  mapM_map_some Message.ofValue_toValue messages

end RoundTrip

end Muser.Prompt
