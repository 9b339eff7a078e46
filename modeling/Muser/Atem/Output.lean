import Muser.Lib.Check
import Muser.Gbnf.Writing

/-! # Assistant output

The wire format of an assistant's turn: phases that end with a marker, each addressed to the assistant
itself, to the user or to a tool, and function calls in angle brackets. The JSON library and the hash
that names a call are parameters.
-/

namespace Muser.Atem

open Text

def startMarker : Text := "<|start|>assistant".toList
def messageMarker : Text := "<|message|>".toList
def phaseEnd : Text := "<|eom|>".toList
def turnEnd : Text := "<|eot|>".toList
def recipientMarker : Text := " to=".toList
def callsOpen : Text := "<atem:function_calls>".toList
def callsClose : Text := "</atem:function_calls>".toList
def invokeOpen : Text := "<atem:invoke name=\"".toList
def invokeClose : Text := "</atem:invoke>".toList
def parameterOpen : Text := "<atem:parameter name=\"".toList
def parameterClose : Text := "</atem:parameter>".toList
def nameClose : Text := "\">".toList
def selfRecipient : Text := "self".toList
def userRecipient : Text := "user".toList
def toolRecipient : Text := "tool".toList

/-- What comes from other libraries: JSON values and the digest that a call is named by. -/
structure Outside (Value : Type) where
  fromStr : Text → Option Value
  string : Text → Value
  toString : List (Text × Value) → Text
  callId : Text → Text → ℕ → Text
  debug : Text → String

/-- No parameter is JSON. -/
def texts : Outside Text := ⟨fun _ => none, id, fun _ => [], fun _ _ _ => [], String.ofList⟩

structure ParsedToolCall where
  id : Text
  name : Text
  arguments : Text
deriving DecidableEq

structure ParsedAtemOutput where
  content : Text
  reasoning : Text
  toolCalls : List ParsedToolCall
deriving DecidableEq

/-- A character of a function's name. -/
def isNameCharacter (character : Char) : Bool :=
  character.isAlphanum || character == '_' || character == '-' || character == '.'

variable {Value : Type} (outside : Outside Value)

/-- The parameters of a call, for a bound on their number. -/
def parameters : ℕ → Text → List (Text × Value) → Except String (List (Text × Value))
  | 0, _, found => .ok found
  | count + 1, body, found =>
    let body := trimStart body
    if body.isEmpty then .ok found
    else match parameterOpen.isPrefixOf? body with
      | none => .error "unexpected text outside an ATEM parameter"
      | some body =>
        match splitOnce nameClose body with
        | none => .error "malformed ATEM parameter name"
        | some (name, body) =>
          if name.isEmpty then .error "ATEM parameter name is empty"
          else match splitOnce parameterClose body with
            | none => .error "unterminated ATEM parameter"
            | some (raw, rest) =>
              if includes raw "<atem:".toList || includes raw "</atem:".toList then
                .error "ATEM parameter value contains a structural tag"
              else if found.any fun parameter => parameter.1 == name then
                .error s!"duplicate ATEM parameter {outside.debug name}"
              else parameters count rest (found ++ [(name, (outside.fromStr raw).getD (outside.string raw))])

/-- The calls of a block, for a bound on their number. -/
def invokes : ℕ → Text → List ParsedToolCall → Except String (List ParsedToolCall)
  | 0, _, calls => .ok calls
  | count + 1, cursor, calls =>
    let cursor := trimStart cursor
    if cursor.isEmpty then .ok calls
    else match invokeOpen.isPrefixOf? cursor with
      | none => .error "unexpected text outside an ATEM invoke"
      | some cursor =>
        match splitOnce nameClose cursor with
        | none => .error "malformed ATEM invoke name"
        | some (name, cursor) =>
          if name.isEmpty || !name.all isNameCharacter then
            .error "ATEM invoke name is outside the closed function-name grammar"
          else match splitOnce invokeClose cursor with
            | none => .error "unterminated ATEM invoke"
            | some (body, rest) => do
              let found ← parameters outside (body.length + 1) body []
              let arguments := outside.toString found
              invokes count rest (calls ++ [⟨outside.callId name arguments calls.length, name, arguments⟩])

/-- What stands between an opening and a closing tag. -/
def block (text : Text) : Option Text :=
  (callsOpen.isPrefixOf? (trim text)).bind fun inner => (callsClose.isSuffixOf? inner)

def parseAtemCalls (text : Text) : Except String (List ParsedToolCall) :=
  match block text with
  | none => .error "ATEM function-call phase must contain one closed outer block"
  | some cursor => do
    let calls ← invokes outside (cursor.length + 1) cursor []
    reject calls.isEmpty "ATEM function-call block contains no invokes"
    .ok calls

def validateAtemRecipient (recipient : Text) (calls : List ParsedToolCall) : Except String Unit :=
  reject (recipient != toolRecipient && !calls.head?.any fun call => call.name == recipient)
    s!"assistant recipient {outside.debug recipient} does not match the first ATEM invoke"

/-- Whom a phase is addressed to, and what it says. -/
def address (phase : Text) : Except String (Text × Text) :=
  let phase := trimStartMatches startMarker phase
  match recipientMarker.isPrefixOf? phase with
  | some rest =>
    match splitOnce messageMarker rest with
    | none => .error "assistant recipient header omits <|message|>"
    | some (name, body) => .ok (trim name, body)
  | none =>
    match messageMarker.isPrefixOf? phase with
    | some body => .ok (userRecipient, body)
    | none => .ok (userRecipient, phase)

/-- Add what a phase says to the output. -/
def ParsedAtemOutput.add (output : ParsedAtemOutput) (recipient phase : Text) : Except String ParsedAtemOutput :=
  if phase.isEmpty then .ok output
  else if recipient = selfRecipient then .ok { output with reasoning := output.reasoning ++ phase }
  else if includes phase callsOpen then do
    let calls ← parseAtemCalls outside phase
    validateAtemRecipient outside recipient calls
    .ok { output with toolCalls := output.toolCalls ++ calls }
  else if recipient = userRecipient then .ok { output with content := output.content ++ phase }
  else .error s!"assistant emitted recipient {outside.debug recipient} without an ATEM function-call block"

def addPhase (output : ParsedAtemOutput) (raw : Text) : Except String ParsedAtemOutput := do
  let (recipient, phase) ← address raw
  output.add outside recipient phase

def parseAtemOutput (text : Text) : Except String ParsedAtemOutput :=
  (split phaseEnd (remove turnEnd text)).foldlM (addPhase outside) ⟨[], [], []⟩

end Muser.Atem

/-! ## Required tool calls

A request that requires a tool call has its output constrained by a grammar that is written for its tools.
The compiler of a tool's own schema is a parameter: its grammar is not used here.
-/

namespace Muser.Atem

open Text Gbnf

/-- A JSON value; a number is its text. -/
inductive JsonValue where
  | null
  | bool (value : Bool)
  | number (text : Text)
  | string (text : Text)
  | array (items : List JsonValue)
  | object (members : List (Text × JsonValue))

namespace JsonValue

def asObject : JsonValue → Option (List (Text × JsonValue))
  | object members => some members
  | _ => none

def isObject (value : JsonValue) : Bool := value.asObject.isSome

def get (value : JsonValue) (key : Text) : Option JsonValue :=
  value.asObject.bind fun members => (members.find? fun member => member.1 == key).map (·.2)

/-- Whether an object takes members that it does not name. -/
def additional (parameters : JsonValue) : Bool :=
  match parameters.get "additionalProperties".toList with
  | some (bool false) => false
  | _ => true

end JsonValue

structure ToolDefinition where
  kind : Text
  name : Text
  parameters : JsonValue

inductive ToolChoice where
  | mode (mode : Text)
  | named (kind name : Text)

structure ChatTools where
  tools : Option (List ToolDefinition)
  toolChoice : Option ToolChoice
  parallelToolCalls : Bool

/-- A request that must be answered by a tool call. -/
def ChatTools.required (request : ChatTools) : Bool :=
  match request.toolChoice with
  | some (.mode mode) => mode == "required".toList
  | some (.named _ _) => true
  | none => false

/-- The name that a choice is bound to. -/
def ChatTools.selected (request : ChatTools) : Option Text :=
  match request.toolChoice with
  | some (.named _ name) => some name
  | _ => none

/-- The tools that may be called. -/
def ChatTools.eligible (request : ChatTools) : List ToolDefinition :=
  (request.tools.getD []).filter fun tool => request.selected.all fun name => tool.name == name

def validateTool (schemaGrammar : JsonValue → Except String Text) (index : ℕ)
    (tool : ToolDefinition) : Except String Unit := do
  reject (tool.kind != "function".toList || tool.name.isEmpty || !tool.parameters.isObject)
    s!"tools[{index}] must be a named function with object parameters"
  match schemaGrammar tool.parameters with
  | .error error => .error s!"tools[{index}].function.parameters cannot be constrained: {error}"
  | .ok grammar =>
    match parse grammar "root" with
    | some (.error error) => .error s!"tools[{index}].function.parameters grammar is invalid: {error}"
    | _ => .ok ()

def validateTools (schemaGrammar : JsonValue → Except String Text) (debug : Text → String)
    (request : ChatTools) : Except String Unit := do
  let tools := request.tools.getD []
  forM tools.zipIdx fun both => validateTool schemaGrammar both.2 both.1
  match request.toolChoice with
  | none => .ok ()
  | some (.mode mode) => do
    reject (mode != "none".toList && mode != "auto".toList && mode != "required".toList)
      s!"tool_choice mode {debug mode} is unsupported"
    reject (mode == "required".toList && tools.isEmpty) "tool_choice='required' needs at least one tool"
  | some (.named kind name) =>
    reject (kind != "function".toList || !tools.any fun tool =>
      tool.name == name) s!"tool_choice names unknown function {debug name}"

/-- Texts with bars between them. -/
def join : List Text → Text
  | [] => []
  | first :: others => bars first others

/-- The names that a parameter of a tool may have. -/
def parameterName (parameters : JsonValue) : Text :=
  let names := ((parameters.get "properties".toList).bind JsonValue.asObject).getD [] |>.map fun member =>
    quotedLiteral member.1
  if parameters.additional then "[A-Za-z_] [A-Za-z0-9_.-]*".toList
  else if names.isEmpty then []
  else '(' :: (join names ++ [')'])

def parameterRule (index : ℕ) : Text := "tool-parameter-".toList ++ index.repr.toList

def invokeRule (index : ℕ) : Text := "tool-invoke-".toList ++ index.repr.toList

/-- The rules of a tool. -/
def toolRules (index : ℕ) (tool : ToolDefinition) : List (Text × Text) :=
  let name := parameterName tool.parameters
  let invoke := "\"<atem:invoke name=\\\"\" ".toList ++ quotedLiteral tool.name ++ " \"\\\">\" layout ".toList
  if name.isEmpty then [(invokeRule index, invoke ++ " \"</atem:invoke>\" layout".toList)]
  else [(parameterRule index,
      "\"<atem:parameter name=\\\"\" ".toList ++ name ++ " \"\\\">\" parameter-char* \"</atem:parameter>\" layout".toList),
    (invokeRule index, invoke ++ parameterRule index ++ "* \"</atem:invoke>\" layout".toList)]

/-- The grammar that the output of a request is constrained by. -/
def requiredToolGbnf (request : ChatTools) : Except String Text :=
  let tools := request.eligible
  if tools.isEmpty then .error "required tool grammar has no eligible function"
  else
    let recipients := join (tools.map (fun tool => quotedLiteral tool.name) ++ [quotedLiteral "tool".toList])
    let invokes := '(' :: (join (tools.zipIdx.map fun both => invokeRule both.2) ++ [')'])
    let invokes := if request.parallelToolCalls then invokes ++ ['+'] else invokes
    .ok ("root ::= reasoning-phase? assistant-prefix \" to=\" (".toList ++ recipients ++
        ") \"<|message|><atem:function_calls>\" layout ".toList ++ invokes ++
          " \"</atem:function_calls><|eom|>\"\n".toList ++
      "reasoning-phase ::= assistant-prefix \" to=self<|message|>\" any* \"<|eom|>\"\n".toList ++
      "assistant-prefix ::= \"<|start|>assistant\"?\n".toList ++
      "any ::= [\\U00000000-\\uD7FF\\uE000-\\U0010FFFF]\n".toList ++
      "parameter-char ::= [^<]\n".toList ++
      "layout ::= [ \\t\\n\\r]*\n".toList ++
      ((tools.zipIdx.flatMap fun both => toolRules both.2 both.1).flatMap fun rule => rule.1 ++ " ::= ".toList ++
        rule.2 ++ ['\n']))

end Muser.Atem
