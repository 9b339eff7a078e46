import Muser.Atem.Stream
import Muser.Lib.Prog
import Muser.Reply.Saying

/-! # The token loop

A reply grows token by token: a token ends it or is read by the grammar, becomes text, is taken by the
model and is followed by another that is selected from the model's new logits. The model is a function of
the tokens so far; what the client, the clock and a signal do is given for each time they are asked. A
reply that fails leaves what it has said until then.
-/

namespace Muser.Reply

open Text Gbnf Atem

structure ReplyRequest (R : Type) where
  sampler : SamplerRequest R
  tools : ChatTools
  stop : Option StopField
  tMaxPredictMs : Option ℤ
  reasoningControl : Bool

/-- What a reply is made with. -/
structure Surroundings (R Value : Type) [Zero R] [LT R] [LE R] where
  elementary : Elementary R
  served : Served
  outside : Outside Value
  schemaGrammar : JsonValue → Except String Text
  -- The tokens that end a phase of reasoning.
  reasoningEnd : List ℕ
  vocabSize : ℕ
  -- The logits behind some tokens, or what went wrong.
  decode : List ℕ → Except ChatError (List R)
  -- Whether the client has gone, behind so many fragments.
  gone : ℕ → Bool
  -- Whether the end of the reasoning is asked for, before each selection.
  signalled : ℕ → Bool
  -- Whether the time is over, behind each token.
  late : ℕ → Bool
  -- The orders that a grammar's sets are visited in, to read each token and to try the tokens before that.
  order : ℕ → IterationOrder
  trialOrder : ℕ → ℕ → IterationOrder

variable {R Value : Type} [Field R] [LinearOrder R] (around : Surroundings R Value) (request : ReplyRequest R)

def engineError {α : Type} (describe : String → String) : Except String α → Except ChatError α
  | .ok value => .ok value
  | .error error => .error (.engine (describe error))

/-- Whether the arguments of a call are what the schema of its tool says. -/
def argumentsMatch (order : IterationOrder) (grammar : Grammar) (arguments : Text) : Bool :=
  match (GrammarMatcher.new grammar order).acceptBytes order (Utf8.encodeAll arguments) with
  | (.ok (), matcher) => matcher.isAccepting
  | (.error _, _) => false

def validateStreamedAtemCallIndexed (order : IterationOrder) (index : ℕ)
    (call : ParsedToolCall) : Except ChatError Unit := do
  reject (!request.tools.parallelToolCalls && decide (0 < index))
    (.engine "model emitted multiple tool calls with parallel_tool_calls=false")
  reject (request.tools.toolChoice.any fun choice => match choice with
      | .mode mode => mode == "none".toList
      | .named _ _ => false)
    (.engine "model emitted a tool call with tool_choice='none'")
  reject (request.tools.selected.any (call.name != ·))
    (.engine s!"model emitted a tool other than required function {around.outside.debug (request.tools.selected.getD [])}")
  match (request.tools.tools.getD []).find? fun tool => tool.name == call.name with
  | none => .error (.engine "model emitted a function that was not supplied in tools")
  | some tool => do
    let source ← engineError (fun error => s!"tool schema: {error}") (around.schemaGrammar tool.parameters)
    match parse source "root" with
    | some (.ok grammar) =>
      reject (!argumentsMatch order grammar call.arguments)
        (.engine s!"model arguments for function {around.outside.debug call.name} violate its JSON Schema")
    | some (.error error) => .error (.engine s!"tool schema grammar: {error}")
    | none => .error .unavailable

/-- The token that the end of the reasoning is forced with, and those behind it. -/
def takeForcedReasoningToken (pending : List ℕ) (closed signalled : Bool) : Option ℕ × List ℕ :=
  if closed then (none, [])
  else match if pending = [] ∧ signalled then around.reasoningEnd else pending with
    | [] => (none, [])
    | token :: rest => (some token, rest)

/-- A fragment that is sent, and the token it is of. -/
abbrev Fragment := Text × Option ℕ

structure ReplyState (R : Type) where
  next : ℕ
  history : List ℕ
  sampler : RequestSamplerState R
  grammar : Option GrammarMatcher
  detokenizer : StreamingDetokenizer
  stopFilter : StopFilter
  atemCompletion : Option AtemStreamParser
  text : Text
  phaseTail : Text
  sampledTokens : List ℕ
  completionTokens : ℕ
  reasoningClosed : Bool
  forcedReasoning : List ℕ
  sent : List Fragment

structure Generated where
  text : Text
  completionTokens : ℕ
  finishReason : String
  stopType : String
  stoppingWord : Text
  sampledTokens : List ℕ
  context : List ℕ
deriving DecidableEq

/-- How the tokens ended: by one that ends a reply, by what was said, by the clock or by their number. -/
inductive Ending where
  | eos
  | said
  | time
  | limit
deriving DecidableEq

/-- The token that comes next, for some logits. The signal is there for a request that controls its reasoning. -/
def selectNext (params : Option (SamplingParams R)) (index : ℕ) (logits : List R) :
    Prog (ReplyState R) ChatError Unit := fun state =>
  match takeForcedReasoningToken around state.forcedReasoning state.reasoningClosed
    (request.reasoningControl && around.signalled index) with
  | (some token, forced) => (.ok (), { state with next := token, forcedReasoning := forced })
  | (none, forced) =>
    match sampleOrArgmax around.elementary around.served around.outside.debug params request.sampler logits state.history
      (state.grammar.map fun matcher => ⟨matcher, around.trialOrder index⟩) state.sampler with
    | .ok (token, sampler) => (.ok (), { state with next := token, forcedReasoning := forced, sampler := sampler })
    | .error error => (.error error, { state with forcedReasoning := forced })

/-- The grammar reads a token. -/
def readToken (index token : ℕ) : Option GrammarMatcher → Except ChatError (Option GrammarMatcher)
  | none => .ok none
  | some matcher =>
    match matcher.acceptToken (around.order index) token.toUInt32 (around.served.tokenizer.tokenBytes token) with
    | (.ok (), matcher) => .ok (some matcher)
    | (.error error, _) => .error (.engine s!"selected token violated constrained grammar: {error}")

/-- Whether a call has been closed, of those in a piece. -/
def completeCalls (order : IterationOrder) : List AtemStreamEvent → Except ChatError Bool
  | [] => .ok false
  | .toolCall index call :: events => do
    validateStreamedAtemCallIndexed around request order index call
    let _ ← completeCalls order events
    .ok true
  | _ :: events => completeCalls order events

/-- The parser of calls reads a piece; one that panics leaves the slot unhealthy. -/
def readPiece (order : IterationOrder) (piece : Text) : Option AtemStreamParser →
    Except ChatError (Bool × Option AtemStreamParser)
  | none => .ok (false, none)
  | some parser =>
    match parser.push around.outside piece with
    | .error (.error error) => .error (.engine s!"malformed Muse ATEM output: {error}")
    | .error _ => .error .unavailable
    | .ok (events, parser) => do
      let complete ← completeCalls around request order events
      .ok (complete, some parser)

/-- What a piece says about the end of the reasoning, in the last bytes that were said. -/
def closesReasoning (tail piece : Text) : Bool × Text :=
  let tail := tail ++ piece
  (includes tail phaseEnd, if 64 < size tail then tail.drop (StopFilter.takeBytes (size tail - 64) tail).length else tail)

/-- A piece that ends a line may end a reply that has a limit of time. -/
def overtime (index : ℕ) (piece : Text) : Bool :=
  piece.contains '\n' && request.tMaxPredictMs.any (0 < ·) && around.late index

/-- Send a fragment, unless the client has gone. -/
def send (fragment : Fragment) : Prog (ReplyState R) ChatError Unit := fun state =>
  if around.gone state.sent.length then (.error .cancelled, state)
  else (.ok (), { state with sent := state.sent ++ [fragment] })

/-- One token of a reply: it ends the reply, or there is another behind it. -/
def turn (params : Option (SamplingParams R)) (maxTokens index : ℕ) : Prog (ReplyState R) ChatError (Option Ending) := do
  Prog.modify fun state => { state with sampledTokens := state.sampledTokens ++ [state.next] }
  let before ← Prog.read
  if !request.sampler.ignoreEos && decide (before.next ∈ around.served.eos) then do
    Prog.modify fun state => { state with completionTokens := state.completionTokens + 1 }
    send around ([], some before.next)
    pure (some .eos)
  else do
    let grammar ← Prog.lift (readToken around index before.next before.grammar)
    let (piece, detokenizer) := before.detokenizer.pushToken around.served.tokenizer before.next
    let (closes, phaseTail) := closesReasoning before.phaseTail piece
    Prog.modify fun state => { state with
      grammar := grammar
      completionTokens := state.completionTokens + 1
      detokenizer := detokenizer
      phaseTail := phaseTail
      reasoningClosed := state.reasoningClosed || closes
      forcedReasoning := if closes then [] else state.forcedReasoning }
    let (complete, atemCompletion) ← Prog.lift (readPiece around request (around.order index) piece before.atemCompletion)
    let (safe, matched, stopFilter) := before.stopFilter.push piece
    Prog.modify fun state => { state with
      atemCompletion := atemCompletion, stopFilter := stopFilter, text := state.text ++ safe }
    let said := matched || complete
    let timely := !said && overtime around request index piece
    send around (safe, some before.next)
    let logits ← Prog.lift (around.decode (before.history ++ [before.next]))
    Prog.modify fun state => { state with history := before.history ++ [before.next] }
    if said then pure (some .said)
    else if timely then pure (some .time)
    else if index + 1 < maxTokens then do
      selectNext around request params (index + 1) logits
      pure none
    else pure (some .limit)

/-- The turns of a reply from one on, at most so many. -/
def turns (params : Option (SamplingParams R)) (maxTokens : ℕ) : ℕ → ℕ → Prog (ReplyState R) ChatError Ending
  | 0, _ => pure .limit
  | count + 1, index => do
    match ← turn around request params maxTokens index with
    | some ending => pure ending
    | none => turns params maxTokens count (index + 1)

/-- Say what is not empty. -/
def say (safe : Text) : Prog (ReplyState R) ChatError Unit :=
  if safe = [] then pure ()
  else do
    Prog.modify fun state => { state with text := state.text ++ safe }
    send around (safe, none)

/-- What was held back is said at the end, unless the reply was stopped. -/
def flushText : Ending → Prog (ReplyState R) ChatError Bool
  | .limit => do
    let state ← Prog.read
    let (tail, detokenizer) := state.detokenizer.flush around.served.tokenizer
    let (safe, matched, stopFilter) := state.stopFilter.push tail
    Prog.modify fun state => { state with detokenizer := detokenizer, stopFilter := stopFilter }
    say around safe
    if matched then pure true
    else do
      let (rest, stopFilter) := stopFilter.finish
      Prog.modify fun state => { state with stopFilter := stopFilter }
      say around rest
      pure false
  | _ => pure true

def finishReply (ending : Ending) : Prog (ReplyState R) ChatError Generated := do
  let stopped ← flushText around ending
  let state ← Prog.read
  pure {
    text := state.text
    completionTokens := state.completionTokens
    finishReason := if stopped && ending != .time then "stop" else "length"
    stopType := if ending = .eos then "eos" else if state.stopFilter.matchedStop.isSome then "word" else "limit"
    stoppingWord := state.stopFilter.matchedStop.getD []
    sampledTokens := state.sampledTokens
    context := state.history }

/-- A reply before its first token. -/
def ReplyState.start (prompt : List ℕ) (grammar : Option GrammarMatcher) (sampler : RequestSamplerState R) :
    ReplyState R where
  next := 0
  history := prompt
  sampler := sampler
  grammar := grammar
  detokenizer := ⟨[]⟩
  stopFilter := .new (request.stop.elim [] StopField.values)
  atemCompletion := request.tools.tools.map fun _ => .default
  text := []
  phaseTail := []
  sampledTokens := []
  completionTokens := 0
  reasoningClosed := false
  forcedReasoning := []
  sent := []

/-- The first token is selected from the logits behind the prompt. -/
def beginReply (params : Option (SamplingParams R)) (logits : List R) : Prog (ReplyState R) ChatError Unit := do
  Prog.lift (reject (request.reasoningControl && around.reasoningEnd.isEmpty)
    (.engine "pinned tokenizer cannot encode the reasoning-end marker"))
  selectNext around request params 0 logits

end Muser.Reply
