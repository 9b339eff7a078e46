import Muser.Atem.Output

/-! # The stream parser

Assistant output as it arrives, in pieces. Offsets count bytes, and a part of the text that does not lie
between two characters is a panic.
-/

namespace Muser.Atem

open Text

inductive AtemStreamEvent where
  | content (text : Text)
  | reasoning (text : Text)
  | toolCall (index : ℕ) (call : ParsedToolCall)

structure AtemActivePhase where
  recipient : Text
  bodyStart : ℕ
  emittedUntil : ℕ

structure AtemStreamParser where
  raw : Text
  structured : Option Bool
  cursor : ℕ
  plainEmitted : ℕ
  active : Option AtemActivePhase
  toolCallsEmitted : ℕ

def AtemStreamParser.default : AtemStreamParser := ⟨[], none, 0, 0, none, 0⟩

/-- How a parser stops: with its own error, off a character boundary, or before its loop has ended. -/
inductive Stop where
  | error (message : String)
  | panic
  | unfinished

/-- An error of the code itself. -/
def fails {α : Type} (result : Except String α) : Except Stop α := result.mapError .error

/-- A part of the text. -/
def part (text : Option Text) : Except Stop Text :=
  match text with
  | none => .error .panic
  | some text => .ok text

/-- How much of the end of a text may be the beginning of a marker. -/
def markerSuffixLen (text marker : Text) : ℕ :=
  let limit := min text.size (marker.size - 1)
  ((List.range' 1 limit).reverse.find? fun length =>
    ((Utf8.encodeAll text).drop (text.size - length)).isPrefixOf (Utf8.encodeAll marker)).getD 0

/-- It is as long as the longest end of the text that the marker may go on from. -/
theorem markerSuffixLen_tail (text marker : Text) (ascii : Ascii marker) (nonempty : marker ≠ []) :
    ∃ tail, TailOf text marker tail ∧ markerSuffixLen text marker = tail.length := by
  obtain ⟨within, holds, largest⟩ := find?_down
    (fun length => ((Utf8.encodeAll text).drop (text.size - length)).isPrefixOf (Utf8.encodeAll marker))
      (min text.size (marker.size - 1))
  have positive : 0 < marker.length := List.length_pos_of_ne_nil nonempty
  rw [(ascii_bytes ascii).2] at within largest holds
  have same : markerSuffixLen text marker = ((List.range' 1 (min text.size (marker.length - 1))).reverse.find? fun length =>
      ((Utf8.encodeAll text).drop (text.size - length)).isPrefixOf (Utf8.encodeAll marker)).getD 0 := by
    rw [markerSuffixLen, (ascii_bytes ascii).2]
  rw [← same] at within holds largest
  generalize markerSuffixLen text marker = longest at within holds largest
  have short : longest < marker.length := by omega
  have length : (marker.take longest).length = longest := by
    rw [List.length_take]
    omega
  refine ⟨marker.take longest, ⟨?_, List.take_prefix _ _, by rwa [length], ?_⟩, length.symm⟩
  · rcases holds with rfl | holds
    · exact List.nil_suffix
    · exact (suffix_bytes_iff ascii short (by omega)).mp (List.isPrefixOf_iff_prefix.mp holds)
  · intro other ends starts lengthOther
    rw [length]
    by_contra above
    have taken : other = marker.take other.length := List.prefix_iff_eq_take.mp starts
    have fits : other.length ≤ text.size := by
      have asciiOther : Ascii other := fun character mem => ascii character (starts.subset mem)
      obtain ⟨front, rfl⟩ := ends
      rw [size_append, (ascii_bytes asciiOther).2]
      omega
    refine absurd (List.isPrefixOf_iff_prefix.mpr ((suffix_bytes_iff ascii lengthOther fits).mpr (taken ▸ ends))) ?_
    rw [largest other.length (by omega) (by omega)]
    exact Bool.false_ne_true

/-- Whether the output has phases, once that is clear. -/
def discriminate (finishing : Bool) (raw : Text) : Option Bool :=
  let trimmed := trimStart raw
  let marked := startsWith trimmed "to=".toList || startsWith trimmed startMarker
  if (startsWith "to=".toList trimmed || startsWith startMarker trimmed) && !finishing then none
  else if marked && !includes trimmed messageMarker && !finishing then none
  else some (marked && includes trimmed messageMarker)

/-- The recipient of the phase that starts at an offset, and where its body starts; nothing when more is to come. -/
def header (finishing : Bool) (raw : Text) (cursor : ℕ) : Except Stop (Option (Text × ℕ)) := do
  let rest ← part (raw.sliceFrom cursor)
  if !startsWith rest startMarker && startsWith startMarker rest && !finishing then .ok none
  else
    let start := if startsWith rest startMarker then cursor + startMarker.size else cursor
    let rest ← part (raw.sliceFrom start)
    if startsWith rest recipientMarker then
      let named := start + recipientMarker.size
      let text ← part (raw.sliceFrom named)
      match find text messageMarker with
      | none => if finishing then .error (.error "assistant recipient header omits <|message|>") else .ok none
      | some relative => do
        let name ← part (raw.slice named (named + relative))
        if (trim name).isEmpty then .error (.error "assistant recipient is empty")
        else .ok (some (trim name, named + relative + messageMarker.size))
    else if startsWith rest messageMarker then .ok (some (userRecipient, start + messageMarker.size))
    else if !finishing then .ok none
    else .error (.error "structured assistant phase omits a recipient header")

def spoken (recipient : Text) : Bool := recipient = selfRecipient || recipient = userRecipient

def AtemActivePhase.event (phase : AtemActivePhase) (text : Text) : AtemStreamEvent :=
  if phase.recipient = selfRecipient then .reasoning text else .content text

/-- What is emitted of a phase that is spoken: up to its end, or up to what may be the beginning of the end. -/
def AtemActivePhase.emit (phase : AtemActivePhase) (finishing : Bool) (raw : Text) (stop : Option ℕ) :
    Except Stop (List AtemStreamEvent × AtemActivePhase) :=
  if spoken phase.recipient then do
    let safeEnd := stop.getD (if finishing then raw.size else raw.size - markerSuffixLen raw phaseEnd)
    if phase.emittedUntil < safeEnd then do
      let text ← part (raw.slice phase.emittedUntil safeEnd)
      .ok ([phase.event text], { phase with emittedUntil := safeEnd })
    else .ok ([], phase)
  else .ok ([], phase)

/-- The events of calls, counted on. -/
def numbered (emitted : ℕ) (calls : List ParsedToolCall) : List AtemStreamEvent :=
  calls.mapIdx fun index call => .toolCall (emitted + index) call

variable {Value : Type} (outside : Outside Value)

/-- The calls of a phase that is addressed to a tool. -/
def toolCalls (phase : AtemActivePhase) (body : Option Text) : Except Stop (List ParsedToolCall) :=
  if spoken phase.recipient then .ok []
  else do
    let body ← part body
    let calls ← fails (parseAtemCalls outside body)
    fails (validateAtemRecipient outside phase.recipient calls)
    .ok calls

/-- The phase that the parser is in, or comes into; nothing when more is to come. -/
def AtemStreamParser.install (finishing : Bool) (parser : AtemStreamParser) : Except Stop (Option AtemActivePhase) :=
  match parser.active with
  | some phase => .ok (some phase)
  | none => do
    let found ← header finishing parser.raw parser.cursor
    .ok (found.map fun both => ⟨both.1, both.2, both.2⟩)

/-- One phase after another, for a bound on their number. -/
def drainPhases (finishing : Bool) : ℕ → AtemStreamParser → Except Stop (List AtemStreamEvent × AtemStreamParser)
  | 0, _ => .error .unfinished
  | count + 1, parser =>
    if parser.active.isNone && parser.cursor == parser.raw.size then .ok ([], parser)
    else do
      match ← parser.install finishing with
      | none => .ok ([], parser)
      | some phase => do
        let rest ← part (parser.raw.sliceFrom phase.bodyStart)
        let stop := (find rest phaseEnd).map (phase.bodyStart + ·)
        let (events, phase) ← phase.emit finishing parser.raw stop
        match stop with
        | none => do
          let calls ← if finishing then toolCalls outside phase (parser.raw.sliceFrom phase.bodyStart) else .ok []
          .ok (events ++ numbered parser.toolCallsEmitted calls,
            { parser with active := some phase, toolCallsEmitted := parser.toolCallsEmitted + calls.length })
        | some stop => do
          let calls ← toolCalls outside phase (parser.raw.slice phase.bodyStart stop)
          let (later, after) ← drainPhases finishing count
            { parser with
              cursor := stop + phaseEnd.size
              active := none
              toolCallsEmitted := parser.toolCallsEmitted + calls.length }
          .ok (events ++ numbered parser.toolCallsEmitted calls ++ later, after)

namespace AtemStreamParser

/-- Plain text is passed on as it is. -/
def drainPlain (parser : AtemStreamParser) : Except Stop (List AtemStreamEvent × AtemStreamParser) :=
  if parser.plainEmitted < parser.raw.size then do
    let text ← part (parser.raw.sliceFrom parser.plainEmitted)
    .ok ([.content text], { parser with plainEmitted := parser.raw.size })
  else .ok ([], parser)

def drain (finishing : Bool) (parser : AtemStreamParser) : Except Stop (List AtemStreamEvent × AtemStreamParser) :=
  match parser.structured.or (discriminate finishing parser.raw) with
  | none => .ok ([], parser)
  | some false => drainPlain { parser with structured := some false }
  | some true => drainPhases outside finishing (parser.raw.length + 1) { parser with structured := some true }

def push (parser : AtemStreamParser) (piece : Text) : Except Stop (List AtemStreamEvent × AtemStreamParser) :=
  drain outside false { parser with raw := parser.raw ++ piece }

def finish (parser : AtemStreamParser) : Except Stop (List AtemStreamEvent × AtemStreamParser) := do
  let (events, parser) ← drain outside true parser
  if parser.structured = some true then
    let _ ← fails (parseAtemOutput outside parser.raw)
    .ok (events, parser)
  else .ok (events, parser)

end AtemStreamParser

end Muser.Atem
