import Muser.Lib.Fueled
import Muser.Lib.Utf8
import Muser.Gbnf.Grammar

/-! # Parsing a grammar

The parser goes over the bytes of a grammar's text and writes its productions. Rules are numbered by
their names in the order these are met; groups and repetitions become rules of their own, whose names
are made from a counter and numbered with the others.
-/

namespace Muser.Gbnf

/-- The byte of an ASCII character. -/
def ascii (character : Char) : UInt8 := character.toNat.toUInt8

def quote : UInt8 := 0x22

def backslash : UInt8 := 0x5C

def lineFeed : UInt8 := 0x0A

def carriageReturn : UInt8 := 0x0D

def tab : UInt8 := 0x09

def blank : UInt8 := 0x20

def isBlank (byte : UInt8) : Bool := byte == blank || byte == tab

def isLineEnd (byte : UInt8) : Bool := byte == carriageReturn || byte == lineFeed

def isDigit (byte : UInt8) : Bool := 0x30 ≤ byte && byte ≤ 0x39

def isName (byte : UInt8) : Bool :=
  isDigit byte || (0x41 ≤ byte && byte ≤ 0x5A) || (0x61 ≤ byte && byte ≤ 0x7A) || byte == ascii '_' || byte == ascii '-'

/-- ASCII bytes as a text. -/
def asciiText (bytes : Bytes) : String := String.ofList (bytes.map fun byte => Char.ofNat byte.toNat)

/-- The number that decimal digits write. -/
def decimal (digits : Bytes) : ℕ := digits.foldl (fun value digit => value * 10 + (digit.toNat - 0x30)) 0

def hexDigit (byte : UInt8) : Option ℕ :=
  if isDigit byte then some (byte.toNat - 0x30)
  else if 0x41 ≤ byte ∧ byte ≤ 0x46 then some (byte.toNat - 0x41 + 10)
  else if 0x61 ≤ byte ∧ byte ≤ 0x66 then some (byte.toNat - 0x61 + 10)
  else none

/-- The number that hexadecimal digits write, behind a plus sign or none. -/
def fromStrRadix16 (text : Bytes) : Option ℕ :=
  let digits := match text with
    | first :: rest => if first = ascii '+' then rest else text
    | [] => []
  if digits.isEmpty then none
  else digits.foldlM (fun value byte => (hexDigit byte).map (value * 16 + ·)) 0

/-- The rules met so far: their names by number, their productions, and how many names were made. -/
structure Rules where
  names : List String
  productions : List Production
  generated : ℕ
deriving DecidableEq

def generatedName (index : ℕ) : String := "__generated-" ++ index.repr

def repeatSymbols (symbols : List Symbol) (count : ℕ) : List Symbol := (List.replicate count symbols).flatten

namespace Rules

/-- The number of a name, which is the next one when the name is new. -/
def ruleId (rules : Rules) (name : String) : ℕ × Rules :=
  if name ∈ rules.names then (rules.names.idxOf name, rules)
  else (rules.names.length, { rules with names := rules.names ++ [name] })

def freshRule (rules : Rules) : ℕ × Rules :=
  { rules with generated := rules.generated + 1 }.ruleId (generatedName rules.generated)

def push (rules : Rules) (lhs : ℕ) (rhs : List Symbol) : Rules :=
  { rules with productions := rules.productions ++ [⟨lhs, rhs⟩] }

/-- One production for each alternative. -/
def pushAll (rules : Rules) (lhs : ℕ) (alternatives : List (List Symbol)) : Rules :=
  alternatives.foldl (fun rules rhs => rules.push lhs rhs) rules

def generatedRule (rules : Rules) (alternatives : List (List Symbol)) : ℕ × Rules :=
  let (rule, rules) := rules.freshRule
  (rule, rules.pushAll rule alternatives)

/-- A chain of rules, each of which is empty or goes on with one more body and the rule behind it. -/
def optionalTails (body : List Symbol) : ℕ → ℕ → Rules → Rules
  | 0, _, rules => rules
  | optional + 1, tail, rules =>
    let rules := rules.push tail []
    if 0 < optional then
      let (next, rules) := rules.freshRule
      optionalTails body optional next (rules.push tail (body ++ [.rule next]))
    else rules.push tail body

def repeatRule (rules : Rules) (body : List Symbol) (minimum : ℕ) (maximum : Option ℕ) : Except String (ℕ × Rules) :=
  if 5000 ≤ minimum ∨ maximum.any fun maximum => maximum < minimum || 5000 < maximum then
    .error "invalid or excessive grammar repetition"
  else
    let (rule, rules) := rules.freshRule
    match maximum with
    | some maximum =>
      let required := repeatSymbols body minimum
      let optional := maximum - minimum
      if 0 < optional then
        let (firstTail, rules) := rules.freshRule
        let rules := optionalTails body optional firstTail rules
        .ok (rule, rules.push rule (required ++ [.rule firstTail]))
      else .ok (rule, rules.push rule required)
    | none =>
      let (tail, rules) := rules.freshRule
      let rules := (rules.push tail []).push tail (body ++ [.rule tail])
      .ok (rule, rules.push rule (repeatSymbols body minimum ++ [.rule tail]))

end Rules

structure Parser where
  source : Bytes
  position : ℕ
  rules : Rules
deriving DecidableEq

/-- What is left to parse. -/
def Parser.tail (parser : Parser) : Bytes := parser.source.drop parser.position

def Parser.skip (parser : Parser) (count : ℕ) : Parser := { parser with position := parser.position + count }

abbrev Parse (α : Type) := Fueled Parser String α

namespace Parse

open Fueled

def peek : Parse (Option UInt8) := read fun parser => parser.source[parser.position]?

/-- The byte before the position; a position at the start wraps round to one behind every source. -/
def before : Parse (Option UInt8) :=
  read fun parser => if parser.position = 0 then none else parser.source[parser.position - 1]?

def advance : Parse Unit := modify fun parser => parser.skip 1

def skipWhile (wanted : UInt8 → Bool) : Parse Unit :=
  modify fun parser => parser.skip (parser.tail.takeWhile wanted).length

/-- Skip bytes and answer them. -/
def takeWhile (wanted : UInt8 → Bool) : Parse Bytes :=
  step fun parser => (parser.tail.takeWhile wanted, parser.skip (parser.tail.takeWhile wanted).length)

def onRules (change : Rules → α × Rules) : Parse α :=
  step fun parser => ((change parser.rules).1, { parser with rules := (change parser.rules).2 })

def skipHorizontal : Parse Unit := skipWhile isBlank

/-- Skip blanks, line ends if they are to be skipped, and comments; whether something is left. -/
def skipLayout (newlines : Bool) : ℕ → Parse Bool
  | 0 => exhausted
  | steps + 1 => do
    skipWhile fun byte => isBlank byte || (newlines && isLineEnd byte)
    if (← peek) = some (ascii '#') then
      skipWhile (· != lineFeed)
      skipLayout newlines steps
    else read fun parser => decide (parser.position < parser.source.length)

def consumeRuleEnd : Parse Unit := do
  skipHorizontal
  if (← peek) = some (ascii '#') then skipWhile (· != lineFeed)
  let next ← peek
  if next.any fun byte => !isLineEnd byte then
    fail fun parser => s!"unexpected grammar input at byte {parser.position}"

def expect (expected : Bytes) : Parse Unit := do
  if (← read fun parser => parser.tail.take expected.length) ≠ expected then
    fail fun parser => s!"expected {(asciiText expected).quote} at grammar byte {parser.position}"
  else modify fun parser => parser.skip expected.length

def name : Parse String := do
  let start ← read Parser.position
  let found ← takeWhile isName
  if found = [] then fail fun _ => s!"expected grammar rule name at byte {start}"
  else pure (asciiText found)

def number : Parse ℕ := do
  let digits ← takeWhile isDigit
  if digits = [] then fail fun _ => "expected repetition count"
  else if 2 ^ 64 ≤ decimal digits then fail fun _ => "invalid repetition count"
  else pure (decimal digits)

def hex (digits : ℕ) : Parse ℕ := do
  let text ← read fun parser => parser.tail.take digits
  if text.length < digits then fail fun _ => "short hex escape"
  else match fromStrRadix16 text with
    | none => fail fun _ => "invalid hex escape"
    | some value =>
      if ¬value.isValidChar then fail fun _ => "hex escape is not a Unicode scalar"
      else do
        modify fun parser => parser.skip digits
        pure value

/-- What a byte behind a backslash stands for: a character, or a number of hexadecimal digits. -/
def escapes (escaped : UInt8) : Option (ℕ ⊕ ℕ) :=
  if escaped = ascii 'n' then some (.inl lineFeed.toNat)
  else if escaped = ascii 'r' then some (.inl carriageReturn.toNat)
  else if escaped = ascii 't' then some (.inl tab.toNat)
  else if escaped ∈ [quote, backslash, ascii '[', ascii ']', ascii '-'] then some (.inl escaped.toNat)
  else if escaped = ascii 'x' then some (.inr 2)
  else if escaped = ascii 'u' then some (.inr 4)
  else if escaped = ascii 'U' then some (.inr 8)
  else none

def codepoint : Parse ℕ := do
  if (← peek) = some backslash then
    advance
    match ← peek with
    | none => fail fun _ => "trailing grammar escape"
    | some escaped =>
      advance
      match escapes escaped with
      | some (.inl value) => pure value
      | some (.inr digits) => hex digits
      | none => fail fun _ => s!"unsupported grammar escape {String.ofList [Char.ofNat 0x5C, Char.ofNat escaped.toNat]}"
  else
    match ← read fun parser => Utf8.fromUtf8 parser.tail with
    | .error _ => fail fun _ => "grammar source is not UTF-8"
    | .ok [] => fail fun _ => "unexpected end of grammar"
    | .ok (character :: _) =>
      modify fun parser => parser.skip (Utf8.encode character).length
      pure character.toNat

def literalCharacters : ℕ → Parse (List Symbol)
  | 0 => exhausted
  | steps + 1 => do
    let next ← peek
    if next = some quote then
      advance
      pure []
    else if next.all isLineEnd then fail fun _ => "unterminated grammar literal"
    else
      let value ← codepoint
      let others ← literalCharacters steps
      pure (.character (.one value) :: others)

def literal (steps : ℕ) : Parse (List Symbol) := do
  advance
  literalCharacters steps

def classRanges : ℕ → Parse (List (ℕ × ℕ))
  | 0 => exhausted
  | steps + 1 => do
    let next ← peek
    if next = some (ascii ']') then
      advance
      pure []
    else if next = none then fail fun _ => "unterminated grammar character class"
    else
      let lower ← codepoint
      let behind ← read fun parser => parser.source[parser.position + 1]?
      let upper ←
        if (← peek) = some (ascii '-') ∧ behind ≠ some (ascii ']') then do
          advance
          codepoint
        else pure lower
      if upper < lower then fail fun _ => "descending grammar character range"
      else
        let others ← classRanges steps
        pure ((lower, upper) :: others)

def characterClass (steps : ℕ) : Parse CharSet := do
  advance
  if (← peek) = some (ascii '^') then
    advance
    let ranges ← classRanges steps
    pure ⟨true, ranges⟩
  else
    let ranges ← classRanges steps
    pure ⟨false, ranges⟩

/-- A token's number in brackets. -/
def tokenId : Parse TokenValue := do
  advance
  let digits ← takeWhile isDigit
  if digits = [] then fail fun _ => "token terminal ID must contain digits"
  else if 2 ^ 32 ≤ decimal digits then fail fun _ => "token terminal ID exceeds uint32"
  else
    expect [ascii ']', ascii '>']
    pure (.id (decimal digits).toUInt32)

/-- A token's name, with the signs around it. -/
def tokenPiece : Parse TokenValue := do
  let named ← takeWhile fun byte => byte != ascii '>' && !isLineEnd byte
  if (← peek).any isLineEnd then fail fun _ => "token terminal cannot cross a line"
  else if named = [] then fail fun _ => "named token terminal must not be empty"
  else
    expect [ascii '>']
    pure (.piece (ascii '<' :: named ++ [ascii '>']))

def tokenTerminal : Parse TokenTerminal := do
  let inverted := decide ((← peek) = some (ascii '!'))
  if inverted then advance
  expect [ascii '<']
  let value ← if (← peek) = some (ascii '[') then tokenId else tokenPiece
  pure ⟨inverted, value⟩

def repetitionRange : Parse (ℕ × Option ℕ) := do
  advance
  let minimum ← number
  let next ← peek
  let maximum ←
    if next = some (ascii '}') then pure (some minimum)
    else if next = some (ascii ',') then do
      advance
      if (← peek) ≠ some (ascii '}') then do
        let maximum ← number
        pure (some maximum)
      else pure none
    else fail fun _ => "expected ',' or '\x7d' in repetition"
  expect [ascii '}']
  pure (minimum, maximum)

/-- The bounds of the repetition ahead; those of a range are read with its braces. -/
def operator : Parse (Option (ℕ × Option ℕ)) := do
  let next ← peek
  if next = some (ascii '?') then pure (some (0, some 1))
  else if next = some (ascii '*') then pure (some (0, none))
  else if next = some (ascii '+') then pure (some (1, none))
  else if next = some (ascii '{') then do
    let range ← repetitionRange
    pure (some range)
  else pure none

/-- Read a repetition; whether its last byte is already read is told by the byte before the position. -/
def repetition : Parse (Option (ℕ × Option ℕ)) := do
  let found ← operator
  if found.isSome ∧ (← before) ≠ some (ascii '}') then
    advance
    pure found
  else pure found

def repeatRule (body : List Symbol) (minimum : ℕ) (maximum : Option ℕ) : Parse ℕ := do
  match ← read fun parser => parser.rules.repeatRule body minimum maximum with
  | .error failure => fail fun _ => failure
  | .ok (rule, rules) =>
    modify fun parser => { parser with rules := rules }
    pure rule

/-- A body, or the rule of its repetition. -/
def repeated (body : List Symbol) : Parse (List Symbol) := do
  skipHorizontal
  match ← repetition with
  | some (minimum, maximum) =>
    let rule ← repeatRule body minimum maximum
    pure [.rule rule]
  | none => pure body

/-- An atom that is no group. -/
def simpleAtom (steps : ℕ) : Parse (List Symbol) := do
  match ← peek with
  | none => fail fun _ => "unexpected end of grammar"
  | some byte =>
    if byte = quote then literal steps
    else if byte = ascii '[' then do
      let chars ← characterClass steps
      pure [.character chars]
    else if byte = ascii '.' then do
      advance
      pure [.character ⟨true, []⟩]
    else if byte = ascii '<' ∨ byte = ascii '!' then do
      let terminal ← tokenTerminal
      pure [.token terminal]
    else do
      let name ← name
      let rule ← onRules (·.ruleId name)
      pure [.rule rule]

mutual

/-- The alternatives up to what ends them. -/
def expression (steps : ℕ) : ℕ → Option UInt8 → Parse (List (List Symbol))
  | 0, _ => exhausted
  | depth + 1, closing => do
    let first ← sequence steps depth closing
    skipHorizontal
    if (← peek) = some (ascii '|') then
      advance
      let others ← expression steps depth closing
      pure (first :: others)
    else pure [first]

def sequence (steps : ℕ) : ℕ → Option UInt8 → Parse (List Symbol)
  | 0, _ => exhausted
  | depth + 1, closing => do
    skipHorizontal
    let next ← peek
    if next = none ∨ next = some (ascii '|') ∨ next.any isLineEnd ∨ next = closing ∨ next = some (ascii '#') then pure []
    else
      let atom ← atom steps depth
      let others ← sequence steps depth closing
      pure (atom ++ others)

def atom (steps : ℕ) : ℕ → Parse (List Symbol)
  | 0 => exhausted
  | depth + 1 => do
    let body ←
      if (← peek) = some (ascii '(') then do
        advance
        let alternatives ← expression steps depth (some (ascii ')'))
        expect [ascii ')']
        let rule ← onRules (·.generatedRule alternatives)
        pure [.rule rule]
      else simpleAtom steps
    repeated body

end

/-- The rules of a source, one after the other. -/
def sourceRules (steps depth : ℕ) : ℕ → Parse Unit
  | 0 => exhausted
  | count + 1 => do
    if ← skipLayout true steps then
      let name ← name
      let lhs ← onRules (·.ruleId name)
      skipHorizontal
      expect [ascii ':', ascii ':', ascii '=']
      let alternatives ← expression steps depth none
      onRules fun rules => ((), rules.pushAll lhs alternatives)
      consumeRuleEnd
      sourceRules steps depth count
    else pure ()

end Parse

/-- The grammar of some rules: a start production for the root, and the productions of each number. The
names are a hash map; of the rules that are undefined the error names the first that is visited. -/
def Rules.grammar (rules : Rules) (root : String) : Except String Grammar :=
  if root ∈ rules.names then
    let synthetic := rules.names.length
    let productions := rules.productions ++ [⟨synthetic, [.rule (rules.names.idxOf root)]⟩]
    let byLhs := (List.range (synthetic + 1)).map fun lhs =>
      (List.range productions.length).filter fun index => (productions.getD index ⟨0, []⟩).lhs = lhs
    match rules.names.find? fun name => (byLhs.getD (rules.names.idxOf name) []).isEmpty with
    | some name => .error s!"grammar rule {name.quote} is referenced but undefined"
    | none => .ok ⟨productions, byLhs, rules.productions.length⟩
  else .error s!"grammar root rule {root.quote} does not exist"

/-- The rules of a text. Every loop gets as many steps as it can take; no outcome is that they were too few. -/
def parseRules (source : List Char) : Option (Except String Rules) :=
  let bytes := Utf8.encodeAll source
  let steps := bytes.length + 1
  match (Parse.sourceRules steps (3 * steps) steps).run ⟨bytes, 0, ⟨[], [], 0⟩⟩ with
  | none => none
  | some (.error failure) => some (.error failure)
  | some (.ok (_, parser)) => some (.ok parser.rules)

def parse (source : List Char) (root : String) : Option (Except String Grammar) :=
  (parseRules source).map fun answer => answer.bind fun rules => rules.grammar root

end Muser.Gbnf
