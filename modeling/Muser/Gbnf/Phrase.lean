import Muser.Gbnf.Language
import Muser.Gbnf.Parser
import Mathlib.Data.List.Infix

/-! # The grammar notation

What a grammar's text says, whatever a parser makes of it: how rules are spelled, and which words a
rule has. A rule's alternatives are sequences of items; an item is an atom, or an atom repeated. Where
a spelling could be read in two ways the longer one counts: a name goes on as long as its letters do,
and what an operator can follow is followed by it.
-/

namespace Muser.Gbnf

inductive Kind where
  | alternatives
  | sequence
  | item
  | atom
deriving DecidableEq

inductive Phrase : Kind → Type
  | one (only : Phrase .sequence) : Phrase .alternatives
  | choice (first : Phrase .sequence) (others : Phrase .alternatives) : Phrase .alternatives
  | empty : Phrase .sequence
  | followed (first : Phrase .item) (others : Phrase .sequence) : Phrase .sequence
  | once (atom : Phrase .atom) : Phrase .item
  | repeated (atom : Phrase .atom) (minimum : ℕ) (maximum : Option ℕ) : Phrase .item
  | literal (characters : List Char) : Phrase .atom
  | characterClass (inverted : Bool) (ranges : List (Char × Char)) : Phrase .atom
  | any : Phrase .atom
  | group (alternatives : Phrase .alternatives) : Phrase .atom
  | token (terminal : TokenTerminal) : Phrase .atom
  | name (name : String) : Phrase .atom

/-- Named alternatives, in the order they are written; several may have one name. -/
abbrev Definitions := List (String × Phrase .alternatives)

/-- The words of a phrase. -/
inductive Means (definitions : Definitions) : {kind : Kind} → Phrase kind → List Input → Prop
  | one {only word} (inside : Means definitions only word) : Means definitions (.one only) word
  | first {first others word} (inside : Means definitions first word) : Means definitions (.choice first others) word
  | others {first others word} (inside : Means definitions others word) : Means definitions (.choice first others) word
  | empty : Means definitions .empty []
  | followed {first others front back} (before : Means definitions first front) (behind : Means definitions others back) :
      Means definitions (.followed first others) (front ++ back)
  | once {atom word} (inside : Means definitions atom word) : Means definitions (.once atom) word
  | repeated {atom : Phrase .atom} {minimum : ℕ} {maximum : Option ℕ} (words : List (List Input))
      (each : ∀ word ∈ words, Means definitions atom word) (enough : minimum ≤ words.length)
      (few : ∀ most, maximum = some most → words.length ≤ most) :
        Means definitions (.repeated atom minimum maximum) words.flatten
  | literal {characters : List Char} : Means definitions (.literal characters) (characters.map .character)
  | characterClass {inverted : Bool} {ranges : List (Char × Char)} {character : Char}
      (inside : (∃ range ∈ ranges, range.1 ≤ character ∧ character ≤ range.2) ↔ inverted = false) :
      Means definitions (.characterClass inverted ranges) [.character character]
  | any {character : Char} : Means definitions .any [.character character]
  | group {alternatives word} (inside : Means definitions alternatives word) : Means definitions (.group alternatives) word
  | token {terminal : TokenTerminal} {token : UInt32} {bytes : Bytes}
      (matching : (terminal.value = .id token ∨ terminal.value = .piece bytes) ↔ terminal.inverted = false) :
      Means definitions (.token terminal) [.token token bytes]
  | name {name : String} {alternatives word} (defined : (name, alternatives) ∈ definitions)
      (inside : Means definitions alternatives word) : Means definitions (.name name) word

/-! ## Spelling

Each relation takes bytes apart: what is read, and the rest.
-/

/-- The characters that are written with a backslash and one more byte. -/
def shortEscapes : List (UInt8 × Char) :=
  [(ascii 'n', Char.ofNat 0x0A), (ascii 'r', Char.ofNat 0x0D), (ascii 't', Char.ofNat 0x09), (quote, Char.ofNat 0x22),
    (backslash, Char.ofNat 0x5C), (ascii '[', '['), (ascii ']', ']'), (ascii '-', '-')]

/-- The letters that announce the number of a character, and how many digits it has. -/
def hexEscapes : List (UInt8 × ℕ) := [(ascii 'x', 2), (ascii 'u', 4), (ascii 'U', 8)]

inductive SpelledCharacter : Char → Bytes → Bytes → Prop
  | plain {character : Char} {rest : Bytes} (plain : (Utf8.encode character ++ rest).head? ≠ some backslash) :
      SpelledCharacter character (Utf8.encode character ++ rest) rest
  | short {letter : UInt8} {character : Char} {rest : Bytes} (known : (letter, character) ∈ shortEscapes) :
      SpelledCharacter character (backslash :: letter :: rest) rest
  | hex {letter : UInt8} {digits : ℕ} {text rest : Bytes} {character : Char} (known : (letter, digits) ∈ hexEscapes)
      (length : text.length = digits) (value : fromStrRadix16 text = some character.toNat) :
      SpelledCharacter character (backslash :: letter :: text ++ rest) rest

/-- The characters of a literal, with the quote behind them. -/
inductive SpelledLiteral : List Char → Bytes → Bytes → Prop
  | close {rest : Bytes} : SpelledLiteral [] (quote :: rest) rest
  | character {character : Char} {others : List Char} {input middle rest : Bytes}
      (inside : ∀ byte, input.head? = some byte → byte ≠ quote ∧ isLineEnd byte = false)
      (first : SpelledCharacter character input middle) (behind : SpelledLiteral others middle rest) :
      SpelledLiteral (character :: others) input rest

/-- Whether a dash behind a character makes it the first of a range. -/
def opensRange (behind : Bytes) : Prop := behind.head? = some (ascii '-') ∧ behind[1]? ≠ some (ascii ']')

/-- The ranges of a class, with the bracket behind them. -/
inductive SpelledRanges : List (Char × Char) → Bytes → Bytes → Prop
  | close {rest : Bytes} : SpelledRanges [] (ascii ']' :: rest) rest
  | single {character : Char} {others : List (Char × Char)} {input middle rest : Bytes}
      (inside : input.head? ≠ some (ascii ']')) (first : SpelledCharacter character input middle)
      (alone : ¬opensRange middle) (behind : SpelledRanges others middle rest) :
      SpelledRanges ((character, character) :: others) input rest
  | range {lower upper : Char} {others : List (Char × Char)} {input middle last rest : Bytes}
      (inside : input.head? ≠ some (ascii ']')) (first : SpelledCharacter lower input (ascii '-' :: middle))
      (open_ : opensRange (ascii '-' :: middle)) (second : SpelledCharacter upper middle last) (ordered : lower ≤ upper)
      (behind : SpelledRanges others last rest) : SpelledRanges ((lower, upper) :: others) input rest

/-- The sign of a negation, or nothing. -/
def negation (sign : UInt8) (inverted : Bool) : Bytes := if inverted then [sign] else []

inductive SpelledToken : TokenTerminal → Bytes → Bytes → Prop
  | id {inverted : Bool} {digits rest : Bytes} (some_ : digits ≠ []) (each : ∀ byte ∈ digits, isDigit byte = true)
      (small : decimal digits < 2 ^ 32) :
      SpelledToken ⟨inverted, .id (decimal digits).toUInt32⟩
        (negation (ascii '!') inverted ++ ascii '<' :: ascii '[' :: digits ++ ascii ']' :: ascii '>' :: rest) rest
  | piece {inverted : Bool} {named rest : Bytes} (some_ : named ≠ []) (no_id : named.head? ≠ some (ascii '['))
      (each : ∀ byte ∈ named, byte ≠ ascii '>' ∧ isLineEnd byte = false) :
      SpelledToken ⟨inverted, .piece (ascii '<' :: named ++ [ascii '>'])⟩
        (negation (ascii '!') inverted ++ ascii '<' :: named ++ ascii '>' :: rest) rest

/-- Digits and the number they write. -/
def Digits (digits : Bytes) (value : ℕ) : Prop :=
  digits ≠ [] ∧ (∀ byte ∈ digits, isDigit byte = true) ∧ decimal digits = value

/-- A repetition and its bounds. -/
inductive SpelledRepetition : ℕ → Option ℕ → Bytes → Bytes → Prop
  | optional {rest : Bytes} : SpelledRepetition 0 (some 1) (ascii '?' :: rest) rest
  | star {rest : Bytes} : SpelledRepetition 0 none (ascii '*' :: rest) rest
  | plus {rest : Bytes} : SpelledRepetition 1 none (ascii '+' :: rest) rest
  | exactly {digits rest : Bytes} {count : ℕ} (is : Digits digits count) :
      SpelledRepetition count (some count) (ascii '{' :: digits ++ ascii '}' :: rest) rest
  | atLeast {digits rest : Bytes} {minimum : ℕ} (is : Digits digits minimum) :
      SpelledRepetition minimum none (ascii '{' :: digits ++ ascii ',' :: ascii '}' :: rest) rest
  | between {digits digits' rest : Bytes} {minimum maximum : ℕ} (is : Digits digits minimum) (is' : Digits digits' maximum) :
      SpelledRepetition minimum (some maximum) (ascii '{' :: digits ++ ascii ',' :: digits' ++ ascii '}' :: rest) rest

/-- What is asked of a maximum is met where there is none. -/
theorem no_maximum {asked : ℕ → Prop} : ∀ most, (none : Option ℕ) = some most → asked most := by
  rintro _ ⟨⟩

/-- The bounds a repetition may have. -/
def InBounds (minimum : ℕ) (maximum : Option ℕ) : Prop :=
  minimum < 5000 ∧ ∀ most, maximum = some most → minimum ≤ most ∧ most ≤ 5000

/-- The bytes an operator starts with. -/
def opensRepetition (byte : UInt8) : Bool := byte == ascii '?' || byte == ascii '*' || byte == ascii '+' || byte == ascii '{'

/-- What a sequence ends before. -/
def endsSequence (byte : UInt8) : Bool := byte == ascii '|' || isLineEnd byte || byte == ascii ')' || byte == ascii '#'

def skipBlanks (input : Bytes) : Bytes := input.dropWhile isBlank

inductive Spelled : {kind : Kind} → Phrase kind → Bytes → Bytes → Prop
  | one {only : Phrase .sequence} {input rest : Bytes} (inside : Spelled only input rest)
      (last : rest.head? ≠ some (ascii '|')) : Spelled (.one only) input rest
  | choice {first : Phrase .sequence} {others : Phrase .alternatives} {input middle rest : Bytes}
      (before : Spelled first input (ascii '|' :: middle)) (behind : Spelled others middle rest) :
      Spelled (.choice first others) input rest
  | empty {input : Bytes} (ends : (skipBlanks input).head?.all endsSequence = true) : Spelled .empty input (skipBlanks input)
  | followed {first : Phrase .item} {others : Phrase .sequence} {input middle rest : Bytes}
      (goes : (skipBlanks input).head?.all endsSequence = false) (before : Spelled first (skipBlanks input) middle)
      (behind : Spelled others middle rest) : Spelled (.followed first others) input rest
  | once {atom : Phrase .atom} {input rest : Bytes} (inside : Spelled atom input rest)
      (last : (skipBlanks rest).head?.any opensRepetition = false) : Spelled (.once atom) input (skipBlanks rest)
  | repeated {atom : Phrase .atom} {minimum : ℕ} {maximum : Option ℕ} {input middle rest : Bytes}
      (inside : Spelled atom input middle) (operator : SpelledRepetition minimum maximum (skipBlanks middle) rest)
      (bounds : InBounds minimum maximum) : Spelled (.repeated atom minimum maximum) input rest
  | literal {characters : List Char} {input rest : Bytes} (inside : SpelledLiteral characters input rest) :
      Spelled (.literal characters) (quote :: input) rest
  | characterClass {inverted : Bool} {ranges : List (Char × Char)} {input rest : Bytes}
      (plain : inverted = false → input.head? ≠ some (ascii '^')) (inside : SpelledRanges ranges input rest) :
      Spelled (.characterClass inverted ranges) (ascii '[' :: negation (ascii '^') inverted ++ input) rest
  | any {rest : Bytes} : Spelled .any (ascii '.' :: rest) rest
  | group {alternatives : Phrase .alternatives} {input rest : Bytes}
      (inside : Spelled alternatives input (ascii ')' :: rest)) : Spelled (.group alternatives) (ascii '(' :: input) rest
  | token {terminal : TokenTerminal} {input rest : Bytes} (inside : SpelledToken terminal input rest) :
      Spelled (.token terminal) input rest
  | name {letters rest : Bytes} (some_ : letters ≠ []) (each : ∀ byte ∈ letters, isName byte = true)
      (last : rest.head?.any isName = false) : Spelled (.name (asciiText letters)) (letters ++ rest) rest

/-- A comment, up to the end of its line, or nothing. -/
def skipComment (input : Bytes) : Bytes :=
  if input.head? = some (ascii '#') then input.dropWhile (· != lineFeed) else input

/-- Blanks, line ends and comments. -/
inductive Layout : Bytes → Bytes → Prop
  | done {rest : Bytes} (ends : rest.head?.any (fun byte => isBlank byte || isLineEnd byte || byte == ascii '#') = false) :
      Layout rest rest
  | skip {byte : UInt8} {input rest : Bytes} (layout : (isBlank byte || isLineEnd byte) = true) (more : Layout input rest) :
      Layout (byte :: input) rest
  | comment {input rest : Bytes} (more : Layout (skipComment (ascii '#' :: input)) rest) : Layout (ascii '#' :: input) rest

/-- A text that defines rules, each on lines of its own. -/
inductive SpelledDefinitions : Definitions → Bytes → Prop
  | done {input : Bytes} (layout : Layout input []) : SpelledDefinitions [] input
  | rule {letters middle : Bytes} {alternatives : Phrase .alternatives} {others : Definitions} {input body rest : Bytes}
      (layout : Layout input (letters ++ middle)) (some_ : letters ≠ []) (each : ∀ byte ∈ letters, isName byte = true)
      (last : middle.head?.any isName = false) (defines : skipBlanks middle = ascii ':' :: ascii ':' :: ascii '=' :: body)
      (inside : Spelled alternatives body rest) (ends : (skipComment (skipBlanks rest)).head?.all isLineEnd = true)
      (behind : SpelledDefinitions others (skipComment (skipBlanks rest))) :
      SpelledDefinitions ((asciiText letters, alternatives) :: others) input

end Muser.Gbnf

/-! ## Productions by name

What the productions of a phrase are when rules go by their names instead of by numbers. A group and a
repetition have a rule of their own, named after the counter that names are made from, so that a phrase
takes as many names as it makes rules.
-/

namespace Muser.Gbnf

inductive Reference where
  | rule (name : String)
  | character (chars : CharSet)
  | token (terminal : TokenTerminal)
deriving DecidableEq

structure NamedProduction where
  name : String
  body : List Reference
deriving DecidableEq

def Reference.number (names : List String) : Reference → Symbol
  | .rule name => .rule (names.idxOf name)
  | .character chars => .character chars
  | .token terminal => .token terminal

def NamedProduction.number (names : List String) (production : NamedProduction) : Production :=
  ⟨names.idxOf production.name, production.body.map (Reference.number names)⟩

namespace Phrase

/-- The phrases that get a rule of their own, in the order their names are made. -/
def makes : {kind : Kind} → Phrase kind → List (Phrase .item)
  | _, .one only => only.makes
  | _, .choice first others => first.makes ++ others.makes
  | _, .empty => []
  | _, .followed first others => first.makes ++ others.makes
  | _, .once atom => atom.makes
  | _, .repeated atom minimum (some maximum) =>
    atom.makes ++ .repeated atom minimum (some maximum) ::
      (List.range (maximum - minimum)).map fun index => .repeated atom 0 (some (maximum - minimum - index))
  | _, .repeated atom minimum none => atom.makes ++ [.repeated atom minimum none, .repeated atom 0 none]
  | _, .literal _ => []
  | _, .characterClass _ _ => []
  | _, .any => []
  | _, .group alternatives => alternatives.makes ++ [.once (.group alternatives)]
  | _, .token _ => []
  | _, .name _ => []

/-- The names a phrase refers to. -/
def refers : {kind : Kind} → Phrase kind → List String
  | _, .one only => only.refers
  | _, .choice first others => first.refers ++ others.refers
  | _, .empty => []
  | _, .followed first others => first.refers ++ others.refers
  | _, .once atom => atom.refers
  | _, .repeated atom _ _ => atom.refers
  | _, .literal _ => []
  | _, .characterClass _ _ => []
  | _, .any => []
  | _, .group alternatives => alternatives.refers
  | _, .token _ => []
  | _, .name written => [written]

/-- The ranges of a phrase are in order, and its repetitions within bounds. -/
def Formed : {kind : Kind} → Phrase kind → Prop
  | _, .one only => only.Formed
  | _, .choice first others => first.Formed ∧ others.Formed
  | _, .empty => True
  | _, .followed first others => first.Formed ∧ others.Formed
  | _, .once atom => atom.Formed
  | _, .repeated atom minimum maximum => atom.Formed ∧ InBounds minimum maximum
  | _, .literal _ => True
  | _, .characterClass _ ranges => ∀ range ∈ ranges, range.1 ≤ range.2
  | _, .any => True
  | _, .group alternatives => alternatives.Formed
  | _, .token _ => True
  | _, .name _ => True

/-- What stands for a phrase in a production, where the next name is made from the counter. -/
def body (counter : ℕ) : {kind : Kind} → Phrase kind → List Reference
  | _, .one _ => []
  | _, .choice _ _ => []
  | _, .empty => []
  | _, .followed first others => first.body counter ++ others.body (counter + first.makes.length)
  | _, .once atom => atom.body counter
  | _, .repeated atom _ _ => [.rule (generatedName (counter + atom.makes.length))]
  | _, .literal characters => characters.map fun character => .character (.one character.toNat)
  | _, .characterClass inverted ranges =>
    [.character ⟨inverted, ranges.map fun range => (range.1.toNat, range.2.toNat)⟩]
  | _, .any => [.character ⟨true, []⟩]
  | _, .group alternatives => [.rule (generatedName (counter + alternatives.makes.length))]
  | _, .token terminal => [.token terminal]
  | _, .name written => [.rule written]

/-- One body for each alternative. -/
def bodies (counter : ℕ) : {kind : Kind} → Phrase kind → List (List Reference)
  | _, .one only => [only.body counter]
  | _, .choice first others => first.body counter :: others.bodies (counter + first.makes.length)
  | _, phrase => [phrase.body counter]

end Phrase

/-- The productions of a chain of optional bodies. -/
def tailProductions (body : List Reference) : ℕ → ℕ → List NamedProduction
  | 0, _ => []
  | optional + 1, index =>
    ⟨generatedName index, []⟩ ::
      ⟨generatedName index, if 0 < optional then body ++ [.rule (generatedName (index + 1))] else body⟩ ::
        tailProductions body optional (index + 1)

/-- The productions of a repetition, whose rules are named from the counter on. -/
def repeatProductions (body : List Reference) (minimum : ℕ) (maximum : Option ℕ) (counter : ℕ) : List NamedProduction :=
  let required := (List.replicate minimum body).flatten
  match maximum with
  | some maximum =>
    let optional := maximum - minimum
    tailProductions body optional (counter + 1) ++
      [⟨generatedName counter, if 0 < optional then required ++ [.rule (generatedName (counter + 1))] else required⟩]
  | none =>
    let tail := generatedName (counter + 1)
    [⟨tail, []⟩, ⟨tail, body ++ [.rule tail]⟩, ⟨generatedName counter, required ++ [.rule tail]⟩]

/-- The productions of the rules that a phrase makes. -/
def Phrase.productions (counter : ℕ) : {kind : Kind} → Phrase kind → List NamedProduction
  | _, .one only => only.productions counter
  | _, .choice first others => first.productions counter ++ others.productions (counter + first.makes.length)
  | _, .empty => []
  | _, .followed first others => first.productions counter ++ others.productions (counter + first.makes.length)
  | _, .once atom => atom.productions counter
  | _, .repeated atom minimum maximum =>
    atom.productions counter ++ repeatProductions (atom.body counter) minimum maximum (counter + atom.makes.length)
  | _, .literal _ => []
  | _, .characterClass _ _ => []
  | _, .any => []
  | _, .group alternatives =>
    alternatives.productions counter ++
      (alternatives.bodies counter).map (NamedProduction.mk (generatedName (counter + alternatives.makes.length)))
  | _, .token _ => []
  | _, .name _ => []

theorem SpelledRanges.ordered {ranges : List (Char × Char)} {input rest : Bytes}
    (spelled : SpelledRanges ranges input rest) :
    ∀ range ∈ ranges, range.1 ≤ range.2 := by
  induction spelled with
  | close => nofun
  | single _ _ _ _ ih => exact List.forall_mem_cons.mpr ⟨Char.le_refl _, ih⟩
  | range _ _ _ _ ordered _ ih => exact List.forall_mem_cons.mpr ⟨ordered, ih⟩

/-- What is spelled is in order and within bounds. -/
theorem Spelled.formed {kind : Kind} {phrase : Phrase kind} {input rest : Bytes} (spelled : Spelled phrase input rest) :
    phrase.Formed := by
  induction spelled with
  | one _ _ ih => exact ih
  | choice _ _ ih ih' => exact ⟨ih, ih'⟩
  | followed _ _ _ ih ih' => exact ⟨ih, ih'⟩
  | once _ _ ih => exact ih
  | repeated _ _ bounds ih => exact ⟨ih, bounds⟩
  | characterClass _ inside => exact inside.ordered
  | group _ ih => exact ih
  | empty | literal | any | token | name => exact trivial

namespace Definitions

def makes (definitions : Definitions) : List (Phrase .item) := definitions.flatMap fun definition => definition.2.makes

/-- The names that are written, at a definition or within one. -/
def writes (definitions : Definitions) : List String :=
  definitions.flatMap fun definition => definition.1 :: definition.2.refers

def productions : ℕ → Definitions → List NamedProduction
  | _, [] => []
  | counter, (name, alternatives) :: others =>
    alternatives.productions counter ++ (alternatives.bodies counter).map (NamedProduction.mk name) ++
      productions (counter + alternatives.makes.length) others

end Definitions

end Muser.Gbnf
